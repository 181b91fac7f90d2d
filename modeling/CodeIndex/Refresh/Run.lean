import CodeIndex.Refresh.Embed
import CodeIndex.Refresh.Plan
import CodeIndex.Refresh.Progress

namespace CodeIndex

variable {P : Type}

namespace Job

variable [PathForm P]

def entry (j : Job P) (bytes : Bytes) : FileEntry :=
  if j.change = .removed then .gone (PathForm.text j.path) j.hash
  else .ofBytes (PathForm.text j.path) bytes

/-- A removed file is not read. -/
def bytes (h : Host σ P) (s : Settings) (j : Job P) : StateM σ (Except IndexError Bytes) :=
  if j.change = .removed then return .ok [] else h.readWithin s.maxFileSize j.path

/-- Brings the artifacts up to date one by one, unless the refresh is cancelled, and counts the
chunks without vectors. -/
def writeArtifacts (h : Host σ P) (s : Settings) (j : Job P) (e : FileEntry)
    (embedded : List Embedded) :
    List ArtifactKind → Nat → Store → StateM σ (Except IndexError (Store × Nat))
  | [], failed, st => do
    if ← h.isCancelled then return .error .cancelled else return .ok (st, failed)
  | kind :: kinds, failed, st => do
    if ← h.isCancelled then return .error .cancelled
    else match st.update s kind (j.scope.tagFor kind) e j.change embedded with
      | .error err => return .error err
      | .ok (st, outcome) => writeArtifacts h s j e embedded kinds (failed + outcome.failed) st

/-- Indexes the file of a job; the store with all of it, and the number of chunks that could not be
embedded. Only a file without any such chunk is entered into the catalog. -/
def index (h : Host σ P) (s : Settings) (j : Job P) (st : Store) :
    StateM σ (Except IndexError (Store × Nat)) := do
  match ← j.bytes h s with
  | .error err => return .error err
  | .ok bytes =>
    if ← h.isCancelled then return .error .cancelled
    else
      let e := j.entry bytes
      match ← prepare h s e j.change with
      | .error err => return .error err
      | .ok none => return .error .cancelled
      | .ok (some embedded) =>
        match ← writeArtifacts h s j e embedded ArtifactKind.all 0 st with
        | .error err => return .error err
        | .ok (st, failed) =>
          return .ok (if failed = 0 then st.commit j.scope e j.change else st, failed)

end Job

/-- Where a refresh stands: before its plan is made, before its first item, at the files that were
rejected, between two files (`resumed` after the first one), held by the pause switch before a
file, or at its end. -/
inductive Stage (P : Type := Path) where
  | unplanned (paths : List P)
  | planned (rejected : List Rejected)
  | rejecting (rejected : List Rejected)
  | between (resumed : Bool)
  | held
  | over
deriving DecidableEq, Repr

/-- A refresh as a sequence of turns. Each turn yields one item, or nothing while the refresh is
held by the pause switch or once it is over. -/
structure Run (P : Type := Path) where
  stage : Stage P
  jobs : List (Job P)
  total : Nat
  processed : Nat
  failed : Nat
deriving DecidableEq, Repr

namespace Run

def ofPlan (p : Plan P) : Run P :=
  ⟨.planned p.rejected, p.jobs, p.jobs.length + p.rejected.length, 0, 0⟩

/-- A refresh of files named by the caller is planned when its first item is asked for. -/
def ofFiles (paths : List P) : Run P := ⟨.unplanned paths, [], 0, 0, 0⟩

def share (r : Run P) : Binary32 := Progress.share r.processed r.total

def isOver (r : Run P) : Bool :=
  match r.stage with
  | .over => true
  | _ => false

theorem is_over_iff {r : Run P} : r.isOver ↔ r.stage = .over := by
  cases hstage : r.stage <;> simp [isOver, hstage]

/-- What one turn yields, with the refresh and the store after it. -/
structure Turn (P : Type := Path) where
  item : Option Progress
  run : Run P
  store : Store

def announce (r : Run P) (rejected : List Rejected) (st : Store) : Turn P :=
  ⟨some (.loading (toString r.jobs.length ++ " files to index")),
    { r with stage := .rejecting rejected }, st⟩

def reject (r : Run P) (file : Rejected) (rest : List Rejected) (st : Store) : Turn P :=
  let r := { r with processed := r.processed + 1, failed := r.failed + 1, stage := .rejecting rest }
  ⟨some (.fileFailed r.share file.path none file.reason), r, st⟩

def stop (r : Run P) (st : Store) : Turn P :=
  ⟨some (.stopped r.share), { r with stage := .over }, st⟩

def finish (r : Run P) (st : Store) : Turn P :=
  ⟨some (.done ("indexed " ++ toString (r.total - r.failed) ++ " files, " ++ toString r.failed
      ++ " failed")), { r with stage := .over }, st⟩

def hold (r : Run P) (st : Store) : Turn P :=
  ⟨some (.paused r.share), { r with stage := .held }, st⟩

/-- Reports what became of the first job. -/
def report [PathForm P] (r : Run P) (j : Job P) (rest : List (Job P)) (st : Store) :
    Except IndexError (Store × Nat) → Turn P
  | .error .cancelled => r.stop st
  | .error e =>
    let r := { r with
      processed := r.processed + 1, failed := r.failed + 1, jobs := rest, stage := .between true }
    ⟨some (.fileFailed r.share (PathForm.text j.path) (some j.change) e.text), r, st⟩
  | .ok (st, 0) =>
    let r := { r with processed := r.processed + 1, jobs := rest, stage := .between true }
    ⟨some (.indexed r.share (PathForm.text j.path) j.change), r, st⟩
  | .ok (st, lost) =>
    let r := { r with
      processed := r.processed + 1, failed := r.failed + 1, jobs := rest, stage := .between true }
    ⟨some (.fileFailed r.share (PathForm.text j.path) (some j.change)
      (toString lost ++ " chunks could not be embedded; will retry")), r, st⟩

/-- Indexes the file of the first job and reports it. -/
def process [PathForm P] (h : Host σ P) (s : Settings) (r : Run P) (j : Job P)
    (rest : List (Job P)) (st : Store) : StateM σ (Turn P) := do
  return r.report j rest st (← j.index h s st)

/-- The turn between two files. A refresh that has nothing to do is not cancelled any more. -/
def step [PathForm P] (h : Host σ P) (s : Settings) (r : Run P) (resumed : Bool) (st : Store) :
    StateM σ (Turn P) := do
  match r.jobs with
  | [] =>
    if resumed then
      if ← h.isCancelled then return r.stop st else return r.finish st
    else return r.finish st
  | j :: rest =>
    if ← h.isCancelled then return r.stop st
    else if ← h.isPaused then return r.hold st
    else r.process h s j rest st

def next [PathForm P] (h : Host σ P) (s : Settings) (r : Run P) (st : Store) :
    StateM σ (Turn P) := do
  match r.stage with
  | .unplanned paths =>
    let plan ← Plan.ofFiles h paths
    return (ofPlan plan).announce plan.rejected st
  | .planned rejected => return r.announce rejected st
  | .rejecting (file :: rest) => return r.reject file rest st
  | .rejecting [] => r.step h s false st
  | .between resumed => r.step h s resumed st
  | .held =>
    match r.jobs with
    | [] => return r.finish st
    | j :: rest =>
      if ← h.isCancelled then return r.stop st
      else if ← h.isPaused then return ⟨none, r, st⟩
      else r.process h s j rest st
  | .over => return ⟨none, r, st⟩

/-- A bound on the items that a refresh still yields. -/
def bound (r : Run P) : Nat :=
  match r.stage with
  | .unplanned paths => 2 * paths.length + 2
  | .planned rejected => rejected.length + 2 * r.jobs.length + 2
  | .rejecting rejected => rejected.length + 2 * r.jobs.length + 1
  | .between _ => 2 * r.jobs.length + 1
  | .held => 2 * r.jobs.length
  | .over => 0

/-- How a series of turns ended. -/
inductive Ending where
  | reached
  | ended
  | held
deriving DecidableEq, Repr

/-- Takes turns until they yield `most` items, the refresh is over, or it is held. -/
def take [PathForm P] (h : Host σ P) (s : Settings) :
    Nat → Run P → Store → StateM σ (List Progress × Ending × Run P × Store)
  | 0, r, st => return ([], .reached, r, st)
  | most + 1, r, st => do
    let turn ← r.next h s st
    match turn.item with
    | none => return ([], if turn.run.isOver then .ended else .held, turn.run, turn.store)
    | some item =>
      let (items, rest) ← take h s most turn.run turn.store
      return (item :: items, rest)

/-- Takes turns until the refresh is over or held. -/
def drain [PathForm P] (h : Host σ P) (s : Settings) (r : Run P) (st : Store) :
    StateM σ (List Progress × Ending × Run P × Store) :=
  take h s (r.bound + 1) r st

end Run

/-- Drops all that is stored under the present tags of a workspace. -/
def clearIndexes [PathForm P] (h : Host σ P) (st : Store) : StateM σ Store := do
  return (← h.tags).foldl
    (fun st tag =>
      let st := match ArtifactKind.ofId? tag.artifact with
        | some kind => st.clear kind tag.key
        | none => st
      st.forgetTag tag.key) st

end CodeIndex
