import CodeIndex.Refresh.Host
import CodeIndex.Store.Update

namespace CodeIndex

structure Job (P : Type := Path) where
  scope : Scope
  path : P
  change : Change
  hash : String
deriving DecidableEq, Repr

/-- A file that cannot be read, or belongs to no directory. -/
structure Rejected where
  path : Path
  reason : String
deriving DecidableEq, Repr

/-- What a refresh has to do: the files whose hash differs from their records, or a list of files
that were named by the caller. -/
structure Plan (P : Type := Path) where
  jobs : List (Job P)
  rejected : List Rejected
deriving DecidableEq, Repr

namespace Plan

variable {P : Type}

def empty : Plan P := ⟨[], []⟩

def append (p q : Plan P) : Plan P := ⟨p.jobs ++ q.jobs, p.rejected ++ q.rejected⟩

/-- The files of one directory, each with its hash or the reason why there is none. -/
def readAll [PathForm P] (h : Host σ P) (limit : Nat) :
    List P → StateM σ (List (P × String) × List Rejected)
  | [] => return ([], [])
  | p :: ps => do
    let bytes ← h.readWithin limit p
    let (hashes, rejected) ← readAll h limit ps
    match bytes with
    | .ok bytes => return ((p, hashBytes bytes) :: hashes, rejected)
    | .error e => return (hashes, ⟨PathForm.text p, e.text⟩ :: rejected)

/-- The hash of a path in whatever spelling it was read last. -/
def hashIn [PathForm P] (hashes : List (P × String)) (p : P) : Option String :=
  (hashes.reverse.find? fun e => Path.same (PathForm.spelling e.1) (PathForm.spelling p)).map (·.2)

/-- The records of the four tags of a scope. Each catalog is read on its own, from the store as it
is then. -/
def catalogs (scope : Scope) (stores : ArtifactKind → Store) : List Records :=
  ArtifactKind.all.map fun kind => (stores kind).records (scope.tagFor kind).key

/-- The work on one directory, against the records of its four tags. -/
def ofDir [PathForm P] (h : Host σ P) (s : Settings) (stores : ArtifactKind → Store) (dir : P) :
    StateM σ (Except IndexError (Plan P)) := do
  match ← h.list dir with
  | .error e => return .error e
  | .ok listed =>
    let scope ← h.scope dir
    let (hashes, rejected) ← readAll h s.maxFileSize listed
    let changes := FileChange.plan (catalogs scope stores) listed (hashIn hashes)
    return .ok ⟨changes.map fun c => ⟨scope, c.path, c.change, c.hash⟩, rejected⟩

/-- The work on several directories, one after another; one that cannot be listed ends it all.
Nobody else writes to the store in the meantime. -/
def ofDirs [PathForm P] (h : Host σ P) (s : Settings) (store : Store) :
    List P → StateM σ (Except IndexError (Plan P))
  | [] => return .ok empty
  | dir :: dirs => do
    match ← ofDir h s (fun _ => store) dir with
    | .error e => return .error e
    | .ok plan =>
      match ← ofDirs h s store dirs with
      | .error e => return .error e
      | .ok rest => return .ok (plan.append rest)

def depth [PathForm P] (dir : P) : Nat := (Path.components (PathForm.spelling dir)).length

/-- The directory with more components; the other one, if they have as many. -/
def deeper [PathForm P] (best : Option P) (dir : P) : Option P :=
  match best with
  | none => some dir
  | some b => if depth b ≤ depth dir then some dir else some b

/-- The directory with the most components among those that hold a path, the last of equals. -/
def owningDir [PathForm P] (dirs : List P) (p : P) : Option P :=
  (dirs.filter fun dir => Path.within (PathForm.spelling dir) (PathForm.spelling p)).foldl deeper
    none

/-- A named file counts as removed if it is missing, and as updated whatever else reading says. -/
def changeOf : Except IndexError Bytes → Change
  | .error (.io true _) => .removed
  | _ => .updated

def ofFile [PathForm P] (h : Host σ P) (dirs : List P) (p : P) : StateM σ (Plan P) := do
  match owningDir dirs p with
  | none => return ⟨[], [⟨PathForm.text p, "not inside any workspace directory"⟩]⟩
  | some dir =>
    let scope ← h.scope dir
    return ⟨[⟨scope, p, changeOf (← h.read p), ""⟩], []⟩

def ofFiles [PathForm P] (h : Host σ P) (ps : List P) : StateM σ (Plan P) := do
  let dirs ← h.dirs
  return (← ps.mapM (ofFile h dirs)).foldl append empty

end Plan
end CodeIndex
