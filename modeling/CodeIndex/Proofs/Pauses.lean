import CodeIndex.Proofs.AtRest
import CodeIndex.Refresh.Pause

namespace CodeIndex

/-- A host that shows files at rest, whose provider answers every batch by a fixed function, and
that never cancels. Whether it pauses is left open. -/
structure Host.Undisturbed (h : Host σ) (files : Files)
    (provider : List Text → Except ProviderError (List Embedding)) : Prop
    extends h.Shows files where
  replies : ∀ batch w, ((h.embed batch).run w).1 = some (provider batch)
  goesOn : ∀ w, (h.isCancelled.run w).1 = false

/-- What is seen of a refresh: an answer of the pause switch, a file that was read or sent to the
provider, or an item. -/
inductive Sight where
  | pause (answer : Bool)
  | file
  | item (x : Progress)
deriving DecidableEq

def Sight.item? : Sight → Option Progress
  | item x => some x
  | _ => none

/-- A computation that notes what is seen of its answer. -/
def noting (note : α → List Sight) (x : StateM σ α) : StateM (σ × List Sight) α := fun w =>
  ((x.run w.1).1, ((x.run w.1).2, w.2 ++ note (x.run w.1).1))

/-- The host beside a trace of the work on files and of what its pause switch answered. -/
def Host.watched (h : Host σ) : Host (σ × List Sight) where
  dirs := noting (fun _ => []) h.dirs
  branch dir := noting (fun _ => []) (h.branch dir)
  list dir := noting (fun _ => []) (h.list dir)
  read p := noting (fun _ => [.file]) (h.read p)
  embed batch := noting (fun _ => [.file]) (h.embed batch)
  isCancelled := noting (fun _ => []) h.isCancelled
  isPaused := noting (fun answer => [.pause answer]) h.isPaused

/-- A refresh that is polled, with the outside and the trace so far. -/
structure Watch (σ : Type) where
  world : σ
  sights : List Sight
  run : Run
  store : Store

namespace Watch

/-- Asks for the next item. -/
def poll (h : Host σ) (s : Settings) (x : Watch σ) : Watch σ :=
  let turn := (x.run.next h.watched s x.store).run (x.world, x.sights)
  ⟨turn.2.1, turn.2.2 ++ (turn.1.item.map Sight.item).toList, turn.1.run, turn.1.store⟩

/-- The refresh after so many polls. -/
def after (h : Host σ) (s : Settings) (x : Watch σ) : Nat → Watch σ
  | 0 => x
  | n + 1 => (after h s x n).poll h s

/-- The items so far, without those that only report a pause. -/
def unpaused (x : Watch σ) : List Progress :=
  (x.sights.filterMap Sight.item?).filter fun item => item.status ≠ .paused

end Watch

/-- The outside once a refresh that is held was polled and found the switch still on. -/
def Host.waited (h : Host σ) (w : σ) : σ := (h.isPaused.run (h.isCancelled.run w).2).2

/-- What the pause switch answers to a refresh that is held. -/
def Host.holds (h : Host σ) (w : σ) : Bool := (h.isPaused.run (h.isCancelled.run w).2).1

/-- The pause is lifted: a refresh that keeps waiting finds the switch off at last, whatever
happened to it in the meantime and happens afterwards. -/
inductive Host.Lifts (h : Host σ) : σ → Prop where
  | off {w : σ} (hoff : h.holds w = false) : Lifts h w
  | on {w : σ} (hlater : Lifts h (h.waited w)) : Lifts h w

/-- Two computations that answer alike, whatever the outside; the first does nothing but work on
files. -/
structure Tracks (x : StateM (σ × List Sight) α) (y : StateM τ α) : Prop where
  answer : ∀ w w₀, (x.run w).1 = (y.run w₀).1
  sights : ∀ w, ∃ n, (x.run w).2.2 = w.2 ++ List.replicate n .file

theorem Tracks.pure (a : α) : Tracks (σ := σ) (τ := τ) (Pure.pure a) (Pure.pure a) :=
  ⟨fun _ _ => rfl, fun _ => ⟨0, (List.append_nil _).symm⟩⟩

theorem Tracks.bind {x : StateM (σ × List Sight) α} {y : StateM τ α}
    {f : α → StateM (σ × List Sight) β} {g : α → StateM τ β} (hx : Tracks x y)
    (hf : ∀ a w, (x.run w).1 = a → Tracks (f a) (g a)) : Tracks (x >>= f) (y >>= g) := by
  constructor
  · intro w w₀
    rw [run_bind, run_bind, ← hx.answer w w₀]
    exact (hf _ w rfl).answer _ _
  · intro w
    obtain ⟨n, hn⟩ := hx.sights w
    obtain ⟨m, hm⟩ := (hf _ w rfl).sights (x.run w).2
    refine ⟨n + m, ?_⟩
    rw [run_bind, hm, hn, List.append_assoc, List.replicate_append_replicate]

section
variable {σ τ : Type} {h : Host σ} {h₀ : Host τ} {files : Files}
  {provider : List Text → Except ProviderError (List Embedding)}
  (hh : h.Undisturbed files provider) (hh₀ : h₀.Undisturbed files provider)
include hh hh₀

theorem read_tracks (p : Path) : Tracks (h.watched.read p) (h₀.read p) := by
  exact ⟨fun w w₀ => (hh.read p w.1).trans (hh₀.read p w₀).symm, fun _ => ⟨1, rfl⟩⟩

theorem embed_tracks (batch : List Text) : Tracks (h.watched.embed batch) (h₀.embed batch) := by
  exact ⟨fun w w₀ => (hh.replies batch w.1).trans (hh₀.replies batch w₀).symm, fun _ => ⟨1, rfl⟩⟩

theorem is_cancelled_tracks : Tracks h.watched.isCancelled h₀.isCancelled := by
  exact ⟨fun w w₀ => (hh.goesOn w.1).trans (hh₀.goesOn w₀).symm, fun _ => ⟨0, rfl⟩⟩

theorem bytes_tracks (s : Settings) (j : Job) : Tracks (j.bytes h.watched s) (j.bytes h₀ s) := by
  rw [Job.bytes, Job.bytes]
  split
  · exact .pure _
  · refine (read_tracks hh hh₀ j.path).bind fun bytes _ _ => ?_
    cases bytes with
    | error e => exact .pure _
    | ok bytes =>
      simp only
      split <;> exact .pure _

theorem send_batches_tracks (concurrency : Nat) (batches : List (List Text)) :
    Tracks (sendBatches h.watched concurrency batches) (sendBatches h₀ concurrency batches) := by
  induction batches with
  | nil => exact .pure _
  | cons batch rest ih =>
    rw [sendBatches, sendBatches]
    refine (embed_tracks hh hh₀ batch).bind fun reply w hreply => ?_
    cases reply with
    | none => exact absurd (hreply.symm.trans (hh.replies batch w.1)) (by simp)
    | some reply => exact ih.bind fun _ _ _ => .pure _

theorem prepare_tracks (s : Settings) (e : FileEntry) (change : Change) :
    Tracks (prepare h.watched s e change) (prepare h₀ s e change) := by
  cases change with
  | removed | unchanged => exact .pure _
  | added | updated =>
    rw [prepare, prepare]
    split
    · exact .pure _
    · refine ((send_batches_tracks hh hh₀ _ _).bind fun _ _ _ => ?_).bind fun _ _ _ => ?_
      · exact .pure _
      · exact .pure _

theorem write_artifacts_tracks (s : Settings) (j : Job) (e : FileEntry) (embedded : List Embedded)
    (kinds : List ArtifactKind) (failed : Nat) (st : Store) :
    Tracks (j.writeArtifacts h.watched s e embedded kinds failed st)
      (j.writeArtifacts h₀ s e embedded kinds failed st) := by
  induction kinds generalizing failed st with
  | nil =>
    refine (is_cancelled_tracks hh hh₀).bind fun cancelled _ _ => ?_
    split <;> exact .pure _
  | cons kind kinds ih =>
    refine (is_cancelled_tracks hh hh₀).bind fun cancelled _ _ => ?_
    split
    · exact .pure _
    · split
      · exact .pure _
      · exact ih _ _

theorem index_tracks (s : Settings) (j : Job) (st : Store) :
    Tracks (j.index h.watched s st) (j.index h₀ s st) := by
  refine (bytes_tracks hh hh₀ s j).bind fun bytes _ _ => ?_
  cases bytes with
  | error e => exact .pure _
  | ok bytes =>
    refine (is_cancelled_tracks hh hh₀).bind fun cancelled _ _ => ?_
    split
    · exact .pure _
    · refine (prepare_tracks hh hh₀ s _ _).bind fun made _ _ => ?_
      match made with
      | .error e => exact .pure _
      | .ok none => exact .pure _
      | .ok (some embedded) =>
        refine (write_artifacts_tracks hh hh₀ s j _ _ _ _ _).bind fun written _ _ => ?_
        cases written <;> exact .pure _

end

namespace Run

/-- The refresh is neither waiting nor still to be planned. -/
def Going (r : Run) : Prop := r.stage ≠ .held ∧ r.isPlanned

/-- A turn by which a refresh gets on: it yields an item that does not report a pause, and uses up
some of the bound on its items. -/
structure Advances (r : Run) (t : Turn) (item : Progress) : Prop where
  yields : t.item = some item
  unpaused : item.status ≠ .paused
  going : t.run.Going
  less : t.run.bound < r.bound

section
variable {r : Run}

theorem bound_of_ready (hready : r.isReady) : r.bound = 2 * r.jobs.length + 1 := by
  rw [isReady] at hready
  rw [bound]
  cases hstage : r.stage with
  | rejecting rejected =>
    cases rejected with
    | nil => simp
    | cons file rest => simp [hstage] at hready
  | between resumed => rfl
  | _ => simp [hstage] at hready

theorem announce_advances {rejected : List Rejected} (hstage : r.stage = .planned rejected)
    (st : Store) :
    ∃ item, r.Advances (r.announce rejected st) item := by
  refine ⟨_, rfl, ?_, ⟨?_, rfl⟩, ?_⟩
  · simp [Progress.loading, Progress.plain]
  · simp [announce]
  · simp [announce, bound, hstage]

theorem reject_advances {file : Rejected} {rest : List Rejected}
    (hstage : r.stage = .rejecting (file :: rest)) (st : Store) :
    ∃ item, r.Advances (r.reject file rest st) item := by
  refine ⟨_, rfl, by simp, ⟨?_, rfl⟩, ?_⟩
  · simp [reject]
  · simp [reject, bound, hstage]

theorem finish_advances (hready : r.isReady) (st : Store) :
    ∃ item, r.Advances (r.finish st) item := by
  refine ⟨_, rfl, ?_, ⟨?_, rfl⟩, ?_⟩
  · simp [Progress.done, Progress.plain]
  · simp [finish]
  · rw [bound_of_ready hready]
    exact Nat.succ_pos _

theorem stop_advances (hready : r.isReady) (st : Store) :
    ∃ item, r.Advances (r.stop st) item := by
  refine ⟨_, rfl, ?_, ⟨?_, rfl⟩, ?_⟩
  · simp [Progress.stopped, Progress.plain]
  · simp [stop]
  · rw [bound_of_ready hready]
    exact Nat.succ_pos _

theorem settle_advances {j : Job} {rest : List Job} (hready : r.isReady)
    (hjobs : r.jobs = j :: rest) (fate : Job.Fate) (st : Store) :
    ∃ item, r.Advances (r.settle j rest fate st) item := by
  refine ⟨_, rfl, ?_, ⟨?_, rfl⟩, ?_⟩
  · cases fate with
    | written lost => cases lost <;> simp [Job.Fate.item]
    | failed e => simp [Job.Fate.item]
  · simp [settle]
  · rw [bound_of_ready hready, hjobs]
    simp only [settle, bound, List.length_cons]
    omega

/-- Whatever became of a file, the refresh gets on with it. -/
theorem report_advances {j : Job} {rest : List Job} (hready : r.isReady)
    (hjobs : r.jobs = j :: rest) (st : Store) (result : Except IndexError (Store × Nat)) :
    ∃ item, r.Advances (r.report j rest st result) item := by
  rcases result with e | ⟨st', lost⟩
  · have hreport : r.report j rest st (.error e) = r.stop st ∨
        r.report j rest st (.error e) = r.settle j rest (.failed e) st := by
      cases e with
      | cancelled => exact .inl rfl
      | _ => exact .inr rfl
    rcases hreport with hstop | hsettle
    · rw [hstop]
      exact stop_advances hready st
    · rw [hsettle]
      exact settle_advances hready hjobs _ st
  · have hsettle : r.report j rest st (.ok (st', lost)) = r.settle j rest (.written lost) st' := by
      cases lost <;> rfl
    rw [hsettle]
    exact settle_advances hready hjobs _ st'

/-- Where it was held makes no difference to what is reported of a file. -/
theorem report_held (stage : Stage) (j : Job) (rest : List Job) (st : Store)
    (result : Except IndexError (Store × Nat)) :
    report { r with stage } j rest st result = r.report j rest st result := by
  rcases result with e | ⟨st', _ | lost⟩
  · cases e <;> rfl
  · rfl
  · rfl

theorem next_of_ready {σ : Type} (h : Host σ) (s : Settings) (hready : r.isReady) (st : Store) :
    ∃ resumed, r.next h s st = r.step h s resumed st := by
  rw [isReady] at hready
  cases hstage : r.stage with
  | rejecting rejected =>
    cases rejected with
    | nil => exact ⟨false, by rw [next, hstage]⟩
    | cons file rest => simp [hstage] at hready
  | between resumed => exact ⟨resumed, by rw [next, hstage]⟩
  | _ => simp [hstage] at hready

end
end Run

/-- A refresh is where the one is that is never paused, or is held there. -/
inductive Run.HeldAt (r₀ : Run) : Run → Prop where
  | same : HeldAt r₀ r₀
  | held (hready : r₀.isReady) (hjobs : r₀.jobs ≠ []) : HeldAt r₀ { r₀ with stage := .held }

/-- What a poll of a refresh comes to. It is over; it reports a pause, or waits on; or it gets on by
the turn of the refresh that is never paused, and if it was held, it does so once the switch was
seen to be off. -/
inductive Watch.Steps (h : Host σ) (h₀ : Host τ) (s : Settings) (r₀ : Run) (x : Watch σ) :
    Watch σ → Prop where
  | idle (hover : x.run.isOver) : Steps h h₀ s r₀ x x
  | hold {w : σ} (hready : r₀.isReady) (hjobs : r₀.jobs ≠ []) (hsame : x.run = r₀) :
      Steps h h₀ s r₀ x ⟨w, x.sights ++ [.pause true] ++ [.item (.paused r₀.share)],
        { r₀ with stage := .held }, x.store⟩
  | wait (hheld : x.run.stage = .held) (hon : h.holds x.world) :
      Steps h h₀ s r₀ x ⟨h.waited x.world, x.sights ++ [.pause true], x.run, x.store⟩
  | advance {w : σ} {seen : List Sight} {t : Run.Turn} {item : Progress}
      (hseen : ∀ sight ∈ seen, sight.item? = none)
      (hgate : x.run.stage = .held → seen.head? = some (.pause false))
      (hturn : ∀ w₀, ((r₀.next h₀ s x.store).run w₀).1 = t) (hadvances : r₀.Advances t item) :
      Steps h h₀ s r₀ x ⟨w, x.sights ++ seen ++ [.item item], t.run, t.store⟩

section
variable {σ τ : Type} {h : Host σ} {h₀ : Host τ} {files : Files} {s : Settings}
  {provider : List Text → Except ProviderError (List Embedding)} {r : Run} {j : Job}
  {rest : List Job}

/-- Before a file, the switches are asked whether to stop or to wait. -/
theorem gate_watched (hh : h.Undisturbed files provider) (stop held : Run.Turn)
    (work : StateM (σ × List Sight) Run.Turn) (w : σ) (sights : List Sight) :
    StateT.run (do
      if ← h.watched.isCancelled then return stop
      else if ← h.watched.isPaused then return held else work) (w, sights) =
      if h.holds w then (held, (h.waited w, sights ++ [.pause true]))
      else work.run (h.waited w, sights ++ [.pause false]) := by
  have hcancelled : h.watched.isCancelled.run (w, sights) =
      (false, ((h.isCancelled.run w).2, sights)) :=
    Prod.ext (hh.goesOn w) (Prod.ext rfl (List.append_nil _))
  have hpaused : h.watched.isPaused.run ((h.isCancelled.run w).2, sights) =
      (h.holds w, (h.waited w, sights ++ [.pause (h.holds w)])) := rfl
  rw [run_bind, hcancelled]
  simp only [Bool.false_eq_true, if_false]
  rw [run_bind, hpaused]
  cases hholds : h.holds w <;> rfl

/-- If it is never paused, a refresh goes on to the file. -/
theorem gate_never (hh₀ : h₀.Undisturbed files provider)
    (hnever : ∀ w, (h₀.isPaused.run w).1 = false) (stop held : Run.Turn) (work : StateM τ Run.Turn)
    (w₀ : τ) :
    StateT.run (do
      if ← h₀.isCancelled then return stop
      else if ← h₀.isPaused then return held else work) w₀ = work.run (h₀.waited w₀) := by
  rw [run_bind, hh₀.goesOn]
  simp only [Bool.false_eq_true, if_false]
  rw [run_bind, hnever]
  rfl

/-- The next file of a refresh that is never paused. -/
theorem next_never (hh₀ : h₀.Undisturbed files provider)
    (hnever : ∀ w, (h₀.isPaused.run w).1 = false) (hready : r.isReady) (hjobs : r.jobs = j :: rest)
    (st : Store) (w₀ : τ) : ((r.next h₀ s st).run w₀).1 =
      r.report j rest st ((j.index h₀ s st).run (h₀.waited w₀)).1 := by
  obtain ⟨resumed, hstep⟩ := Run.next_of_ready h₀ s hready st
  rw [hstep, Run.step, hjobs]
  exact congrArg Prod.fst (gate_never hh₀ hnever _ _ _ w₀)

theorem next_watched (hh : h.Undisturbed files provider) (hready : r.isReady)
    (hjobs : r.jobs = j :: rest) (st : Store) (w : σ) (sights : List Sight) :
    (r.next h.watched s st).run (w, sights) =
      if h.holds w then (r.hold st, (h.waited w, sights ++ [.pause true]))
      else (r.process h.watched s j rest st).run (h.waited w, sights ++ [.pause false]) := by
  obtain ⟨resumed, hstep⟩ := Run.next_of_ready h.watched s hready st
  rw [hstep, Run.step, hjobs]
  exact gate_watched hh _ _ _ w sights

theorem next_held (hh : h.Undisturbed files provider) (hheld : r.stage = .held)
    (hjobs : r.jobs = j :: rest) (st : Store) (w : σ) (sights : List Sight) :
    (r.next h.watched s st).run (w, sights) =
      if h.holds w then (⟨none, r, st⟩, (h.waited w, sights ++ [.pause true]))
      else (r.process h.watched s j rest st).run (h.waited w, sights ++ [.pause false]) := by
  rw [Run.next, hheld]
  simp only [hjobs]
  exact gate_watched hh _ _ _ w sights

/-- The last turn, once all files are done. -/
theorem next_finish (hh₀ : h₀.Undisturbed files provider) (hready : r.isReady) (hjobs : r.jobs = [])
    (st : Store) (w₀ : τ) : ((r.next h₀ s st).run w₀).1 = r.finish st := by
  obtain ⟨resumed, hstep⟩ := Run.next_of_ready h₀ s hready st
  rw [hstep, Run.step, hjobs]
  cases resumed with
  | false => rfl
  | true => simp only [if_true, run_bind, hh₀.goesOn, Bool.false_eq_true, if_false, run_pure]

theorem next_finish_watched (hh : h.Undisturbed files provider) (hready : r.isReady)
    (hjobs : r.jobs = []) (st : Store) (w : σ × List Sight) :
    ((r.next h.watched s st).run w).1 = r.finish st ∧
      ((r.next h.watched s st).run w).2.2 = w.2 := by
  obtain ⟨resumed, hstep⟩ := Run.next_of_ready h.watched s hready st
  have hcancelled : (h.watched.isCancelled.run w).1 = false := hh.goesOn w.1
  rw [hstep, Run.step, hjobs]
  cases resumed with
  | false => exact ⟨rfl, rfl⟩
  | true =>
    simp only [if_true, run_bind, hcancelled, Bool.false_eq_true, if_false]
    exact ⟨rfl, List.append_nil _⟩

/-- The work on a file of a watched refresh, once the switch was seen to be off. -/
theorem process_steps (hh : h.Undisturbed files provider) (hh₀ : h₀.Undisturbed files provider)
    (hnever : ∀ w, (h₀.isPaused.run w).1 = false) (hready : r.isReady) (hjobs : r.jobs = j :: rest)
    {x : Watch σ} (stage : Stage) (hrun : x.run = { r with stage })
    (hnext : (x.run.next h.watched s x.store).run (x.world, x.sights) =
      (x.run.process h.watched s j rest x.store).run
        (h.waited x.world, x.sights ++ [.pause false])) : x.Steps h h₀ s r (x.poll h s) := by
  have hindex := index_tracks hh hh₀ s j x.store
  have hsights := hindex.sights (h.waited x.world, x.sights ++ [.pause false])
  have hanswer := hindex.answer (h.waited x.world, x.sights ++ [.pause false])
  generalize hresult : ((j.index h.watched s x.store).run
    (h.waited x.world, x.sights ++ [.pause false])) = result at hsights hanswer
  obtain ⟨answer, w, sights⟩ := result
  obtain ⟨n, rfl⟩ := hsights
  obtain ⟨item, hadvances⟩ := Run.report_advances hready hjobs x.store answer
  have hpoll : x.poll h s = ⟨w,
      x.sights ++ (.pause false :: List.replicate n .file) ++ [.item item],
      (r.report j rest x.store answer).run, (r.report j rest x.store answer).store⟩ := by
    rw [Watch.poll, hnext, Run.process, run_bind, hresult, run_pure, hrun, Run.report_held]
    simp [hadvances.yields]
  rw [hpoll]
  refine .advance ?_ (fun _ => rfl) ?_ hadvances
  · intro sight hsight
    rcases List.mem_cons.mp hsight with rfl | hfile
    · rfl
    · rw [List.eq_of_mem_replicate hfile]
      rfl
  · intro w₀
    rw [next_never hh₀ hnever hready hjobs, ← hanswer]

/-- A turn that sees nothing is the same for every host. -/
theorem unseen_steps {x : Watch σ} {t : Run.Turn} (hgoing : r.Going) (hrun : x.run = r)
    (hnext : ∀ w : σ × List Sight, ((r.next h.watched s x.store).run w).1 = t ∧
      ((r.next h.watched s x.store).run w).2.2 = w.2)
    (hturn : ∀ w₀, ((r.next h₀ s x.store).run w₀).1 = t)
    (hadvances : ∃ item, r.Advances t item) : x.Steps h h₀ s r (x.poll h s) := by
  obtain ⟨item, hadvances⟩ := hadvances
  obtain ⟨hsame, hsights⟩ := hnext (x.world, x.sights)
  have hpoll : x.poll h s = ⟨((r.next h.watched s x.store).run (x.world, x.sights)).2.1,
      x.sights ++ [] ++ [.item item], t.run, t.store⟩ := by
    rw [Watch.poll, hrun]
    simp [hsame, hsights, hadvances.yields]
  rw [hpoll]
  refine .advance (by simp) ?_ hturn hadvances
  intro hheld
  rw [hrun] at hheld
  exact absurd hheld hgoing.1

/-- So is a turn that asks for nothing. -/
theorem told_steps {x : Watch σ} {t : Run.Turn} (hgoing : r.Going) (hrun : x.run = r)
    (hnext : ∀ {υ : Type} (h : Host υ), r.next h s x.store = pure t)
    (hadvances : ∃ item, r.Advances t item) : x.Steps h h₀ s r (x.poll h s) := by
  refine unseen_steps hgoing hrun (fun w => ?_) (fun w₀ => ?_) hadvances
  · rw [hnext]
    exact ⟨rfl, rfl⟩
  · rw [hnext]
    rfl

/-- The turn between two files. -/
theorem ready_steps (hh : h.Undisturbed files provider) (hh₀ : h₀.Undisturbed files provider)
    (hnever : ∀ w, (h₀.isPaused.run w).1 = false) (hgoing : r.Going) (hready : r.isReady)
    {x : Watch σ} (hrun : x.run = r) : x.Steps h h₀ s r (x.poll h s) := by
  cases hjobs : r.jobs with
  | nil =>
    refine unseen_steps hgoing hrun (fun w => ?_) (next_finish hh₀ hready hjobs x.store)
      (Run.finish_advances hready x.store)
    exact next_finish_watched hh hready hjobs x.store w
  | cons j rest =>
    have hnext := next_watched (s := s) hh hready hjobs x.store x.world x.sights
    cases hholds : h.holds x.world with
    | true =>
      rw [hholds, if_pos rfl] at hnext
      have hpoll : x.poll h s = ⟨h.waited x.world,
          x.sights ++ [.pause true] ++ [.item (.paused r.share)], { r with stage := .held },
          x.store⟩ := by
        rw [Watch.poll, hrun, hnext]
        rfl
      rw [hpoll]
      exact .hold hready (by simp [hjobs]) hrun
    | false =>
      rw [hholds, if_neg (by simp)] at hnext
      exact process_steps hh hh₀ hnever hready hjobs r.stage hrun (hrun ▸ hnext)

/-- Every poll is such a step. -/
theorem poll_steps (hh : h.Undisturbed files provider) (hh₀ : h₀.Undisturbed files provider)
    (hnever : ∀ w, (h₀.isPaused.run w).1 = false) (hgoing : r.Going) {x : Watch σ}
    (hat : r.HeldAt x.run) : x.Steps h h₀ s r (x.poll h s) := by
  generalize hrun : x.run = r' at hat
  cases hat with
  | same =>
    cases hstage : r.stage with
    | unplanned paths => simp [Run.Going, Run.isPlanned, hstage] at hgoing
    | planned rejected =>
      refine told_steps hgoing hrun (fun h => ?_) (Run.announce_advances hstage x.store)
      rw [Run.next, hstage]
    | rejecting rejected =>
      cases rejected with
      | nil => exact ready_steps hh hh₀ hnever hgoing (by rw [Run.isReady, hstage]) hrun
      | cons file rest =>
        refine told_steps hgoing hrun (fun h => ?_) (Run.reject_advances hstage x.store)
        rw [Run.next, hstage]
    | between resumed => exact ready_steps hh hh₀ hnever hgoing (by rw [Run.isReady, hstage]) hrun
    | held => exact absurd hstage hgoing.1
    | «over» =>
      have hover : x.run.stage = .over := by rw [hrun, hstage]
      have hpoll : x.poll h s = ⟨x.world, x.sights ++ [], x.run, x.store⟩ := by
        rw [Watch.poll, Run.next, hover]
        rfl
      rw [hpoll, List.append_nil]
      exact .idle (Run.is_over_iff.mpr hover)
  | held hready hjobs =>
    obtain ⟨j, rest, hjobs⟩ := List.exists_cons_of_ne_nil hjobs
    have hheld : x.run.stage = .held := by rw [hrun]
    have hnext := next_held (s := s) hh hheld (by rw [hrun, hjobs]) x.store x.world x.sights
    cases hholds : h.holds x.world with
    | true =>
      rw [hholds, if_pos rfl] at hnext
      have hpoll : x.poll h s = ⟨h.waited x.world, x.sights ++ [.pause true] ++ [], x.run,
          x.store⟩ := by
        rw [Watch.poll, hnext]
        rfl
      rw [hpoll, List.append_nil]
      exact .wait hheld hholds
    | false =>
      rw [hholds, if_neg (by simp)] at hnext
      exact process_steps hh hh₀ hnever hready hjobs .held hrun hnext

end
end CodeIndex
