import CodeIndex.Proofs.Indexing

namespace CodeIndex

/-- What became of the file of a job: it was written, with so many chunks left without a vector, or
it was given up. -/
inductive Job.Fate where
  | written (lost : Nat)
  | failed (e : IndexError)
deriving DecidableEq, Repr

namespace Job.Fate

def isClean (fate : Job.Fate) : Bool := fate = .written 0

/-- The item that reports it. -/
def item (fraction : Binary32) (j : Job) : Job.Fate → Progress
  | written 0 => .indexed fraction j.path j.change
  | written (lost + 1) => .fileFailed fraction j.path (some j.change)
      (toString (lost + 1) ++ " chunks could not be embedded; will retry")
  | failed e => .fileFailed fraction j.path (some j.change) e.text

end Job.Fate

/-- Indexing the file of a job comes to an end, unless it is cancelled. -/
inductive Job.Settles (h : Host σ) (s : Settings) (j : Job) (st : Store) :
    Job.Fate → Store → Prop where
  | written {lost : Nat} {st' : Store} (w : σ)
      (hindex : ((j.index h s st).run w).1 = .ok (st', lost)) : Settles h s j st (.written lost) st'
  | failed {e : IndexError} (w : σ) (hindex : ((j.index h s st).run w).1 = .error e)
      (he : e ≠ .cancelled) : Settles h s j st (.failed e) st

namespace Run

/-- The refresh is about to turn to its next file. -/
def isReady (r : Run) : Bool :=
  match r.stage with
  | .rejecting [] | .between _ => true
  | _ => false

/-- The turn that reports what became of the first job. -/
def settle (r : Run) (j : Job) (rest : List Job) (fate : Job.Fate) (st : Store) : Turn :=
  let r := { r with
    stage := .between true, jobs := rest, processed := r.processed + 1,
    failed := r.failed + if fate.isClean then 0 else 1 }
  ⟨some (fate.item r.share j), r, st⟩

inductive Moves (h : Host σ) (s : Settings) (r : Run) (st : Store) : Turn → Prop where
  | plan {paths : List Path} {plan : Plan} (w : σ) (hstage : r.stage = .unplanned paths)
      (hplan : ((Plan.ofFiles h paths).run w).1 = plan) :
      Moves h s r st ((ofPlan plan).announce plan.rejected st)
  | announce {rejected : List Rejected} (hstage : r.stage = .planned rejected) :
      Moves h s r st (r.announce rejected st)
  | reject {file : Rejected} {rest : List Rejected} (hstage : r.stage = .rejecting (file :: rest)) :
      Moves h s r st (r.reject file rest st)
  | hold {j : Job} {rest : List Job} (hstage : r.isReady) (hjobs : r.jobs = j :: rest) :
      Moves h s r st (r.hold st)
  | settle {j : Job} {rest : List Job} {fate : Job.Fate} {st' : Store}
      (hstage : r.isReady ∨ r.stage = .held) (hjobs : r.jobs = j :: rest)
      (hsettles : j.Settles h s st fate st') : Moves h s r st (r.settle j rest fate st')
  | stop (hstage : r.isReady ∨ r.stage = .held) : Moves h s r st (r.stop st)
  | finish (hstage : r.isReady ∨ r.stage = .held) (hjobs : r.jobs = []) :
      Moves h s r st (r.finish st)
  | idle (hstage : r.stage = .held ∨ r.stage = .over) : Moves h s r st ⟨none, r, st⟩

variable {σ : Type} {h : Host σ} {s : Settings} {r : Run} {st : Store}

/-- Unless it is cancelled, a job is settled. -/
theorem report_settles (r : Run) {j : Job} (rest : List Job) {w : σ}
    (hne : ((j.index h s st).run w).1 ≠ .error .cancelled) : ∃ fate st',
      j.Settles h s st fate st' ∧
        r.report j rest st ((j.index h s st).run w).1 = r.settle j rest fate st' := by
  cases hi : ((j.index h s st).run w).1 with
  | error e =>
    have he : e ≠ .cancelled := by
      intro hcancelled
      rw [hi, hcancelled] at hne
      exact hne rfl
    refine ⟨.failed e, st, .failed w hi he, ?_⟩
    cases e <;> first | rfl | exact absurd rfl he
  | ok result =>
    obtain ⟨st', lost⟩ := result
    refine ⟨.written lost, st', .written w hi, ?_⟩
    cases lost <;> rfl

theorem report_moves {j : Job} {rest : List Job} {w : σ} (hstage : r.isReady ∨ r.stage = .held)
    (hjobs : r.jobs = j :: rest) :
    r.Moves h s st (r.report j rest st ((j.index h s st).run w).1) := by
  by_cases hi : ((j.index h s st).run w).1 = .error .cancelled
  · rw [hi]
    exact .stop hstage
  · obtain ⟨fate, st', hsettles, hreport⟩ := report_settles r rest hi
    rw [hreport]
    exact .settle hstage hjobs hsettles

theorem process_moves {j : Job} {rest : List Job} {w : σ} (hstage : r.isReady ∨ r.stage = .held)
    (hjobs : r.jobs = j :: rest) : r.Moves h s st ((r.process h s j rest st).run w).1 := by
  rw [process, run_bind, run_pure]
  exact report_moves hstage hjobs

theorem step_moves (hready : r.isReady) (resumed : Bool) (w : σ) :
    r.Moves h s st ((r.step h s resumed st).run w).1 := by
  rw [step]
  cases hjobs : r.jobs with
  | nil =>
    simp only
    split
    · rw [run_bind]
      split
      · exact .stop (Or.inl hready)
      · exact .finish (Or.inl hready) hjobs
    · exact .finish (Or.inl hready) hjobs
  | cons j rest =>
    simp only [run_bind]
    split
    · exact .stop (Or.inl hready)
    · rw [run_bind]
      split
      · exact .hold hready hjobs
      · exact process_moves (Or.inl hready) hjobs

/-- Every turn is a move. -/
theorem next_moves (w : σ) : r.Moves h s st ((r.next h s st).run w).1 := by
  rw [next]
  cases hstage : r.stage with
  | unplanned paths => exact .plan w hstage rfl
  | planned rejected => exact .announce hstage
  | rejecting rejected =>
    cases rejected with
    | nil => exact step_moves (by rw [isReady, hstage]) false w
    | cons file rest => exact .reject hstage
  | between resumed => exact step_moves (by rw [isReady, hstage]) resumed w
  | held =>
    cases hjobs : r.jobs with
    | nil => exact .finish (Or.inr hstage) hjobs
    | cons j rest =>
      simp only [run_bind]
      split
      · exact .stop (Or.inr hstage)
      · rw [run_bind]
        split
        · exact .idle (Or.inl hstage)
        · exact process_moves (Or.inr hstage) hjobs
  | «over» => exact .idle (Or.inr hstage)

end Run
end CodeIndex
