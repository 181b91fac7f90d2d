import CodeIndex.Proofs.Coherence
import CodeIndex.Session.Basic

namespace CodeIndex

/-- Anything may happen, but a clear finds the workspace as it is at that moment. -/
def Rules.session : Rules := ⟨fun _ => True, fun _ _ => True, Even⟩

theorem Rules.session_allows (h : Host σ) : Rules.session.Allow h :=
  ⟨fun _ => trivial, fun _ _ => trivial⟩

namespace Session

/-- The steps that write to the store by way of the indexer, if at all. -/
def Step.Indexes : Step → Prop
  | .transaction .. | .update .. | .clearArtifact .. => False
  | _ => True

/-- The store was reached by indexing, and the open refresh is about files that have changed. -/
structure Sound (s : Session) : Prop where
  reached : Reached (· = s.settings) .session s.store
  working : ∀ {run : Run}, s.refresh = some run → run.Working

variable {s : Session}

theorem sound_of_empty (hstore : s.store = .empty) (hrefresh : s.refresh = none) : s.Sound := by
  constructor
  · rw [hstore]
    exact .empty
  · intro run hrun
    rw [hrefresh] at hrun
    cases hrun

/-- Nothing that is done to the world harms the store. -/
theorem Sound.elsewhere (hs : s.Sound) (world : World) : Sound { s with world } :=
  ⟨hs.reached, hs.working⟩

theorem Sound.closed (hs : s.Sound) : Sound { s with refresh := none } := by
  refine ⟨hs.reached, ?_⟩
  intro run hrun
  cases hrun

theorem plan_for_working {target : Target} {run : Run} {w : World}
    (hplan : ((s.planFor target).run w).1 = .ok run) : run.Working := by
  have hdirs : ∀ {dirs}, ((Plan.ofDirs World.host s.settings s.store dirs).run w).1.map Run.ofPlan =
      .ok run → run.Working := by
    intro dirs hok
    cases hofdirs : ((Plan.ofDirs World.host s.settings s.store dirs).run w).1 with
    | error e =>
      rw [hofdirs] at hok
      cases hok
    | ok plan =>
      rw [hofdirs] at hok
      cases hok
      exact Plan.of_dirs_working hofdirs
  cases target with
  | files paths =>
    cases hplan
    exact Run.of_files_working paths
  | dirs dirs => exact hdirs hplan
  | workspace => exact hdirs hplan

theorem start_refresh_sound (hs : s.Sound) (target : Target) (cancelled : Bool) :
    (s.startRefresh target cancelled).2.Sound := by
  have hclosed := hs.closed.elsewhere { s.world with cancelled }
  rw [startRefresh, outside]
  generalize hplan : (planFor _ target).run _ = answer
  obtain ⟨run, world⟩ := answer
  cases run with
  | error e => exact hclosed.elsewhere world
  | ok run =>
    refine ⟨hs.reached, ?_⟩
    intro run' hrun
    cases hrun
    exact plan_for_working (congrArg Prod.fst hplan)

/-- Turns of the open refresh lead from one store that is reached to another. -/
theorem pull_sound (hs : s.Sound) (most : Option Nat) : (s.pull most).2.Sound := by
  rw [pull]
  cases hrun : s.refresh with
  | none => exact hs
  | some run =>
    have hworking := hs.working hrun
    have htaken : ∀ n, Sound { s with
        world := ((run.take World.host s.settings n s.store).run s.world).2
        store := ((run.take World.host s.settings n s.store).run s.world).1.2.2.2
        refresh := some ((run.take World.host s.settings n s.store).run s.world).1.2.2.1 } := by
      intro n
      have hy := run.take_yields (h := World.host) (s := s.settings) n s.store s.world
      refine ⟨hy.reached rfl (Rules.session_allows _) hworking hs.reached, ?_⟩
      intro run' hrun'
      cases hrun'
      exact hy.working hworking
    cases most with
    | none => exact htaken (run.bound + 1)
    | some most => exact htaken most

theorem refresh_all_sound (hs : s.Sound) (target : Target) (cancelled : Bool) :
    (s.refreshAll target cancelled).2.Sound := by
  have hstarted := start_refresh_sound hs target cancelled
  rw [refreshAll]
  generalize s.startRefresh target cancelled = started at hstarted ⊢
  obtain ⟨answer, s₁⟩ := started
  cases answer with
  | failed e => exact hstarted
  | _ => exact (pull_sound hstarted none).closed

theorem clear_sound (hs : s.Sound) : (s.step .clear).2.Sound := by
  have hsteady : World.host.Steady (fun w => w = s.world) s.world.dirs s.world.branch := by
    constructor
    · rintro _ rfl
      exact ⟨rfl, rfl⟩
    · rintro dir _ rfl
      exact ⟨rfl, rfl⟩
  exact ⟨.clear s.world hs.reached (tags_even hsteady rfl), hs.working⟩

theorem reopen_sound (hs : s.Sound) : (s.step .reopen).2.Sound := by
  refine ⟨?_, hs.closed.working⟩
  have hstore : Reached (· = s.settings) .session (if s.durable then s.store else .empty) := by
    split
    · exact hs.reached
    · exact .empty
  exact hstore

/-- Every step by way of the indexer leads from one reached store to another. -/
theorem step_sound (hs : s.Sound) {step : Step} (hstep : step.Indexes) :
    (s.step step).2.Sound := by
  cases step with
  | openRefresh target cancelled => exact start_refresh_sound hs target cancelled
  | poll most => exact pull_sound hs (some most)
  | drain => exact pull_sound hs none
  | close => exact hs.closed
  | refresh target cancelled => exact refresh_all_sound hs target cancelled
  | clear => exact clear_sound hs
  | reopen => exact reopen_sound hs
  | transaction | update | clearArtifact => exact hstep.elim
  | query | similar => exact hs.elsewhere _
  | write | delete | unreadable | breakDir | setBranch | setDirs | cancelOnRead | pause | cancel
    | texts => exact hs.elsewhere _
  | tags | stats | catalog | hash | metadata | chunks | embeddings | segments | counts | fullText
    | diff | watch => exact hs

/-- So does every run of such steps, in whatever order they come. -/
theorem run_sound (hs : s.Sound) {steps : List Step} (hsteps : ∀ step ∈ steps, step.Indexes) :
    (s.run steps).2.Sound := by
  induction steps generalizing s with
  | nil => exact hs
  | cons step steps ih =>
    have hfirst := step_sound hs (hsteps step List.mem_cons_self)
    exact ih hfirst fun later hlater => hsteps later (List.mem_cons_of_mem _ hlater)

end Session
end CodeIndex
