import CodeIndex.Proofs.Moves

namespace CodeIndex

@[simp] theorem Progress.status_indexed (fraction : Binary32) (p : Path) (change : Change) :
    (indexed fraction p change).status = .indexing := rfl

@[simp] theorem Progress.status_file_failed (fraction : Binary32) (p : Path)
    (change : Option Change) (reason : String) :
    (fileFailed fraction p change reason).status = .failed := rfl

/-- No job of a refresh is about an unchanged file. -/
def Run.Working (r : Run) : Prop := ∀ j ∈ r.jobs, j.change ≠ .unchanged

/-- The rejected files that are still to be reported. -/
def Run.pending (r : Run) : List Rejected :=
  match r.stage with
  | .planned rejected | .rejecting rejected => rejected
  | _ => []

def Run.isPlanned (r : Run) : Bool :=
  match r.stage with
  | .unplanned _ => false
  | _ => true

inductive Run.Leads (h : Host σ) (s : Settings) (r : Run) (st : Store) : Run.Turn → Prop where
  | plan {paths : List Path} {w : σ} {item : Progress} {r' : Run}
      (hstage : r.isPlanned = false) (hjobs : r'.jobs = ((Plan.ofFiles h paths).run w).1.jobs)
      (hplanned : r'.isPlanned) (hitem : item.status = .loading) :
      Leads h s r st ⟨some item, r', st⟩
  | wait {item : Option Progress} {r' : Run} (hjobs : r'.jobs = r.jobs)
      (hpending : r'.pending = r.pending) (hplanned : r'.isPlanned)
      (hitem : ∀ p ∈ item, p.status ≠ .failed ∧ p.status ≠ .done) :
      Leads h s r st ⟨item, r', st⟩
  | index {j : Job} {st' : Store} {lost : Nat} {w : σ} {item : Progress} {r' : Run}
      (hjobs : r.jobs = j :: r'.jobs) (hpending : r.pending = []) (hpending' : r'.pending = [])
      (hplanned : r'.isPlanned) (hindex : ((j.index h s st).run w).1 = .ok (st', lost))
      (hfailed : item.status = .failed ↔ lost ≠ 0) (hitem : item.status ≠ .done) :
      Leads h s r st ⟨some item, r', st'⟩
  | fail {item : Progress} {r' : Run} (hjobs : r'.jobs <:+ r.jobs) (hplanned : r'.isPlanned)
      (hitem : item.status = .failed) : Leads h s r st ⟨some item, r', st⟩
  | finish {item : Progress} {r' : Run} (hjobs : r.jobs = []) (hjobs' : r'.jobs = [])
      (hpending : r.pending = []) (hstage : r'.stage = .over) (hitem : item.status = .done) :
      Leads h s r st ⟨some item, r', st⟩

namespace Run

variable {σ : Type} {h : Host σ} {s : Settings} {r : Run} {st : Store}

theorem pending_of_ready (hstage : r.isReady ∨ r.stage = .held) : r.pending = [] := by
  rw [isReady] at hstage
  rw [pending]
  cases hs : r.stage with
  | planned rejected => simp [hs] at hstage
  | rejecting rejected =>
    cases rejected with
    | nil => rfl
    | cons file rest => simp [hs] at hstage
  | _ => rfl

/-- What a move comes to, when only its status and the files still to be done are looked at. -/
theorem Moves.leads {t : Turn} (hm : r.Moves h s st t) : r.Leads h s st t := by
  cases hm with
  | plan w hstage hplan =>
    have hplanned : r.isPlanned = false := by rw [isPlanned, hstage]
    exact .plan hplanned (congrArg Plan.jobs hplan).symm rfl rfl
  | @announce rejected hstage =>
    have hpending : r.pending = rejected := by rw [pending, hstage]
    exact .wait rfl hpending.symm rfl (by simp [Progress.loading, Progress.plain])
  | reject hstage => exact .fail List.suffix_rfl rfl rfl
  | hold hready hjobs =>
    exact .wait rfl (pending_of_ready (Or.inl hready)).symm rfl
      (by simp [Progress.paused, Progress.plain])
  | settle hstage hjobs hsettles =>
    cases hsettles with
    | @written lost _ w hindex =>
      cases lost with
      | zero =>
        exact .index hjobs (pending_of_ready hstage) rfl rfl hindex (by simp [Job.Fate.item])
          (by simp [Job.Fate.item])
      | succ lost =>
        exact .index hjobs (pending_of_ready hstage) rfl rfl hindex (by simp [Job.Fate.item])
          (by simp [Job.Fate.item])
    | failed => exact .fail (hjobs ▸ List.suffix_cons _ _) rfl rfl
  | stop hstage => exact .fail List.suffix_rfl rfl rfl
  | finish hstage hjobs => exact .finish hjobs hjobs (pending_of_ready hstage) rfl rfl
  | idle hstage =>
    have hplanned : r.isPlanned := by
      rcases hstage with hstage | hstage <;> rw [isPlanned, hstage]
    exact .wait rfl rfl hplanned (by simp)

theorem next_leads (w : σ) : r.Leads h s st ((r.next h s st).run w).1 := (next_moves w).leads

theorem of_files_working (paths : List Path) : (ofFiles paths).Working := by
  intro j hj
  cases hj

end Run

theorem Plan.of_file_working {h : Host σ} {dirs : List Path} {p : Path} {w : σ} {j : Job}
    (hj : j ∈ ((ofFile h dirs p).run w).1.jobs) : j.change ≠ .unchanged := by
  rw [ofFile] at hj
  split at hj
  · cases hj
  · simp only [run_bind, run_pure, List.mem_singleton] at hj
    rw [hj]
    simp only [changeOf]
    split <;> simp

theorem Plan.append_all (p : Plan) (ps : List Plan) : ps.foldl append p =
    ⟨p.jobs ++ ps.flatMap Plan.jobs, p.rejected ++ ps.flatMap Plan.rejected⟩ := by
  induction ps generalizing p with
  | nil => simp
  | cons q ps ih =>
    rw [List.foldl_cons, ih]
    simp only [append, List.flatMap_cons, List.append_assoc]

theorem Plan.of_files_working {h : Host σ} {paths : List Path} {w : σ} {j : Job}
    (hj : j ∈ ((ofFiles h paths).run w).1.jobs) : j.change ≠ .unchanged := by
  rw [ofFiles, run_bind, run_bind, run_pure, append_all, empty, List.nil_append,
    List.mem_flatMap] at hj
  obtain ⟨p, hp, hj⟩ := hj
  obtain ⟨path, -, w₁, rfl⟩ := mem_run_mapM hp
  exact of_file_working hj

/-- Each turn leaves only jobs that are about a change. -/
theorem Run.Leads.working {h : Host σ} {s : Settings} {r : Run} {st : Store} {t : Run.Turn}
    (hl : r.Leads h s st t) (hr : r.Working) : t.run.Working := by
  cases hl with
  | plan _ hjobs =>
    intro j hj
    exact Plan.of_files_working (hjobs ▸ hj)
  | wait hjobs => exact fun j hj => hr j (hjobs ▸ hj)
  | index hjobs => exact fun j hj => hr j (hjobs ▸ List.mem_cons_of_mem _ hj)
  | fail hjobs => exact fun j hj => hr j (hjobs.subset hj)
  | finish _ hjobs =>
    intro j hj
    rw [hjobs] at hj
    cases hj

/-- A turn enters at most one act into the journal, that of the first job. -/
theorem Run.Leads.tells {h : Host σ} {s : Settings} {r : Run} {st : Store} {t : Run.Turn}
    {journal : List Act} (hl : r.Leads h s st t) (hr : r.Working) (ht : st.Tells journal) :
    t.store.Tells journal ∨
      ∃ j a, j.Acts h s a ∧ r.jobs = j :: t.run.jobs ∧ t.store.Tells (journal ++ [a]) := by
  cases hl with
  | @index j _ _ _ _ _ hjobs _ _ _ hindex =>
    have hj : j.change ≠ .unchanged := hr j (hjobs ▸ List.mem_cons_self)
    obtain ⟨a, hacts, -, htells⟩ := index_tells ht hj hindex
    exact Or.inr ⟨j, a, hacts, hjobs, htells⟩
  | _ => exact Or.inl ht

end CodeIndex
