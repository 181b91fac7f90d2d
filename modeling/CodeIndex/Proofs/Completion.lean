import CodeIndex.Proofs.Planning
import CodeIndex.Proofs.Reached

namespace CodeIndex

/-- Turns of one refresh, with nothing else at work on the store. -/
inductive Run.Yields {P : Type} [PathForm P] (h : Host σ P) (s : Settings) :
    Run P → Store → List Progress → Run P → Store → Prop where
  | nothing (r : Run P) (st : Store) : Yields h s r st [] r st
  | turn {r r' : Run P} {st st' : Store} {t : Run.Turn P} {items : List Progress} (w : σ)
      (hturn : ((r.next h s st).run w).1 = t) (hrest : Yields h s t.run t.store items r' st') :
      Yields h s r st (t.item.toList ++ items) r' st'

/-- A refresh of directories that is planned, then works alone and is done, whatever it reports. -/
def Refreshes (h : Host σ) (s : Settings) (dirs : List Path) (st st' : Store) : Prop :=
  ∃ w plan items r', ((Plan.ofDirs h s st dirs).run w).1 = .ok plan ∧
    (Run.ofPlan plan).Yields h s st items r' st' ∧ ∃ item ∈ items, item.status = .done

/-- A planned refresh that works alone is done without a failure. -/
def Plan.Completes (h : Host σ) (s : Settings) (plan : Plan) (st st' : Store) : Prop :=
  ∃ items r', (Run.ofPlan plan).Yields h s st items r' st' ∧
    (∃ item ∈ items, item.status = .done) ∧ ∀ item ∈ items, item.status ≠ .failed

/-- A refresh of directories that is planned, then works alone and is done without a failure. -/
def Completes (h : Host σ) (s : Settings) (dirs : List Path) (st st' : Store) : Prop :=
  ∃ w plan, ((Plan.ofDirs h s st dirs).run w).1 = .ok plan ∧ plan.Completes h s st st'

/-- Plans a refresh of directories and takes turns of it until it is over or held. -/
def refreshDirs (h : Host σ) (s : Settings) (dirs : List Path) (st : Store) :
    StateM σ (List Progress × Store) := do
  match ← Plan.ofDirs h s st dirs with
  | .error _ => return ([], st)
  | .ok plan =>
    let (items, _, _, st) ← Run.drain h s (.ofPlan plan) st
    return (items, st)

/-- Taking turns one after another is one way to come by their items. -/
theorem Run.take_yields {σ P : Type} [PathForm P] {h : Host σ P} {s : Settings} (most : Nat)
    (r : Run P) (st : Store) (w : σ) :
    r.Yields h s st ((r.take h s most st).run w).1.1 ((r.take h s most st).run w).1.2.2.1
      ((r.take h s most st).run w).1.2.2.2 := by
  induction most generalizing r st w with
  | zero => exact .nothing r st
  | succ most ih =>
    rw [take, run_bind]
    generalize hnext : (r.next h s st).run w = answer
    obtain ⟨⟨item, r₁, st₁⟩, w₁⟩ := answer
    have hturn : ((r.next h s st).run w).1 = ⟨item, r₁, st₁⟩ := congrArg Prod.fst hnext
    cases item with
    | none => exact .turn w hturn (.nothing r₁ st₁)
    | some item => exact .turn w hturn (ih r₁ st₁ w₁)

section
variable {σ : Type} {h : Host σ} {s : Settings}

theorem refresh_dirs_yields {dirs : List Path} {st : Store} {w : σ}
    (hdone : ∃ item ∈ ((refreshDirs h s dirs st).run w).1.1, item.status = .done) : ∃ plan r',
      ((Plan.ofDirs h s st dirs).run w).1 = .ok plan ∧
        (Run.ofPlan plan).Yields h s st ((refreshDirs h s dirs st).run w).1.1 r'
          ((refreshDirs h s dirs st).run w).1.2 := by
  rw [refreshDirs, run_bind] at hdone ⊢
  generalize hplan : (Plan.ofDirs h s st dirs).run w = answer at hdone ⊢
  obtain ⟨plan, w₁⟩ := answer
  cases plan with
  | error e =>
    obtain ⟨item, hitem, -⟩ := hdone
    cases hitem
  | ok plan =>
    have hy : (Run.ofPlan plan).Yields h s st _ _ _ :=
      Run.take_yields ((Run.ofPlan plan).bound + 1) (Run.ofPlan plan) st w₁
    exact ⟨plan, _, rfl, hy⟩

theorem refreshes_of_done {dirs : List Path} {st : Store} {w : σ}
    (hdone : ∃ item ∈ ((refreshDirs h s dirs st).run w).1.1, item.status = .done) :
    Refreshes h s dirs st ((refreshDirs h s dirs st).run w).1.2 := by
  obtain ⟨plan, r', hplan, hy⟩ := refresh_dirs_yields hdone
  exact ⟨w, plan, _, r', hplan, hy, hdone⟩

theorem completes_of_done {dirs : List Path} {st : Store} {w : σ}
    (hdone : ∃ item ∈ ((refreshDirs h s dirs st).run w).1.1, item.status = .done)
    (hclean : ∀ item ∈ ((refreshDirs h s dirs st).run w).1.1, item.status ≠ .failed) :
    Completes h s dirs st ((refreshDirs h s dirs st).run w).1.2 := by
  obtain ⟨plan, r', hplan, hy⟩ := refresh_dirs_yields hdone
  exact ⟨w, plan, hplan, _, r', hy, hdone, hclean⟩

/-- A fixed refresh is evaluated once for all that is said of it. -/
theorem exists_refreshes {dirs : List Path} {st : Store} {w : σ} {P : Store → Prop}
    (hrun : let out := ((refreshDirs h s dirs st).run w).1
      (∃ item ∈ out.1, item.status = .done) ∧ P out.2) :
    ∃ st', Refreshes h s dirs st st' ∧ P st' :=
  ⟨_, refreshes_of_done hrun.1, hrun.2⟩

theorem exists_completes {dirs : List Path} {st : Store} {w : σ} {P : Store → Prop}
    (hrun : let out := ((refreshDirs h s dirs st).run w).1
      (∃ item ∈ out.1, item.status = .done) ∧ (∀ item ∈ out.1, item.status ≠ .failed) ∧ P out.2) :
    ∃ st', Completes h s dirs st st' ∧ P st' :=
  ⟨_, completes_of_done hrun.1 hrun.2.1, hrun.2.2⟩

theorem Run.Yields.over {r r' : Run} {st st' : Store} {items : List Progress}
    (hy : r.Yields h s st items r' st') (hr : r.stage = .over) : st' = st := by
  induction hy with
  | nothing => rfl
  | turn w hturn _ ih =>
    rw [Run.next, hr] at hturn
    subst hturn
    exact ih hr

/-- Up to the end of a refresh without failures, each job is one act that loses nothing. -/
theorem Run.Yields.tells {r r' : Run} {st st' : Store} {items : List Progress}
    {journal : List Act} (hy : r.Yields h s st items r' st') (hplanned : r.isPlanned)
    (hr : r.Working) (ht : st.Tells journal) (hdone : ∃ item ∈ items, item.status = .done)
    (hclean : ∀ item ∈ items, item.status ≠ .failed) :
    r.pending = [] ∧ ∃ acts, List.Forall₂ (fun j a => j.Acts h s a ∧ a.complete) r.jobs acts ∧
      st'.Tells (journal ++ acts) := by
  -- The induction is on the turns; each of them may add an act to the journal.
  induction hy generalizing journal with
  | nothing =>
    obtain ⟨item, hitem, -⟩ := hdone
    cases hitem
  | @turn r r' st st' t items w hturn hrest ih =>
    have hl : r.Leads h s st t := hturn ▸ Run.next_leads w
    have hworking := hl.working hr
    have hrestclean : ∀ item ∈ items, item.status ≠ .failed := fun item hi =>
      hclean item (List.mem_append_right _ hi)
    cases hl with
    | plan hstage =>
      rw [hplanned] at hstage
      cases hstage
    | wait hjobs hpending hplanned' hitem =>
      have hrestdone : ∃ item ∈ items, item.status = .done := by
        obtain ⟨item, hi, hs⟩ := hdone
        rcases List.mem_append.mp hi with hi | hi
        · exact absurd hs (hitem item (Option.mem_toList.mp hi)).2
        · exact ⟨item, hi, hs⟩
      obtain ⟨hnone, acts, hacts, htells⟩ := ih hplanned' hworking ht hrestdone hrestclean
      rw [← hpending, ← hjobs]
      exact ⟨hnone, acts, hacts, htells⟩
    | @index j _ lost _ item _ hjobs hpending _ hplanned' hindex hfailed hitem =>
      have hj : j.change ≠ .unchanged := hr j (hjobs ▸ List.mem_cons_self)
      have hlost : lost = 0 := by
        have := hclean item (by simp)
        rw [Ne, hfailed, not_not] at this
        exact this
      have hrestdone : ∃ item ∈ items, item.status = .done := by
        obtain ⟨found, hi, hs⟩ := hdone
        rcases List.mem_append.mp hi with hi | hi
        · cases Option.mem_toList.mp hi
          exact absurd hs hitem
        · exact ⟨found, hi, hs⟩
      obtain ⟨a, hact, hcomplete, hstep⟩ := index_tells ht hj hindex
      obtain ⟨-, acts, hacts, htells⟩ := ih hplanned' hworking hstep hrestdone hrestclean
      refine ⟨hpending, a :: acts, ?_, ?_⟩
      · rw [hjobs]
        exact .cons ⟨hact, hcomplete.mp hlost⟩ hacts
      · rw [List.append_cons]
        exact htells
    | fail _ _ hitem => exact absurd hitem (hclean _ (by simp))
    | finish hjobs _ hpending hstage =>
      refine ⟨hpending, [], ?_, ?_⟩
      · rw [hjobs]
        exact .nil
      · rw [List.append_nil, hrest.over hstage]
        exact ht

theorem Plan.of_dirs_working {dirs : List Path} {st : Store} {plan : Plan} {w : σ}
    (hplan : ((Plan.ofDirs h s st dirs).run w).1 = .ok plan) : (Run.ofPlan plan).Working := by
  obtain ⟨plans, hplans, hjobs, -⟩ := Plan.of_dirs_ok hplan
  intro j hj
  rw [Run.ofPlan, hjobs, List.mem_flatMap] at hj
  obtain ⟨first, hfirst, hj⟩ := hj
  obtain ⟨dir, -, w₁, hdir⟩ := exists_left_of_forall₂ hplans hfirst
  obtain ⟨listed, w₂, w₃, -, rfl⟩ := Plan.of_dir_ok hdir
  exact (Store.job_spec hj).2.1

/-- A refresh that completes has rejected no file, and did each of its jobs by one act. -/
theorem Plan.Completes.tells {dirs : List Path} {st st' : Store} {plan : Plan} {w : σ}
    {journal : List Act} (hplan : ((Plan.ofDirs h s st dirs).run w).1 = .ok plan)
    (hc : plan.Completes h s st st') (ht : st.Tells journal) : plan.rejected = [] ∧ ∃ acts,
      List.Forall₂ (fun j a => j.Acts h s a ∧ a.complete) plan.jobs acts ∧
        st'.Tells (journal ++ acts) := by
  obtain ⟨items, r', hy, hdone, hclean⟩ := hc
  exact hy.tells rfl (of_dirs_working hplan) ht hdone hclean

theorem Run.Yields.working {r r' : Run} {st st' : Store} {items : List Progress}
    (hy : r.Yields h s st items r' st') (hr : r.Working) : r'.Working := by
  induction hy with
  | nothing => exact hr
  | turn w hturn _ ih =>
    subst hturn
    exact ih ((Run.next_leads w).working hr)

theorem Run.Yields.reached {S : Settings → Prop} {R : Rules} {r r' : Run} {st st' : Store}
    {items : List Progress} (hy : r.Yields h s st items r' st') (hs : S s) (hallow : R.Allow h)
    (hr : r.Working) (hst : Reached S R st) : Reached S R st' := by
  induction hy with
  | nothing => exact hst
  | turn w hturn _ ih =>
    subst hturn
    exact ih ((Run.next_leads w).working hr) (.turn w hst hs hallow hr)

theorem Refreshes.reached {S : Settings → Prop} {R : Rules} {dirs : List Path} {st st' : Store}
    (hr : Refreshes h s dirs st st') (hs : S s) (hallow : R.Allow h) (hst : Reached S R st) :
    Reached S R st' := by
  obtain ⟨w, plan, items, r', hplan, hy, -⟩ := hr
  exact hy.reached hs hallow (Plan.of_dirs_working hplan) hst

theorem Completes.refreshes {dirs : List Path} {st st' : Store} (hc : Completes h s dirs st st') :
    Refreshes h s dirs st st' := by
  obtain ⟨w, plan, hplan, items, r', hy, hdone, -⟩ := hc
  exact ⟨w, plan, items, r', hplan, hy, hdone⟩

theorem Completes.reached {S : Settings → Prop} {R : Rules} {dirs : List Path} {st st' : Store}
    (hc : Completes h s dirs st st') (hs : S s) (hallow : R.Allow h) (hst : Reached S R st) :
    Reached S R st' := hc.refreshes.reached hs hallow hst

end

/-- Acts on a file bring about what each of them does to the file as it was, and keeps. -/
theorem standing_append {k : ArtifactKind} {scope : Scope} {p : Path} {journal acts : List Act}
    (holds : Standing → Prop) (hleaves : ∀ a ∈ acts, a.touches k scope p →
      ∀ y, y = standing k scope p journal ∨ holds y → holds (a.leaves y)) :
    if acts.any (·.touches k scope p) then holds (standing k scope p (journal ++ acts))
    else standing k scope p (journal ++ acts) = standing k scope p journal := by
  induction acts using List.reverseRecOn with
  | nil => simp
  | append_singleton acts a ih =>
    have hacts := ih fun b hb => hleaves b (List.mem_append_left _ hb)
    rw [← List.append_assoc, standing_snoc, List.any_append]
    by_cases ha : a.touches k scope p
    · have hbefore : standing k scope p (journal ++ acts) = standing k scope p journal ∨
          holds (standing k scope p (journal ++ acts)) := by
        split at hacts
        · exact Or.inr hacts
        · exact Or.inl hacts
      simpa [ha] using hleaves a (by simp) ha _ hbefore
    · simpa [ha] using hacts

/-- After acts for all of some jobs, a file stands as the jobs for it bring about, or as it did if
there is none. -/
theorem standing_of_jobs {σ : Type} {h : Host σ} {s : Settings} {jobs : List Job} {acts : List Act}
    (hacts : List.Forall₂ (fun j a => j.Acts h s a ∧ a.complete) jobs acts) {k : ArtifactKind}
    {scope : Scope} {p : Path} (holds : Standing → Prop)
    (hleaves : ∀ j ∈ jobs, scope.stem = j.scope.stem → p = j.path → ∀ a, j.Acts h s a →
      a.complete → ∀ y, holds (a.leaves y)) (journal : List Act) :
    ((∃ j ∈ jobs, scope.stem = j.scope.stem ∧ p = j.path) →
        holds (standing k scope p (journal ++ acts))) ∧
      ((∀ j ∈ jobs, scope.stem = j.scope.stem → p ≠ j.path) →
        standing k scope p (journal ++ acts) = standing k scope p journal) := by
  have hactsleave : ∀ a ∈ acts, a.touches k scope p →
      ∀ y, y = standing k scope p journal ∨ holds y → holds (a.leaves y) := by
    intro a ha htouches y _
    obtain ⟨j, hj, hact, hcomplete⟩ := exists_left_of_forall₂ hacts ha
    obtain ⟨hstem, hpath⟩ := (touches_of_acts hact).mp htouches
    exact hleaves j hj hstem hpath a hact hcomplete y
  have happended := standing_append holds hactsleave
  constructor
  · intro hjob
    obtain ⟨j, hj, hsame⟩ := hjob
    obtain ⟨a, ha, hact, -⟩ := exists_right_of_forall₂ hacts hj
    rwa [if_pos (List.any_eq_true.mpr ⟨a, ha, (touches_of_acts hact).mpr hsame⟩)] at happended
  · intro hnone
    rwa [if_neg] at happended
    intro htouched
    obtain ⟨a, ha, htouches⟩ := List.any_eq_true.mp htouched
    obtain ⟨j, hj, hact, -⟩ := exists_left_of_forall₂ hacts ha
    obtain ⟨hstem, hpath⟩ := (touches_of_acts hact).mp htouches
    exact hnone j hj hstem hpath

end CodeIndex
