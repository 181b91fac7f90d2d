import CodeIndex.Proofs.AtRest

namespace CodeIndex

/-- Every path of a directory is recorded as it is to be. -/
def Store.UpToDate (st : Store) (files : Files) (s : Settings) (dir : Path) : Prop :=
  ∀ p record, files.record? s dir p = some record →
    ∀ k, st.hash? ((files.scope dir).slot k p) = record

section
variable {σ : Type} {h : Host σ} {files : Files} {s : Settings} {st st' : Store} {dirs : List Path}

/-- Whatever the records were, the jobs of a refresh that completes bring them up to date. -/
theorem Completes.up_to_date {journal : List Act} (ht : st.Tells journal)
    (hshows : h.Shows files) (hapart : files.Apart dirs)
    (hc : Completes h s dirs st st') : ∀ dir ∈ dirs, st'.UpToDate files s dir ∧
      ∃ listed, files.list dir = .ok listed ∧
        listed.filterMap (files.rejected? s.maxFileSize) = [] := by
  obtain ⟨w, plan, hplan, hcompletes⟩ := hc
  obtain ⟨hnone, acts, hacts, ht'⟩ := hcompletes.tells hplan ht
  rw [of_dirs_at_rest hshows] at hplan
  obtain ⟨hlists, -, hrejected⟩ := plan_dirs_ok hplan
  intro dir hdir
  obtain ⟨listed, hlist⟩ := hlists dir hdir
  refine ⟨?_, listed, hlist, ?_⟩
  · intro p record hrecord k
    have hleaves : ∀ j ∈ plan.jobs, (files.scope dir).stem = j.scope.stem → p = j.path →
        ∀ a, j.Acts h s a → a.complete → ∀ y, (a.leaves y).recorded.map hashBytes = record := by
      intro j hj hstem hpath a hact hcomplete y
      obtain ⟨dir', hdir', hof⟩ := job_of_planned hplan hj
      rw [hof.scope] at hstem
      cases hapart dir hdir dir' hdir' hstem
      have hleft := recorded_at_rest hshows hof hact hcomplete y
      rw [← hpath, hrecord] at hleft
      exact (Option.some.inj hleft).symm
    obtain ⟨hjob, hnojob⟩ := standing_of_jobs hacts (k := k)
      (fun x => x.recorded.map hashBytes = record) hleaves journal
    rw [ht'.hash]
    by_cases hsome : ∃ j ∈ plan.jobs, (files.scope dir).stem = j.scope.stem ∧ p = j.path
    · exact hjob hsome
    · -- Without a job for the path, its records were up to date before.
      rw [hnojob fun j hj hstem hpath => hsome ⟨j, hj, hstem, hpath⟩, ← ht.hash]
      by_contra hother
      obtain ⟨j, hj, hscope, hpath⟩ := (planned_iff hplan hdir p).mpr ⟨record, hrecord, k, hother⟩
      exact hsome ⟨j, hj, congrArg Scope.stem hscope.symm, hpath.symm⟩
  · rw [List.eq_nil_iff_forall_not_mem]
    intro r hr
    have hmem := (hrejected r).mpr ⟨dir, hdir, listed, hlist, hr⟩
    rw [hnone] at hmem
    cases hmem

/-- There is no work on directories that are up to date. -/
theorem plan_of_up_to_date (hcurrent : ∀ dir ∈ dirs, st.UpToDate files s dir ∧
    ∃ listed, files.list dir = .ok listed ∧
      listed.filterMap (files.rejected? s.maxFileSize) = []) :
    files.planDirs s st dirs = .ok .empty := by
  have hlists : ∀ dir ∈ dirs, ∃ listed, files.list dir = .ok listed := by
    intro dir hdir
    obtain ⟨-, listed, hlist, -⟩ := hcurrent dir hdir
    exact ⟨listed, hlist⟩
  obtain ⟨plan, hplan⟩ : ∃ plan, files.planDirs s st dirs = .ok plan := plan_dirs_total hlists
  obtain ⟨-, -, hrejected⟩ := plan_dirs_ok hplan
  have hnojobs : plan.jobs = [] := by
    rw [List.eq_nil_iff_forall_not_mem]
    intro j hj
    obtain ⟨dir, hdir, hof⟩ := job_of_planned hplan hj
    obtain ⟨record, hrecord, k, hother⟩ :=
      (planned_iff hplan hdir j.path).mp ⟨j, hj, hof.scope, rfl⟩
    exact hother ((hcurrent dir hdir).1 j.path record hrecord k)
  have hnone : plan.rejected = [] := by
    rw [List.eq_nil_iff_forall_not_mem]
    intro r hr
    obtain ⟨dir, hdir, listed, hlist, hr⟩ := (hrejected r).mp hr
    obtain ⟨-, listed', hlist', hempty⟩ := hcurrent dir hdir
    cases hlist.symm.trans hlist'
    rw [hempty] at hr
    cases hr
  rw [hplan]
  obtain ⟨jobs, rejected⟩ := plan
  cases hnojobs
  cases hnone
  rfl

end

/-- A computation beside a log that it does not know of. -/
def besides (x : StateM σ α) : StateM (σ × List (List Text)) α := fun w =>
  ((x.run w.1).1, ((x.run w.1).2, w.2))

/-- The host with a log of the batches that its provider was asked to embed. -/
def Host.logged (h : Host σ) : Host (σ × List (List Text)) where
  dirs := besides h.dirs
  branch dir := besides (h.branch dir)
  list dir := besides (h.list dir)
  read p := besides (h.read p)
  embed batch := fun w =>
    (((h.embed batch).run w.1).1, (((h.embed batch).run w.1).2, w.2 ++ [batch]))
  isCancelled := besides h.isCancelled
  isPaused := besides h.isPaused

section
variable {σ : Type} {h : Host σ} {files : Files} {s : Settings} {st : Store} {dirs : List Path}

theorem Host.logged_shows (hshows : h.Shows files) : h.logged.Shows files :=
  ⟨fun dir w => hshows.branch dir w.1, fun dir w => hshows.list dir w.1,
    fun p w => hshows.read p w.1⟩

theorem read_within_log (limit : Nat) (p : Path) (w : σ × List (List Text)) :
    ((h.logged.readWithin limit p).run w).2.2 = w.2 := by
  rw [Host.readWithin, run_bind]
  split
  · rfl
  · split <;> rfl

theorem read_all_log (limit : Nat) (listed : List Path) (w : σ × List (List Text)) :
    ((Plan.readAll h.logged limit listed).run w).2.2 = w.2 := by
  induction listed generalizing w with
  | nil => rfl
  | cons p ps ih =>
    have hread := read_within_log (h := h) limit p w
    rw [Plan.readAll, run_bind, run_bind]
    generalize (h.logged.readWithin limit p).run w = answer at hread ⊢
    obtain ⟨bytes, w₁⟩ := answer
    cases bytes with
    | ok bytes => exact (ih w₁).trans hread
    | error e => exact (ih w₁).trans hread

theorem of_dir_log (dir : Path) (w : σ × List (List Text)) :
    ((Plan.ofDir h.logged s (fun _ => st) dir).run w).2.2 = w.2 := by
  rw [Plan.ofDir, run_bind]
  split
  · rfl
  · rw [run_bind, run_bind]
    exact read_all_log s.maxFileSize _ _

/-- A plan is made without asking the provider. -/
theorem of_dirs_log (dirs : List Path) (w : σ × List (List Text)) :
    ((Plan.ofDirs h.logged s st dirs).run w).2.2 = w.2 := by
  induction dirs generalizing w with
  | nil => rfl
  | cons dir dirs ih =>
    rw [Plan.ofDirs, run_bind]
    split
    · exact of_dir_log dir w
    · rw [run_bind]
      split
      · exact (ih _).trans (of_dir_log dir w)
      · exact (ih _).trans (of_dir_log dir w)

/-- A refresh without a job announces that and is done. It asks no further question. -/
theorem refresh_dirs_empty {w : σ} (hplan : ((Plan.ofDirs h s st dirs).run w).1 = .ok .empty) :
    (refreshDirs h s dirs st).run w =
      (([.loading "0 files to index", .done "indexed 0 files, 0 failed"], st),
        ((Plan.ofDirs h s st dirs).run w).2) := by
  rw [refreshDirs, run_bind]
  generalize (Plan.ofDirs h s st dirs).run w = answer at hplan ⊢
  obtain ⟨plan, w₁⟩ := answer
  cases hplan
  have hturns : (Run.drain h s (.ofPlan .empty) st).run w₁ =
      (([.loading (toString 0 ++ " files to index"),
        .done ("indexed " ++ toString (0 - 0) ++ " files, " ++ toString 0 ++ " failed")],
        .ended, ⟨.over, [], 0, 0, 0⟩, st), w₁) := rfl
  simp only [run_bind, hturns, run_pure]
  have hloading : toString 0 ++ " files to index" = "0 files to index" := by decide
  have hdone : "indexed " ++ toString (0 - 0) ++ " files, " ++ toString 0 ++ " failed" =
      "indexed 0 files, 0 failed" := by decide
  rw [hloading, hdone]

end

/-- After a refresh that is done without a failure, while files and branches stay as they are, a
second refresh finds nothing to do, whatever its provider is and whatever its switches say: it
yields two items, asks for no embedding and leaves the store as it is. -/
theorem second_refresh_idle {σ τ : Type} {h : Host σ} {h' : Host τ} {files : Files} {s : Settings}
    {S : Settings → Prop} {R : Rules} {st st' : Store} {dirs : List Path} (hst : Reached S R st)
    (hshows : h.Shows files) (hshows' : h'.Shows files)
    (hkeys : ∀ dir ∈ dirs, ∀ dir' ∈ dirs, ∀ k,
      ((files.scope dir).tagFor k).key = ((files.scope dir').tagFor k).key → dir = dir')
    (hc : Completes h s dirs st st') (w : τ) (log : List (List Text)) : ∃ w',
      (refreshDirs h'.logged s dirs st').run (w, log) =
        (([.loading "0 files to index", .done "indexed 0 files, 0 failed"], st'), (w', log)) := by
  have hapart := Files.apart_of_keys hkeys
  obtain ⟨journal, -, ht⟩ := hst.tells
  have hcurrent := hc.up_to_date ht hshows hapart
  have hplan : ((Plan.ofDirs h'.logged s st' dirs).run (w, log)).1 = .ok .empty := by
    rw [of_dirs_at_rest (Host.logged_shows hshows')]
    exact plan_of_up_to_date hcurrent
  refine ⟨((Plan.ofDirs h'.logged s st' dirs).run (w, log)).2.1, ?_⟩
  rw [refresh_dirs_empty hplan]
  exact Prod.ext rfl (Prod.ext rfl (of_dirs_log dirs (w, log)))

/-- A workspace of one file in two nested directories. -/
def Files.nested : Files := .ofList [("/d/e/a.md", [97])]

theorem nested_apart : Files.nested.Apart ["/d", "/d/e"] := by decide

/-- The second time, the provider would fail and the switches are on. -/
theorem second_refresh_idle_nested : ∃ st,
    Reached (· = .standard) .refreshing .empty ∧
    Completes (Files.nested.host (answering fun _ => [.one])) .standard ["/d", "/d/e"] .empty st ∧
    st.catalog.length = 8 ∧ ∃ w',
      (refreshDirs (Files.nested.switched failing).logged .standard ["/d", "/d/e"] st).run
        (⟨[true], [true]⟩, []) =
        (([.loading "0 files to index", .done "indexed 0 files, 0 failed"], st), (w', [])) := by
  obtain ⟨st, hc, hcatalog⟩ : ∃ st,
      Completes (Files.nested.host (answering fun _ => [.one])) .standard ["/d", "/d/e"] .empty st ∧
        st.catalog.length = 8 := by
    refine ⟨_, completes_of_done (w := ()) ?_ ?_, ?_⟩
    all_goals decide +kernel
  have hst : Reached (· = .standard) .refreshing .empty := .empty
  exact ⟨st, hst, hc, hcatalog, second_refresh_idle hst (Files.host_shows _ _)
    (Files.switched_shows _ _) nested_apart.keys hc _ _⟩

end CodeIndex
