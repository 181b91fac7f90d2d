import CodeIndex.Proofs.Atomicity
import CodeIndex.Proofs.Endings
import CodeIndex.Proofs.UpToDate

namespace CodeIndex

/-- Two stores hold the same rows and the same records in every place. The numbers that join the two
full-text tables may differ. -/
structure Store.Alike (st st' : Store) : Prop where
  rows : ∀ k slot, st.rowsOf k slot = st'.rowsOf k slot
  records : ∀ slot, st.catalog.rows slot = st'.catalog.rows slot

/-- All that was done to a store is what is to be done about the paths of some jobs. -/
structure Store.Advances (files : Files) (s : Settings)
    (provider : List Text → Except ProviderError (List Embedding)) (dirs : List Path)
    (journal : List Act) (st : Store) (jobs : List Job) (st' : Store) : Prop where
  tells : st'.Tells (journal ++ files.acts s provider jobs)
  rows : ∀ k slot, (∀ dir ∈ dirs, ∀ p, slot ≠ (files.scope dir).slot k p) →
    st'.rowsOf k slot = st.rowsOf k slot
  records : ∀ slot, (∀ dir ∈ dirs, ∀ k p, slot ≠ (files.scope dir).slot k p) →
    st'.catalog.rows slot = st.catalog.rows slot

section
variable {σ : Type} {h : Host σ} {files : Files} {s : Settings} {R : Rules} {st st₁ st₂ st' : Store}
  {provider : List Text → Except ProviderError (List Embedding)} {dirs : List Path} {plan : Plan}
  {journal : List Act}

/-- Jobs for some directories change nothing that is filed elsewhere. -/
theorem Store.Applies.outside {told : List Told} (ha : st.Applies h s told st')
    (hscope : ∀ x ∈ told, ∃ dir ∈ dirs, x.job.scope = files.scope dir) :
    (∀ k slot, (∀ dir ∈ dirs, ∀ p, slot ≠ (files.scope dir).slot k p) →
        st'.rowsOf k slot = st.rowsOf k slot) ∧
      ∀ slot, (∀ dir ∈ dirs, ∀ k p, slot ≠ (files.scope dir).slot k p) →
        st'.catalog.rows slot = st.catalog.rows slot := by
  obtain ⟨hrows, hrecords⟩ := ha.elsewhere
  constructor
  · intro k slot hslot
    refine hrows k slot fun x hx => ?_
    obtain ⟨dir, hdir, hsame⟩ := hscope x hx
    rw [hsame]
    exact hslot dir hdir x.job.path
  · intro slot hslot
    refine hrecords slot fun x hx hin => ?_
    obtain ⟨dir, hdir, hsame⟩ := hscope x hx
    obtain ⟨k, hk⟩ := Scope.mem_slots.mp hin
    rw [hsame] at hk
    exact hslot dir hdir k x.job.path hk

/-- However far a refresh got, it has done what is to be done about its first jobs, and those that
it reported as indexed are done in full. -/
theorem Run.Yields.advances (hserves : h.Serves files provider)
    (hplan : files.planDirs s st dirs = .ok plan) {items : List Progress} {r : Run}
    (hy : (Run.ofPlan plan).Yields h s st items r st') (ht : st.Tells journal) : ∃ told,
      told.map Told.job <+: plan.jobs ∧ items.filter Progress.isVerdict = plan.verdicts told ∧
      st.Advances files s provider dirs journal (told.map Told.job) st' ∧
      (∀ x ∈ told, x.fate.isClean → x.job.InFull files s provider) ∧
      ((∃ item ∈ items, item.status = .done) → told.map Told.job = plan.jobs) := by
  obtain ⟨told, htaken, hs⟩ := hy.tells_of
  obtain ⟨c, htold, -⟩ := hs.begins
  have hof : ∀ x ∈ told, ∃ dir ∈ dirs, x.job.Of files s dir := by
    intro x hx
    exact job_of_planned hplan (htold.subset (List.mem_map_of_mem hx))
  obtain ⟨htells, hclean⟩ := htaken.outcome hserves hof ht
  have hscope : ∀ x ∈ told, ∃ dir ∈ dirs, x.job.scope = files.scope dir := by
    intro x hx
    obtain ⟨dir, hdir, hj⟩ := hof x hx
    exact ⟨dir, hdir, hj.scope⟩
  obtain ⟨hrows, hrecords⟩ := (htaken.applies ht.linked).2.outside hscope
  refine ⟨told, htold, hs.verdicts, ⟨htells, hrows, hrecords⟩, hclean, ?_⟩
  intro hdone
  have hworking : ∀ j ∈ plan.jobs, j.change ≠ .unchanged := by
    intro j hj
    obtain ⟨dir, -, hj⟩ := job_of_planned hplan hj
    exact hj.working
  exact (hs.done hworking hdone).2.1

theorem Refreshes.advances (hserves : h.Serves files provider) (hr : Refreshes h s dirs st st')
    (ht : st.Tells journal) : ∃ plan, files.planDirs s st dirs = .ok plan ∧
      st.Advances files s provider dirs journal plan.jobs st' := by
  obtain ⟨w, plan, items, r, hplan, hy, hdone⟩ := hr
  rw [of_dirs_at_rest hserves.toShows] at hplan
  obtain ⟨told, -, -, hadvances, -, hall⟩ := hy.advances hserves hplan ht
  rw [hall hdone] at hadvances
  exact ⟨plan, hplan, hadvances⟩

/-- Some jobs of a plan are done, then those of the next plan. That leaves every path as the jobs of
the first plan would have left it, had they all been done. -/
theorem standing_resumed (hapart : files.Apart dirs)
    (hplan : files.planDirs s st dirs = .ok plan) {jobs : List Job} (hjobs : jobs <+: plan.jobs)
    (ht : st.Tells journal) (ht₁ : st₁.Tells (journal ++ files.acts s provider jobs))
    {plan₂ : Plan} (hplan₂ : files.planDirs s st₁ dirs = .ok plan₂) {dir : Path}
    (hdir : dir ∈ dirs) (k : ArtifactKind) (p : Path) :
    standing k (files.scope dir) p
        (journal ++ files.acts s provider jobs ++ files.acts s provider plan₂.jobs) =
      standing k (files.scope dir) p (journal ++ files.acts s provider plan.jobs) := by
  have hof : ∀ j ∈ plan.jobs, ∃ dir ∈ dirs, j.Of files s dir := fun j hj => job_of_planned hplan hj
  have hof₁ : ∀ j ∈ jobs, ∃ dir ∈ dirs, j.Of files s dir := fun j hj => hof j (hjobs.subset hj)
  have hof₂ : ∀ j ∈ plan₂.jobs, ∃ dir ∈ dirs, j.Of files s dir := fun j hj =>
    job_of_planned hplan₂ hj
  obtain ⟨hall, hnone⟩ := standing_acts provider hapart hof hdir k p journal
  obtain ⟨hall₂, hnone₂⟩ := standing_acts provider hapart hof₂ hdir k p
    (journal ++ files.acts s provider jobs)
  by_cases hfirst : ∃ j ∈ jobs, j.scope = files.scope dir ∧ j.path = p
  · -- The path is done, and may be done once more.
    have hplanned : ∃ j ∈ plan.jobs, j.scope = files.scope dir ∧ j.path = p := by
      obtain ⟨j, hj, hsame⟩ := hfirst
      exact ⟨j, hjobs.subset hj, hsame⟩
    have hdone := (standing_acts provider hapart hof₁ hdir k p journal).1 hfirst
    rw [hall hplanned]
    by_cases hagain : ∃ j ∈ plan₂.jobs, j.scope = files.scope dir ∧ j.path = p
    · rw [hall₂ hagain, hdone, leave_leave]
    · rw [hnone₂ hagain, hdone]
  · -- Nothing is done about the path, so that it is planned again if it was planned.
    have hkept : ∀ l, standing l (files.scope dir) p (journal ++ files.acts s provider jobs) =
        standing l (files.scope dir) p journal := fun l =>
      (standing_acts provider hapart hof₁ hdir l p journal).2 hfirst
    have hsame : ∀ l, st₁.hash? ((files.scope dir).slot l p) =
        st.hash? ((files.scope dir).slot l p) := by
      intro l
      rw [ht₁.hash, ht.hash, hkept]
    have hagain : (∃ j ∈ plan₂.jobs, j.scope = files.scope dir ∧ j.path = p) ↔
        ∃ j ∈ plan.jobs, j.scope = files.scope dir ∧ j.path = p := by
      rw [planned_iff hplan₂ hdir, planned_iff hplan hdir]
      simp only [hsame]
    by_cases hplanned : ∃ j ∈ plan.jobs, j.scope = files.scope dir ∧ j.path = p
    · rw [hall hplanned, hall₂ (hagain.mpr hplanned), hkept]
    · rw [hnone hplanned, hnone₂ fun h => hplanned (hagain.mp h), hkept]

/-- Stores are alike if all paths of some directories stand alike and they hold the same outside of
these. -/
theorem Store.Tells.alike {journal' : List Act} (ht : st.Tells journal)
    (ht' : st'.Tells journal')
    (hstands : ∀ dir ∈ dirs, ∀ k p,
      standing k (files.scope dir) p journal = standing k (files.scope dir) p journal')
    (hrows : ∀ k slot, (∀ dir ∈ dirs, ∀ p, slot ≠ (files.scope dir).slot k p) →
      st.rowsOf k slot = st'.rowsOf k slot)
    (hrecords : ∀ slot, (∀ dir ∈ dirs, ∀ k p, slot ≠ (files.scope dir).slot k p) →
      st.catalog.rows slot = st'.catalog.rows slot) : st.Alike st' := by
  constructor
  · intro k slot
    by_cases hin : ∃ dir ∈ dirs, ∃ p, slot = (files.scope dir).slot k p
    · obtain ⟨dir, hdir, p, rfl⟩ := hin
      rw [ht.rows, ht'.rows, hstands dir hdir k p]
    · exact hrows k slot fun dir hdir p heq => hin ⟨dir, hdir, p, heq⟩
  · intro slot
    by_cases hin : ∃ dir ∈ dirs, ∃ k p, slot = (files.scope dir).slot k p
    · obtain ⟨dir, hdir, k, p, rfl⟩ := hin
      rw [ht.records, ht'.records, hstands dir hdir k p]
    · exact hrecords slot fun dir hdir k p heq => hin ⟨dir, hdir, k, p, heq⟩

/-- A job that is done in full is not planned again. -/
theorem not_planned_again (hapart : files.Apart dirs) {jobs : List Job}
    (hjobs : ∀ j ∈ jobs, ∃ dir ∈ dirs, j.Of files s dir)
    (ht₁ : st₁.Tells (journal ++ files.acts s provider jobs)) {plan₂ : Plan}
    (hplan₂ : files.planDirs s st₁ dirs = .ok plan₂) {j : Job} (hj : j ∈ jobs)
    (hdone : j.InFull files s provider) :
    ∀ j' ∈ plan₂.jobs, ¬ (j'.scope = j.scope ∧ j'.path = j.path) := by
  intro j' hj' hsame
  obtain ⟨dir, hdir, hof⟩ := hjobs j hj
  rw [hof.scope] at hsame
  obtain ⟨record, hrecord, k, hother⟩ := (planned_iff hplan₂ hdir j.path).mp ⟨j', hj', hsame⟩
  obtain ⟨a, hact, hcomplete⟩ := hdone
  rw [hof.directory] at hact
  have hstands :=
    (standing_acts provider hapart hjobs hdir k j.path journal).1 ⟨j, hj, hof.scope, rfl⟩
  refine hother ?_
  rw [record_of_act hact hcomplete (standing k (files.scope dir) j.path journal)] at hrecord
  rw [ht₁.hash, hstands, Files.leave, hact]
  exact Option.some.inj hrecord

/-- The reports of a refresh are about its first jobs, one by one. -/
theorem verdict_of_job {told : List Told} (htold : told.map Told.job <+: plan.jobs)
    {x : Job × Progress} (hx : x ∈ plan.jobs.zip (plan.verdicts told)) :
    ∃ y ∈ told, y.job = x.1 ∧ ∃ fraction, x.2 = y.fate.item fraction y.job := by
  obtain ⟨n, hn, rfl⟩ := List.mem_iff_getElem.mp hx
  have hlength : n < told.length := by
    simp only [List.length_zip, Plan.verdicts, List.length_map, List.length_zipIdx] at hn
    omega
  refine ⟨told[n], List.getElem_mem hlength, ?_, ?_⟩
  · have hjob := htold.getElem (show n < (told.map Told.job).length by simpa using hlength)
    simp only [List.getElem_zip, ← hjob, List.getElem_map]
  · simp only [List.getElem_zip, Plan.verdicts, List.getElem_map, List.getElem_zipIdx]
    exact ⟨_, rfl⟩

theorem clean_of_indexing {fate : Job.Fate} {fraction : Binary32} {j : Job}
    (hstatus : (fate.item fraction j).status = .indexing) : fate.isClean := by
  cases fate with
  | written lost =>
    cases lost with
    | zero => rfl
    | succ lost => simp [Job.Fate.item] at hstatus
  | failed e => simp [Job.Fate.item] at hstatus

end

/-- A refresh that is cut off anywhere, while the files stay as they are and the provider answers
every batch by a fixed function. A refresh after it can be brought to its end, leaves the store that
one refresh would have left, and has no job for a file that the first one has indexed. -/
theorem resume_equals_uninterrupted {σ τ υ : Type} {h : Host σ} {h₂ : Host τ} {h' : Host υ}
    {files : Files} {s : Settings} {S : Settings → Prop} {R : Rules} {st st₁ : Store}
    {provider : List Text → Except ProviderError (List Embedding)} {dirs : List Path} {w : σ}
    {plan : Plan} {items : List Progress} {r : Run} (hst : Reached S R st)
    (hserves : h.Serves files provider) (hserves₂ : h₂.Serves files provider)
    (hserves' : h'.Serves files provider)
    (hkeys : ∀ dir ∈ dirs, ∀ dir' ∈ dirs, ∀ k,
      ((files.scope dir).tagFor k).key = ((files.scope dir').tagFor k).key → dir = dir')
    (hplan : ((Plan.ofDirs h s st dirs).run w).1 = .ok plan)
    (hcut : (Run.ofPlan plan).Yields h s st items r st₁) :
    (∃ st₂, Refreshes (files.host provider) s dirs st₁ st₂) ∧
    (∃ st', Refreshes (files.host provider) s dirs st st') ∧
    (∀ st₂ st', Refreshes h₂ s dirs st₁ st₂ → Refreshes h' s dirs st st' → st₂.Alike st') ∧
    ∀ w₂ plan₂, ((Plan.ofDirs h₂ s st₁ dirs).run w₂).1 = .ok plan₂ →
      ∀ x ∈ plan.jobs.zip (items.filter Progress.isVerdict), x.2.status = .indexing →
        ∀ j ∈ plan₂.jobs, ¬ (j.scope = x.1.scope ∧ j.path = x.1.path) := by
  have hapart := Files.apart_of_keys hkeys
  obtain ⟨journal, -, ht⟩ := hst.tells
  rw [of_dirs_at_rest hserves.toShows] at hplan
  obtain ⟨told, htold, hverdicts, hfirst, hclean, -⟩ := hcut.advances hserves hplan ht
  have ht₁ := hfirst.tells
  have hof : ∀ j ∈ told.map Told.job, ∃ dir ∈ dirs, j.Of files s dir := fun j hj =>
    job_of_planned hplan (htold.subset hj)
  refine ⟨?_, refreshes_at_rest provider hplan ht, ?_, ?_⟩
  · obtain ⟨plan₂, hplan₂⟩ : ∃ plan₂, files.planDirs s st₁ dirs = .ok plan₂ :=
      plan_dirs_total (plan_dirs_ok hplan).1
    exact refreshes_at_rest provider hplan₂ ht₁
  · intro st₂ st' hsecond hwhole
    obtain ⟨plan₂, hplan₂, hrest⟩ := hsecond.advances hserves₂ ht₁
    obtain ⟨plan', hplan', hall⟩ := hwhole.advances hserves' ht
    cases hplan.symm.trans hplan'
    have hstands : ∀ dir ∈ dirs, ∀ k p,
        standing k (files.scope dir) p (journal ++ files.acts s provider (told.map Told.job) ++
          files.acts s provider plan₂.jobs) =
        standing k (files.scope dir) p (journal ++ files.acts s provider plan.jobs) :=
      fun dir hdir k p => standing_resumed hapart hplan htold ht ht₁ hplan₂ hdir k p
    refine hrest.tells.alike hall.tells hstands ?_ ?_
    · intro k slot hslot
      rw [hrest.rows k slot hslot, hfirst.rows k slot hslot, hall.rows k slot hslot]
    · intro slot hslot
      rw [hrest.records slot hslot, hfirst.records slot hslot, hall.records slot hslot]
  · intro w₂ plan₂ hplan₂ x hx hstatus
    rw [of_dirs_at_rest hserves₂.toShows] at hplan₂
    rw [hverdicts] at hx
    obtain ⟨y, hy, hjob, fraction, hitem⟩ := verdict_of_job htold hx
    rw [hitem] at hstatus
    rw [← hjob]
    exact not_planned_again hapart hof ht₁ hplan₂ (List.mem_map_of_mem hy)
      (hclean y hy (clean_of_indexing hstatus))

/-- The jobs of two nested directories that are indexed for the first time. -/
def nestedPlan : Plan where
  jobs := [⟨⟨noBranch, "/d"⟩, "/d/e/a.md", .added, hashBytes [97]⟩,
    ⟨⟨noBranch, "/d/e"⟩, "/d/e/a.md", .added, hashBytes [97]⟩]
  rejected := []

/-- The refresh is cancelled while it writes the second file. The first one is settled. -/
theorem resume_equals_uninterrupted_cut : ∃ items r st₁ st₂ st',
    Reached (· = .standard) .refreshing .empty ∧
    (Run.ofPlan nestedPlan).Yields (Files.nested.switched (answering fun _ => [.one])) .standard
      .empty items r st₁ ∧
    (∃ x ∈ items, x.cancelled) ∧ st₁.catalog.length = 4 ∧
    Refreshes (Files.nested.host (answering fun _ => [.one])) .standard ["/d", "/d/e"] st₁ st₂ ∧
    Refreshes (Files.nested.host (answering fun _ => [.one])) .standard ["/d", "/d/e"] .empty st' ∧
    st₂.Alike st' ∧
    ∀ plan, ((Plan.ofDirs (Files.nested.host (answering fun _ => [.one])) .standard st₁
      ["/d", "/d/e"]).run ()).1 = .ok plan →
        ∀ j ∈ plan.jobs, ¬ (j.scope = ⟨noBranch, "/d"⟩ ∧ j.path = "/d/e/a.md") := by
  have hplan : ((Plan.ofDirs (Files.nested.switched (answering fun _ => [.one])) .standard .empty
      ["/d", "/d/e"]).run ⟨[], []⟩).1 = .ok nestedPlan := by decide +kernel
  obtain ⟨items, r, st₁, hy, hstopped, hcatalog, x, hx, hstatus, hscope, hpath⟩ :
      ∃ items r st₁, (Run.ofPlan nestedPlan).Yields
          (Files.nested.switched (answering fun _ => [.one])) .standard .empty items r st₁ ∧
        (∃ x ∈ items, x.cancelled) ∧ st₁.catalog.length = 4 ∧
        ∃ x ∈ nestedPlan.jobs.zip (items.filter Progress.isVerdict),
          x.2.status = .indexing ∧ x.1.scope = ⟨noBranch, "/d"⟩ ∧ x.1.path = "/d/e/a.md" := by
    refine ⟨_, _, _, Run.take_yields 4 _ .empty ⟨List.replicate 11 false ++ [true], []⟩, ?_, ?_, ?_⟩
    all_goals decide +kernel
  have hserves := Files.host_serves Files.nested (answering fun _ => [.one])
  obtain ⟨⟨st₂, hsecond⟩, ⟨st', hwhole⟩, halike, hsettled⟩ :=
    resume_equals_uninterrupted (Reached.empty : Reached (· = .standard) .refreshing .empty)
      (Files.switched_serves _ _) hserves hserves nested_apart.keys hplan hy
  refine ⟨items, r, st₁, st₂, st', .empty, hy, hstopped, hcatalog, hsecond, hwhole,
    halike st₂ st' hsecond hwhole, ?_⟩
  intro plan hagain
  have hnot := hsettled () plan hagain x hx hstatus
  rwa [hscope, hpath] at hnot

end CodeIndex
