import CodeIndex.Proofs.Outcomes

namespace CodeIndex

/-- A job that has something to do, and no file whose reading is cancelled. -/
structure Job.Goes (files : Files) (s : Settings) (j : Job) : Prop where
  working : j.change ≠ .unchanged
  read : j.change ≠ .removed →
    files.readWithin s.maxFileSize j.path ≠ .error .cancelled

theorem Job.Of.goes {files : Files} {s : Settings} {dir : Path} {j : Job} (hj : j.Of files s dir) :
    j.Goes files s := by
  refine ⟨hj.working, ?_⟩
  intro hchange
  obtain ⟨-, bytes, -, -, hread⟩ := hj.present hchange
  simp [hread]

section
variable {files : Files} {provider : List Text → Except ProviderError (List Embedding)}
  {s : Settings} {st : Store} {j : Job} {dirs : List Path} {journal : List Act}

theorem write_artifacts_run (j : Job) (e : FileEntry) (embedded : List Embedded)
    (kinds : List ArtifactKind) (n : Nat) (st : Store) :
    ((j.writeArtifacts (files.workspace dirs provider) s e embedded kinds n st).run ()).1 =
      st.updateAll s j.scope e j.change embedded kinds n := by
  induction kinds generalizing n st with
  | nil => rfl
  | cons kind kinds ih =>
    rw [Job.writeArtifacts, Store.updateAll]
    cases hu : st.update s kind (j.scope.tagFor kind) e j.change embedded with
    | error err => rfl
    | ok result => exact ih _ result.1

theorem is_cancelled_run : (files.workspace dirs provider).isCancelled.run () = (false, ()) := rfl

theorem prepare_run_ne_none (e : FileEntry) (change : Change) :
    ((prepare (files.workspace dirs provider) s e change).run ()).1 ≠ .ok none := by
  intro hmade
  cases change with
  | removed | unchanged => cases hmade
  | added | updated =>
    rw [prepare] at hmade
    cases hcut : (e.require .embeddings).bind (s.chunks e) with
    | error err =>
      rw [hcut] at hmade
      cases hmade
    | ok cs =>
      have htotal : ∀ batch w, (((files.workspace dirs provider).embed batch).run w).1 ≠ none := by
        intro batch w hnone
        cases hnone
      obtain ⟨embedded, hsome⟩ := embed_chunks_total htotal s e cs ()
      rw [hcut] at hmade
      simp only [run_bind, run_pure, hsome] at hmade
      cases hmade

/-- A file that was read and embedded is written as one update of the store. -/
theorem index_run {bytes : Bytes} {embedded : List Embedded}
    (hbytes : ((j.bytes (files.workspace dirs provider) s).run ()).1 = .ok bytes)
    (hmade : ((prepare (files.workspace dirs provider) s (j.entry bytes) j.change).run ()).1 =
      .ok (some embedded)) (st : Store) :
    ((j.index (files.workspace dirs provider) s st).run ()).1 =
      st.updateFile s j.scope (j.entry bytes) j.change embedded := by
  have hread : (j.bytes (files.workspace dirs provider) s).run () = (.ok bytes, ()) :=
    Prod.ext hbytes rfl
  have hembed : (prepare (files.workspace dirs provider) s (j.entry bytes) j.change).run () =
      (.ok (some embedded), ()) := Prod.ext hmade rfl
  have hwrite : (j.writeArtifacts (files.workspace dirs provider) s (j.entry bytes) embedded
      ArtifactKind.all 0 st).run () =
      (st.updateAll s j.scope (j.entry bytes) j.change embedded ArtifactKind.all 0, ()) :=
    Prod.ext (write_artifacts_run j _ embedded _ 0 st) rfl
  rw [Job.index, run_bind, hread]
  simp only [run_bind, is_cancelled_run, Bool.false_eq_true, if_false, hembed, hwrite]
  rw [Store.updateFile]
  cases st.updateAll s j.scope (j.entry bytes) j.change embedded ArtifactKind.all 0 <;> rfl

/-- A file that cannot be read is given up. -/
theorem index_unread {err : IndexError}
    (hbytes : ((j.bytes (files.workspace dirs provider) s).run ()).1 = .error err) (st : Store) :
    ((j.index (files.workspace dirs provider) s st).run ()).1 = .error err := by
  have hread : (j.bytes (files.workspace dirs provider) s).run () = (.error err, ()) :=
    Prod.ext hbytes rfl
  rw [Job.index, run_bind, hread]
  rfl

/-- A file that cannot be cut is given up. -/
theorem index_uncut {bytes : Bytes} {err : IndexError}
    (hbytes : ((j.bytes (files.workspace dirs provider) s).run ()).1 = .ok bytes)
    (hmade : ((prepare (files.workspace dirs provider) s (j.entry bytes) j.change).run ()).1 =
      .error err) (st : Store) :
    ((j.index (files.workspace dirs provider) s st).run ()).1 = .error err := by
  have hread : (j.bytes (files.workspace dirs provider) s).run () = (.ok bytes, ()) :=
    Prod.ext hbytes rfl
  have hfailed : (prepare (files.workspace dirs provider) s (j.entry bytes) j.change).run () =
      (.error err, ()) := Prod.ext hmade rfl
  rw [Job.index, run_bind, hread]
  simp only [run_bind, is_cancelled_run, Bool.false_eq_true, if_false, hfailed, run_pure]

theorem index_not_cancelled (dirs : List Path)
    (provider : List Text → Except ProviderError (List Embedding)) (hj : j.Goes files s)
    (hl : st.Linked) :
    ((j.index (files.workspace dirs provider) s st).run ()).1 ≠ .error .cancelled := by
  cases hbytes : ((j.bytes (files.workspace dirs provider) s).run ()).1 with
  | error err =>
    rw [index_unread hbytes]
    intro hcancelled
    cases hcancelled
    rw [Job.bytes] at hbytes
    split at hbytes
    · cases hbytes
    · rename_i hchange
      rw [read_within_at_rest (files.workspace_shows dirs provider)] at hbytes
      exact hj.read hchange hbytes
  | ok bytes =>
    cases hmade : ((prepare (files.workspace dirs provider) s (j.entry bytes) j.change).run ()).1
      with
    | error err =>
      rw [index_uncut hbytes hmade]
      intro hcancelled
      cases hcancelled
      cases cut_error (prepare_error hmade).2
    | ok made =>
      cases made with
      | none => exact absurd hmade (prepare_run_ne_none _ _)
      | some embedded =>
        obtain ⟨new, lost, hwrites⟩ := writes_of_prepared hj.working hmade
        obtain ⟨st', hu, -⟩ := hwrites.update_file hl
        rw [index_run hbytes hmade, hu]
        simp

/-- Once all rejected files are reported, a turn is a step. -/
theorem next_is_step {σ : Type} (h : Host σ) (s : Settings) {r : Run}
    (hstage : r.stage = .rejecting [] ∨ ∃ resumed, r.stage = .between resumed) (st : Store) :
    ∃ resumed, r.next h s st = r.step h s resumed st := by
  rcases hstage with hstage | ⟨resumed, hstage⟩
  · exact ⟨false, by rw [Run.next, hstage]⟩
  · exact ⟨resumed, by rw [Run.next, hstage]⟩

/-- The turn of a refresh at its first job. -/
theorem next_run {r : Run} {j : Job} {rest : List Job}
    (hstage : r.stage = .rejecting [] ∨ ∃ resumed, r.stage = .between resumed)
    (hjobs : r.jobs = j :: rest) (st : Store) :
    ((r.next (files.workspace dirs provider) s st).run ()).1 =
      r.report j rest st ((j.index (files.workspace dirs provider) s st).run ()).1 := by
  obtain ⟨resumed, hstep⟩ := next_is_step (files.workspace dirs provider) s hstage st
  rw [hstep, Run.step, hjobs]
  rfl

theorem next_run_done {r : Run}
    (hstage : r.stage = .rejecting [] ∨ ∃ resumed, r.stage = .between resumed)
    (hjobs : r.jobs = []) (st : Store) :
    ((r.next (files.workspace dirs provider) s st).run ()).1 = r.finish st := by
  obtain ⟨resumed, hstep⟩ := next_is_step (files.workspace dirs provider) s hstage st
  rw [hstep, Run.step, hjobs]
  cases resumed <;> rfl

/-- From between two files, all jobs are worked off. No failure is reported if each of them is one
of a directory that can be done in full. -/
theorem jobs_end (dirs : List Path)
    (provider : List Text → Except ProviderError (List Embedding)) {r : Run}
    (hstage : r.stage = .rejecting [] ∨ ∃ resumed, r.stage = .between resumed)
    (hjobs : ∀ j ∈ r.jobs, j.Goes files s) (hl : st.Linked) : ∃ items r' st',
      r.Yields (files.workspace dirs provider) s st items r' st' ∧
        (∃ item ∈ items, item.status = .done) ∧
        ((∀ j ∈ r.jobs, (∃ dir, j.Of files s dir) ∧ j.InFull files s provider) →
          ∀ item ∈ items, item.status ≠ .failed) := by
  generalize hlist : r.jobs = jobs at hjobs
  induction jobs generalizing r st with
  | nil =>
    have hturn : ((r.next (files.workspace dirs provider) s st).run ()).1 = r.finish st :=
      next_run_done hstage hlist st
    refine ⟨_, _, _, .turn () hturn (.nothing _ _), ?_, ?_⟩
    · simp [Run.finish, Progress.done, Progress.plain]
    · simp [Run.finish, Progress.done, Progress.plain]
  | cons j rest ih =>
    have hj := hjobs j List.mem_cons_self
    obtain ⟨fate, st₁, hsettles, hreport⟩ :=
      Run.report_settles r rest (index_not_cancelled dirs provider hj hl)
    have hturn : ((r.next (files.workspace dirs provider) s st).run ()).1 =
        r.settle j rest fate st₁ := by
      rw [next_run hstage hlist, hreport]
    obtain ⟨items, r', st', hy, ⟨item, hitem, hdone⟩, hfull⟩ :=
      ih (r := (r.settle j rest fate st₁).run) (Or.inr ⟨true, rfl⟩)
        (hsettles.linked hj.working hl) rfl fun i hi => hjobs i (List.mem_cons_of_mem _ hi)
    refine ⟨_, r', st', .turn () hturn hy, ⟨item, List.mem_append_right _ hitem, hdone⟩, ?_⟩
    intro hall found hfound
    rcases List.mem_append.mp hfound with hfound | hfound
    · obtain ⟨⟨dir, hof⟩, hinfull⟩ := hall j List.mem_cons_self
      have hclean := hsettles.clean_iff (files.workspace_serves dirs provider) hof hl
      have hindexed : fate = .written 0 := of_decide_eq_true (hclean.mpr hinfull)
      subst hindexed
      cases Option.mem_toList.mp hfound
      simp [Job.Fate.item]
    · exact hfull (fun i hi => hall i (List.mem_cons_of_mem _ hi)) found hfound

theorem rejects_end (dirs : List Path)
    (provider : List Text → Except ProviderError (List Embedding)) {rejected : List Rejected}
    {r : Run} (hstage : r.stage = .rejecting rejected) (hjobs : ∀ j ∈ r.jobs, j.Goes files s)
    (hl : st.Linked) : ∃ items r' st',
      r.Yields (files.workspace dirs provider) s st items r' st' ∧
        (∃ item ∈ items, item.status = .done) ∧
        (rejected = [] →
          (∀ j ∈ r.jobs, (∃ dir, j.Of files s dir) ∧ j.InFull files s provider) →
          ∀ item ∈ items, item.status ≠ .failed) := by
  induction rejected generalizing r with
  | nil =>
    obtain ⟨items, r', st', hy, hdone, hfull⟩ := jobs_end dirs provider (Or.inl hstage) hjobs hl
    exact ⟨items, r', st', hy, hdone, fun _ => hfull⟩
  | cons file rest ih =>
    have hturn : ((r.next (files.workspace dirs provider) s st).run ()).1 =
        r.reject file rest st := by
      rw [Run.next, hstage]
      rfl
    obtain ⟨items, r', st', hy, ⟨item, hitem, hdone⟩, -⟩ :=
      ih (r := (r.reject file rest st).run) rfl hjobs
    exact ⟨_, r', st', .turn () hturn hy, ⟨item, List.mem_append_right _ hitem, hdone⟩, by simp⟩

/-- Jobs that have something to do are worked off to the end, whatever fails. -/
theorem plan_runs (dirs : List Path)
    (provider : List Text → Except ProviderError (List Embedding)) {plan : Plan}
    (hjobs : ∀ j ∈ plan.jobs, j.Goes files s) (hl : st.Linked) : ∃ items r' st',
      (Run.ofPlan plan).Yields (files.workspace dirs provider) s st items r' st' ∧
        (∃ item ∈ items, item.status = .done) ∧
        (plan.rejected = [] →
          (∀ j ∈ plan.jobs, (∃ dir, j.Of files s dir) ∧ j.InFull files s provider) →
          ∀ item ∈ items, item.status ≠ .failed) := by
  obtain ⟨items, r', st', hy, ⟨item, hitem, hdone⟩, hfull⟩ := rejects_end dirs provider
    (r := ((Run.ofPlan plan).announce plan.rejected st).run) rfl hjobs hl
  have hturn : (((Run.ofPlan plan).next (files.workspace dirs provider) s st).run ()).1 =
      (Run.ofPlan plan).announce plan.rejected st := rfl
  refine ⟨_, r', st', .turn () hturn hy, ⟨item, List.mem_append_right _ hitem, hdone⟩, ?_⟩
  intro hnone hall found hfound
  rcases List.mem_append.mp hfound with hfound | hfound
  · cases Option.mem_toList.mp hfound
    simp [Progress.loading, Progress.plain]
  · exact hfull hnone hall found hfound

theorem plan_ends (provider : List Text → Except ProviderError (List Embedding))
    {dirs : List Path} {plan : Plan} (hplan : files.planDirs s st dirs = .ok plan)
    (ht : st.Tells journal) : ∃ items r' st',
      (Run.ofPlan plan).Yields (files.host provider) s st items r' st' ∧
        (∃ item ∈ items, item.status = .done) ∧
        (plan.rejected = [] → (∀ j ∈ plan.jobs, j.InFull files s provider) →
          ∀ item ∈ items, item.status ≠ .failed) := by
  have hof : ∀ j ∈ plan.jobs, ∃ dir, j.Of files s dir := by
    intro j hj
    obtain ⟨dir, -, hof⟩ := job_of_planned hplan hj
    exact ⟨dir, hof⟩
  have hgoes : ∀ j ∈ plan.jobs, j.Goes files s := by
    intro j hj
    obtain ⟨dir, hj⟩ := hof j hj
    exact hj.goes
  obtain ⟨items, r', st', hy, hdone, hfull⟩ := plan_runs [] provider hgoes ht.linked
  exact ⟨items, r', st', hy, hdone, fun hnone hall =>
    hfull hnone fun j hj => ⟨hof j hj, hall j hj⟩⟩

/-- Directories that can be listed are refreshed to the end. -/
theorem refreshes_at_rest (provider : List Text → Except ProviderError (List Embedding))
    {dirs : List Path} {plan : Plan} (hplan : files.planDirs s st dirs = .ok plan)
    (ht : st.Tells journal) : ∃ st', Refreshes (files.host provider) s dirs st st' := by
  obtain ⟨items, r', st', hy, hdone, -⟩ := plan_ends provider hplan ht
  refine ⟨st', (), plan, items, r', ?_, hy, hdone⟩
  rw [of_dirs_at_rest (files.host_shows provider), hplan]

/-- A provider that never fails loses nothing of a directory that can be indexed. -/
theorem in_full_of_indexable {f : Text → Embedding} {dir : Path} (hdir : files.Indexable s dir)
    (hj : j.Of files s dir) : j.InFull files s (answering f) := by
  obtain ⟨listed, hlist, hfits⟩ := hdir
  rw [Job.InFull, hj.directory, Files.act?, hlist]
  by_cases hp : j.path ∈ listed
  · obtain ⟨bytes, hbytes⟩ := hfits j.path hp
    obtain ⟨cs, hchunks⟩ := hbytes.chunks
    simp only [if_pos hp, hbytes.read_within, hchunks]
    refine ⟨_, rfl, ?_⟩
    rw [Act.complete, List.all_eq_true]
    intro vector hvector
    obtain ⟨batch, -, hvector⟩ := List.mem_flatMap.mp hvector
    rw [answering, vectorsOf, if_pos (List.length_map f)] at hvector
    obtain ⟨embedding, -, rfl⟩ := List.mem_map.mp hvector
    rfl
  · simp only [if_neg hp]
    exact ⟨_, rfl, rfl⟩

/-- Directories that can be indexed are refreshed without a failure if the provider never fails. -/
theorem completes_total (f : Text → Embedding) {dirs : List Path}
    (hdirs : ∀ dir ∈ dirs, files.Indexable s dir) {st : Store} {journal : List Act}
    (ht : st.Tells journal) : ∃ st', Completes (files.host (answering f)) s dirs st st' := by
  obtain ⟨plan, hplan, hnone⟩ := of_dirs_total (answering f) st hdirs
  have hmade := hplan
  rw [of_dirs_at_rest (files.host_shows _)] at hmade
  obtain ⟨items, r', st', hy, hdone, hfull⟩ := plan_ends (answering f) hmade ht
  refine ⟨st', (), plan, hplan, items, r', hy, hdone, hfull hnone ?_⟩
  intro j hj
  obtain ⟨dir, hdir, hof⟩ := job_of_planned hmade hj
  exact in_full_of_indexable (hdirs dir hdir) hof

end
end CodeIndex
