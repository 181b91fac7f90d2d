import CodeIndex.Proofs.Convergence
import CodeIndex.Proofs.Resumption

namespace CodeIndex

/-- A directory that a path lies in, and no deeper one is there. -/
structure Plan.Owns (dirs : List Path) (p dir : Path) : Prop where
  mem : dir ∈ dirs
  within : Path.within dir p
  deepest : ∀ d ∈ dirs, Path.within d p → (Path.components d).length ≤ (Path.components dir).length

namespace Plan

variable {dirs : List Path} {p dir : Path}

theorem owning_dir_snoc (dirs : List Path) (p dir : Path) : owningDir (dirs ++ [dir]) p =
    if Path.within dir p then deeper (owningDir dirs p) dir else owningDir dirs p := by
  rw [owningDir, List.filter_append, List.foldl_append, List.filter_singleton]
  cases Path.within dir p <;> rfl

/-- A further directory becomes the owner if no owner is deeper. -/
theorem Owns.snoc {d : Path} (h : Owns dirs p d) (hdir : ¬ Path.within dir p ∨
    (Path.components dir).length ≤ (Path.components d).length) : Owns (dirs ++ [dir]) p d := by
  refine ⟨List.mem_append_left _ h.mem, h.within, ?_⟩
  intro e he hin
  rcases List.mem_append.mp he with he | he
  · exact h.deepest e he hin
  · rw [List.mem_singleton.mp he] at hin ⊢
    exact hdir.resolve_left fun hout => hout hin

theorem owns_last (hin : Path.within dir p) (hdeepest : ∀ d ∈ dirs, Path.within d p →
    (Path.components d).length ≤ (Path.components dir).length) : Owns (dirs ++ [dir]) p dir := by
  refine ⟨by simp, hin, ?_⟩
  intro e he hwithin
  rcases List.mem_append.mp he with he | he
  · exact hdeepest e he hwithin
  · rw [List.mem_singleton.mp he]

theorem owning_dir_spec (dirs : List Path) (p : Path) : match owningDir dirs p with
    | none => ∀ dir ∈ dirs, ¬ Path.within dir p
    | some dir => Owns dirs p dir := by
  induction dirs using List.reverseRecOn with
  | nil => simp [owningDir]
  | append_singleton dirs dir ih =>
    rw [owning_dir_snoc]
    by_cases hin : Path.within dir p
    · rw [if_pos hin]
      cases howner : owningDir dirs p with
      | none =>
        rw [howner] at ih
        exact owns_last hin fun d hd hwithin => absurd hwithin (ih d hd)
      | some b =>
        rw [howner] at ih
        by_cases hdeeper : depth b ≤ depth dir
        · rw [deeper, if_pos hdeeper]
          exact owns_last hin fun d hd hwithin => (ih.deepest d hd hwithin).trans hdeeper
        · rw [deeper, if_neg hdeeper]
          exact ih.snoc (Or.inr (Nat.le_of_not_le hdeeper))
    · rw [if_neg hin]
      cases howner : owningDir dirs p with
      | none =>
        rw [howner] at ih
        intro d hd
        rcases List.mem_append.mp hd with hd | hd
        · exact ih d hd
        · rwa [List.mem_singleton.mp hd]
      | some b =>
        rw [howner] at ih
        exact ih.snoc (Or.inl hin)

theorem owns_of_owning_dir (h : owningDir dirs p = some dir) : Owns dirs p dir := by
  have hspec := owning_dir_spec dirs p
  rwa [h] at hspec

/-- A path that lies in one of the directories has an owner. -/
theorem exists_owning_dir (hdir : dir ∈ dirs) (hin : Path.within dir p) :
    ∃ owner, owningDir dirs p = some owner := by
  cases howner : owningDir dirs p with
  | none =>
    have hspec := owning_dir_spec dirs p
    rw [howner] at hspec
    exact absurd hin (hspec dir hdir)
  | some owner => exact ⟨owner, rfl⟩

end Plan

/-- A host that shows files at rest, in a workspace of some directories. -/
structure Host.Presents (h : Host σ) (files : Files) (dirs : List Path) : Prop
    extends h.Shows files where
  dirs : ∀ w, (h.dirs.run w).1 = dirs

theorem Files.workspace_presents (files : Files) (dirs : List Path)
    (provider : List Text → Except ProviderError (List Embedding)) :
    (files.workspace dirs provider).Presents files dirs :=
  ⟨files.workspace_shows dirs provider, fun _ => rfl⟩

theorem Files.workspace_allowed {files : Files} {R : Rules}
    {provider : List Text → Except ProviderError (List Embedding)}
    (hallow : R.Allow (files.host provider)) (dirs : List Path) :
    R.Allow (files.workspace dirs provider) := ⟨hallow.reads, hallow.replies⟩

namespace Files

/-- The job of a named file for its owner. -/
def jobFor (files : Files) (p dir : Path) : Job :=
  ⟨files.scope dir, p, Plan.changeOf (files.read p), ""⟩

def planFile (files : Files) (dirs : List Path) (p : Path) : Plan :=
  match Plan.owningDir dirs p with
  | none => ⟨[], [⟨p, "not inside any workspace directory"⟩]⟩
  | some dir => ⟨[files.jobFor p dir], []⟩

def planFiles (files : Files) (dirs ps : List Path) : Plan :=
  (ps.map (files.planFile dirs)).foldl Plan.append .empty

end Files

section
variable {σ : Type} {h : Host σ} {files : Files} {dirs ps : List Path} {s : Settings}

theorem of_file_at_rest (hpresents : h.Presents files dirs) (p : Path) (w : σ) :
    ((Plan.ofFile h dirs p).run w).1 = files.planFile dirs p := by
  rw [Plan.ofFile, Files.planFile]
  cases Plan.owningDir dirs p with
  | none => rfl
  | some dir =>
    simp only [run_bind, run_pure, Host.scope, hpresents.branch, hpresents.read]
    rfl

theorem of_files_at_rest (hpresents : h.Presents files dirs) (ps : List Path) (w : σ) :
    ((Plan.ofFiles h ps).run w).1 = files.planFiles dirs ps := by
  have hsteady : ∀ p w, True → ((Plan.ofFile h dirs p).run w).1 = files.planFile dirs p ∧ True :=
    fun p w _ => ⟨of_file_at_rest hpresents p w, trivial⟩
  rw [Plan.ofFiles, run_bind, run_bind, run_pure, hpresents.dirs,
    (run_mapM_of_steady hsteady ps trivial).1]
  rfl

theorem plan_files_eq (files : Files) (dirs ps : List Path) : files.planFiles dirs ps =
    ⟨ps.flatMap fun p => (files.planFile dirs p).jobs,
      ps.flatMap fun p => (files.planFile dirs p).rejected⟩ := by
  rw [Files.planFiles, Plan.append_all, List.flatMap_map, List.flatMap_map]
  rfl

theorem mem_plan_files {j : Job} : j ∈ (files.planFiles dirs ps).jobs ↔
    ∃ p ∈ ps, ∃ dir, Plan.owningDir dirs p = some dir ∧ j = files.jobFor p dir := by
  rw [plan_files_eq, List.mem_flatMap]
  apply exists_congr
  intro p
  apply and_congr_right
  intro _
  rw [Files.planFile]
  cases Plan.owningDir dirs p <;> simp

/-- If no file is rejected, each has an owner. -/
theorem owners_of_plan_files (hnone : (files.planFiles dirs ps).rejected = []) {p : Path}
    (hp : p ∈ ps) : ∃ dir, Plan.owningDir dirs p = some dir := by
  rw [plan_files_eq, List.flatMap_eq_nil_iff] at hnone
  have hfile := hnone p hp
  rw [Files.planFile] at hfile
  cases howner : Plan.owningDir dirs p with
  | none =>
    rw [howner] at hfile
    cases hfile
  | some dir => exact ⟨dir, rfl⟩

theorem scope_of_plan_files {j : Job} (hj : j ∈ (files.planFiles dirs ps).jobs) :
    ∃ dir ∈ dirs, j.scope = files.scope dir := by
  obtain ⟨p, -, owner, howner, rfl⟩ := mem_plan_files.mp hj
  exact ⟨owner, (Plan.owns_of_owning_dir howner).mem, rfl⟩

theorem plan_files_working {j : Job} (hj : j ∈ (files.planFiles dirs ps).jobs) :
    j.change ≠ .unchanged := by
  obtain ⟨p, -, dir, -, rfl⟩ := mem_plan_files.mp hj
  simp only [Files.jobFor, Plan.changeOf]
  split <;> simp

theorem next_of_files (hpresents : h.Presents files dirs) (ps : List Path) (st : Store) (w : σ) :
    (((Run.ofFiles ps).next h s st).run w).1 =
      (Run.ofPlan (files.planFiles dirs ps)).announce (files.planFiles dirs ps).rejected st := by
  rw [← of_files_at_rest hpresents ps w]
  rfl

theorem Run.Yields.of_files (hpresents : h.Presents files dirs) {st st' : Store} {r : Run}
    {items : List Progress} (hy : (Run.ofFiles ps).Yields h s st items r st')
    (hitems : items ≠ []) : (Run.ofPlan (files.planFiles dirs ps)).Yields h s st items r st' := by
  cases hy with
  | nothing => exact absurd rfl hitems
  | turn w hturn hrest =>
    rw [next_of_files hpresents] at hturn
    exact .turn w hturn hrest

theorem Run.Yields.for_files (hpresents : h.Presents files dirs) {st st' : Store} {r : Run}
    {items : List Progress}
    (hy : (Run.ofPlan (files.planFiles dirs ps)).Yields h s st items r st')
    (hitems : items ≠ []) : (Run.ofFiles ps).Yields h s st items r st' := by
  cases hy with
  | nothing => exact absurd rfl hitems
  | turn w hturn hrest => exact .turn w ((next_of_files hpresents ps st w).trans hturn) hrest

/-- A refresh of named files that works alone and is done without a failure. -/
def CompletesFiles (h : Host σ) (s : Settings) (ps : List Path) (st st' : Store) : Prop :=
  ∃ items r', (Run.ofFiles ps).Yields h s st items r' st' ∧
    (∃ item ∈ items, item.status = .done) ∧ ∀ item ∈ items, item.status ≠ .failed

theorem completes_files_of_done {st : Store} {w : σ}
    (hdone : ∃ item ∈ ((Run.drain h s (.ofFiles ps) st).run w).1.1, item.status = .done)
    (hclean : ∀ item ∈ ((Run.drain h s (.ofFiles ps) st).run w).1.1, item.status ≠ .failed) :
    CompletesFiles h s ps st ((Run.drain h s (.ofFiles ps) st).run w).1.2.2.2 :=
  ⟨_, _, Run.take_yields _ _ st w, hdone, hclean⟩

theorem CompletesFiles.planned (hpresents : h.Presents files dirs) {st st' : Store}
    (hc : CompletesFiles h s ps st st') : (files.planFiles dirs ps).Completes h s st st' := by
  obtain ⟨items, r', hy, hdone, hclean⟩ := hc
  obtain ⟨item, hitem, -⟩ := id hdone
  exact ⟨items, r', hy.of_files hpresents (List.ne_nil_of_mem hitem), hdone, hclean⟩

end

theorem Plan.change_of_eq_removed_iff {answer : Except IndexError Bytes} :
    changeOf answer = .removed ↔ ∃ reason, answer = .error (.io true reason) := by
  unfold changeOf
  split
  · simp
  · rename_i hother
    simp only [reduceCtorEq, false_iff]
    rintro ⟨reason, rfl⟩
    exact hother reason rfl

/-- What stands of a file that is indexed in full as it is, or removed if there is none. -/
def Files.remains (files : Files) (s : Settings) (f : Text → Embedding) (p : Path) : Standing :=
  match files.read p with
  | .ok bytes => s.full f p bytes
  | .error _ => .nothing

section
variable {σ : Type} {h : Host σ} {files : Files} {dirs ps : List Path} {s : Settings} {R : Rules}
  {f : Text → Embedding}

theorem remains_of_acts (hfaithful : ∀ batch reply, h.Replies batch reply → Faithful f batch reply)
    (hshows : h.Shows files) {p dir : Path} {a : Act} (ha : (files.jobFor p dir).Acts h s a)
    (x : Standing) : a.leaves x = files.remains s f p := by
  cases ha with
  | remove hchange =>
    obtain ⟨reason, hread⟩ := Plan.change_of_eq_removed_iff.mp hchange
    simp only [Files.remains, hread]
    rfl
  | write w hchange hread hchunks hanswers =>
    rw [read_within_at_rest hshows] at hread
    have hbytes : files.read p = .ok _ := (read_of_at_rest hread).1
    simp only [Files.remains, hbytes]
    exact full_of_answers hchunks (hanswers.mono hfaithful) x

/-- A refresh of named files leaves of each of them, under its owner, what there is of it. All else
in the directories stands as it did. -/
theorem CompletesFiles.rests
    (hfaithful : ∀ batch reply, R.replies batch reply → Faithful f batch reply)
    (hallow : R.Allow h) (hpresents : h.Presents files dirs) (hapart : files.Apart dirs)
    {st st' : Store} (hc : CompletesFiles h s ps st st') {journal : List Act}
    (hpossible : ∀ a ∈ journal, a.Possible (· = s) R) (ht : st.Tells journal) :
    (∀ p ∈ ps, ∃ dir, Plan.owningDir dirs p = some dir) ∧ ∃ journal',
      (∀ a ∈ journal', a.Possible (· = s) R) ∧ st'.Tells journal' ∧ ∀ dir ∈ dirs, ∀ k p,
        standing k (files.scope dir) p journal' =
          if p ∈ ps ∧ Plan.owningDir dirs p = some dir then files.remains s f p
          else standing k (files.scope dir) p journal := by
  obtain ⟨items, r', hy, hdone, hclean⟩ := hc.planned hpresents
  obtain ⟨hnone, acts, hacts, htells⟩ :=
    hy.tells rfl (fun _ hj => plan_files_working hj) ht hdone hclean
  refine ⟨fun p hp => owners_of_plan_files hnone hp, journal ++ acts, ?_, htells, ?_⟩
  · intro a ha
    rcases List.mem_append.mp ha with ha | ha
    · exact hpossible a ha
    · obtain ⟨j, -, hact, -⟩ := exists_left_of_forall₂ hacts ha
      exact hact.possible rfl hallow
  intro dir hdir k p
  have hreplies : ∀ batch reply, h.Replies batch reply → Faithful f batch reply := by
    rintro batch _ ⟨w, rfl⟩
    exact hfaithful batch _ (hallow.replies batch w)
  have hleaves : ∀ j ∈ (files.planFiles dirs ps).jobs, (files.scope dir).stem = j.scope.stem →
      p = j.path → ∀ a, j.Acts h s a → a.complete → ∀ x, a.leaves x = files.remains s f p := by
    rintro j hj - rfl a hact - x
    obtain ⟨q, -, owner, -, rfl⟩ := mem_plan_files.mp hj
    exact remains_of_acts hreplies hpresents.toShows hact x
  obtain ⟨hjob, hnojob⟩ := standing_of_jobs hacts (k := k) (· = files.remains s f p) hleaves journal
  split
  · rename_i hnamed
    obtain ⟨hp, howner⟩ := hnamed
    exact hjob ⟨_, mem_plan_files.mpr ⟨p, hp, dir, howner, rfl⟩, rfl, rfl⟩
  · rename_i hnamed
    apply hnojob
    rintro j hj hstem rfl
    obtain ⟨q, hq, owner, howner, rfl⟩ := mem_plan_files.mp hj
    cases hapart dir hdir owner (Plan.owns_of_owning_dir howner).mem hstem
    exact hnamed ⟨hq, howner⟩

/-- A refresh whose jobs are for some directories changes nothing that is filed elsewhere. -/
theorem Plan.Completes.elsewhere {plan : Plan} {st st' : Store} (hc : plan.Completes h s st st')
    (hl : st.Linked) (hjobs : ∀ j ∈ plan.jobs, ∃ dir ∈ dirs, j.scope = files.scope dir) :
    (∀ k slot, (∀ dir ∈ dirs, ∀ p, slot ≠ (files.scope dir).slot k p) →
        st'.rowsOf k slot = st.rowsOf k slot) ∧
      ∀ slot, (∀ dir ∈ dirs, ∀ k p, slot ≠ (files.scope dir).slot k p) →
        st'.catalog.rows slot = st.catalog.rows slot := by
  obtain ⟨items, r', hy, -, -⟩ := hc
  obtain ⟨told, htaken, hs⟩ := hy.tells_of
  obtain ⟨c, htold, -⟩ := hs.begins
  exact (htaken.applies hl).2.outside fun x hx =>
    hjobs x.job (htold.subset (List.mem_map_of_mem hx))

end
end CodeIndex
