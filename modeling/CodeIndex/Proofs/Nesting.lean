import CodeIndex.Proofs.NamedFiles

namespace CodeIndex

/-- All artifacts of a scope hold a file as it is, with all vectors, and all tags record it. Of a
file that is missing they hold nothing. -/
def Store.Current (st : Store) (files : Files) (s : Settings) (scope : Scope) (p : Path) : Prop :=
  match files.read p with
  | .ok bytes => ∃ cs vectors, s.chunksOf p bytes = .ok cs ∧ vectors.length = cs.length ∧
      vectors.all Option.isSome ∧ ∀ k,
        st.rowsOf k (scope.slot k p) = .ofBytes s p bytes vectors k ∧
          st.catalog.rows (scope.slot k p) = [hashBytes bytes]
  | .error (.io true _) => ∀ k,
      st.rowsOf k (scope.slot k p) = .empty k ∧ st.catalog.rows (scope.slot k p) = []
  | .error _ => False

section
variable {σ : Type} {h : Host σ} {files : Files} {dirs : List Path} {s : Settings}
  {st st' : Store} {p dir : Path}

theorem current_congr {scope : Scope}
    (hrows : ∀ k, st'.rowsOf k (scope.slot k p) = st.rowsOf k (scope.slot k p))
    (hrecords : ∀ k, st'.catalog.rows (scope.slot k p) = st.catalog.rows (scope.slot k p)) :
    st'.Current files s scope p ↔ st.Current files s scope p := by
  simp only [Store.Current, hrows, hrecords]

theorem not_current_of_hash {scope : Scope} {bytes : Bytes} (hread : files.read p = .ok bytes)
    (hhash : st.hash? (scope.slot .metadata p) ≠ some (hashBytes bytes)) :
    ¬ st.Current files s scope p := by
  intro hcurrent
  simp only [Store.Current, hread] at hcurrent
  obtain ⟨cs, vectors, -, -, -, hall⟩ := hcurrent
  rw [Store.hash?, (hall .metadata).2] at hhash
  exact hhash rfl

/-- The act of a named file makes it current under its owner. -/
theorem current_of_act (hshows : h.Shows files) {journal : List Act} {a : Act}
    (ha : (files.jobFor p dir).Acts h s a) (hcomplete : a.complete)
    (ht : st'.Tells (journal ++ [a])) : st'.Current files s (files.scope dir) p := by
  have hstands : ∀ k, standing k (files.scope dir) p (journal ++ [a]) =
      a.leaves (standing k (files.scope dir) p journal) := by
    intro k
    have htouches : a.touches k (files.scope dir) p := (touches_of_acts ha).mpr ⟨rfl, rfl⟩
    rw [standing_snoc, if_pos htouches]
  cases ha with
  | remove hchange =>
    obtain ⟨reason, hread⟩ := Plan.change_of_eq_removed_iff.mp hchange
    simp only [Store.Current, hread, ht.rows, ht.records, hstands]
    exact fun k => ⟨rfl, rfl⟩
  | @write bytes cs vectors w hchange hread hchunks hanswers =>
    rw [read_within_at_rest hshows] at hread
    have hbytes : files.read p = .ok bytes := (read_of_at_rest hread).1
    simp only [Store.Current, hbytes, ht.rows, ht.records, hstands]
    refine ⟨cs, vectors, hchunks, length_of_answers hanswers, hcomplete, fun k => ⟨rfl, ?_⟩⟩
    rw [Standing.records, Act.recorded_of_complete hcomplete]
    rfl

/-- A named file that is reported as indexed is indexed for its owner, and that is all that happens
to the store. -/
theorem indexed_for_owner (hpresents : h.Presents files dirs) {items : List Progress} {r : Run}
    (hy : (Run.ofFiles [p]).Yields h s st items r st')
    (hdone : ∃ item ∈ items, item.status = .done) {fraction : Binary32} {change : Change}
    (hindexed : .indexed fraction p change ∈ items) : ∃ owner,
      Plan.owningDir dirs p = some owner ∧
        (files.jobFor p owner).Settles h s st (.written 0) st' := by
  obtain ⟨told, htaken, hs⟩ := (hy.of_files hpresents (List.ne_nil_of_mem hindexed)).tells_of
  have htold := (hs.done (fun _ hj => plan_files_working hj) hdone).2.1
  have hverdict : .indexed fraction p change ∈ (files.planFiles dirs [p]).verdicts told := by
    rw [← hs.verdicts]
    exact List.mem_filter.mpr ⟨hindexed, rfl⟩
  obtain ⟨⟨x, n⟩, hx, hitem⟩ := List.mem_map.mp hverdict
  have hmem : x ∈ told := List.fst_mem_of_mem_zipIdx hx
  have hclean : x.fate = .written 0 :=
    of_decide_eq_true (clean_of_indexing (congrArg Progress.status hitem))
  rw [plan_files_eq, List.flatMap_singleton, Files.planFile] at htold
  cases howner : Plan.owningDir dirs p with
  | none =>
    rw [howner, List.map_eq_nil_iff] at htold
    rw [htold] at hmem
    cases hmem
  | some owner =>
    rw [howner, List.map_eq_singleton_iff] at htold
    obtain ⟨y, rfl, hjob⟩ := htold
    rw [List.mem_singleton] at hmem
    subst hmem
    have hsettles := htaken.settles
    rw [hjob, hclean] at hsettles
    exact ⟨owner, rfl, hsettles⟩

end

/-- When a refresh of one named file is done and reports the file as indexed, the file is current
under a directory exactly if that is its owner, or if it was current there before. -/
theorem named_file_current_iff {σ : Type} {h : Host σ} {files : Files} {s : Settings}
    {S : Settings → Prop} {R : Rules} {dirs : List Path} {p : Path} {st st' : Store}
    {items : List Progress} {r : Run}
    (hst : Reached S R st) (hpresents : h.Presents files dirs)
    (hkeys : ∀ dir ∈ dirs, ∀ dir' ∈ dirs, ∀ k,
      ((files.scope dir).tagFor k).key = ((files.scope dir').tagFor k).key → dir = dir')
    (hy : (Run.ofFiles [p]).Yields h s st items r st')
    (hdone : ∃ item ∈ items, item.status = .done) {fraction : Binary32} {change : Change}
    (hindexed : .indexed fraction p change ∈ items) : ∀ dir ∈ dirs,
      st'.Current files s (files.scope dir) p ↔
        Plan.owningDir dirs p = some dir ∨ st.Current files s (files.scope dir) p := by
  obtain ⟨journal, -, ht⟩ := hst.tells
  obtain ⟨owner, howner, hsettles⟩ := indexed_for_owner hpresents hy hdone hindexed
  have hchanges := (hsettles.updates ht.linked).toChangesOnly
  intro dir hdir
  by_cases hown : dir = owner
  · subst hown
    cases hsettles with
    | written w hindex =>
      have hworking : (files.jobFor p dir).change ≠ .unchanged :=
        plan_files_working (mem_plan_files.mpr ⟨p, List.mem_singleton_self p, dir, howner, rfl⟩)
      obtain ⟨a, hacts, hlost, htells⟩ := index_tells ht hworking hindex
      have hcurrent := current_of_act hpresents.toShows hacts (hlost.mp rfl) htells
      exact ⟨fun _ => Or.inl howner, fun _ => hcurrent⟩
  · -- The job is filed under the keys of the owner, and these are not the keys of the directory.
    have hstem : (files.scope dir).stem ≠ (files.scope owner).stem := fun hsame =>
      hown (Files.apart_of_keys hkeys dir hdir owner (Plan.owns_of_owning_dir howner).mem hsame)
    have hslot : ∀ k l, (files.scope dir).slot k p ≠ (files.jobFor p owner).scope.slot l p :=
      fun k l hsame => hstem (Scope.slot_eq_iff.mp hsame).1.1
    have hsame : st'.Current files s (files.scope dir) p ↔
        st.Current files s (files.scope dir) p := by
      apply current_congr
      · intro k
        exact hchanges.rows k _ (hslot k k)
      · intro k
        refine hchanges.records _ fun hin => ?_
        obtain ⟨l, hl⟩ := Scope.mem_slots.mp hin
        exact hslot k l hl
    rw [hsame, howner, Option.some.injEq, or_iff_right (Ne.symm hown)]

/-- The file in two nested directories, with other bytes in it. -/
def Files.nestedEdited : Files := .ofList [("/d/e/a.md", [98])]

theorem nested_edited_apart : Files.nestedEdited.Apart ["/d", "/d/e"] := by decide

/-- The file is indexed under both directories, edited and named. Its old hash stays in the outer
one. -/
theorem nested_edited_run : ∃ st items r st',
    Completes (Files.nested.host (answering fun _ => [.one])) .standard ["/d", "/d/e"] .empty st ∧
    (Run.ofFiles ["/d/e/a.md"]).Yields
      (Files.nestedEdited.workspace ["/d", "/d/e"] (answering fun _ => [.one])) .standard st
      items r st' ∧
    (∃ item ∈ items, item.status = .done) ∧
    .indexed (Progress.share 1 1) "/d/e/a.md" .updated ∈ items ∧
    (∀ k ∈ ArtifactKind.all,
      st.hash? ((Files.nestedEdited.scope "/d").slot k "/d/e/a.md") = some (hashBytes [97])) ∧
    st'.hash? ((Files.nestedEdited.scope "/d").slot .metadata "/d/e/a.md") ≠
      some (hashBytes [98]) := by
  refine ⟨_, _, _, _, completes_of_done (w := ()) ?_ ?_, Run.take_yields 4 _ _ (), ?_⟩
  all_goals decide +kernel

theorem nested_edited_read : Files.nestedEdited.read "/d/e/a.md" = .ok [98] := by decide

/-- The owner has the new bytes, and the outer directory has not. -/
theorem named_file_current_iff_nested : ∃ st items r st', Reached (· = .standard) .refreshing st ∧
    (Run.ofFiles ["/d/e/a.md"]).Yields
      (Files.nestedEdited.workspace ["/d", "/d/e"] (answering fun _ => [.one])) .standard st
      items r st' ∧
    .indexed (Progress.share 1 1) "/d/e/a.md" .updated ∈ items ∧
    st'.Current .nestedEdited .standard (Files.nestedEdited.scope "/d/e") "/d/e/a.md" ∧
    ¬ st'.Current .nestedEdited .standard (Files.nestedEdited.scope "/d") "/d/e/a.md" := by
  obtain ⟨st, items, r, st', hc, hy, hdone, hindexed, hbefore, -⟩ := nested_edited_run
  have hst : Reached (· = .standard) .refreshing st :=
    hc.reached rfl (Rules.refreshing_allows _) .empty
  have hiff := named_file_current_iff hst (Files.workspace_presents _ _ _)
    nested_edited_apart.keys hy hdone hindexed
  refine ⟨st, items, r, st', hst, hy, hindexed, ?_, ?_⟩
  · exact (hiff "/d/e" (by decide)).mpr (Or.inl (by decide +kernel))
  · rw [hiff "/d" (by decide), not_or]
    refine ⟨by decide +kernel, not_current_of_hash nested_edited_read ?_⟩
    rw [hbefore .metadata (ArtifactKind.mem_all _)]
    decide +kernel

/-- A directory that contains the file and has recorded it is left with its old rows, although the
file is reported as indexed. -/
theorem named_file_left_behind : ∃ st items r st', Reached (· = .standard) .refreshing st ∧
    (∀ dir ∈ ["/d", "/d/e"], ∀ dir' ∈ ["/d", "/d/e"], ∀ k,
      ((Files.nestedEdited.scope dir).tagFor k).key =
        ((Files.nestedEdited.scope dir').tagFor k).key → dir = dir') ∧
    (Run.ofFiles ["/d/e/a.md"]).Yields
      (Files.nestedEdited.workspace ["/d", "/d/e"] (answering fun _ => [.one])) .standard st
      items r st' ∧
    (∃ item ∈ items, item.status = .done) ∧
    .indexed (Progress.share 1 1) "/d/e/a.md" .updated ∈ items ∧
    Path.within "/d" "/d/e/a.md" ∧
    (∀ k ∈ ArtifactKind.all,
      st.hash? ((Files.nestedEdited.scope "/d").slot k "/d/e/a.md") = some (hashBytes [97])) ∧
    ¬ st'.Current .nestedEdited .standard (Files.nestedEdited.scope "/d") "/d/e/a.md" := by
  obtain ⟨st, items, r, st', hc, hy, hdone, hindexed, hbefore, hafter⟩ := nested_edited_run
  have hst : Reached (· = .standard) .refreshing st :=
    hc.reached rfl (Rules.refreshing_allows _) .empty
  exact ⟨st, items, r, st', hst, nested_edited_apart.keys, hy, hdone, hindexed, by decide +kernel,
    hbefore, not_current_of_hash nested_edited_read hafter⟩

end CodeIndex
