import CodeIndex.Proofs.NamedFiles

namespace CodeIndex

/-- A path is listed in one of the directories. -/
def Files.Lists (files : Files) (dirs : List Path) (p : Path) : Prop :=
  ∃ dir ∈ dirs, ∃ listed, files.list dir = .ok listed ∧ p ∈ listed

/-- One of the tags of a scope records a path. -/
def Store.Knows (st : Store) (scope : Scope) (p : Path) : Prop :=
  ∃ k, st.hash? (scope.slot k p) ≠ none

/-- Paths as they are listed or recorded, among them every listed one whose hash is not the recorded
one and every recorded one that is not listed. -/
structure Files.Covers (files : Files) (s : Settings) (dirs : List Path) (st : Store)
    (ps : List Path) : Prop where
  spelled : ∀ p ∈ ps, files.Lists dirs p ∨ ∃ dir ∈ dirs, st.Knows (files.scope dir) p
  changed : ∀ dir ∈ dirs, ∀ listed, files.list dir = .ok listed → ∀ p ∈ listed, ∀ hash,
    files.hash? s.maxFileSize p = some hash →
    (∃ k, st.hash? ((files.scope dir).slot k p) ≠ some hash) → p ∈ ps
  gone : ∀ dir ∈ dirs, ∀ p, st.Knows (files.scope dir) p → ¬ files.Lists dirs p → p ∈ ps

/-- No directory contains another one, and each lists only what lies in it. -/
structure Files.Disjoint (files : Files) (dirs : List Path) : Prop where
  apart : ∀ dir ∈ dirs, ∀ dir' ∈ dirs, Path.within dir dir' → dir = dir'
  inside : ∀ dir ∈ dirs, ∀ listed, files.list dir = .ok listed → ∀ p ∈ listed, Path.within dir p

section
variable {files : Files} {dirs : List Path} {dir dir' p : Path}

/-- A path lies in one directory at most. -/
theorem Files.Disjoint.unique (h : files.Disjoint dirs) (hdir : dir ∈ dirs) (hdir' : dir' ∈ dirs)
    (hin : Path.within dir p) (hin' : Path.within dir' p) : dir = dir' := by
  have hprefix := List.isPrefixOf_iff_prefix.mp hin
  have hprefix' := List.isPrefixOf_iff_prefix.mp hin'
  rcases List.prefix_or_prefix_of_prefix hprefix hprefix' with hwithin | hwithin
  · exact h.apart dir hdir dir' hdir' (List.isPrefixOf_iff_prefix.mpr hwithin)
  · exact (h.apart dir' hdir' dir hdir (List.isPrefixOf_iff_prefix.mpr hwithin)).symm

/-- The directory that a path lies in is its owner. -/
theorem Files.Disjoint.owner (h : files.Disjoint dirs) (hdir : dir ∈ dirs)
    (hin : Path.within dir p) : Plan.owningDir dirs p = some dir := by
  obtain ⟨owner, howner⟩ := Plan.exists_owning_dir hdir hin
  have howns := Plan.owns_of_owning_dir howner
  rw [howner, h.unique howns.mem hdir howns.within hin]

/-- A path that another directory lists is not in this one. -/
theorem Files.Disjoint.listed_once (h : files.Disjoint dirs) (hdir : dir ∈ dirs)
    {listed : List Path} (hlist : files.list dir = .ok listed) (hin : Path.within dir p)
    (hlisted : files.Lists dirs p) : p ∈ listed := by
  obtain ⟨d, hd, others, hothers, hp⟩ := hlisted
  cases h.unique hd hdir (h.inside d hd others hothers p hp) hin
  cases hlist.symm.trans hothers
  exact hp

end

/-- Every recorded path that lies in a directory of the workspace is recorded for that one. -/
def Store.InPlace (st : Store) (files : Files) (dirs : List Path) : Prop :=
  ∀ dir ∈ dirs, ∀ p, st.Knows (files.scope dir) p →
    ∀ dir' ∈ dirs, Path.within dir' p → dir' = dir

section
variable {files : Files} {dirs ps : List Path} {s : Settings} {R : Rules} {f : Text → Embedding}
  {st : Store} {journal : List Act} {dir p : Path} {listed : List Path}

/-- What a refresh of the named files leaves of a listed file is what its directory has of it, also
if the file is not named. -/
theorem listed_file_agrees
    (hfaithful : ∀ batch reply, R.replies batch reply → Faithful f batch reply)
    (hhash : Set.InjOn hashBytes {bytes | R.contents bytes})
    (hpossible : ∀ a ∈ journal, a.Possible (· = s) R) (ht : st.Tells journal)
    (hcovers : files.Covers s dirs st ps) (hdir : dir ∈ dirs)
    (hlist : files.list dir = .ok listed) (hlisted : p ∈ listed)
    (howner : Plan.owningDir dirs p = some dir) {bytes : Bytes} (hfits : files.Fits s p bytes)
    (hcontents : R.contents bytes) (k : ArtifactKind) :
    (if p ∈ ps ∧ Plan.owningDir dirs p = some dir then files.remains s f p
      else standing k (files.scope dir) p journal) = files.standing s f dir p := by
  rw [files_standing_listed hlist hlisted hfits.read]
  by_cases hnamed : p ∈ ps
  · rw [if_pos ⟨hnamed, howner⟩]
    simp only [Files.remains, hfits.read]
  · rw [if_neg fun h => hnamed h.1]
    refine standing_of_hash hfaithful hhash hpossible hcontents ?_
    rw [← ht.hash]
    by_contra hother
    have hpresent : files.hash? s.maxFileSize p = some (hashBytes bytes) := by
      rw [Files.hash?, hfits.read_within]
    exact hnamed (hcovers.changed dir hdir listed hlist p hlisted _ hpresent ⟨k, hother⟩)

/-- Nothing is left of a path that is not listed, if it is not recorded for a directory that it does
not lie in. -/
theorem unlisted_path_agrees
    (hfaithful : ∀ batch reply, R.replies batch reply → Faithful f batch reply)
    (hpossible : ∀ a ∈ journal, a.Possible (· = s) R) (ht : st.Tells journal)
    (hcovers : files.Covers s dirs st ps) (hdisjoint : files.Disjoint dirs)
    (hmissing : ∀ dir ∈ dirs, ∀ p, st.Knows (files.scope dir) p → ¬ files.Lists dirs p →
      ∃ reason, files.read p = .error (.io true reason))
    (howners : ∀ p ∈ ps, ∃ dir, Plan.owningDir dirs p = some dir) (hdir : dir ∈ dirs)
    (hlist : files.list dir = .ok listed) (hlisted : p ∉ listed)
    (hplace : st.Knows (files.scope dir) p → ∀ dir' ∈ dirs, Path.within dir' p → dir' = dir)
    (k : ArtifactKind) :
    (if p ∈ ps ∧ Plan.owningDir dirs p = some dir then files.remains s f p
      else standing k (files.scope dir) p journal) = files.standing s f dir p := by
  rw [files_standing_unlisted hlist hlisted]
  split
  · rename_i hnamed
    obtain ⟨hnamed, howner⟩ := hnamed
    have hnowhere : ¬ files.Lists dirs p := fun hl =>
      hlisted (hdisjoint.listed_once hdir hlist (Plan.owns_of_owning_dir howner).within hl)
    obtain ⟨d, hd, hknown⟩ := (hcovers.spelled p hnamed).resolve_left hnowhere
    obtain ⟨reason, hread⟩ := hmissing d hd p hknown hnowhere
    simp only [Files.remains, hread]
  · rename_i hnamed
    refine standing_of_no_hash hfaithful hpossible ?_
    rw [← ht.hash]
    by_contra hrecorded
    have hknown : st.Knows (files.scope dir) p := ⟨k, hrecorded⟩
    -- Whether it is listed elsewhere or named, the path lies in a directory, and so in this one.
    by_cases hl : files.Lists dirs p
    · obtain ⟨d, hd, others, hothers, hp⟩ := hl
      have hin := hdisjoint.inside d hd others hothers p hp
      cases hplace hknown d hd hin
      cases hlist.symm.trans hothers
      exact hlisted hp
    · have hgone := hcovers.gone dir hdir p hknown hl
      obtain ⟨owner, howner⟩ := howners p hgone
      have howns := Plan.owns_of_owning_dir howner
      rw [hplace hknown owner howns.mem howns.within] at howner
      exact hnamed ⟨hgone, howner⟩

end

/-- Of directories that do not contain one another, under a provider that never fails: a refresh of
named files, which cover all that has changed, and a refresh of the directories, both done without
a failure, leave the same store exactly if all records are in place. -/
theorem named_agrees_with_dirs_iff {σ τ : Type} {h : Host σ} {h' : Host τ} {files : Files}
    {s : Settings} {R : Rules} {f : Text → Embedding} {dirs ps : List Path} {st st₁ st₂ : Store}
    (hfaithful : ∀ batch reply, R.replies batch reply → Faithful f batch reply)
    (hhash : Set.InjOn hashBytes {bytes | R.contents bytes}) (hst : Reached (· = s) R st)
    (hallow : R.Allow h) (hallow' : R.Allow h') (hpresents : h.Presents files dirs)
    (hshows : h'.Shows files)
    (hkeys : ∀ dir ∈ dirs, ∀ dir' ∈ dirs, ∀ k,
      ((files.scope dir).tagFor k).key = ((files.scope dir').tagFor k).key → dir = dir')
    (hdisjoint : files.Disjoint dirs) (hcovers : files.Covers s dirs st ps)
    (hmissing : ∀ dir ∈ dirs, ∀ p, st.Knows (files.scope dir) p → ¬ files.Lists dirs p →
      ∃ reason, files.read p = .error (.io true reason))
    (hc₁ : CompletesFiles h s ps st st₁) (hc₂ : Completes h' s dirs st st₂) :
    st₁.Alike st₂ ↔ st.InPlace files dirs := by
  have hapart := Files.apart_of_keys hkeys
  obtain ⟨journal, hpossible, ht⟩ := hst.tells
  obtain ⟨howners, journal₁, -, ht₁, hrests₁⟩ :=
    hc₁.rests hfaithful hallow hpresents hapart hpossible ht
  obtain ⟨journal₂, -, ht₂, hrests₂⟩ :=
    hc₂.rests hfaithful hhash hallow' hshows hapart hpossible ht
  constructor
  · -- The refresh of directories drops a record that is out of place, the other one keeps it.
    intro halike dir hdir p hknown dir' hdir' hin
    by_contra hne
    obtain ⟨k, hk⟩ := hknown
    obtain ⟨⟨listed, hlist, -⟩, hrest₂⟩ := hrests₂ dir hdir
    have hlisted : p ∉ listed := fun hp =>
      hne (hdisjoint.unique hdir' hdir hin (hdisjoint.inside dir hdir listed hlist p hp))
    have howner : ¬ (p ∈ ps ∧ Plan.owningDir dirs p = some dir) := by
      rw [hdisjoint.owner hdir' hin, Option.some.injEq]
      exact fun hboth => hne hboth.2
    have hsame := halike.records ((files.scope dir).slot k p)
    rw [ht₁.records, hrests₁ dir hdir k p, if_neg howner, ← ht.records, ht₂.records, hrest₂,
      files_standing_unlisted hlist hlisted] at hsame
    rw [Store.hash?, hsame] at hk
    exact hk rfl
  · intro hplace
    obtain ⟨w, plan, hplan, hcompletes⟩ := hc₂
    rw [of_dirs_at_rest hshows] at hplan
    have hstands : ∀ dir ∈ dirs, ∀ k p, standing k (files.scope dir) p journal₁ =
        standing k (files.scope dir) p journal₂ := by
      intro dir hdir k p
      obtain ⟨⟨listed, hlist, hindexable⟩, hrest₂⟩ := hrests₂ dir hdir
      rw [hrests₁ dir hdir k p, hrest₂]
      by_cases hlisted : p ∈ listed
      · obtain ⟨bytes, hfits⟩ := hindexable p hlisted
        have howner := hdisjoint.owner hdir (hdisjoint.inside dir hdir listed hlist p hlisted)
        exact listed_file_agrees hfaithful hhash hpossible ht hcovers hdir hlist hlisted howner
          hfits (hallow'.reads ((hshows.read p w).trans hfits.read)) k
      · exact unlisted_path_agrees hfaithful hpossible ht hcovers hdisjoint hmissing howners hdir
          hlist hlisted (hplace dir hdir p) k
    have hscope : ∀ j ∈ plan.jobs, ∃ dir ∈ dirs, j.scope = files.scope dir := by
      intro j hj
      obtain ⟨dir, hdir, hof⟩ := job_of_planned hplan hj
      exact ⟨dir, hdir, hof.scope⟩
    obtain ⟨hrows₁, hrecords₁⟩ :=
      (hc₁.planned hpresents).elsewhere ht.linked fun _ hj => scope_of_plan_files hj
    obtain ⟨hrows₂, hrecords₂⟩ := hcompletes.elsewhere ht.linked hscope
    refine ht₁.alike ht₂ hstands ?_ ?_
    · intro k slot hslot
      rw [hrows₁ k slot hslot, hrows₂ k slot hslot]
    · intro slot hslot
      rw [hrecords₁ slot hslot, hrecords₂ slot hslot]

theorem knows_iff {st : Store} {scope : Scope} {p : Path} :
    st.Knows scope p ↔ ∃ k, scope.slot k p ∈ st.catalog.map Prod.fst := by
  apply exists_congr
  intro k
  rw [Store.hash?, ne_eq, List.head?_eq_none_iff, Table.rows, List.map_eq_nil_iff,
    List.filter_eq_nil_iff, List.mem_map]
  simp

/-- Files that each directory lists as far as they lie in it. -/
def Files.placed (branch : Path → String) (entries : List (Path × Bytes)) : Files :=
  { Files.ofList entries with
    branch
    list := fun dir => .ok ((entries.map Prod.fst).filter (Path.within dir ·)) }

theorem Files.placed_disjoint {branch : Path → String} {entries : List (Path × Bytes)}
    {dirs : List Path} (hapart : ∀ dir ∈ dirs, ∀ dir' ∈ dirs, Path.within dir dir' → dir = dir') :
    (Files.placed branch entries).Disjoint dirs := by
  refine ⟨hapart, ?_⟩
  intro dir _ listed hlist p hp
  cases hlist
  exact (List.mem_filter.mp hp).2

/-- Three directories with two files; then the first file is edited, the second one removed, and a
third one written. -/
def Files.paired : Files := .placed (fun _ => noBranch) [("/d/a.md", [97]), ("/e/b.md", [97])]

def Files.repaired : Files := .placed (fun _ => noBranch) [("/d/a.md", [98]), ("/g/c.md", [97])]

theorem placed_allowed {branch : Path → String} {entries : List (Path × Bytes)}
    (hentries : ∀ e ∈ entries, Rules.editing.contents e.2) :
    Rules.editing.Allow ((Files.placed branch entries).host (answering fun _ => [.one])) := by
  refine Files.host_allowed ?_ fun batch => Or.inr rfl
  intro p bytes hread
  obtain ⟨e, he, rfl⟩ := List.mem_map.mp (Files.mem_of_of_list_read hread)
  exact hentries e he

theorem repaired_apart : Files.repaired.Apart ["/d", "/e", "/g"] := by decide

theorem repaired_run : ∃ st st₁ st₂,
    Completes (Files.paired.host (answering fun _ => [.one])) .standard ["/d", "/e", "/g"] .empty
      st ∧
    CompletesFiles (Files.repaired.workspace ["/d", "/e", "/g"] (answering fun _ => [.one]))
      .standard ["/d/a.md", "/e/b.md", "/g/c.md"] st st₁ ∧
    Completes (Files.repaired.host (answering fun _ => [.one])) .standard ["/d", "/e", "/g"] st
      st₂ ∧
    st.catalog.map Prod.fst = (Files.repaired.scope "/d").slots "/d/a.md" ++
      (Files.repaired.scope "/e").slots "/e/b.md" := by
  refine ⟨_, _, _, completes_of_done (w := ()) ?_ ?_, completes_files_of_done (w := ()) ?_ ?_,
    completes_of_done (w := ()) ?_ ?_, ?_⟩
  all_goals decide +kernel

/-- What the first state of the files has left in the catalog. -/
theorem paired_knows {st : Store} (hcatalog : st.catalog.map Prod.fst =
      (Files.repaired.scope "/d").slots "/d/a.md" ++ (Files.repaired.scope "/e").slots "/e/b.md")
    {dir p : Path} (hdir : dir ∈ ["/d", "/e", "/g"]) (h : st.Knows (Files.repaired.scope dir) p) :
    dir = "/d" ∧ p = "/d/a.md" ∨ dir = "/e" ∧ p = "/e/b.md" := by
  obtain ⟨k, hmem⟩ := knows_iff.mp h
  have happart := repaired_apart dir hdir
  rw [hcatalog, List.mem_append, Scope.mem_slots, Scope.mem_slots] at hmem
  rcases hmem with ⟨l, hsame⟩ | ⟨l, hsame⟩
  · obtain ⟨⟨hstem, rfl⟩, -⟩ := Scope.slot_eq_iff.mp hsame
    exact Or.inl ⟨happart "/d" (by decide) hstem, rfl⟩
  · obtain ⟨⟨hstem, rfl⟩, -⟩ := Scope.slot_eq_iff.mp hsame
    exact Or.inr ⟨happart "/e" (by decide) hstem, rfl⟩

theorem repaired_covered {st : Store} (hcatalog : st.catalog.map Prod.fst =
      (Files.repaired.scope "/d").slots "/d/a.md" ++ (Files.repaired.scope "/e").slots "/e/b.md") :
    Files.repaired.Covers .standard ["/d", "/e", "/g"] st ["/d/a.md", "/e/b.md", "/g/c.md"] := by
  refine ⟨?_, ?_, ?_⟩
  · have hknown : st.Knows (Files.repaired.scope "/e") "/e/b.md" := by
      rw [knows_iff, hcatalog]
      exact ⟨.metadata, by decide⟩
    simp only [List.forall_mem_cons]
    refine ⟨Or.inl ⟨"/d", by decide, _, rfl, by decide⟩,
      Or.inr ⟨"/e", by decide, hknown⟩, Or.inl ⟨"/g", by decide, _, rfl, by decide⟩, ?_⟩
    simp
  · intro dir _ listed hlist p hp _ _ _
    cases hlist
    have hnamed : ∀ p ∈ ["/d/a.md", "/g/c.md"], p ∈ ["/d/a.md", "/e/b.md", "/g/c.md"] := by decide
    exact hnamed p (List.mem_filter.mp hp).1
  · intro dir hdir p hknown _
    rcases paired_knows hcatalog hdir hknown with ⟨rfl, rfl⟩ | ⟨rfl, rfl⟩
    all_goals decide

/-- A mixture of changes, where all records are in place. -/
theorem named_agrees_with_dirs_iff_repaired : ∃ st st₁ st₂,
    Reached (· = .standard) .editing st ∧
    CompletesFiles (Files.repaired.workspace ["/d", "/e", "/g"] (answering fun _ => [.one]))
      .standard ["/d/a.md", "/e/b.md", "/g/c.md"] st st₁ ∧
    Completes (Files.repaired.host (answering fun _ => [.one])) .standard ["/d", "/e", "/g"] st
      st₂ ∧
    st.InPlace .repaired ["/d", "/e", "/g"] ∧ st₁.Alike st₂ := by
  obtain ⟨st, st₁, st₂, hc, hc₁, hc₂, hcatalog⟩ := repaired_run
  have hst : Reached (· = .standard) .editing st :=
    hc.reached rfl (placed_allowed (by simp [Rules.editing])) .empty
  have hallow : Rules.editing.Allow (Files.repaired.host (answering fun _ => [.one])) :=
    placed_allowed (by simp [Rules.editing])
  have hplace : st.InPlace .repaired ["/d", "/e", "/g"] := by
    intro dir hdir p hknown
    rcases paired_knows hcatalog hdir hknown with ⟨rfl, rfl⟩ | ⟨rfl, rfl⟩
    all_goals decide +kernel
  have hiff := named_agrees_with_dirs_iff (fun _ _ h => h) editing_hashes hst
    (Files.workspace_allowed hallow _) hallow (Files.workspace_presents _ _ _)
    (Files.host_shows _ _) repaired_apart.keys (Files.placed_disjoint (by decide +kernel))
    (repaired_covered hcatalog) (by
      intro dir hdir p hknown hnowhere
      rcases paired_knows hcatalog hdir hknown with ⟨rfl, rfl⟩ | ⟨rfl, rfl⟩
      · exact absurd ⟨"/d", by decide, _, rfl, by decide +kernel⟩ hnowhere
      · exact ⟨_, rfl⟩) hc₁ hc₂
  exact ⟨st, st₁, st₂, hst, hc₁, hc₂, hplace, hiff.mpr hplace⟩

/-- A directory whose name goes on as the keys of another one do, on the branch that makes them the
same. The file is indexed for the one that it lies in and then removed, both on other branches. -/
def Files.mistaken : Files := .placed (fun _ => "b::c") [("/a/x.md", [97])]

def Files.vacated : Files := .placed (fun dir => if dir = "/a" then "z" else "c") []

theorem vacated_apart : Files.vacated.Apart ["/a::b", "/a"] := by decide

theorem vacated_run : ∃ st st₁ st₂,
    Completes (Files.mistaken.host (answering fun _ => [.one])) .standard ["/a"] .empty st ∧
    CompletesFiles (Files.vacated.workspace ["/a::b", "/a"] (answering fun _ => [.one])) .standard
      ["/a/x.md"] st st₁ ∧
    Completes (Files.vacated.host (answering fun _ => [.one])) .standard ["/a::b", "/a"] st st₂ ∧
    st.catalog.map Prod.fst = (Files.vacated.scope "/a::b").slots "/a/x.md" ∧
    st₁.catalog.rows ((Files.vacated.scope "/a::b").slot .metadata "/a/x.md") ≠ [] ∧
    st₂.catalog.rows ((Files.vacated.scope "/a::b").slot .metadata "/a/x.md") = [] := by
  refine ⟨_, _, _, completes_of_done (w := ()) ?_ ?_, completes_files_of_done (w := ()) ?_ ?_,
    completes_of_done (w := ()) ?_ ?_, ?_, ?_, ?_⟩
  all_goals decide +kernel

theorem vacated_covered {st : Store}
    (hcatalog : st.catalog.map Prod.fst = (Files.vacated.scope "/a::b").slots "/a/x.md") :
    Files.vacated.Covers .standard ["/a::b", "/a"] st ["/a/x.md"] := by
  refine ⟨?_, ?_, ?_⟩
  · have hknown : st.Knows (Files.vacated.scope "/a::b") "/a/x.md" := by
      rw [knows_iff, hcatalog]
      exact ⟨.metadata, by decide⟩
    simpa using Or.inr (Or.inl hknown)
  · intro dir _ listed hlist p hp
    cases hlist
    cases hp
  · intro dir _ p hknown _
    obtain ⟨k, hmem⟩ := knows_iff.mp hknown
    rw [hcatalog, Scope.mem_slots] at hmem
    obtain ⟨l, hsame⟩ := hmem
    obtain ⟨⟨-, rfl⟩, -⟩ := Scope.slot_eq_iff.mp hsame
    exact List.mem_singleton_self _

/-- The file is recorded under the keys of a directory that it does not lie in. To name it changes
nothing there, and a refresh of the directories removes it there. -/
theorem named_disagrees_out_of_place : ∃ st st₁ st₂, Reached (· = .standard) .editing st ∧
    (∀ dir ∈ ["/a::b", "/a"], ∀ dir' ∈ ["/a::b", "/a"], ∀ k,
      ((Files.vacated.scope dir).tagFor k).key = ((Files.vacated.scope dir').tagFor k).key →
        dir = dir') ∧
    Files.vacated.Disjoint ["/a::b", "/a"] ∧
    Files.vacated.Covers .standard ["/a::b", "/a"] st ["/a/x.md"] ∧
    (∀ p, ∃ reason, Files.vacated.read p = .error (.io true reason)) ∧
    CompletesFiles (Files.vacated.workspace ["/a::b", "/a"] (answering fun _ => [.one])) .standard
      ["/a/x.md"] st st₁ ∧
    Completes (Files.vacated.host (answering fun _ => [.one])) .standard ["/a::b", "/a"] st st₂ ∧
    ¬ st₁.Alike st₂ := by
  obtain ⟨st, st₁, st₂, hc, hc₁, hc₂, hcatalog, hkept, hdropped⟩ := vacated_run
  have hst : Reached (· = .standard) .editing st :=
    hc.reached rfl (placed_allowed (by simp [Rules.editing])) .empty
  refine ⟨st, st₁, st₂, hst, vacated_apart.keys, Files.placed_disjoint (by decide +kernel),
    vacated_covered hcatalog, fun p => ⟨_, rfl⟩, hc₁, hc₂, ?_⟩
  intro halike
  rw [halike.records, hdropped] at hkept
  exact hkept rfl

end CodeIndex
