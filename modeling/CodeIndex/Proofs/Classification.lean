import CodeIndex.Path.Map
import CodeIndex.Proofs.Planning
import CodeIndex.Proofs.RawPaths
import CodeIndex.Proofs.Spellings

namespace CodeIndex

theorem Change.classify_eq_added_iff {current : String} {recorded : List (Option String)} :
    classify current recorded = .added ↔ ∀ r ∈ recorded, r = none := by
  have hnone : recorded.all Option.isNone ↔ ∀ r ∈ recorded, r = none := by
    simp [List.all_eq_true]
  rw [classify, ← hnone]
  split
  · rename_i hnew
    simp [hnew]
  · rename_i hknown
    simp only [hknown]
    split <;> simp

theorem Change.classify_eq_updated_iff {current : String} {recorded : List (Option String)} :
    classify current recorded = .updated ↔
      (∃ r ∈ recorded, r ≠ none) ∧ ∃ r ∈ recorded, r ≠ some current := by
  have hchange : classify current recorded = .updated ↔
      classify current recorded ≠ .added ∧ classify current recorded ≠ .unchanged := by
    have hstays := classify_ne_removed current recorded
    cases hchange : classify current recorded <;> simp_all
  rw [hchange, ne_eq, ne_eq, classify_eq_added_iff, classify_eq_unchanged_iff]
  simp only [not_forall, not_and_or, exists_prop, ne_eq]
  grind

namespace FileChange

theorem nodup_add_records {seen rs : Records} (hseen : (seen.map Prod.fst).Nodup) :
    ((addRecords seen rs).map Prod.fst).Nodup := by
  unfold addRecords
  induction rs generalizing seen with
  | nil => exact hseen
  | cons r rs ih =>
    rw [List.foldl_cons]
    apply ih
    split
    · exact hseen
    · rename_i hnew
      have hr : r.1 ∉ seen.map Prod.fst := by simpa using hnew
      rw [List.map_append]
      exact hseen.append (List.nodup_singleton _) (by simpa using hr)

section
variable {P : Type} [PathForm P] {catalogs : List Records} {listed : List P}
  {hashOf : P → Option String}

/-- The text of the path that a change is about. -/
def text (c : FileChange P) : Path := PathForm.text c.path

theorem text_of_removed {c : FileChange P} (hc : c ∈ removedChanges catalogs listed) :
    c.text ∉ listed.map PathForm.text := by
  obtain ⟨t, hash, rfl, hgone, -⟩ := mem_removed_changes.mp hc
  rwa [text, PathForm.text_of_text]

theorem nodup_removed_changes (catalogs : List Records) (listed : List P) :
    ((removedChanges catalogs listed).map text).Nodup := by
  have hgone : ((goneRecords catalogs listed).map Prod.fst).Nodup := by
    rw [gone_records_eq]
    exact nodup_add_records List.nodup_nil
  have htext : text ∘ (fun r => ⟨PathForm.ofText r.1, .removed, r.2⟩ : _ → FileChange P) =
      Prod.fst := funext fun r => PathForm.text_of_text r.1
  rw [removedChanges, List.map_map, htext]
  exact ((List.mergeSort_perm _ _).map _).nodup_iff.mpr hgone

theorem nodup_listed_changes (hlisted : (listed.map PathForm.text).Nodup) :
    ((listedChanges catalogs listed hashOf).map text).Nodup := by
  rw [List.Nodup, List.pairwise_map] at hlisted
  rw [List.Nodup, List.pairwise_map, listedChanges, List.pairwise_filterMap]
  refine hlisted.imp fun {p q} hne c hc d hd => ?_
  have hpath : ∀ {p c}, c ∈ listedChanges catalogs [p] hashOf → c.path = p := fun hc =>
    List.mem_singleton.mp (mem_listed_changes.mp hc).1
  have hcp : c.path = p := hpath (List.mem_filterMap.mpr ⟨p, List.mem_singleton_self p, hc⟩)
  have hdq : d.path = q := hpath (List.mem_filterMap.mpr ⟨q, List.mem_singleton_self q, hd⟩)
  rwa [text, text, hcp, hdq]

/-- No text is planned twice, if none is listed twice. -/
theorem nodup_plan (hlisted : (listed.map PathForm.text).Nodup) :
    ((plan catalogs listed hashOf).map text).Nodup := by
  rw [plan, ((List.mergeSort_perm _ _).map _).nodup_iff, List.map_append]
  apply (nodup_listed_changes hlisted).append (nodup_removed_changes catalogs listed)
  intro t ht hgone
  obtain ⟨c, hc, rfl⟩ := List.mem_map.mp ht
  obtain ⟨d, hd, hsame⟩ := List.mem_map.mp hgone
  apply text_of_removed hd
  rw [hsame]
  exact List.mem_map_of_mem (mem_listed_changes.mp hc).1

instance : Std.TransCmp Path.compare := trans_on Path.compareComponents Path.components

theorem plan_sorted (catalogs : List Records) (listed : List P) (hashOf : P → Option String) :
    (plan catalogs listed hashOf).Pairwise fun a b => a.precedes b := by
  apply List.pairwise_mergeSort
  · exact fun a b c => Std.TransCmp.isLE_trans
  · intro a b
    have hswap : Path.compare (PathForm.spelling b.path) (PathForm.spelling a.path) =
        (Path.compare (PathForm.spelling a.path) (PathForm.spelling b.path)).swap :=
      Std.OrientedCmp.eq_swap
    rw [precedes, precedes, hswap]
    cases Path.compare (PathForm.spelling a.path) (PathForm.spelling b.path) <;> rfl

end
end FileChange

namespace Store

/-- The records of a tag, read in whatever order. -/
def Reads (st : Store) (t : Tag) (rs : Records) : Prop := ∀ p, rs.hash? p = st.hash? ⟨t.key, p⟩

theorem reads_records (st : Store) (t : Tag) : st.Reads t (st.records t.key) :=
  hash_of_records st t.key

section
variable {P : Type} [PathForm P]

/-- What is to be done about a path, by what each tag records of its text. -/
inductive Due (st : Store) (tags : List Tag) (listed : List P) (hashOf : P → Option String) :
    FileChange P → Prop where
  | added {p : P} {hash : String} (hlisted : p ∈ listed) (hhash : hashOf p = some hash)
      (hnew : ∀ t ∈ tags, st.hash? ⟨t.key, PathForm.text p⟩ = none) :
      Due st tags listed hashOf ⟨p, .added, hash⟩
  | updated {p : P} {hash : String} (hlisted : p ∈ listed) (hhash : hashOf p = some hash)
      (hknown : ∃ t ∈ tags, st.hash? ⟨t.key, PathForm.text p⟩ ≠ none)
      (hdiffers : ∃ t ∈ tags, st.hash? ⟨t.key, PathForm.text p⟩ ≠ some hash) :
      Due st tags listed hashOf ⟨p, .updated, hash⟩
  | removed {q : Path} {hash : String} {before after : List Tag} {t : Tag}
      (hgone : q ∉ listed.map PathForm.text) (htags : tags = before ++ t :: after)
      (hfirst : ∀ u ∈ before, st.hash? ⟨u.key, q⟩ = none)
      (hrecord : st.hash? ⟨t.key, q⟩ = some hash) :
      Due st tags listed hashOf ⟨PathForm.ofText q, .removed, hash⟩

variable {st : Store} {tags : List Tag} {catalogs : List Records} {listed : List P}
  {hashOf : P → Option String}

theorem recorded_of_reads (hread : List.Forall₂ st.Reads tags catalogs) (q : Path) :
    catalogs.map (·.hash? q) = tags.map fun t => st.hash? ⟨t.key, q⟩ := by
  induction hread with
  | nil => rfl
  | cons hr _ ih => rw [List.map_cons, List.map_cons, hr q, ih]

theorem first_of_reads (hread : List.Forall₂ st.Reads tags catalogs) (q : Path) :
    catalogs.findSome? (·.hash? q) = tags.findSome? fun t => st.hash? ⟨t.key, q⟩ := by
  have hsame := congrArg (List.findSome? id) (recorded_of_reads hread q)
  simpa [List.findSome?_map, Function.comp_def] using hsame

theorem mem_plan_iff_due (hread : List.Forall₂ st.Reads tags catalogs) (c : FileChange P) :
    c ∈ FileChange.plan catalogs listed hashOf ↔ st.Due tags listed hashOf c := by
  rw [FileChange.mem_plan, FileChange.mem_listed_changes, FileChange.mem_removed_changes,
    recorded_of_reads hread]
  constructor
  · rintro (⟨hlisted, hhash, hclass, hne⟩ | ⟨q, hash, rfl, hgone, hrecord⟩)
    · obtain ⟨p, change, hash⟩ := c
      cases change with
      | added =>
        refine .added hlisted hhash fun t ht => ?_
        exact Change.classify_eq_added_iff.mp hclass _ (List.mem_map_of_mem ht)
      | updated =>
        obtain ⟨hknown, hdiffers⟩ := Change.classify_eq_updated_iff.mp hclass
        simp only [List.mem_map, exists_exists_and_eq_and] at hknown hdiffers
        exact .updated hlisted hhash hknown hdiffers
      | removed => exact absurd hclass (Change.classify_ne_removed _ _)
      | unchanged => exact absurd rfl hne
    · rw [first_of_reads hread] at hrecord
      obtain ⟨before, t, after, htags, hr, hnone⟩ := List.findSome?_eq_some_iff.mp hrecord
      exact .removed hgone htags hnone hr
  · intro hdue
    cases hdue with
    | added hlisted hhash hnew =>
      refine .inl ⟨hlisted, hhash, Change.classify_eq_added_iff.mpr ?_, by simp⟩
      simpa using hnew
    | updated hlisted hhash hknown hdiffers =>
      refine .inl ⟨hlisted, hhash, Change.classify_eq_updated_iff.mpr ?_, by simp⟩
      simpa only [List.mem_map, exists_exists_and_eq_and] using ⟨hknown, hdiffers⟩
    | @removed q hash _ _ _ hgone htags hnone hr =>
      refine .inr ⟨q, hash, rfl, hgone, ?_⟩
      rw [first_of_reads hread]
      exact List.findSome?_eq_some_iff.mpr ⟨_, _, _, htags, hr, hnone⟩

end
end Store

/-- A plan is in path order. Of the listed files with a known hash it names those whose text no tag
records and those whose text some tag records but not all record so; of the texts that are not
listed, those that some tag records, each with what the first such tag says. It names no others, and
no text twice if the listed files have different texts. -/
theorem plan_classifies {P : Type} [PathForm P] {st : Store} {tags : List Tag}
    {catalogs : List Records} (hread : List.Forall₂ st.Reads tags catalogs) (listed : List P)
    (hashOf : P → Option String) :
    let changes := FileChange.plan catalogs listed hashOf
    ((listed.map PathForm.text).Nodup → (changes.map FileChange.text).Nodup) ∧
      changes.Pairwise (fun a b => a.precedes b) ∧
      ∀ c, c ∈ changes ↔ st.Due tags listed hashOf c :=
  ⟨FileChange.nodup_plan, FileChange.plan_sorted _ _ _, Store.mem_plan_iff_due hread⟩

/-- Two tags of one scope. The second knows only one of the files, and by another hash. -/
def Store.disagreeing : Store :=
  { Store.empty with catalog :=
      [(⟨((Scope.mk "main" "/d").tagFor .metadata).key, "/d/a.md"⟩, "1"),
       (⟨((Scope.mk "main" "/d").tagFor .metadata).key, "/d/gone.md"⟩, "2"),
       (⟨((Scope.mk "main" "/d").tagFor .metadata).key, "/d/locked.md"⟩, "3"),
       (⟨((Scope.mk "main" "/d").tagFor .chunk).key, "/d/gone.md"⟩, "4")] }

/-- The hash of a file is known under another spelling, and only one tag records it: it is updated.
The file that is gone carries the first of its two hashes, and the one that could not be read is
left alone. -/
theorem plan_classifies_disagreeing :
    let tags := [(Scope.mk "main" "/d").tagFor .metadata, (Scope.mk "main" "/d").tagFor .chunk]
    let catalogs := tags.map fun t => Store.disagreeing.records t.key
    let changes := FileChange.plan catalogs ["/d/locked.md", "/d/a.md"]
      (PathMap.at? · [("/d//a.md", "1")])
    List.Forall₂ Store.disagreeing.Reads tags catalogs ∧
      (changes.map FileChange.text).Nodup ∧ ⟨"/d/a.md", .updated, "1"⟩ ∈ changes ∧
      ⟨"/d/gone.md", .removed, "2"⟩ ∈ changes ∧
      ∀ c ∈ changes, c.path ≠ "/d/locked.md" := by
  intro tags catalogs changes
  have hread : List.Forall₂ Store.disagreeing.Reads tags catalogs :=
    .cons (Store.reads_records _ _) (.cons (Store.reads_records _ _) .nil)
  obtain ⟨hnodup, -, hmem⟩ := plan_classifies hread ["/d/locked.md", "/d/a.md"]
    (PathMap.at? · [("/d//a.md", "1")])
  refine ⟨hread, hnodup (by decide), (hmem _).mpr ?_, (hmem _).mpr ?_, fun c hc hlocked => ?_⟩
  · exact .updated (by decide) (by decide) (by decide) (by decide)
  · have htags : tags = [] ++ (Scope.mk "main" "/d").tagFor .metadata ::
        [(Scope.mk "main" "/d").tagFor .chunk] := rfl
    exact .removed (by decide) htags (by simp) (by decide)
  · have hnone : PathMap.at? "/d/locked.md" [("/d//a.md", "1")] = none := by decide
    cases (hmem c).mp hc with
    | added _ hhash _ | updated _ hhash _ _ =>
      subst hlocked
      exact absurd (hnone.symm.trans hhash) (by simp)
    | removed hgone _ _ _ =>
      subst hlocked
      exact hgone (by decide)

/-- Neither of the two files is listed twice, and both are added under one text. -/
theorem plan_repeats_text :
    let tag := (Scope.mk "main" "/d").tagFor .metadata
    let changes := FileChange.plan [Store.empty.records tag.key] RawPath.alike fun _ => some "1"
    RawPath.alike.Nodup ∧
      (∀ p ∈ RawPath.alike, ⟨p, .added, "1"⟩ ∈ changes ∧ p.text = "/d/a\uFFFD.md") ∧
      ¬ (changes.map FileChange.text).Nodup := by
  intro tag changes
  have hdue : ∀ p ∈ RawPath.alike, ⟨p, .added, "1"⟩ ∈ changes := fun p hp =>
    (Store.mem_plan_iff_due (.cons (Store.reads_records .empty tag) .nil) _).mpr
      (.added hp rfl fun t _ => rfl)
  have htext : ∀ p ∈ RawPath.alike, p.text = "/d/a\uFFFD.md" := by decide +kernel
  refine ⟨by decide, fun p hp => ⟨hdue p hp, htext p hp⟩, fun hnodup => ?_⟩
  have hsame := List.inj_on_of_nodup_map hnodup (hdue RawPath.alike[0] (by decide))
    (hdue RawPath.alike[1] (by decide))
    ((htext _ (by decide)).trans (htext _ (by decide)).symm)
  exact absurd hsame (by decide)

end CodeIndex
