import CodeIndex.Proofs.FileUpdate
import CodeIndex.Refresh.Run

namespace CodeIndex

/-- A journal lists the whole files that were written and removed and the tags that were cleared;
what stands of a file under a tag follows from the journal alone. -/
inductive Act where
  | write (s : Settings) (scope : Scope) (path : Path) (bytes : Bytes)
      (vectors : List (Option Embedding))
  | remove (scope : Scope) (path : Path)
  | clear (tags : List Tag)

/-- The settings, bytes and vectors a file was last written with, and the bytes it was last recorded
with, since it was last removed or cleared. -/
structure Standing where
  written : Option (Settings × Bytes × List (Option Embedding))
  recorded : Option Bytes

def Standing.nothing : Standing := ⟨none, none⟩

namespace Act

def touches (k : ArtifactKind) (scope : Scope) (p : Path) : Act → Bool
  | .write _ t q _ _ | .remove t q => scope.stem = t.stem ∧ p = q
  | .clear tags => tags.any fun tag => (scope.tagFor k).key = tag.key

/-- What an act makes of the standing of a file. A file that lost a vector keeps its old record. -/
def leaves (x : Standing) : Act → Standing
  | .write s _ _ bytes vectors =>
    ⟨some (s, bytes, vectors), if vectors.all Option.isSome then some bytes else x.recorded⟩
  | .remove _ _ | .clear _ => .nothing

end Act

def Standing.after (k : ArtifactKind) (scope : Scope) (p : Path) (x : Standing) (a : Act) :
    Standing :=
  if a.touches k scope p then a.leaves x else x

def standing (k : ArtifactKind) (scope : Scope) (p : Path) (journal : List Act) : Standing :=
  journal.foldl (Standing.after k scope p) .nothing

theorem standing_snoc (k : ArtifactKind) (scope : Scope) (p : Path) (journal : List Act) (a : Act) :
    standing k scope p (journal ++ [a]) =
      if a.touches k scope p then a.leaves (standing k scope p journal)
      else standing k scope p journal := by
  rw [standing, List.foldl_append]
  rfl

/-- The chunks of a file with these bytes. -/
def Settings.chunksOf (s : Settings) (p : Path) (bytes : Bytes) : Except IndexError (List Chunk) :=
  s.chunks (.ofBytes p bytes) (Utf8.decodeLossy bytes)

/-- What an artifact stores of a file with these bytes; nothing if they cannot be cut. -/
def Rows.ofBytes (s : Settings) (p : Path) (bytes : Bytes) (vectors : List (Option Embedding))
    (k : ArtifactKind) : Rows :=
  match s.chunksOf p bytes with
  | .error _ => .empty k
  | .ok cs => .ofFile s (.ofBytes p bytes) (Utf8.decodeLossy bytes) cs
      (List.zipWith Embedded.ofChunk cs vectors) k

theorem Rows.of_bytes_ok {s : Settings} {p : Path} {bytes : Bytes} {cs : List Chunk}
    (h : s.chunksOf p bytes = .ok cs) (vectors : List (Option Embedding)) (k : ArtifactKind) :
    Rows.ofBytes s p bytes vectors k = .ofFile s (.ofBytes p bytes) (Utf8.decodeLossy bytes) cs
      (List.zipWith Embedded.ofChunk cs vectors) k := by
  rw [ofBytes, h]

def Standing.rows (p : Path) (x : Standing) (k : ArtifactKind) : Rows :=
  match x.written with
  | none => .empty k
  | some (s, bytes, vectors) => .ofBytes s p bytes vectors k

def Standing.records (x : Standing) : List String := (x.recorded.map hashBytes).toList

namespace Store

/-- A store that came about by a journal. -/
structure Tells (st : Store) (journal : List Act) : Prop where
  linked : st.Linked
  rows : ∀ k scope p, st.rowsOf k (scope.slot k p) = (standing k scope p journal).rows p k
  records : ∀ k scope p, st.catalog.rows (scope.slot k p) = (standing k scope p journal).records

theorem Tells.hash {st : Store} {journal : List Act} (h : st.Tells journal)
    (k : ArtifactKind) (scope : Scope) (p : Path) :
    st.hash? (scope.slot k p) = (standing k scope p journal).recorded.map hashBytes := by
  rw [hash?, h.records, Standing.records]
  cases (standing k scope p journal).recorded <;> rfl

theorem tells_empty : Store.empty.Tells [] := by
  refine ⟨linked_empty, ?_, fun _ _ _ => rfl⟩
  intro k scope p
  cases k <;> rfl

/-- The rows without a vector, counted by the vectors that are missing. -/
theorem countP_failed {cs : List Chunk} {vectors : List (Option Embedding)}
    (hv : vectors.length = cs.length) :
    (EmbeddingRow.ofAll (List.zipWith Embedded.ofChunk cs vectors)).countP EmbeddingRow.failed =
      vectors.countP Option.isNone := by
  generalize hes : List.zipWith Embedded.ofChunk cs vectors = es
  have hvectors : es.map Embedded.vector = vectors := by
    rw [← hes, ← List.map_uncurry_zip_eq_zipWith, List.map_map]
    exact List.map_snd_zip (Nat.le_of_eq hv)
  have hfst : es.zipIdx.map Prod.fst = es := List.zipIdx_map_fst 0 es
  calc (EmbeddingRow.ofAll es).countP EmbeddingRow.failed
      = es.zipIdx.countP ((·.vector.isNone) ∘ Prod.fst) := by
        rw [EmbeddingRow.ofAll, List.countP_map]
        congr 1
        funext x
        simp [EmbeddingRow.failed, EmbeddingRow.ofEmbedded]
    _ = (es.zipIdx.map Prod.fst).countP (·.vector.isNone) := List.countP_map.symm
    _ = (es.map Embedded.vector).countP Option.isNone := by
        rw [hfst, List.countP_map]
        rfl
    _ = vectors.countP Option.isNone := by rw [hvectors]

theorem countP_isNone_eq_zero_iff {vectors : List (Option Embedding)} :
    vectors.countP Option.isNone = 0 ↔ vectors.all Option.isSome := by
  rw [List.countP_eq_zero, List.all_eq_true]
  simp [Option.isSome_iff_ne_none]

/-- As much is lost as vectors are missing. -/
theorem lost_eq_missing {cs : List Chunk} {vectors : List (Option Embedding)}
    (hv : vectors.length = cs.length) :
    lostBy (lost (List.zipWith Embedded.ofChunk cs vectors)) ArtifactKind.all =
      vectors.countP Option.isNone := by
  rw [← countP_failed hv]
  simp [lostBy, ArtifactKind.all, lost]

/-- A row has failed exactly if a vector is missing. -/
theorem exists_failed_iff {cs : List Chunk} {vectors : List (Option Embedding)}
    (hv : vectors.length = cs.length) :
    (∃ row ∈ EmbeddingRow.ofAll (List.zipWith Embedded.ofChunk cs vectors), row.failed) ↔
      ¬ vectors.all Option.isSome := by
  rw [← countP_isNone_eq_zero_iff, ← countP_failed hv, ← List.countP_pos_iff, Nat.pos_iff_ne_zero]

theorem Replaces.tells {st st' : Store} {journal : List Act} {scope : Scope}
    {p : Path} {new : ArtifactKind → Rows} {lost : Nat} {recorded : List String} {a : Act}
    (h : st.Tells journal) (hr : st.Replaces scope p new lost recorded st')
    (ha : ∀ k t q, a.touches k t q = true ↔ t.stem = scope.stem ∧ q = p)
    (hrows : ∀ k x, (a.leaves x).rows p k = new k)
    (hrecords : ∀ x, (a.leaves x).records = if lost = 0 then recorded else x.records) :
    st'.Tells (journal ++ [a]) := by
  refine ⟨hr.linked, ?_, ?_⟩
  · intro k t q
    rw [hr.rows, standing_snoc]
    by_cases hs : t.stem = scope.stem ∧ q = p
    · obtain ⟨ht, rfl⟩ := hs
      rw [if_pos ⟨ht, rfl⟩, if_pos ((ha k t q).mpr ⟨ht, rfl⟩), hrows]
    · rw [if_neg hs, if_neg fun ht => hs ((ha k t q).mp ht)]
      exact h.rows k t q
  · intro k t q
    rw [hr.records, standing_snoc]
    by_cases hs : t.stem = scope.stem ∧ q = p
    · rw [if_pos ((ha k t q).mpr hs), hrecords, h.records]
      congr 1
      rw [and_iff_left hs]
    · rw [if_neg fun hl => hs hl.2, if_neg fun ht => hs ((ha k t q).mp ht)]
      exact h.records k t q

theorem Tells.write {st : Store} {s : Settings} {journal : List Act} (h : st.Tells journal)
    (scope : Scope) {p : Path} {bytes : Bytes} {change : Change} {cs : List Chunk}
    {vectors : List (Option Embedding)} (hchange : change = .added ∨ change = .updated)
    (hc : s.chunksOf p bytes = .ok cs) (hv : vectors.length = cs.length) : ∃ st',
      st.updateFile s scope (.ofBytes p bytes) change (List.zipWith Embedded.ofChunk cs vectors) =
        .ok (st', vectors.countP Option.isNone) ∧
      st'.Tells (journal ++ [.write s scope p bytes vectors]) := by
  obtain ⟨st', hu, hr⟩ := (writes_content hchange rfl hc).update_file h.linked
  rw [lost_eq_missing hv] at hu hr
  refine ⟨st', hu, hr.tells h ?_ ?_ ?_⟩
  · intro k t q
    exact decide_eq_true_iff
  · intro k x
    exact Rows.of_bytes_ok hc vectors k
  · intro x
    have hchange : change ≠ .removed := by rcases hchange with rfl | rfl <;> decide
    simp only [Act.leaves, Standing.records, recordOf, if_neg hchange, countP_isNone_eq_zero_iff]
    split <;> rfl

theorem Tells.remove {st : Store} {s : Settings} {journal : List Act} (h : st.Tells journal)
    (scope : Scope) (p : Path) (hash : String) (embedded : List Embedded) : ∃ st',
      st.updateFile s scope (.gone p hash) .removed embedded = .ok (st', 0) ∧
      st'.Tells (journal ++ [.remove scope p]) := by
  have hwrites : Writes s scope (.gone p hash) .removed embedded .empty fun _ => 0 := writes_removed
  obtain ⟨st', hu, hr⟩ := hwrites.update_file h.linked
  refine ⟨st', hu, hr.tells h ?_ ?_ ?_⟩
  · intro k t q
    exact decide_eq_true_iff
  · intro k x
    rfl
  · intro x
    rfl

def clearTag (st : Store) (tag : Tag) : Store :=
  let st := match ArtifactKind.ofId? tag.artifact with
    | some kind => st.clear kind tag.key
    | none => st
  st.forgetTag tag.key

theorem clear_tag_scope (st : Store) (scope : Scope) (kind : ArtifactKind) :
    st.clearTag (scope.tagFor kind) =
      (st.clear kind (scope.tagFor kind).key).forgetTag (scope.tagFor kind).key := by
  simp only [clearTag, Scope.tagFor, Scope.tag, ArtifactKind.ofId?_id]

/-- A tag of a scope and an artifact, and no other one. -/
def OfScope (tag : Tag) : Prop := ∃ (scope : Scope) (kind : ArtifactKind), tag = scope.tagFor kind

/-- Since a key names its artifact, dropping its rows from that artifact's tables is enough. -/
theorem clear_tag_view {st : Store} (hl : st.Linked) {tag : Tag} (htag : OfScope tag) :
    (st.clearTag tag).Linked ∧ ∀ k (t : Scope) q,
      (st.clearTag tag).rowsOf k (t.slot k q) =
        (if (t.tagFor k).key = tag.key then .empty k else st.rowsOf k (t.slot k q)) ∧
      (st.clearTag tag).catalog.rows (t.slot k q) =
        if (t.tagFor k).key = tag.key then [] else st.catalog.rows (t.slot k q) := by
  obtain ⟨scope, kind, rfl⟩ := htag
  have hb := clear_brings hl kind (scope.tagFor kind).key
  rw [clear_tag_scope]
  refine ⟨⟨hb.linked.paired, hb.linked.distinct⟩, ?_⟩
  intro k t q
  constructor
  · have hforget : ∀ (st : Store) key, (st.forgetTag key).rowsOf k (t.slot k q) =
        st.rowsOf k (t.slot k q) := by
      intro st key
      cases k <;> rfl
    rw [hforget]
    split
    · rename_i hkey
      exact hb.inside ⟨(Scope.key_eq_iff.mp hkey).2, hkey⟩
    · rename_i hkey
      exact hb.outside fun hin => hkey hin.2
  · rw [forgetTag, Table.rows_withoutTag, hb.catalog]
    rfl

theorem clear_tags_view {st : Store} (hl : st.Linked) {tags : List Tag}
    (htags : ∀ tag ∈ tags, OfScope tag) :
    (tags.foldl clearTag st).Linked ∧ ∀ k (t : Scope) q,
      (tags.foldl clearTag st).rowsOf k (t.slot k q) =
        (if tags.any fun tag => (t.tagFor k).key = tag.key then .empty k
          else st.rowsOf k (t.slot k q)) ∧
      (tags.foldl clearTag st).catalog.rows (t.slot k q) =
        if tags.any fun tag => (t.tagFor k).key = tag.key then []
        else st.catalog.rows (t.slot k q) := by
  induction tags generalizing st with
  | nil => exact ⟨hl, by simp⟩
  | cons tag tags ih =>
    obtain ⟨hlinked, hview⟩ := clear_tag_view hl (htags tag (by simp))
    obtain ⟨hlinkeds, hviews⟩ := ih hlinked fun t ht => htags t (by simp [ht])
    refine ⟨hlinkeds, ?_⟩
    intro k t q
    obtain ⟨hrows, hrecords⟩ := hview k t q
    obtain ⟨hallrows, hallrecords⟩ := hviews k t q
    rw [List.foldl_cons, hallrows, hallrecords, hrows, hrecords, List.any_cons]
    by_cases hkey : (t.tagFor k).key = tag.key <;> simp [hkey]

theorem Tells.clear {st : Store} {journal : List Act} (h : st.Tells journal)
    {tags : List Tag} (htags : ∀ tag ∈ tags, OfScope tag) :
    (tags.foldl clearTag st).Tells (journal ++ [.clear tags]) := by
  obtain ⟨hlinked, hview⟩ := clear_tags_view h.linked htags
  refine ⟨hlinked, ?_, ?_⟩
  · intro k t q
    rw [(hview k t q).1, standing_snoc, h.rows, Act.touches]
    split <;> rfl
  · intro k t q
    rw [(hview k t q).2, standing_snoc, h.records, Act.touches]
    split <;> rfl

end Store
end CodeIndex
