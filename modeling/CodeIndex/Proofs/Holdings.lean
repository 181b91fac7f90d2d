import CodeIndex.Proofs.Links
import CodeIndex.Proofs.TagKeys
import CodeIndex.Store.Update

namespace CodeIndex

/-- The rows of one artifact. -/
inductive Rows where
  | facts (rows : List Fact)
  | fullText (rows : List FullTextRow)
  | chunks (rows : List ChunkRow)
  | embeddings (rows : List EmbeddingRow)
deriving DecidableEq

namespace Rows

def empty : ArtifactKind → Rows
  | .metadata => .facts []
  | .fullText => .fullText []
  | .chunk => .chunks []
  | .embeddings => .embeddings []

/-- What an artifact stores of a file that has been cut into chunks. -/
def ofFile (s : Settings) (e : FileEntry) (content : Text) (cs : List Chunk)
    (embedded : List Embedded) : ArtifactKind → Rows
  | .metadata => .facts (Fact.ofContent e content)
  | .fullText => .fullText ((Window.ofContent s.segmentLines content).map (.ofWindow e.path))
  | .chunk => .chunks (ChunkRow.ofChunks cs)
  | .embeddings => .embeddings (EmbeddingRow.ofAll embedded)

end Rows

namespace Store

def rowsOf (k : ArtifactKind) (slot : Slot) (st : Store) : Rows :=
  match k with
  | .metadata => .facts (st.facts.rows slot)
  | .fullText => .fullText (st.fullTextRows slot)
  | .chunk => .chunks (st.chunks.rows slot)
  | .embeddings => .embeddings (st.embeddings.rows slot)

/-- One store becomes another by taking new rows in some places. The catalog stays as it is. -/
structure Brings (st : Store) (here : ArtifactKind → Slot → Prop) (new : ArtifactKind → Rows)
    (st' : Store) : Prop where
  linked : st'.Linked
  catalog : st'.catalog = st.catalog
  inside : ∀ {k slot}, here k slot → st'.rowsOf k slot = new k
  outside : ∀ {k slot}, ¬ here k slot → st'.rowsOf k slot = st.rowsOf k slot

theorem Brings.refl {st : Store} (h : st.Linked) (new : ArtifactKind → Rows) :
    st.Brings (fun _ _ => False) new st :=
  ⟨h, rfl, False.elim, fun _ => rfl⟩

theorem Brings.trans {st st₁ st₂ : Store} {here there : ArtifactKind → Slot → Prop}
    {new : ArtifactKind → Rows} (h : st.Brings here new st₁) (g : st₁.Brings there new st₂) :
    st.Brings (fun k slot => here k slot ∨ there k slot) new st₂ := by
  refine ⟨g.linked, g.catalog.trans h.catalog, ?_, ?_⟩
  · intro k slot hp
    by_cases ht : there k slot
    · exact g.inside ht
    · rw [g.outside ht]
      exact h.inside (hp.resolve_right ht)
  · intro k slot hn
    rw [g.outside fun ht => hn (Or.inr ht), h.outside fun hh => hn (Or.inl hh)]

theorem Brings.congr {st st' : Store} {here there : ArtifactKind → Slot → Prop}
    {new : ArtifactKind → Rows} (h : st.Brings here new st')
    (he : ∀ k slot, here k slot ↔ there k slot) : st.Brings there new st' :=
  ⟨h.linked, h.catalog, fun ht => h.inside ((he _ _).mpr ht),
    fun hn => h.outside fun hh => hn ((he _ _).mp hh)⟩

/-- How many chunks an artifact is written without a vector. -/
def lost (embedded : List Embedded) : ArtifactKind → Nat
  | .embeddings => (EmbeddingRow.ofAll embedded).countP EmbeddingRow.failed
  | _ => 0

/-- New rows of one artifact in one slot, read off the table that changed. -/
theorem Brings.of_tables {st st' : Store} {kind : ArtifactKind} {new : ArtifactKind → Rows}
    {p : Slot → Prop} (hl : st'.Linked) (hc : st'.catalog = st.catalog)
    (hin : ∀ slot, p slot → st'.rowsOf kind slot = new kind)
    (hout : ∀ slot, ¬ p slot → st'.rowsOf kind slot = st.rowsOf kind slot)
    (hother : ∀ k slot, k ≠ kind → st'.rowsOf k slot = st.rowsOf k slot) :
    st.Brings (fun k slot => k = kind ∧ p slot) new st' := by
  refine ⟨hl, hc, ?_, ?_⟩
  · rintro k slot ⟨rfl, hs⟩
    exact hin slot hs
  · intro k slot hn
    by_cases hk : k = kind
    · subst hk
      exact hout slot fun hs => hn ⟨rfl, hs⟩
    · exact hother k slot hk

theorem rows_of_full_text {st st' : Store} (k : ArtifactKind) (slot : Slot)
    (hk : k ≠ .fullText) (hf : st'.facts = st.facts) (hc : st'.chunks = st.chunks)
    (he : st'.embeddings = st.embeddings) : st'.rowsOf k slot = st.rowsOf k slot := by
  cases k with
  | fullText => exact absurd rfl hk
  | metadata => simp only [rowsOf, hf]
  | chunk => simp only [rowsOf, hc]
  | embeddings => simp only [rowsOf, he]

/-- Windows are written in place of the old ones, however their texts are numbered. -/
theorem inserts_brings {s : Settings} {e : FileEntry} {content : Text} {st st' : Store}
    (hl : st.Linked) {slot : Slot} (hp : slot.path = e.path)
    (hi : Inserts slot (st.dropWindows slot) (Window.ofContent s.segmentLines content) st')
    (cs : List Chunk) (embedded : List Embedded) :
    st.Brings (fun k sl => k = .fullText ∧ sl = slot) (.ofFile s e content cs embedded) st' := by
  obtain ⟨hlinked, hrows⟩ := hl.replaces hi
  obtain ⟨hcatalog, hfacts, hchunks, hembeddings⟩ := inserts_frame hi
  refine .of_tables hlinked hcatalog ?_ ?_ ?_
  · rintro _ rfl
    simp [rowsOf, hrows, Rows.ofFile, hp]
  · intro sl hn
    simp [rowsOf, hrows, hn]
  · intro k sl hk
    exact rows_of_full_text k sl hk hfacts hchunks hembeddings

theorem write_brings {s : Settings} {e : FileEntry} {content : Text} {cs : List Chunk}
    {st : Store} (hl : st.Linked) (hc : s.chunks e content = .ok cs) (kind : ArtifactKind)
    {slot : Slot} (hp : slot.path = e.path) (embedded : List Embedded) :
    ∃ st' out, st.write s kind slot e content embedded = .ok (st', out) ∧
      out.failed = lost embedded kind ∧
      st.Brings (fun k sl => k = kind ∧ sl = slot) (.ofFile s e content cs embedded) st' := by
  cases kind with
  | metadata =>
    refine ⟨_, _, rfl, rfl, .of_tables ⟨hl.paired, hl.distinct⟩ rfl ?_ ?_ ?_⟩
    · rintro _ rfl
      simp [rowsOf, Table.rows_put, Rows.ofFile]
    · intro sl hn
      simp [rowsOf, Table.rows_put, hn]
    · intro k sl hk
      cases k <;> first | contradiction | rfl
  | fullText =>
    exact ⟨_, _, rfl, rfl, inserts_brings hl hp (inserts_add_windows _ _ _) cs embedded⟩
  | chunk =>
    simp only [write, hc]
    refine ⟨_, _, rfl, rfl, .of_tables ⟨hl.paired, hl.distinct⟩ rfl ?_ ?_ ?_⟩
    · rintro _ rfl
      simp [rowsOf, Table.rows_put, Rows.ofFile]
    · intro sl hn
      simp [rowsOf, Table.rows_put, hn]
    · intro k sl hk
      cases k <;> first | contradiction | rfl
  | embeddings =>
    refine ⟨_, _, rfl, rfl, .of_tables ⟨hl.paired, hl.distinct⟩ rfl ?_ ?_ ?_⟩
    · rintro _ rfl
      simp [rowsOf, Table.rows_put, Rows.ofFile]
    · intro sl hn
      simp [rowsOf, Table.rows_put, hn]
    · intro k sl hk
      cases k <;> first | contradiction | rfl

theorem remove_brings {st : Store} (hl : st.Linked) (kind : ArtifactKind) (slot : Slot) :
    st.Brings (fun k sl => k = kind ∧ sl = slot) .empty (st.remove kind slot) := by
  cases kind with
  | fullText =>
    have hrows := hl.full_text_rows_drop fun s => s = slot
    rw [remove, drop_windows_eq]
    refine .of_tables (hl.drop_segments _) rfl ?_ ?_ ?_
    · rintro _ rfl
      simp [rowsOf, hrows, Rows.empty]
    · intro sl hn
      simp [rowsOf, hrows, hn]
    · intro k sl hk
      exact rows_of_full_text k sl hk rfl rfl rfl
  | metadata | chunk | embeddings =>
    refine .of_tables ⟨hl.paired, hl.distinct⟩ rfl ?_ ?_ ?_
    · rintro _ rfl
      simp [remove, rowsOf, Table.rows_without, Rows.empty]
    · intro sl hn
      simp [remove, rowsOf, Table.rows_without, hn]
    · intro k sl hk
      cases k <;> first | contradiction | rfl

theorem update_of_content {s : Settings} {e : FileEntry} {change : Change} {content : Text}
    (hchange : change = .added ∨ change = .updated) (hcontent : e.content = some content)
    (kind : ArtifactKind) (tag : Tag) (embedded : List Embedded) (st : Store) :
    st.update s kind tag e change embedded =
      st.write s kind ⟨tag.key, e.path⟩ e content embedded := by
  have hrequire : e.require kind = .ok content := by rw [FileEntry.require, hcontent]
  rcases hchange with rfl | rfl
  all_goals rw [update, hrequire]

/-- An update of a file with content succeeds, and its rows depend on the file only. -/
theorem update_content {s : Settings} {e : FileEntry} {change : Change} {content : Text}
    {cs : List Chunk} {st : Store} (hl : st.Linked) (hchange : change = .added ∨ change = .updated)
    (hcontent : e.content = some content) (hc : s.chunks e content = .ok cs) (kind : ArtifactKind)
    (tag : Tag) (embedded : List Embedded) :
    ∃ st' out, st.update s kind tag e change embedded = .ok (st', out) ∧
      out.failed = lost embedded kind ∧
      st.Brings (fun k slot => k = kind ∧ slot = ⟨tag.key, e.path⟩)
        (.ofFile s e content cs embedded) st' := by
  have hpath : (Slot.mk tag.key e.path).path = e.path := rfl
  rw [update_of_content hchange hcontent]
  exact write_brings hl hc kind hpath embedded

theorem clear_brings {st : Store} (hl : st.Linked) (kind : ArtifactKind) (key : String) :
    st.Brings (fun k sl => k = kind ∧ sl.tag = key) .empty (st.clear kind key) := by
  cases kind with
  | fullText =>
    have hrows := hl.full_text_rows_drop fun s => s.tag = key
    rw [clear, clear_windows_eq]
    refine .of_tables (hl.drop_segments _) rfl ?_ ?_ ?_
    · intro sl hs
      simp [rowsOf, hrows, hs, Rows.empty]
    · intro sl hn
      simp [rowsOf, hrows, hn]
    · intro k sl hk
      exact rows_of_full_text k sl hk rfl rfl rfl
  | metadata | chunk | embeddings =>
    refine .of_tables ⟨hl.paired, hl.distinct⟩ rfl ?_ ?_ ?_
    · intro sl hs
      simp [clear, rowsOf, Table.rows_withoutTag, hs, Rows.empty]
    · intro sl hn
      simp [clear, rowsOf, Table.rows_withoutTag, hn]
    · intro k sl hk
      cases k <;> first | contradiction | rfl

end Store
end CodeIndex
