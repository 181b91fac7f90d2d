import CodeIndex.Proofs.Links
import CodeIndex.Store.Update

namespace CodeIndex
namespace Table

/-- Enters a row, unless the slot has one with the same key. -/
def enter? [DecidableEq κ] (key : α → κ) (slot : Slot) (t : Table α) (a : α) :
    Option (Table α) :=
  if key a ∈ (t.rows slot).map key then none else some (t ++ [(slot, a)])

section
variable [DecidableEq κ] {key : α → κ}

theorem enter_all {slot : Slot} {t : Table α} {as : List α}
    (hfree : ((t.rows slot ++ as).map key).Nodup) :
    as.foldlM (enter? key slot) t = some (t ++ as.map fun a => (slot, a)) := by
  induction as generalizing t with
  | nil => simp
  | cons a as ih =>
    have hrows : (t ++ [(slot, a)]).rows slot = t.rows slot ++ [a] := by simp [rows]
    have hnew : key a ∉ (t.rows slot).map key := by
      rw [List.map_append, List.map_cons] at hfree
      intro h
      exact (List.nodup_middle.mp hfree).notMem (List.mem_append_left _ h)
    rw [List.foldlM_cons, enter?, if_neg hnew, Option.bind_eq_bind, Option.bind_some, ih]
    · simp
    · simpa [hrows] using hfree

/-- After the old rows of a slot are gone, only the keys of the new ones matter. -/
theorem enter_put {slot : Slot} {t : Table α} {as : List α} (hkeys : (as.map key).Nodup) :
    as.foldlM (enter? key slot) (t.without slot) = some (t.put slot as) := by
  rw [enter_all (by simpa [rows_without] using hkeys), put]

end

end Table

/-- Rows that carry their numbers in a file have keys of their own. -/
theorem nodup_of_zipIdx {f : α × Nat → β} {index : β → Nat} (hf : ∀ x, index (f x) = x.2)
    (as : List α) : ((as.zipIdx.map f).map index).Nodup := by
  have hindexes : (as.zipIdx.map f).map index = as.zipIdx.map Prod.snd := by
    rw [List.map_map]
    exact List.map_congr_left fun x _ => hf x
  rw [hindexes, List.zipIdx_map_snd]
  exact List.nodup_range'

theorem Fact.nodup_names (e : FileEntry) (content : Text) :
    ((Fact.ofContent e content).map Fact.name).Nodup := by
  simp [Fact.ofContent]

/-- Blank windows leave gaps in the numbers, but no number is given twice. -/
theorem Window.nodup_indexes (size : Nat) (content : Text) :
    ((Window.ofContent size content).map Window.index).Nodup := by
  unfold ofContent
  apply List.Nodup.sublist (List.filter_sublist.map index)
  apply nodup_of_zipIdx
  intro x
  rfl

theorem ChunkRow.nodup_indexes (cs : List Chunk) :
    ((ChunkRow.ofChunks cs).map ChunkRow.index).Nodup := by
  apply nodup_of_zipIdx
  intro x
  rfl

theorem EmbeddingRow.nodup_indexes (es : List Embedded) :
    ((EmbeddingRow.ofAll es).map EmbeddingRow.index).Nodup := by
  apply nodup_of_zipIdx
  intro x
  rfl

/-- A row of some artifact. A window comes with the number of its text. -/
inductive NewRow where
  | fact (row : Fact)
  | window (id : Nat) (w : Window)
  | chunk (row : ChunkRow)
  | embedding (row : EmbeddingRow)

namespace Store

/-- Enters a row into its table, unless its key is taken there. Of a window, the number of the text
is a key as well. -/
def enter? (slot : Slot) (st : Store) : NewRow → Option Store
  | .fact row => (st.facts.enter? Fact.name slot row).map fun facts => { st with facts }
  | .window id w =>
    if id ∈ st.texts.map StoredText.id then none
    else
      let segment : Segment := ⟨w.index, id, w.firstLine, w.lastLine⟩
      (st.segments.enter? Segment.index slot segment).map fun segments =>
        { st with texts := st.texts ++ [⟨id, slot.path, w.content⟩], segments }
  | .chunk row => (st.chunks.enter? ChunkRow.index slot row).map fun chunks => { st with chunks }
  | .embedding row =>
    (st.embeddings.enter? EmbeddingRow.index slot row).map fun embeddings => { st with embeddings }

def enterAll? (slot : Slot) (rows : List NewRow) (st : Store) : Option Store :=
  rows.foldlM (enter? slot) st

section
variable {slot : Slot} {st st' : Store}

/-- Rows that all go to one table are entered there. -/
theorem enter_all_in_table [DecidableEq κ] {key : α → κ} {row : α → NewRow}
    {put : Table α → Store}
    (hput : ∀ t a, (put t).enter? slot (row a) = (t.enter? key slot a).map put) {t : Table α}
    {as : List α} (hkeys : (as.map key).Nodup) :
    (put (t.without slot)).enterAll? slot (as.map row) = some (put (t.put slot as)) := by
  have hall : ∀ t, (put t).enterAll? slot (as.map row) =
      (as.foldlM (Table.enter? key slot) t).map put := by
    clear hkeys
    unfold enterAll?
    induction as with
    | nil => exact fun _ => rfl
    | cons a as ih =>
      intro t
      rw [List.map_cons, List.foldlM_cons, List.foldlM_cons, hput]
      cases t.enter? key slot a with
      | none => rfl
      | some t' => exact ih t'
  rw [hall, Table.enter_put hkeys, Option.map_some]

/-- Windows with numbers of their own are entered, whatever their texts are numbered. -/
theorem Inserts.enters {ws : List Window} (hi : Inserts slot st ws st')
    (hfree : (((st.segments.rows slot).map Segment.index) ++ ws.map Window.index).Nodup) :
    ∃ rows, st.enterAll? slot rows = some st' := by
  induction hi with
  | nothing => exact ⟨[], rfl⟩
  | @window st st' w ws id hfresh hrest ih =>
    have hnew : w.index ∉ (st.segments.rows slot).map Segment.index := by
      intro h
      exact (List.nodup_middle.mp hfree).notMem (List.mem_append_left _ h)
    have henter : st.enter? slot (.window id w) = some (st.insertWindow slot id w) := by
      simp only [enter?, if_neg hfresh, Table.enter?, if_neg hnew, Option.map_some, insertWindow]
    have hrows : (st.insertWindow slot id w).segments.rows slot =
        st.segments.rows slot ++ [⟨w.index, id, w.firstLine, w.lastLine⟩] := by
      simp [insertWindow, Table.rows]
    obtain ⟨rows, hrows⟩ := ih (by simpa [hrows] using hfree)
    exact ⟨.window id w :: rows, by simp [enterAll?, henter, ← hrows]⟩

end

/-- The rows of a file that is not cut into windows are entered after the old ones are gone. -/
theorem write_enters {s : Settings} {kind : ArtifactKind} {slot : Slot} {e : FileEntry}
    {content : Text} {embedded : List Embedded} {st st' : Store} {outcome : Outcome}
    (hkind : kind ≠ .fullText)
    (hw : st.write s kind slot e content embedded = .ok (st', outcome)) :
    ∃ rows, (st.remove kind slot).enterAll? slot rows = some st' := by
  cases kind with
  | fullText => exact absurd rfl hkind
  | metadata =>
    have hput : ∀ (t : Table Fact) (row : Fact),
        ({ st with facts := t } : Store).enter? slot (.fact row) =
          (t.enter? Fact.name slot row).map fun t => { st with facts := t } :=
      fun _ _ => rfl
    cases hw
    exact ⟨_, enter_all_in_table hput (Fact.nodup_names e content)⟩
  | chunk =>
    have hput : ∀ (t : Table ChunkRow) (row : ChunkRow),
        ({ st with chunks := t } : Store).enter? slot (.chunk row) =
          (t.enter? ChunkRow.index slot row).map fun t => { st with chunks := t } :=
      fun _ _ => rfl
    simp only [write] at hw
    split at hw
    · cases hw
    · rename_i cs _
      cases hw
      exact ⟨_, enter_all_in_table hput (ChunkRow.nodup_indexes cs)⟩
  | embeddings =>
    have hput : ∀ (t : Table EmbeddingRow) (row : EmbeddingRow),
        ({ st with embeddings := t } : Store).enter? slot (.embedding row) =
          (t.enter? EmbeddingRow.index slot row).map fun t => { st with embeddings := t } :=
      fun _ _ => rfl
    cases hw
    exact ⟨_, enter_all_in_table hput (EmbeddingRow.nodup_indexes embedded)⟩

end Store
end CodeIndex
