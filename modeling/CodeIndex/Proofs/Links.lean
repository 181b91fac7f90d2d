import CodeIndex.Store.Basic
import Mathlib.Data.List.Nodup

namespace CodeIndex

/-- A segment as it is found, with the path and the content of the text it points to. -/
structure FullTextRow where
  index : Nat
  firstLine : Nat
  lastLine : Nat
  text : Option (Path × Text)
deriving DecidableEq, Repr

def FullTextRow.ofWindow (p : Path) (w : Window) : FullTextRow :=
  ⟨w.index, w.firstLine, w.lastLine, some (p, w.content)⟩

namespace Store

/-- The segment with its text, whatever number joins the two. -/
def fullTextRow (st : Store) (s : Segment) : FullTextRow :=
  ⟨s.index, s.firstLine, s.lastLine, (st.textAt? s.textId).map fun t => (t.path, t.content)⟩

def fullTextRows (slot : Slot) (st : Store) : List FullTextRow :=
  (st.segments.rows slot).map st.fullTextRow

/-- Each segment points to a text of its own, which has its path; no text is left over. -/
structure Linked (st : Store) : Prop where
  paired : st.texts.map (fun t => (t.id, t.path)) =
    st.segments.map fun e => (e.2.textId, e.1.path)
  distinct : (st.texts.map StoredText.id).Nodup

theorem linked_empty : Store.empty.Linked := ⟨rfl, .nil⟩

theorem Linked.ids {st : Store} (h : st.Linked) :
    st.texts.map StoredText.id = st.segments.map fun e => e.2.textId := by
  simpa [Function.comp_def] using congrArg (List.map Prod.fst) h.paired

/-- A number leads back to one segment only. -/
theorem Linked.same_slot {st : Store} (h : st.Linked) {e f : Slot × Segment}
    (he : e ∈ st.segments) (hf : f ∈ st.segments) (hid : e.2.textId = f.2.textId) : e = f := by
  have hn : (st.segments.map fun e => e.2.textId).Nodup := h.ids ▸ h.distinct
  exact List.inj_on_of_nodup_map hn he hf hid

theorem Linked.has_text {st : Store} (h : st.Linked) {e : Slot × Segment}
    (he : e ∈ st.segments) : ∃ t ∈ st.texts, t.id = e.2.textId := by
  have hm : e.2.textId ∈ st.texts.map StoredText.id := by
    rw [h.ids]
    exact List.mem_map.mpr ⟨e, he, rfl⟩
  obtain ⟨t, ht, hid⟩ := List.mem_map.mp hm
  exact ⟨t, ht, hid⟩

theorem Linked.has_segment {st : Store} (h : st.Linked) {t : StoredText} (ht : t ∈ st.texts) :
    ∃ e ∈ st.segments, e.2.textId = t.id := by
  have hm : t.id ∈ st.segments.map fun e => e.2.textId := h.ids ▸ List.mem_map_of_mem ht
  obtain ⟨e, he, hid⟩ := List.mem_map.mp hm
  exact ⟨e, he, hid⟩

/-- A text has the path of the segment that points to it. -/
theorem Linked.same_path {st : Store} (h : st.Linked) {t : StoredText} {e : Slot × Segment}
    (ht : t ∈ st.texts) (he : e ∈ st.segments) (hid : e.2.textId = t.id) :
    t.path = e.1.path := by
  have hpair : (t.id, t.path) ∈ st.segments.map fun e => (e.2.textId, e.1.path) :=
    h.paired ▸ List.mem_map_of_mem ht
  obtain ⟨f, hf, heq⟩ := List.mem_map.mp hpair
  obtain ⟨hfid, hfpath⟩ := Prod.mk.inj heq
  rw [h.same_slot he hf (hid.trans hfid.symm), hfpath]

theorem Linked.text_at {st : Store} (h : st.Linked) {t : StoredText} (ht : t ∈ st.texts) :
    st.textAt? t.id = some t := by
  obtain ⟨u, hu⟩ : ∃ u, st.textAt? t.id = some u :=
    Option.isSome_iff_exists.mp (List.find?_isSome.mpr ⟨t, ht, by simp⟩)
  have hid : u.id = t.id := by simpa using List.find?_some hu
  rw [hu, List.inj_on_of_nodup_map h.distinct (List.mem_of_find?_eq_some hu) ht hid]

/-- Each segment leads to a text, in the order of the texts. -/
theorem Linked.texts_eq {st : Store} (h : st.Linked) :
    st.texts.map some = st.segments.map fun e => st.textAt? e.2.textId := by
  have hids : (st.texts.map StoredText.id).map st.textAt? =
      (st.segments.map fun e => e.2.textId).map st.textAt? := congrArg _ h.ids
  rw [List.map_map, List.map_map] at hids
  rw [← List.map_congr_left fun t ht => h.text_at ht]
  exact hids

/-- Drops the segments of some slots, and the texts they point to. -/
def dropSegments (q : Slot → Bool) (st : Store) : Store :=
  { st with
    texts := withoutTexts ((st.segments.filter (q ·.1)).map (·.2)) st.texts
    segments := st.segments.filter (!q ·.1) }

theorem drop_windows_eq (slot : Slot) (st : Store) :
    st.dropWindows slot = st.dropSegments fun s => s = slot := by
  simp [dropWindows, dropSegments, Table.rows, Table.without]

theorem clear_windows_eq (key : String) (st : Store) :
    st.clearWindows key = st.dropSegments fun s => s.tag = key := by
  simp [clearWindows, dropSegments, Table.underTag, Table.withoutTag]

/-- A text is dropped exactly with its segment. -/
theorem Linked.dropped_iff {st : Store} (h : st.Linked) (q : Slot → Bool) {e : Slot × Segment}
    (he : e ∈ st.segments) :
    ((st.segments.filter (q ·.1)).map (·.2)).any (·.textId = e.2.textId) = q e.1 := by
  apply Bool.eq_iff_iff.mpr
  rw [List.any_eq_true]
  constructor
  · rintro ⟨s, hs, hid⟩
    obtain ⟨f, hf, rfl⟩ := List.mem_map.mp hs
    obtain ⟨hf, hq⟩ := List.mem_filter.mp hf
    have := h.same_slot hf he (by simpa using hid)
    rwa [this] at hq
  · intro hq
    exact ⟨e.2, List.mem_map.mpr ⟨e, List.mem_filter.mpr ⟨he, hq⟩, rfl⟩, by simp⟩

theorem Linked.drop_segments {st : Store} (h : st.Linked) (q : Slot → Bool) :
    (st.dropSegments q).Linked := by
  let dropped := (st.segments.filter (q ·.1)).map (·.2)
  constructor
  · let keep : Nat × Path → Bool := fun x => !dropped.any (·.textId = x.1)
    calc (st.texts.filter fun t => keep (t.id, t.path)).map (fun t => (t.id, t.path))
        = (st.texts.map fun t => (t.id, t.path)).filter keep := by
          rw [List.filter_map, Function.comp_def]
      _ = (st.segments.map fun e => (e.2.textId, e.1.path)).filter keep := by rw [h.paired]
      _ = (st.segments.filter fun e => keep (e.2.textId, e.1.path)).map
            fun e => (e.2.textId, e.1.path) := by rw [List.filter_map, Function.comp_def]
      _ = (st.segments.filter (!q ·.1)).map fun e => (e.2.textId, e.1.path) := by
          congr 1
          apply List.filter_congr
          intro e he
          exact congrArg (!·) (h.dropped_iff q he)
  · exact h.distinct.sublist (List.filter_sublist.map _)

theorem segment_rows_drop (q : Slot → Bool) (slot : Slot) (st : Store) :
    (st.dropSegments q).segments.rows slot = if q slot then [] else st.segments.rows slot := by
  simp only [dropSegments, Table.rows, List.filter_filter]
  split
  · rename_i hq
    rw [List.filter_eq_nil_iff.mpr, List.map_nil]
    rintro ⟨s, r⟩ _ hs
    simp only [Bool.and_eq_true, decide_eq_true_eq] at hs
    obtain ⟨rfl, hs⟩ := hs
    simp [hq] at hs
  · rename_i hq
    congr 1
    apply List.filter_congr
    rintro ⟨s, r⟩ _
    by_cases hs : s = slot
    · subst hs; simp [hq]
    · simp [hs]

/-- A segment that is kept keeps its text. -/
theorem Linked.text_of_kept {st : Store} (h : st.Linked) (q : Slot → Bool)
    {e : Slot × Segment} (he : e ∈ st.segments) (hq : ¬ q e.1) :
    (st.dropSegments q).textAt? e.2.textId = st.textAt? e.2.textId := by
  have hkeep := h.dropped_iff q he
  rw [Bool.eq_false_iff.mpr hq] at hkeep
  simp only [textAt?, dropSegments, withoutTexts, List.find?_filter]
  congr 1
  funext t
  by_cases ht : t.id = e.2.textId
  · simp only [ht, hkeep]; simp
  · simp [ht]

theorem Linked.full_text_rows_drop {st : Store} (h : st.Linked) (q : Slot → Bool) (slot : Slot) :
    (st.dropSegments q).fullTextRows slot = if q slot then [] else st.fullTextRows slot := by
  rw [fullTextRows, segment_rows_drop]
  split
  · rfl
  · rename_i hq
    apply List.map_congr_left
    intro s hs
    obtain ⟨e, he, rfl⟩ := List.mem_map.mp hs
    obtain ⟨he, hslot⟩ := List.mem_filter.mp he
    have htext := h.text_of_kept q he (by rwa [decide_eq_true_eq.mp hslot])
    simp [fullTextRow, htext]

theorem le_foldl_max (ns : List Nat) (n : Nat) :
    n ≤ ns.foldl max n ∧ ∀ m ∈ ns, m ≤ ns.foldl max n := by
  induction ns generalizing n with
  | nil => simp
  | cons k ns ih =>
    obtain ⟨hl, hm⟩ := ih (max n k)
    simp only [List.foldl_cons]
    refine ⟨by omega, ?_⟩
    intro m hmem
    rcases List.mem_cons.mp hmem with rfl | hmem
    · omega
    · exact hm m hmem

theorem lt_fresh_id {texts : List StoredText} {t : StoredText} (ht : t ∈ texts) :
    t.id < freshId texts := by
  have := (le_foldl_max (texts.map StoredText.id) 0).2 t.id (List.mem_map.mpr ⟨t, ht, rfl⟩)
  unfold freshId
  omega

theorem fresh_id_not_mem (texts : List StoredText) :
    freshId texts ∉ texts.map StoredText.id := by
  intro hm
  obtain ⟨t, ht, hid⟩ := List.mem_map.mp hm
  exact absurd hid (Nat.ne_of_lt (lt_fresh_id ht))

/-- Enters a window under a number. -/
def insertWindow (slot : Slot) (id : Nat) (w : Window) (st : Store) : Store :=
  { st with
    texts := st.texts ++ [⟨id, slot.path, w.content⟩]
    segments := st.segments ++ [(slot, ⟨w.index, id, w.firstLine, w.lastLine⟩)] }

/-- Enters windows one by one, each under some number that no text has at that moment. -/
inductive Inserts (slot : Slot) : Store → List Window → Store → Prop where
  | nothing (st : Store) : Inserts slot st [] st
  | window {st st' : Store} {w : Window} {ws : List Window} (id : Nat)
      (hfresh : id ∉ st.texts.map StoredText.id)
      (hrest : Inserts slot (st.insertWindow slot id w) ws st') : Inserts slot st (w :: ws) st'

theorem inserts_add_windows (slot : Slot) (ws : List Window) (st : Store) :
    Inserts slot st ws (ws.foldl (addWindow slot) st) := by
  induction ws generalizing st with
  | nil => exact .nothing st
  | cons w ws ih => exact .window (freshId st.texts) (fresh_id_not_mem st.texts) (ih _)

theorem Linked.insert_window {st : Store} (h : st.Linked) (slot : Slot) {id : Nat}
    (hfresh : id ∉ st.texts.map StoredText.id) (w : Window) :
    (st.insertWindow slot id w).Linked := by
  constructor
  · simp [insertWindow, h.paired]
  · simp only [insertWindow, List.map_append, List.map_cons, List.map_nil]
    rw [List.nodup_append]
    refine ⟨h.distinct, by simp, ?_⟩
    intro i hi j hj hij
    rw [hij, List.mem_singleton.mp hj] at hi
    exact hfresh hi

theorem text_kept {st : Store} {r : Nat} (h : (st.textAt? r).isSome) (slot : Slot) (id : Nat)
    (w : Window) : (st.insertWindow slot id w).textAt? r = st.textAt? r := by
  obtain ⟨t, ht⟩ := Option.isSome_iff_exists.mp h
  have hfound : st.texts.find? (·.id = r) = some t := ht
  simp [textAt?, insertWindow, List.find?_append, hfound]

theorem Linked.text_of_old {st : Store} (h : st.Linked) (slot : Slot) (id : Nat) (w : Window)
    {e : Slot × Segment} (he : e ∈ st.segments) :
    (st.insertWindow slot id w).textAt? e.2.textId = st.textAt? e.2.textId := by
  obtain ⟨t, ht, hid⟩ := h.has_text he
  apply text_kept
  rw [textAt?, List.find?_isSome]
  exact ⟨t, ht, by simpa using hid⟩

theorem text_entered {st : Store} {slot : Slot} {id : Nat}
    (hfresh : id ∉ st.texts.map StoredText.id) (w : Window) :
    (st.insertWindow slot id w).textAt? id = some ⟨id, slot.path, w.content⟩ := by
  have hnone : st.texts.find? (·.id = id) = none := by
    rw [List.find?_eq_none]
    intro t ht hid
    exact hfresh (List.mem_map.mpr ⟨t, ht, decide_eq_true_eq.mp hid⟩)
  simp [textAt?, insertWindow, List.find?_append, hnone]

theorem text_of_new (st : Store) (slot : Slot) {id : Nat}
    (hfresh : id ∉ st.texts.map StoredText.id) (w : Window) :
    (st.insertWindow slot id w).fullTextRow ⟨w.index, id, w.firstLine, w.lastLine⟩ =
      .ofWindow slot.path w := by
  simp [fullTextRow, text_entered hfresh w, FullTextRow.ofWindow]

theorem Linked.full_text_rows_insert {st : Store} (h : st.Linked) (slot s : Slot) {id : Nat}
    (hfresh : id ∉ st.texts.map StoredText.id) (w : Window) :
    (st.insertWindow slot id w).fullTextRows s =
      st.fullTextRows s ++ if s = slot then [.ofWindow slot.path w] else [] := by
  have hold : ∀ r ∈ st.segments.rows s,
      (st.insertWindow slot id w).fullTextRow r = st.fullTextRow r := by
    intro r hr
    obtain ⟨e, he, rfl⟩ := List.mem_map.mp hr
    simp [fullTextRow, h.text_of_old slot id w (List.mem_filter.mp he).1]
  have hrows : (st.insertWindow slot id w).segments.rows s = st.segments.rows s ++
      if s = slot then [⟨w.index, id, w.firstLine, w.lastLine⟩] else [] := by
    simp only [insertWindow, Table.rows_append]
    congr 1
    exact Table.rows_filed s slot [_]
  rw [fullTextRows, hrows, List.map_append, List.map_congr_left hold]
  split
  · rw [List.map_singleton, text_of_new st slot hfresh w]
    rfl
  · rfl

theorem Linked.inserts {st st' : Store} (h : st.Linked) {slot : Slot} {ws : List Window}
    (hi : Inserts slot st ws st') : st'.Linked ∧ ∀ s, st'.fullTextRows s =
      st.fullTextRows s ++ if s = slot then ws.map (.ofWindow slot.path) else [] := by
  induction hi with
  | nothing => exact ⟨h, by simp⟩
  | @window st st' w ws id hfresh _ ih =>
    obtain ⟨hl, hr⟩ := ih (h.insert_window slot hfresh w)
    refine ⟨hl, ?_⟩
    intro s
    rw [hr, h.full_text_rows_insert slot s hfresh w]
    split <;> simp

/-- The windows of a slot are replaced, however the new ones are numbered. -/
theorem Linked.replaces {st st' : Store} (h : st.Linked) {slot : Slot} {ws : List Window}
    (hi : Inserts slot (st.dropWindows slot) ws st') : st'.Linked ∧ ∀ s, st'.fullTextRows s =
      if s = slot then ws.map (.ofWindow slot.path) else st.fullTextRows s := by
  rw [drop_windows_eq] at hi
  obtain ⟨hl, hr⟩ := (h.drop_segments fun s => s = slot).inserts hi
  refine ⟨hl, ?_⟩
  intro s
  rw [hr, h.full_text_rows_drop]
  by_cases hs : s = slot <;> simp [hs]

/-- Windows are written to the two tables of the full-text artifact only. -/
theorem inserts_frame {st st' : Store} {slot : Slot} {ws : List Window}
    (hi : Inserts slot st ws st') : st'.catalog = st.catalog ∧ st'.facts = st.facts ∧
      st'.chunks = st.chunks ∧ st'.embeddings = st.embeddings := by
  induction hi with
  | nothing => exact ⟨rfl, rfl, rfl, rfl⟩
  | window _ _ _ ih => exact ih

end Store
end CodeIndex
