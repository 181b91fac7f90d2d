import CodeIndex.Proofs.Files
import CodeIndex.Proofs.Links
import CodeIndex.Proofs.Segments

namespace CodeIndex

namespace Text

theorem newline_not_mem_line {t line : Text} (hline : line ∈ t.lines) : '\n' ∉ line := by
  obtain ⟨p, hp, hsub⟩ := exists_piece_of_line hline
  intro h
  exact not_separator_of_splitAt hp '\n' (hsub h) rfl

/-- Lines that were joined are told apart again. -/
theorem splitAt_joinLines {group : List Text} (hsome : group ≠ [])
    (hlines : ∀ line ∈ group, '\n' ∉ line) : splitAt (· == '\n') (joinLines group) = group := by
  unfold joinLines
  fun_induction joinWith ['\n'] group with
  | case1 => exact absurd rfl hsome
  | case2 p => exact splitAt_line (hlines p List.mem_cons_self)
  | case3 p ps hps ih =>
    have hrest := ih (fun h => hps (by simp [h])) fun line hl =>
      hlines line (List.mem_cons_of_mem p hl)
    rw [List.append_assoc, List.singleton_append,
      splitAt_newline (hlines p List.mem_cons_self), hrest]

theorem allBlank_joinLines {group : List Text} :
    (joinLines group).allBlank ↔ ∀ line ∈ group, line.allBlank := by
  simp only [allBlank, List.all_eq_true]
  constructor
  · intro h line hline c hc
    exact h c ((infix_joinLines hline).subset hc)
  · intro h c hc
    rcases mem_joinLines hc with rfl | ⟨line, hline, hc⟩
    · decide
    · exact h line hline c hc

end Text

namespace Window

/-- The lines that the window of a number is made of. -/
def linesOf (size index : Nat) (lines : List Text) : List Text :=
  (lines.drop (index * size)).take size

/-- A window is the lines of its number: as many as a window has, unless the file ends before. -/
structure Shows (size : Nat) (lines : List Text) (w : Window) : Prop where
  first : w.firstLine = w.index * size + 1
  last : w.lastLine = min (w.index * size + size) lines.length
  ordered : w.firstLine ≤ w.lastLine
  text : Text.splitAt (· == '\n') w.content = linesOf size w.index lines

/-- Windows one after another, in which every line that is not blank stands once. -/
structure Cover (size : Nat) (lines : List Text) (ws : List Window) : Prop where
  shows : ∀ w ∈ ws, w.Shows size lines
  apart : ws.Pairwise fun v w => v.lastLine < w.firstLine
  missing : ∀ i, i * size < lines.length →
    ((∀ w ∈ ws, w.index ≠ i) ↔ ∀ line ∈ linesOf size i lines, line.allBlank)
  found : ∀ n line, lines[n]? = some line → ¬ line.allBlank → ∃ w ∈ ws,
    (w.firstLine ≤ n + 1 ∧ n + 1 ≤ w.lastLine) ∧
      (Text.splitAt (· == '\n') w.content)[n + 1 - w.firstLine]? = some line ∧
      ∀ v ∈ ws, v.firstLine ≤ n + 1 → n + 1 ≤ v.lastLine → v = w

section
variable {size : Nat} {content : Text} {w : Window}

/-- The window of a number shows its lines, and is left out if they are all blank. -/
theorem mem_of_content_iff (hsize : 1 ≤ size) : w ∈ ofContent size content ↔
    w.index * size < content.lines.length ∧
      w = ofGroup size w.index (linesOf size w.index content.lines) ∧
      ¬ ∀ line ∈ linesOf size w.index content.lines, line.allBlank := by
  rw [mem_of_content, Nat.max_eq_left hsize]
  constructor
  · rintro ⟨⟨group, i, hgroup, rfl⟩, hshown⟩
    rw [getElem?_inGroups hsize] at hgroup
    split at hgroup
    · rename_i hi
      cases hgroup
      exact ⟨hi, rfl, Text.allBlank_joinLines.not.mp hshown⟩
    · cases hgroup
  · rintro ⟨hi, hw, hshown⟩
    refine ⟨⟨_, w.index, ?_, hw⟩, ?_⟩
    · rw [getElem?_inGroups hsize, if_pos hi]
      rfl
    · rw [hw]
      exact Text.allBlank_joinLines.not.mpr hshown

theorem shows_of_mem (hsize : 1 ≤ size) (hw : w ∈ ofContent size content) :
    w.Shows size content.lines := by
  obtain ⟨hi, hw, -⟩ := (mem_of_content_iff hsize).mp hw
  have hlength : (linesOf size w.index content.lines).length =
      min size (content.lines.length - w.index * size) := by
    rw [linesOf, List.length_take, List.length_drop]
  have hfirst : w.firstLine = w.index * size + 1 := by rw [hw]; rfl
  have hlast : w.lastLine = w.index * size + (linesOf size w.index content.lines).length := by
    rw [hw]
    rfl
  refine ⟨hfirst, by omega, by omega, ?_⟩
  have hcontent : w.content = Text.joinLines (linesOf size w.index content.lines) := by
    rw [hw]
    rfl
  rw [hcontent]
  apply Text.splitAt_joinLines
  · apply List.ne_nil_of_length_pos
    omega
  · intro line hline
    exact Text.newline_not_mem_line (List.mem_of_mem_drop (List.mem_of_mem_take hline))

/-- The numbers of the windows ascend, with gaps for the blank ones. -/
theorem indexes_ascend (size : Nat) (content : Text) :
    (ofContent size content).Pairwise fun v w => v.index < w.index := by
  rw [← List.pairwise_map (f := index) (R := (· < ·))]
  unfold ofContent
  apply List.Pairwise.sublist (List.filter_sublist.map index)
  rw [List.map_map, show index ∘ (fun x => ofGroup (max size 1) x.2 x.1) = Prod.snd from rfl,
    List.zipIdx_map_snd]
  exact List.pairwise_lt_range'

theorem Shows.apart {lines : List Text} {v : Window} (hv : v.Shows size lines)
    (hw : w.Shows size lines) (h : v.index < w.index) : v.lastLine < w.firstLine := by
  have hnext : (v.index + 1) * size ≤ w.index * size := Nat.mul_le_mul_right size h
  rw [hv.last, hw.first]
  rw [Nat.add_mul, Nat.one_mul] at hnext
  omega

/-- A line has one number of a window, by division. -/
theorem Shows.index_eq {lines : List Text} (h : w.Shows size lines) {n : Nat}
    (hfirst : w.firstLine ≤ n + 1) (hlast : n + 1 ≤ w.lastLine) : w.index = n / size := by
  rw [h.first] at hfirst
  rw [h.last] at hlast
  symm
  apply Nat.div_eq_of_lt_le
  · omega
  · rw [Nat.add_mul, Nat.one_mul]
    omega

theorem content_cover (hsize : 1 ≤ size) (content : Text) :
    Cover size content.lines (ofContent size content) where
  shows w hw := shows_of_mem hsize hw
  apart := (indexes_ascend size content).imp_of_mem fun hv hw h =>
    (shows_of_mem hsize hv).apart (shows_of_mem hsize hw) h
  missing i hi := by
    constructor
    · intro hnone
      by_contra hshown
      let w := ofGroup size i (linesOf size i content.lines)
      have hw : w ∈ ofContent size content := (mem_of_content_iff hsize).mpr ⟨hi, rfl, hshown⟩
      exact hnone w hw rfl
    · rintro hblank w hw rfl
      exact ((mem_of_content_iff hsize).mp hw).2.2 hblank
  found n line hline hink := by
    obtain ⟨hn, -⟩ := List.getElem?_eq_some_iff.mp hline
    have hstart : n / size * size ≤ n := Nat.div_mul_le_self n size
    have hnext : n < n / size * size + size := Nat.lt_div_mul_add hsize
    let w := ofGroup size (n / size) (linesOf size (n / size) content.lines)
    have hplace : (linesOf size (n / size) content.lines)[n - n / size * size]? = some line := by
      rw [linesOf, List.getElem?_take_of_lt (by omega), List.getElem?_drop,
        Nat.add_sub_cancel' hstart, hline]
    have hw : w ∈ ofContent size content := by
      refine (mem_of_content_iff hsize).mpr ⟨Nat.lt_of_le_of_lt hstart hn, rfl, ?_⟩
      intro hblank
      exact hink (hblank line (List.mem_of_getElem? hplace))
    have hshows := shows_of_mem hsize hw
    have hfirst : w.firstLine = n / size * size + 1 := rfl
    have hlast : w.lastLine = min (n / size * size + size) content.lines.length := hshows.last
    refine ⟨w, hw, ⟨by omega, by omega⟩, ?_, ?_⟩
    · rw [hshows.text, hfirst, Nat.add_sub_add_right]
      exact hplace
    · intro v hv hbefore hafter
      have hv := (mem_of_content_iff hsize).mp hv
      have hindex : v.index = n / size := (shows_of_mem hsize ‹_›).index_eq hbefore hafter
      rw [hv.2.1, hindex]

end

end Window

namespace Store

variable {slot : Slot} {st st' : Store}

theorem segments_entered (id : Nat) (w : Window) :
    (st.insertWindow slot id w).segments.rows slot =
      st.segments.rows slot ++ [⟨w.index, id, w.firstLine, w.lastLine⟩] := by
  simp [insertWindow, Table.rows]

/-- Windows that are entered are found after those that the slot had, if each of these has its
text. -/
theorem Inserts.windows {ws : List Window} (hi : Inserts slot st ws st')
    (hall : ∀ r ∈ st.segments.rows slot, (st.textAt? r.textId).isSome) :
    st'.windows slot = st.windows slot ++ ws := by
  induction hi with
  | nothing => simp
  | @window st st' w ws id hfresh _ ih =>
    have hnew : (st.insertWindow slot id w).textAt? id = some ⟨id, slot.path, w.content⟩ :=
      text_entered hfresh w
    have hold : ∀ r ∈ st.segments.rows slot,
        (st.insertWindow slot id w).textAt? r.textId = st.textAt? r.textId :=
      fun r hr => text_kept (hall r hr) slot id w
    have hwindows : (st.insertWindow slot id w).windows slot = st.windows slot ++ [w] := by
      unfold Store.windows
      rw [segments_entered, List.filterMap_append,
        List.filterMap_congr fun r hr => by rw [hold r hr], List.filterMap_cons, hnew]
      rfl
    rw [ih, hwindows, List.append_assoc, List.singleton_append]
    intro r hr
    rw [segments_entered, List.mem_append, List.mem_singleton] at hr
    rcases hr with hr | rfl
    · rw [hold r hr]
      exact hall r hr
    · simp [hnew]

theorem windows_put (slot : Slot) (ws : List Window) (st : Store) :
    (st.putWindows slot ws).windows slot = ws := by
  have hnone : (st.dropWindows slot).segments.rows slot = [] := by
    rw [drop_windows_eq, segment_rows_drop, if_pos (decide_eq_true rfl)]
  have hempty : (st.dropWindows slot).windows slot = [] := by
    rw [Store.windows, hnone, List.filterMap_nil]
  have hwindows := (inserts_add_windows slot ws (st.dropWindows slot)).windows
    (by simp [hnone])
  rw [hempty, List.nil_append] at hwindows
  exact hwindows

/-- Whatever was stored before, the windows that a file is found with are a cover of its lines. -/
theorem write_windows_cover {s : Settings} (hlines : 1 ≤ s.segmentLines) (slot : Slot)
    (e : FileEntry) (content : Text) (embedded : List Embedded) (st : Store) :
    ∃ st', st.write s .fullText slot e content embedded =
        .ok (st', ⟨(st'.windows slot).length, 0⟩) ∧
      Window.Cover s.segmentLines content.lines (st'.windows slot) := by
  let ws := Window.ofContent s.segmentLines content
  have hwindows : (st.putWindows slot ws).windows slot = ws := windows_put slot ws st
  refine ⟨st.putWindows slot ws, ?_, ?_⟩
  · rw [hwindows]
    rfl
  · rw [hwindows]
    exact Window.content_cover hlines content

/-- A stray return stays in its line, and the blank window in the middle leaves a gap. -/
theorem write_windows_cover_gap : ∃ (s : Settings) (st st' : Store) (content : Text),
    1 ≤ s.segmentLines ∧
    content.lines = [['a', '\r'], ['b'], [], [' '], ['c']] ∧
    (st.windows ⟨"t", "/d/a.md"⟩).length = 1 ∧
    st.write s .fullText ⟨"t", "/d/a.md"⟩ (.ofBytes "/d/a.md" []) content [] = .ok (st', ⟨2, 0⟩) ∧
    st'.windows ⟨"t", "/d/a.md"⟩ =
      [⟨0, 1, 2, ['a', '\r', '\n', 'b']⟩, ⟨2, 5, 5, ['c']⟩] ∧
    Window.Cover s.segmentLines content.lines (st'.windows ⟨"t", "/d/a.md"⟩) := by
  let s : Settings := { Settings.standard with segmentLines := 2 }
  let content : Text := ['a', '\r', '\r', '\n', 'b', '\n', '\n', ' ', '\r', '\n', 'c']
  let st := Store.empty.insertWindow ⟨"t", "/d/a.md"⟩ 7 ⟨0, 1, 1, ['x']⟩
  have hcut : Window.ofContent s.segmentLines content =
      [⟨0, 1, 2, ['a', '\r', '\n', 'b']⟩, ⟨2, 5, 5, ['c']⟩] := by
    decide +kernel
  obtain ⟨st', hwrite, hcover⟩ := write_windows_cover (s := s) (by decide) ⟨"t", "/d/a.md"⟩
    (.ofBytes "/d/a.md" []) content [] st
  have hst' : st' = st.putWindows ⟨"t", "/d/a.md"⟩ (Window.ofContent s.segmentLines content) :=
    (congrArg Prod.fst (Except.ok.inj hwrite)).symm
  have hwindows := windows_put ⟨"t", "/d/a.md"⟩ (Window.ofContent s.segmentLines content) st
  rw [← hst', hcut] at hwindows
  rw [hwindows] at hwrite
  exact ⟨s, st, st', content, by decide, by decide +kernel, by decide +kernel, hwrite, hwindows,
    hcover⟩

end Store
end CodeIndex
