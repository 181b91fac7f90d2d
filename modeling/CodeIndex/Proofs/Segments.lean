import CodeIndex.Proofs.Groups
import CodeIndex.Proofs.Words
import CodeIndex.Store.Rows

namespace CodeIndex

namespace Text

theorem infix_joinLines {group : List Text} {line : Text} (h : line ∈ group) :
    line <:+: joinLines group := by
  unfold joinLines
  fun_induction joinWith ['\n'] group with
  | case1 => cases h
  | case2 p => rw [List.mem_singleton.mp h]
  | case3 p ps hps ih =>
    rcases List.mem_cons.mp h with rfl | h
    · rw [List.append_assoc]
      exact (List.prefix_append _ _).isInfix
    · exact (ih h).trans (List.suffix_append _ _).isInfix

theorem mem_joinLines {group : List Text} {c : Char} (h : c ∈ joinLines group) :
    c = '\n' ∨ ∃ line ∈ group, c ∈ line := by
  unfold joinLines at h
  fun_induction joinWith ['\n'] group with
  | case1 => cases h
  | case2 p => exact Or.inr ⟨p, List.mem_singleton_self p, h⟩
  | case3 p ps hps ih =>
    rw [List.append_assoc, List.mem_append, List.mem_append, List.mem_singleton] at h
    rcases h with h | h | h
    · exact Or.inr ⟨p, List.mem_cons_self, h⟩
    · exact Or.inl h
    · rcases ih h with hc | ⟨line, hline, hc⟩
      · exact Or.inl hc
      · exact Or.inr ⟨line, List.mem_cons_of_mem p hline, hc⟩

end Text

namespace Window

variable {size : Nat} {content : Text} {w : Window}

theorem mem_of_content : w ∈ ofContent size content ↔ (∃ group i,
    (inGroups (max size 1) content.lines)[i]? = some group ∧
      w = ofGroup (max size 1) i group) ∧ ¬ w.content.allBlank := by
  simp only [ofContent, List.mem_filter, List.mem_map, Prod.exists, List.mem_zipIdx_iff_getElem?,
    Bool.not_eq_true', Bool.not_eq_true]
  simp only [eq_comm (a := w)]

/-- A line stands in the window that its number tells, which is left out only if it is blank. -/
theorem exists_of_line (size : Nat) {n : Nat} {line : Text}
    (hline : content.lines[n]? = some line) :
    ∃ w : Window, w.firstLine ≤ n + 1 ∧ n + 1 ≤ w.lastLine ∧ line <:+: w.content ∧
      (¬ w.content.allBlank → w ∈ ofContent size content) := by
  obtain ⟨hn, rfl⟩ := List.getElem?_eq_some_iff.mp hline
  generalize hlines : content.lines = lines at hn hline
  let width := max size 1
  have hwidth : 1 ≤ width := Nat.le_max_right size 1
  have hstart : n / width * width ≤ n := Nat.div_mul_le_self n width
  have hnext : n < n / width * width + width := Nat.lt_div_mul_add hwidth
  let group := (lines.drop (n / width * width)).take width
  have hgroup : (inGroups width lines)[n / width]? = some group := by
    rw [getElem?_inGroups hwidth, if_pos (by omega)]
  have hplace : group[n - n / width * width]? = some lines[n] := by
    rw [List.getElem?_take_of_lt (by omega), List.getElem?_drop,
      Nat.add_sub_cancel' hstart, List.getElem?_eq_getElem hn]
  obtain ⟨hinside, -⟩ := List.getElem?_eq_some_iff.mp hplace
  refine ⟨ofGroup width (n / width) group, ?_, ?_, ?_, ?_⟩
  · show n / width * width + 1 ≤ n + 1
    omega
  · show n + 1 ≤ n / width * width + group.length
    omega
  · exact Text.infix_joinLines (List.mem_of_getElem? hplace)
  · intro hshown
    exact mem_of_content.mpr ⟨⟨group, n / width, hlines ▸ hgroup, rfl⟩, hshown⟩

theorem ascii_of_content (hcontent : content.isAscii) (hw : w ∈ ofContent size content) :
    w.content.isAscii := by
  obtain ⟨⟨group, i, hgroup, rfl⟩, -⟩ := mem_of_content.mp hw
  rw [Text.isAscii_iff]
  intro c hc
  rcases Text.mem_joinLines hc with rfl | ⟨line, hline, hc⟩
  · decide
  · have hlines : line ∈ content.lines := by
      rw [← flatten_inGroups (max size 1) content.lines]
      exact List.mem_flatten_of_mem (List.mem_of_getElem? hgroup) hline
    exact Text.isAscii_iff.mp hcontent c (Text.subset_of_lines hlines hc)

end Window
end CodeIndex
