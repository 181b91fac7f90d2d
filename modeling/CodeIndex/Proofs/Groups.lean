import CodeIndex.Grouping

namespace CodeIndex

/-- The `i`-th group starts after `i` full ones. -/
theorem getElem?_inGroups {size : Nat} (hsize : 1 ≤ size) (as : List α) (i : Nat) :
    (inGroups size as)[i]? =
      if i * size < as.length then some ((as.drop (i * size)).take size) else none := by
  fun_induction inGroups size as generalizing i with
  | case1 => simp
  | case2 a as ih =>
    obtain ⟨size, rfl⟩ : ∃ n, size = n + 1 := ⟨size - 1, by omega⟩
    cases i with
    | zero => simp
    | succ i =>
      have hstart : (i + 1) * (size + 1) = i * (size + 1) + size + 1 := by
        rw [Nat.add_mul, Nat.one_mul, Nat.add_assoc]
      have hdrop : (as.drop size).drop (i * (size + 1)) =
          (a :: as).drop ((i + 1) * (size + 1)) := by
        rw [List.drop_drop, hstart, List.drop_succ_cons, Nat.add_comm]
      have hlength : i * (size + 1) < (as.drop size).length ↔
          (i + 1) * (size + 1) < (a :: as).length := by
        rw [List.length_drop, List.length_cons, hstart]
        omega
      simp only [Nat.add_sub_cancel] at ih ⊢
      rw [List.getElem?_cons_succ, ih, hdrop]
      simp only [hlength]

/-- Lists that are as long as groups are looked up by division. -/
theorem getElem?_flatten_of_groups {size : Nat} (hsize : 1 ≤ size) {as : List α}
    {ls : List (List β)} (hls : ls.map List.length = (inGroups size as).map List.length)
    (i : Nat) : ls.flatten[i]? = ls[i / size]?.bind (·[i % size]?) := by
  fun_induction inGroups size as generalizing ls i with
  | case1 =>
    obtain rfl := List.map_eq_nil_iff.mp hls
    simp
  | case2 a as ih =>
    obtain ⟨l, ls, rfl, hl, hls⟩ := List.map_eq_cons_iff.mp hls
    have hlength : l.length = min (size - 1) as.length + 1 := by simpa using hl
    rw [List.flatten_cons, List.getElem?_append]
    split
    · rename_i hi
      have hlt : i < size := by omega
      simp [Nat.div_eq_of_lt hlt, Nat.mod_eq_of_lt hlt]
    · rename_i hi
      by_cases hfull : l.length = size
      · obtain ⟨j, rfl⟩ : ∃ j, i = j + size := ⟨i - size, by omega⟩
        rw [hfull, Nat.add_sub_cancel, ih hls, Nat.add_div_right j hsize, Nat.add_mod_right,
          List.getElem?_cons_succ]
      · -- Only the last group may be short.
        have hend : as.drop (size - 1) = [] := by
          rw [List.drop_eq_nil_iff]
          omega
        rw [hend, inGroups, List.map_nil, List.map_eq_nil_iff] at hls
        subst hls
        by_cases hlt : i < size
        · have hout : l.length ≤ i := by omega
          simp [Nat.div_eq_of_lt hlt, Nat.mod_eq_of_lt hlt, hout]
        · have hquotient : 0 < i / size := Nat.div_pos (by omega) hsize
          simp [Nat.ne_of_gt hquotient]

theorem inGroups_max (size : Nat) (as : List α) : inGroups (max size 1) as = inGroups size as := by
  fun_induction inGroups size as with
  | case1 => rw [inGroups]
  | case2 a as ih =>
    have hsize : max size 1 - 1 = size - 1 := by omega
    rw [inGroups, hsize, ih]

end CodeIndex
