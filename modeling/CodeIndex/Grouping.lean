namespace CodeIndex

/-- Groups of `size` elements in order; a size of zero acts as one. -/
def inGroups (size : Nat) : List α → List (List α)
  | [] => []
  | a :: as => (a :: as.take (size - 1)) :: inGroups size (as.drop (size - 1))
termination_by as => as.length
decreasing_by simp only [List.length_drop, List.length_cons]; omega

theorem flatten_inGroups (size : Nat) (as : List α) : (inGroups size as).flatten = as := by
  fun_induction inGroups size as with
  | case1 => rfl
  | case2 a as ih => simp [ih]

end CodeIndex
