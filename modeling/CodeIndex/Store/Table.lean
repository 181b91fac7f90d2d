import CodeIndex.Path

namespace CodeIndex

structure Slot where
  tag : String
  path : Path
deriving DecidableEq, Repr

/-- Rows in the order of their insertion. -/
abbrev Table (α : Type) := List (Slot × α)

namespace Table

def rows (slot : Slot) (t : Table α) : List α := (t.filter (·.1 = slot)).map (·.2)

def without (slot : Slot) (t : Table α) : Table α := t.filter (·.1 ≠ slot)

/-- Puts rows in the place of all that a slot held. -/
def put (slot : Slot) (rows : List α) (t : Table α) : Table α :=
  without slot t ++ rows.map fun a => (slot, a)

def withoutTag (key : String) (t : Table α) : Table α := t.filter (·.1.tag ≠ key)

def underTag (key : String) (t : Table α) : Table α := t.filter (·.1.tag = key)

theorem rows_without (s slot : Slot) (t : Table α) :
    rows s (without slot t) = if s = slot then [] else rows s t := by
  unfold rows without
  rw [List.filter_filter]
  split
  · rename_i h
    subst h
    rw [List.filter_eq_nil_iff.2 (by simp), List.map_nil]
  · rename_i h
    congr 2
    funext r
    by_cases hr : r.1 = s <;> simp [hr, h]

theorem rows_append (s : Slot) (t u : Table α) : rows s (t ++ u) = rows s t ++ rows s u := by
  simp [rows]

theorem rows_filed (s slot : Slot) (as : List α) :
    rows s (as.map fun a => (slot, a)) = if s = slot then as else [] := by
  split
  · rename_i h
    subst h
    simp [rows, List.filter_map, Function.comp_def]
  · rename_i h
    simp [rows, List.filter_map, Function.comp_def, Ne.symm h]

theorem rows_put (s slot : Slot) (as : List α) (t : Table α) :
    rows s (put slot as t) = if s = slot then as else rows s t := by
  rw [put, rows_append, rows_without, rows_filed]
  split <;> simp

theorem rows_withoutTag (s : Slot) (key : String) (t : Table α) :
    rows s (withoutTag key t) = if s.tag = key then [] else rows s t := by
  unfold rows withoutTag
  rw [List.filter_filter]
  split
  · rename_i h
    rw [List.filter_eq_nil_iff.2 ?_, List.map_nil]
    intro r _ hr
    simp only [Bool.and_eq_true, decide_eq_true_eq, ne_eq] at hr
    exact hr.2 (hr.1 ▸ h)
  · rename_i h
    congr 2
    funext r
    by_cases hr : r.1 = s <;> simp [hr, h]

end Table
end CodeIndex
