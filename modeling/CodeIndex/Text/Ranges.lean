namespace CodeIndex.Text

/-- Membership in ranges that ascend, each with both its ends. -/
def inRanges (n : Nat) : List (Nat × Nat) → Bool
  | [] => false
  | r :: rs => r.1 ≤ n && (n ≤ r.2 || inRanges n rs)

/-- The code points from `first` to `last`, `step` apart, each moved by the same offset. -/
structure Shift where
  first : Nat
  last : Nat
  step : Nat
  offset : Int

def Shift.covers (s : Shift) (n : Nat) : Bool :=
  s.first ≤ n && n ≤ s.last && (n - s.first) % s.step == 0

/-- Moves a code point by the first shift that covers it. -/
def shifted (shifts : List Shift) (n : Nat) : Nat :=
  match shifts.find? (·.covers n) with
  | none => n
  | some s => (n + s.offset).toNat

end CodeIndex.Text
