import CodeIndex.Text.Blank

namespace CodeIndex.Text.Punycode

def digit (d : Nat) : Char := if d < 26 then Char.ofNat (97 + d) else Char.ofNat (22 + d)

def threshold (k bias : Nat) : Nat := min 26 (max 1 (k - bias))

theorem threshold_bounds (k bias : Nat) : 1 ≤ threshold k bias ∧ threshold k bias ≤ 26 := by
  unfold threshold
  omega

/-- A distance, from its lowest digit on. -/
def digits (bias k distance : Nat) : Text :=
  let t := threshold k bias
  if distance < t then [digit distance]
  else digit (t + (distance - t) % (36 - t)) :: digits bias (k + 36) ((distance - t) / (36 - t))
termination_by distance
decreasing_by
  have := threshold_bounds k bias
  exact Nat.lt_of_le_of_lt (Nat.div_le_self _ _) (by omega)

def shrink (delta k : Nat) : Nat :=
  if 455 < delta then shrink (delta / 35) (k + 36) else k + 36 * delta / (delta + 38)
termination_by delta
decreasing_by exact Nat.div_lt_self (by omega) (by omega)

/-- The bias after a distance, the first one or a later one, of which `count` are coded. -/
def adapt (first : Bool) (delta count : Nat) : Nat :=
  let delta := if first then delta / 700 else delta / 2
  shrink (delta + delta / count) 0

structure Coding where
  out : Text
  delta : Nat
  bias : Nat
  done : Nat

/-- Passes one character of the label while characters of the code point `n` are coded. -/
def pass (basic n : Nat) (s : Coding) (c : Char) : Coding :=
  if c.toNat < n then { s with delta := s.delta + 1 }
  else if c.toNat = n then
    { out := s.out ++ digits s.bias 36 s.delta
      delta := 0
      bias := adapt (s.done == basic) s.delta (s.done + 1)
      done := s.done + 1 }
  else s

/-- Codes the characters of the code points given in ascending order, of which `n` is the next
candidate. -/
def codeAll (label : Text) (basic n : Nat) (s : Coding) : List Nat → Coding
  | [] => s
  | m :: ms =>
    let s := { s with delta := s.delta + (m - n) * (s.done + 1) }
    let s := label.foldl (pass basic m) s
    codeAll label basic (m + 1) { s with delta := s.delta + 1 } ms

def isAscii (c : Char) : Bool := c.toNat < 128

/-- A label of a host name in ASCII letters, digits and hyphens. The ASCII characters come first as
they are; each other character is written as the distance from the one before it, in ascending
order, in digits of base thirty-six whose thresholds adapt to the distances so far. -/
def encode (label : Text) : Text :=
  let basic := label.filter isAscii
  let others := ((label.filter fun c => !isAscii c).map Char.toNat).mergeSort.eraseReps
  let start : Coding :=
    ⟨if basic.isEmpty then [] else basic ++ ['-'], 0, 72, basic.length⟩
  (codeAll label basic.length 128 start others).out

end CodeIndex.Text.Punycode
