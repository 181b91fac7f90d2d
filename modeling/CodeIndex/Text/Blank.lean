namespace CodeIndex

/-- A piece of text, as its characters in order. -/
abbrev Text := List Char

namespace Text

def isBlank (c : Char) : Bool :=
  let n := c.toNat
  (9 ≤ n && n ≤ 13) || n == 0x20 || n == 0x85 || n == 0xA0 || n == 0x1680 ||
  (0x2000 ≤ n && n ≤ 0x200A) || n == 0x2028 || n == 0x2029 || n == 0x202F ||
  n == 0x205F || n == 0x3000

/-- The size of a piece of text is the number of its characters that are not blank. -/
def size (t : Text) : Nat := t.countP (fun c => !isBlank c)

def allBlank (t : Text) : Bool := t.all isBlank

def trim (t : Text) : Text :=
  ((t.dropWhile isBlank).reverse.dropWhile isBlank).reverse

theorem size_append (s t : Text) : size (s ++ t) = size s + size t := by
  simp [size]

end Text
end CodeIndex
