import CodeIndex.Text.Blank

namespace CodeIndex

abbrev Bytes := List UInt8

namespace Utf8

/-- What the first byte of a character of several bytes promises. -/
structure Lead where
  bits : Nat
  more : Nat
  low : Nat
  high : Nat

def lead? (b : Nat) : Option Lead :=
  if 0xC2 ≤ b ∧ b ≤ 0xDF then some ⟨b - 0xC0, 1, 0x80, 0xBF⟩
  else if b = 0xE0 then some ⟨0, 2, 0xA0, 0xBF⟩
  else if b = 0xED then some ⟨0xD, 2, 0x80, 0x9F⟩
  else if 0xE1 ≤ b ∧ b ≤ 0xEF then some ⟨b - 0xE0, 2, 0x80, 0xBF⟩
  else if b = 0xF0 then some ⟨0, 3, 0x90, 0xBF⟩
  else if 0xF1 ≤ b ∧ b ≤ 0xF3 then some ⟨b - 0xF0, 3, 0x80, 0xBF⟩
  else if b = 0xF4 then some ⟨4, 3, 0x80, 0x8F⟩
  else none

/-- Reads the bytes after the first one; `none` where the sequence breaks off. -/
def follow (bits : Nat) : Nat → Nat → Nat → Bytes → Option Nat × Bytes
  | 0, _, _, rest => (some bits, rest)
  | _ + 1, _, _, [] => (none, [])
  | more + 1, low, high, b :: rest =>
    if low ≤ b.toNat ∧ b.toNat ≤ high then
      follow (bits * 64 + b.toNat % 64) more 0x80 0xBF rest
    else (none, b :: rest)

theorem length_follow (bits more low high : Nat) (bs : Bytes) :
    (follow bits more low high bs).2.length ≤ bs.length := by
  induction more generalizing bits low high bs with
  | zero => simp [follow]
  | succ more ih =>
    cases bs with
    | nil => simp [follow]
    | cons b bs =>
      simp only [follow]
      split
      · exact Nat.le_succ_of_le (ih _ _ _ _)
      · simp

/-- The character that starts here, or `none` for an ill-formed prefix, and what follows it. -/
def next (b : UInt8) (bs : Bytes) : Option Char × Bytes :=
  if b < 0x80 then (some (Char.ofNat b.toNat), bs)
  else match lead? b.toNat with
    | none => (none, bs)
    | some l =>
      let (value, rest) := follow l.bits l.more l.low l.high bs
      (value.map Char.ofNat, rest)

theorem length_next (b : UInt8) (bs : Bytes) : (next b bs).2.length ≤ bs.length := by
  unfold next
  split
  · simp
  · split
    · simp
    · exact length_follow _ _ _ _ _

/-- The characters and ill-formed prefixes of the bytes, put before those of `done` in reverse. -/
def scan (done : List (Option Char)) : Bytes → List (Option Char)
  | [] => done.reverse
  | b :: bs =>
    have := length_next b bs
    scan ((next b bs).1 :: done) (next b bs).2
termination_by bs => bs.length
decreasing_by simp; omega

def decodeLossy (bs : Bytes) : Text := (scan [] bs).map (·.getD '\uFFFD')

def decode? (bs : Bytes) : Option Text := (scan [] bs).mapM id

def encode (t : Text) : Bytes := t.flatMap String.utf8EncodeChar

theorem byte_to_nat {n : Nat} (h : n < 256) : (UInt8.ofNat n).toNat = n := by
  rw [UInt8.toNat_ofNat']
  omega

/-- One more byte after the first one. -/
theorem follow_cons {bits more low high v : Nat} {bs : Bytes} (hv : v < 64)
    (hlow : low ≤ v + 128) (hhigh : v + 128 ≤ high) :
    follow bits (more + 1) low high (UInt8.ofNat (v + 128) :: bs) =
      follow (bits * 64 + v) more 0x80 0xBF bs := by
  have hdigit : (v + 128) % 64 = v := by omega
  rw [follow, byte_to_nat (by omega), if_pos ⟨hlow, hhigh⟩, hdigit]

theorem next_of_lead {n bits more low high value : Nat} {bs rest : Bytes} (hn : 0x80 ≤ n)
    (hlead : lead? n = some ⟨bits, more, low, high⟩)
    (hfollow : follow bits more low high bs = (some value, rest)) (hbyte : n < 256) :
    next (UInt8.ofNat n) bs = (some (Char.ofNat value), rest) := by
  have hbig : ¬ UInt8.ofNat n < 0x80 := by
    rw [UInt8.lt_iff_toNat_lt, byte_to_nat hbyte]
    exact Nat.not_lt.mpr hn
  rw [next, if_neg hbig, byte_to_nat hbyte, hlead]
  dsimp only
  rw [hfollow, Option.map_some]

/-- The first of three bytes bounds the second one: no shorter form and no surrogate. -/
theorem lead_three {v : Nat} (hmore : 0x7FF < v) (hless : v ≤ 0xFFFF)
    (hvalid : v < 0xD800 ∨ 0xDFFF < v) : ∃ low high,
      lead? (v / 4096 % 16 + 224) = some ⟨v / 4096, 2, low, high⟩ ∧
        low ≤ v / 64 % 64 + 128 ∧ v / 64 % 64 + 128 ≤ high := by
  have hlead : v / 4096 % 16 = v / 4096 := by omega
  rw [hlead, lead?, if_neg (by omega)]
  by_cases hfirst : v / 4096 = 0
  · exact ⟨0xA0, 0xBF, by rw [if_pos (by omega), hfirst], by omega, by omega⟩
  · rw [if_neg (by omega)]
    by_cases hsurrogate : v / 4096 = 0xD
    · exact ⟨0x80, 0x9F, by rw [if_pos (by omega), hsurrogate], by omega, by omega⟩
    · refine ⟨0x80, 0xBF, ?_, by omega, by omega⟩
      rw [if_neg (by omega), if_pos (by omega), Nat.add_sub_cancel]

/-- The first of four bytes bounds the second one: no shorter form and no number above the last. -/
theorem lead_four {v : Nat} (hmore : 0xFFFF < v) (hless : v < 0x110000) : ∃ low high,
    lead? (v / 262144 % 8 + 240) = some ⟨v / 262144, 3, low, high⟩ ∧
      low ≤ v / 4096 % 64 + 128 ∧ v / 4096 % 64 + 128 ≤ high := by
  have hlead : v / 262144 % 8 = v / 262144 := by omega
  rw [hlead, lead?, if_neg (by omega), if_neg (by omega), if_neg (by omega), if_neg (by omega)]
  by_cases hfirst : v / 262144 = 0
  · exact ⟨0x90, 0xBF, by rw [if_pos (by omega), hfirst], by omega, by omega⟩
  · rw [if_neg (by omega)]
    by_cases hlast : v / 262144 = 4
    · refine ⟨0x80, 0x8F, ?_, by omega, by omega⟩
      rw [if_neg (by omega), if_pos (by omega), hlast]
    · refine ⟨0x80, 0xBF, ?_, by omega, by omega⟩
      rw [if_pos (by omega), Nat.add_sub_cancel]

/-- What a character is written as is read as that character, whatever follows it. -/
theorem next_encode (c : Char) (bs : Bytes) : ∃ b rest,
    String.utf8EncodeChar c = b :: rest ∧ next b (rest ++ bs) = (some c, bs) := by
  have hvalid : c.val.toNat < 0xD800 ∨ 0xDFFF < c.val.toNat ∧ c.val.toNat < 0x110000 := c.valid
  have hchar : Char.ofNat c.val.toNat = c := Char.ofNat_toNat c
  unfold String.utf8EncodeChar
  dsimp only
  generalize c.val.toNat = v at hvalid hchar
  subst hchar
  split
  · have hsmall : UInt8.ofNat v < 0x80 := by
      rw [UInt8.lt_iff_toNat_lt, byte_to_nat (by omega)]
      exact Nat.lt_succ_of_le ‹_›
    refine ⟨_, _, rfl, ?_⟩
    rw [next, if_pos hsmall, byte_to_nat (by omega), List.nil_append]
  · split
    · have hlead : lead? (v / 64 % 32 + 192) = some ⟨v / 64, 1, 0x80, 0xBF⟩ := by
        rw [lead?, if_pos (by omega)]
        simp only [Option.some.injEq, Lead.mk.injEq, and_true]
        omega
      refine ⟨_, _, rfl, next_of_lead (by omega) hlead ?_ (by omega)⟩
      rw [List.singleton_append, follow_cons (by omega) (by omega) (by omega), follow]
      congr 2
      omega
    · split
      · obtain ⟨low, high, hlead, hlow, hhigh⟩ :=
          lead_three (v := v) (by omega) (by omega) (by omega)
        refine ⟨_, _, rfl, next_of_lead (by omega) hlead ?_ (by omega)⟩
        rw [List.cons_append, List.singleton_append, follow_cons (by omega) hlow hhigh,
          follow_cons (by omega) (by omega) (by omega), follow]
        congr 2
        omega
      · obtain ⟨low, high, hlead, hlow, hhigh⟩ := lead_four (v := v) (by omega) (by omega)
        refine ⟨_, _, rfl, next_of_lead (by omega) hlead ?_ (by omega)⟩
        rw [List.cons_append, List.cons_append, List.singleton_append,
          follow_cons (by omega) hlow hhigh, follow_cons (by omega) (by omega) (by omega),
          follow_cons (by omega) (by omega) (by omega), follow]
        congr 2
        omega

theorem scan_encode (done : List (Option Char)) (t : Text) :
    scan done (encode t) = done.reverse ++ t.map some := by
  induction t generalizing done with
  | nil => simp [encode, scan]
  | cons c t ih =>
    obtain ⟨b, rest, hbytes, hnext⟩ := next_encode c (encode t)
    have hcons : encode (c :: t) = b :: (rest ++ encode t) := by
      rw [encode, List.flatMap_cons, hbytes]
      rfl
    rw [hcons, scan, hnext, ih]
    simp

/-- Nothing is lost of a text that is encoded. -/
theorem decode_encode (t : Text) : decodeLossy (encode t) = t := by
  rw [decodeLossy, scan_encode]
  simp [Function.comp_def]

end Utf8

namespace Text

def dropBytes : Nat → Text → Text
  | _, [] => []
  | n, c :: t => if n = 0 then c :: t else dropBytes (n - c.utf8Size) t

def takeBytes : Nat → Text → Text
  | _, [] => []
  | n, c :: t => if n = 0 then [] else c :: takeBytes (n - c.utf8Size) t

/-- The text between two byte offsets of its UTF-8 form. -/
def slice (t : Text) (start stop : Nat) : Text := takeBytes (stop - start) (dropBytes start t)

def byteLength (t : Text) : Nat := t.foldr (fun c n => c.utf8Size + n) 0

end Text
end CodeIndex
