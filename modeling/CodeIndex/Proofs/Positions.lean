import CodeIndex.Text.Lines
import CodeIndex.Text.Utf8
import Mathlib.Data.List.Basic

namespace CodeIndex.Text

/-- The characters that count towards the size of a text. -/
def ink (t : Text) : Text := t.filter fun c => !isBlank c

/-- The line of a position, counted from one. -/
def lineAt (t : Text) (i : Nat) : Nat := (t.take i).count '\n' + 1

/-- Whether a character that is not blank stands at a position. -/
def isInk (t : Text) (i : Nat) : Bool := t[i]?.any fun c => !isBlank c

/-- The positions of the characters that are not blank, from one position up to another. -/
def inked (t : Text) (a b : Nat) : List Nat := (List.range' a (b - a)).filter t.isInk

theorem size_eq_length_ink (t : Text) : t.size = t.ink.length := List.countP_eq_length_filter

theorem ink_append (s t : Text) : (s ++ t).ink = s.ink ++ t.ink := List.filter_append s t

theorem ink_blank {c : Char} (hc : isBlank c) (t : Text) : ink (c :: t) = ink t := by
  simp [ink, hc]

theorem ink_flatten (ts : List Text) : ink ts.flatten = ts.flatMap ink := by
  induction ts with
  | nil => rfl
  | cons t ts ih => rw [List.flatten_cons, ink_append, ih, List.flatMap_cons]

theorem mem_inked {t : Text} {a b i : Nat} : i ∈ t.inked a b ↔ (a ≤ i ∧ i < b) ∧ t.isInk i := by
  simp only [inked, List.mem_filter, List.mem_range'_1]
  refine and_congr_left fun _ => ?_
  omega

theorem inked_ascends (t : Text) (a b : Nat) : (t.inked a b).Pairwise (· < ·) :=
  List.Pairwise.filter _ List.pairwise_lt_range'

theorem lineAt_mono (t : Text) {i j : Nat} (hij : i ≤ j) : t.lineAt i ≤ t.lineAt j :=
  Nat.succ_le_succ ((List.take_sublist_take_left hij).count_le _)

/-- The characters of a text that are not blank are those at their positions. -/
theorem ink_eq_inked (t : Text) : t.ink.map some = (t.inked 0 t.length).map (t[·]?) := by
  have hall : (List.range' 0 (t.length - 0)).map (t[·]?) = t.map some := by
    apply List.ext_getElem
    · simp
    · intro i h₁ h₂
      have hi : i < t.length := by simpa using h₂
      simp [hi]
  have hfilter : (t.map some).filter (·.any fun c => !isBlank c) = t.ink.map some := by
    rw [List.filter_map]
    rfl
  rw [← hfilter, ← hall, List.filter_map]
  rfl

/-- The part of a text from one position up to another. -/
def between (t : Text) (a b : Nat) : Text := t.extract a b

theorem between_eq (t : Text) (a b : Nat) : t.between a b = (t.drop a).take (b - a) :=
  List.extract_eq_take_drop

theorem length_between {t : Text} {a b : Nat} (hb : b ≤ t.length) :
    (t.between a b).length = b - a := by
  rw [between_eq, List.length_take, List.length_drop]
  omega

theorem getElem?_between {t : Text} {a b i : Nat} (hi : i < b - a) :
    (t.between a b)[i]? = t[a + i]? := by
  simp [between_eq, hi]

theorem lineAt_between {t : Text} {a b i : Nat} (hi : i ≤ b - a) :
    t.lineAt (a + i) = (t.between a b).lineAt i + (t.lineAt a - 1) := by
  have htake : (t.between a b).take i = (t.drop a).take i := by
    rw [between_eq, List.take_take, Nat.min_eq_left hi]
  rw [lineAt, lineAt, lineAt, htake, List.take_add, List.count_append]
  omega

/-- A part of a text has the positions of the text, counted from where the part starts. -/
theorem inked_between (t : Text) (a b : Nat) :
    ((t.between a b).inked 0 (b - a)).map (a + ·) = t.inked a b := by
  have hrange : (List.range' 0 (b - a)).map (a + ·) = List.range' a (b - a) := by
    rw [List.map_add_range', Nat.add_zero]
  rw [inked, inked, ← hrange, List.filter_map, Nat.sub_zero]
  congr 1
  apply List.filter_congr
  intro i hi
  have hi : i < b - a := by simpa using List.mem_range'_1.mp hi
  simp only [isInk, getElem?_between hi, Function.comp_apply]

theorem ink_between {t : Text} {a b : Nat} (hb : b ≤ t.length) :
    (t.between a b).ink.map some = (t.inked a b).map (t[·]?) := by
  rw [ink_eq_inked, length_between hb, ← inked_between t a b, List.map_map]
  apply List.map_congr_left
  intro i hi
  exact getElem?_between (by simpa using (mem_inked.mp hi).1.2)

/-- How many characters begin before a byte offset. -/
def position (t : Text) (offset : Nat) : Nat := (t.takeBytes offset).length

/-- The byte offset of a position. -/
def offsetAt (t : Text) (i : Nat) : Nat := byteLength (t.take i)

/-- A byte offset between two characters, or at an end of the text. -/
def IsBoundary (t : Text) (offset : Nat) : Prop := t.offsetAt (t.position offset) = offset

instance (t : Text) (offset : Nat) : Decidable (t.IsBoundary offset) :=
  inferInstanceAs (Decidable (_ = _))

theorem position_zero (t : Text) : t.position 0 = 0 := by
  cases t <;> rfl

theorem position_cons {n : Nat} (hn : 0 < n) (c : Char) (t : Text) :
    position (c :: t) n = position t (n - c.utf8Size) + 1 := by
  simp [position, takeBytes, Nat.ne_of_gt hn]

theorem offsetAt_cons (c : Char) (t : Text) (i : Nat) :
    offsetAt (c :: t) (i + 1) = c.utf8Size + offsetAt t i := rfl

theorem take_bytes_eq (n : Nat) (t : Text) : t.takeBytes n = t.take (t.position n) := by
  fun_induction takeBytes n t with
  | case1 => rfl
  | case2 c t => rfl
  | case3 n c t hn ih => simp [position_cons (Nat.pos_of_ne_zero hn), ← ih]

theorem drop_bytes_eq (n : Nat) (t : Text) : t.dropBytes n = t.drop (t.position n) := by
  fun_induction dropBytes n t with
  | case1 => rfl
  | case2 c t => rfl
  | case3 n c t hn ih => simp [position_cons (Nat.pos_of_ne_zero hn), ← ih]

theorem position_le (t : Text) (n : Nat) : t.position n ≤ t.length := by
  have := congrArg List.length (take_bytes_eq n t)
  rw [List.length_take] at this
  unfold position at this ⊢
  omega

theorem position_mono (t : Text) {m n : Nat} (hmn : m ≤ n) : t.position m ≤ t.position n := by
  induction t generalizing m n with
  | nil => exact Nat.le_refl _
  | cons c t ih =>
    rcases Nat.eq_zero_or_pos m with rfl | hm
    · rw [position_zero]
      exact Nat.zero_le _
    · rw [position_cons hm, position_cons (by omega)]
      exact Nat.succ_le_succ (ih (by omega))

theorem IsBoundary.tail {c : Char} {t : Text} {n : Nat} (h : IsBoundary (c :: t) n) (hn : 0 < n) :
    c.utf8Size ≤ n ∧ t.IsBoundary (n - c.utf8Size) := by
  unfold IsBoundary at h ⊢
  rw [position_cons hn, offsetAt_cons] at h
  omega

/-- Beyond a boundary the positions of the rest are counted on. -/
theorem IsBoundary.position_add {t : Text} {m : Nat} (h : t.IsBoundary m) (n : Nat) :
    t.position (m + n) = t.position m + position (t.drop (t.position m)) n := by
  induction t generalizing m with
  | nil => simp [position, takeBytes]
  | cons c t ih =>
    rcases Nat.eq_zero_or_pos m with rfl | hm
    · simp [position_zero]
    · obtain ⟨hc, ht⟩ := h.tail hm
      have hsub : m + n - c.utf8Size = m - c.utf8Size + n := by omega
      rw [position_cons (by omega), position_cons hm, hsub, ih ht, List.drop_succ_cons]
      omega

/-- Text between two byte offsets, of which the first is a boundary, as text between positions. -/
theorem IsBoundary.slice_eq {t : Text} {m n : Nat} (h : t.IsBoundary m) (hmn : m ≤ n) :
    t.slice m n = t.between (t.position m) (t.position n) := by
  have hn : t.position n = t.position m + position (t.drop (t.position m)) (n - m) := by
    rw [← h.position_add, Nat.add_sub_cancel' hmn]
  rw [slice, drop_bytes_eq, take_bytes_eq, between_eq, hn, Nat.add_sub_cancel_left]

theorem byte_length_append (s t : Text) : byteLength (s ++ t) = byteLength s + byteLength t := by
  induction s with
  | nil => simp [byteLength]
  | cons c s ih =>
    simp only [byteLength, List.cons_append, List.foldr_cons] at ih ⊢
    omega

theorem position_append (s t : Text) : (s ++ t).position (byteLength s) = s.length := by
  induction s with
  | nil => exact position_zero t
  | cons c s ih =>
    have hpos : 0 < c.utf8Size := Char.utf8Size_pos c
    have hlength : byteLength (c :: s) = c.utf8Size + byteLength s := rfl
    rw [List.cons_append, position_cons (by omega), hlength, Nat.add_sub_cancel_left, ih,
      List.length_cons]

theorem is_boundary_append (s t : Text) : (s ++ t).IsBoundary (byteLength s) := by
  rw [IsBoundary, position_append, offsetAt, List.take_left]

/-- A part of a text stands between the byte offsets of its ends. -/
theorem slice_append (s p t : Text) :
    (s ++ (p ++ t)).slice (byteLength s) (byteLength s + byteLength p) = p := by
  have hstop := position_append (s ++ p) t
  rw [byte_length_append, List.append_assoc, List.length_append] at hstop
  rw [(is_boundary_append s (p ++ t)).slice_eq (Nat.le_add_right _ _), position_append, hstop,
    between_eq, List.drop_left, Nat.add_sub_cancel_left, List.take_left]

theorem offsetAt_mono (t : Text) {i j : Nat} (hij : i ≤ j) : t.offsetAt i ≤ t.offsetAt j := by
  obtain ⟨k, rfl⟩ := Nat.exists_eq_add_of_le hij
  rw [offsetAt, offsetAt, List.take_add, byte_length_append]
  exact Nat.le_add_right _ _

theorem offsetAt_lt {t : Text} {i j : Nat} (hij : i < j) (hi : i < t.length) :
    t.offsetAt i < t.offsetAt j := by
  refine Nat.lt_of_lt_of_le ?_ (offsetAt_mono t hij)
  have hlast : byteLength [t[i]] = t[i].utf8Size := rfl
  have hpos : 0 < t[i].utf8Size := Char.utf8Size_pos _
  rw [offsetAt, offsetAt, List.take_add_one, List.getElem?_eq_getElem hi, Option.toList_some,
    byte_length_append]
  omega

/-- A boundary parts the positions as it parts their byte offsets. -/
theorem IsBoundary.position_le_iff {t : Text} {n i : Nat} (h : t.IsBoundary n)
    (hi : i < t.length) : t.position n ≤ i ↔ n ≤ t.offsetAt i := by
  constructor
  · intro hle
    exact h ▸ offsetAt_mono t hle
  · intro hle
    by_contra hlt
    have := offsetAt_lt (Nat.lt_of_not_le hlt) hi
    rw [h] at this
    omega

end CodeIndex.Text
