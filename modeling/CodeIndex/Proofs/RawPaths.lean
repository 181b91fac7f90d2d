import CodeIndex.Path.Raw
import CodeIndex.Proofs.Lines
import Mathlib.Data.List.Infix
import Mathlib.Logic.Function.Basic

namespace CodeIndex

theorem Utf8.encode_injective : Function.Injective Utf8.encode :=
  Function.LeftInverse.injective Utf8.decode_encode

namespace RawPath

/-- What the bytes of a character are spelled as. -/
def widen (c : Char) : Text := (String.utf8EncodeChar c).map fun b => Char.ofNat b.toNat

theorem char_of_byte (b : UInt8) : (Char.ofNat b.toNat).toNat = b.toNat := by
  have hb : b.toNat < 256 := b.toNat_lt
  rw [Char.ofNat, dif_pos (Or.inl (by omega))]
  rfl

theorem char_of_byte_injective : Function.Injective fun b : UInt8 => Char.ofNat b.toNat := by
  intro a b h
  apply UInt8.toNat_inj.mp
  rw [← char_of_byte a, ← char_of_byte b]
  exact congrArg Char.toNat h

theorem flatMap_widen (t : Text) :
    t.flatMap widen = (Utf8.encode t).map fun b => Char.ofNat b.toNat := by
  rw [Utf8.encode, List.map_flatMap]
  rfl

theorem widen_injective : Function.Injective fun t : Text => t.flatMap widen := by
  intro t u h
  simp only [flatMap_widen] at h
  exact Utf8.encode_injective (List.map_injective_iff.mpr char_of_byte_injective h)

theorem spelling_of_text (t : Path) :
    (ofText t).spelling = String.ofList (t.toList.flatMap widen) := by
  rw [spelling, ofText, flatMap_widen]

theorem widen_of_small {c : Char} (hc : c.toNat < 128) : widen c = [c] := by
  have hsmall : c.val.toNat ≤ 127 := Nat.le_of_lt_succ hc
  rw [widen, String.utf8EncodeChar, if_pos hsmall, List.map_singleton,
    Utf8.byte_to_nat (by omega)]
  exact congrArg ([·]) (Char.ofNat_toNat c)

/-- All bytes of a character that takes several are above those that take one. -/
theorem above_of_mem_widen {c d : Char} (hc : 128 ≤ c.toNat) (hd : d ∈ widen c) :
    128 ≤ d.toNat := by
  have hbig : ¬ c.val.toNat ≤ 127 := Nat.not_le.mpr hc
  obtain ⟨b, hb, rfl⟩ := List.mem_map.mp hd
  rw [char_of_byte]
  rw [String.utf8EncodeChar, if_neg hbig] at hb
  have hvalid : c.val.toNat < 0x110000 := by
    rcases c.valid with h | h
    · exact Nat.lt_trans h (by decide)
    · exact h.2
  split at hb
  · simp only [List.mem_cons, List.not_mem_nil, or_false] at hb
    rcases hb with rfl | rfl <;> rw [Utf8.byte_to_nat] <;> omega
  · split at hb
    · simp only [List.mem_cons, List.not_mem_nil, or_false] at hb
      rcases hb with rfl | rfl | rfl <;> rw [Utf8.byte_to_nat] <;> omega
    · simp only [List.mem_cons, List.not_mem_nil, or_false] at hb
      rcases hb with rfl | rfl | rfl | rfl <;> rw [Utf8.byte_to_nat] <;> omega

theorem widen_ne_nil (c : Char) : widen c ≠ [] := by
  obtain ⟨b, rest, hbytes, -⟩ := Utf8.next_encode c []
  simp [widen, hbytes]

theorem slash_not_mem {c : Char} (hc : c ≠ '/') : '/' ∉ widen c := by
  intro h
  by_cases hsmall : c.toNat < 128
  · rw [widen_of_small hsmall, List.mem_singleton] at h
    exact hc h.symm
  · exact absurd (above_of_mem_widen (Nat.not_lt.mp hsmall) h) (by decide)

end RawPath

theorem Text.splitAt_front {isSeparator : Char → Bool} {s : Text}
    (hs : ∀ c ∈ s, ¬ isSeparator c) {t first : Text} {rest : List Text}
    (ht : splitAt isSeparator t = first :: rest) :
    splitAt isSeparator (s ++ t) = (s ++ first) :: rest := by
  induction s with
  | nil => exact ht
  | cons c s ih =>
    rw [List.forall_mem_cons] at hs
    rw [List.cons_append, splitAt_cons, if_neg hs.1, ih hs.2]
    rfl

namespace RawPath

/-- Cut at slashes, the bytes of a text are those of its pieces. -/
theorem splitAt_widen (t : Text) : Text.splitAt (· == '/') (t.flatMap widen) =
    (Text.splitAt (· == '/') t).map (·.flatMap widen) := by
  induction t with
  | nil => rfl
  | cons c t ih =>
    rw [List.flatMap_cons, Text.splitAt_cons]
    by_cases hc : c = '/'
    · subst hc
      rw [widen_of_small (by decide), List.singleton_append, Text.splitAt_cons, ih]
      rfl
    · obtain ⟨first, rest, hpieces⟩ := List.exists_cons_of_ne_nil (Text.splitAt_ne_nil (· == '/') t)
      rw [hpieces, List.map_cons] at ih
      have hplain : ∀ d ∈ widen c, ¬ (d == '/') := by
        intro d hd hslash
        exact slash_not_mem hc (eq_of_beq hslash ▸ hd)
      rw [Text.splitAt_front hplain ih, if_neg (by simpa using hc), hpieces]
      simp [Text.onFirst]

end RawPath

namespace Path

/-- The component that the bytes of a name make. -/
def Component.widen : Component → Component
  | .name text => .name (String.ofList (text.toList.flatMap RawPath.widen))
  | other => other

theorem Component.widen_injective : Function.Injective Component.widen := by
  intro a b h
  cases a <;> cases b <;> simp only [widen, reduceCtorEq] at h ⊢
  rename_i s t
  have hnames := String.ofList_injective (Component.name.inj h)
  rw [String.toList_injective (RawPath.widen_injective hnames)]

theorem component_of_widen (first : Bool) (piece : Text) :
    component? first (piece.flatMap RawPath.widen) = (component? first piece).map .widen := by
  have hempty : piece.flatMap RawPath.widen = [] ↔ piece = [] :=
    RawPath.widen_injective.eq_iff (b := [])
  have hdot : piece.flatMap RawPath.widen = ['.'] ↔ piece = ['.'] :=
    RawPath.widen_injective.eq_iff (b := ['.'])
  have hdots : piece.flatMap RawPath.widen = ['.', '.'] ↔ piece = ['.', '.'] :=
    RawPath.widen_injective.eq_iff (b := ['.', '.'])
  unfold component?
  simp only [hempty, hdot, hdots]
  split
  · rfl
  · split
    · cases first <;> rfl
    · split
      · rfl
      · simp [Component.widen]

theorem absolute_of_text (t : Path) : isAbsolute (RawPath.ofText t).spelling = isAbsolute t := by
  rw [isAbsolute, isAbsolute, RawPath.spelling_of_text, String.toList_ofList]
  cases t.toList with
  | nil => rfl
  | cons c rest =>
    by_cases hc : c = '/'
    · subst hc
      rw [List.flatMap_cons, RawPath.widen_of_small (by decide)]
      rfl
    · have hslash : (RawPath.widen c ++ rest.flatMap RawPath.widen).head? ≠ some '/' := by
        obtain ⟨d, bytes, hbytes⟩ := List.exists_cons_of_ne_nil (RawPath.widen_ne_nil c)
        have hd := RawPath.slash_not_mem hc
        rw [hbytes] at hd ⊢
        simpa [eq_comm] using fun h => hd (List.mem_cons.mpr (Or.inl h))
      rw [List.flatMap_cons, List.head?_cons, beq_eq_false_iff_ne.mpr hslash, eq_comm,
        beq_eq_false_iff_ne]
      simpa using hc

theorem components_of_text (t : Path) :
    components (RawPath.ofText t).spelling = (components t).map .widen := by
  rw [components, components, absolute_of_text, RawPath.spelling_of_text, String.toList_ofList,
    RawPath.splitAt_widen, List.map_append]
  congr 1
  · split <;> rfl
  · cases Text.splitAt (· == '/') t.toList with
    | nil => rfl
    | cons first rest =>
      simp only [List.map_cons, component_of_widen, List.filterMap_map, List.map_append,
        List.map_filterMap, Option.toList_map, Function.comp_def]

end Path

namespace RawPath

/-- A path lies in a directory by its bytes just if it does by its text. -/
theorem within_of_text (dir p : Path) : (ofText dir).within (ofText p) = Path.within dir p := by
  rw [Bool.eq_iff_iff, within, Path.within, Path.within, List.isPrefixOf_iff_prefix,
    List.isPrefixOf_iff_prefix, Path.components_of_text, Path.components_of_text]
  constructor
  · intro h
    obtain ⟨names, hnames, hsame⟩ := List.prefix_map_iff.mp h
    exact List.map_injective_iff.mpr Path.Component.widen_injective hsame ▸ hnames
  · exact fun h => h.map _

theorem same_of_text (p q : Path) : (ofText p).same (ofText q) = Path.same p q := by
  rw [Bool.eq_iff_iff, same, Path.same, Path.same, beq_iff_eq, beq_iff_eq,
    Path.components_of_text, Path.components_of_text]
  exact (List.map_injective_iff.mpr Path.Component.widen_injective).eq_iff

/-- Two files whose names differ in a byte that is not UTF-8, so they have the same text. -/
def alike : List RawPath :=
  [⟨[47, 100, 47, 97, 0xFE, 46, 109, 100]⟩, ⟨[47, 100, 47, 97, 0xFF, 46, 109, 100]⟩]

end RawPath
end CodeIndex
