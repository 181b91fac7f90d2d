import CodeIndex.Binary32

namespace CodeIndex.Binary32
open Float.Model (UnpackedFloat)
open Float.Model.UnpackedFloat

def signOf (b : BitVec 32) : Sign := .ofBitVec (@unpackSign .binary32 b)

def exponentOf (b : BitVec 32) : Nat := (@unpackExponent .binary32 b).toNat

def mantissaOf (b : BitVec 32) : Nat := (@unpackMantissa .binary32 b).toNat

theorem mantissa_eq (b : BitVec 32) : mantissaOf b = b.toNat % 0x800000 := by
  simp [mantissaOf, unpackMantissa, BitVec.extractLsb]

theorem exponent_eq (b : BitVec 32) : exponentOf b = b.toNat / 0x800000 % 0x100 := by
  simp [exponentOf, unpackExponent, BitVec.extractLsb, Nat.shiftRight_eq_div_pow]

theorem sign_eq (b : BitVec 32) : (signOf b).toBitVec.toNat = b.toNat / 0x80000000 := by
  have hlt : b.toNat < 0x100000000 := b.isLt
  have hbit : ∀ v : BitVec 1, (Sign.ofBitVec v).toBitVec = v := by decide
  have hvalue : (@unpackSign .binary32 b).toNat = b.toNat / 0x80000000 % 2 := by
    show (b.extractLsb 31 31).toNat = _
    simp [BitVec.extractLsb, Nat.shiftRight_eq_div_pow]
  rw [signOf, hbit]
  omega

/-- The leading bit of a mantissa is not kept in a pattern. -/
theorem leading_bit (m : BitVec 23) : (1#1 ++ m).toNat = 0x800000 + m.toNat := by
  have hm : m.toNat < 2 ^ 23 := m.isLt
  rw [BitVec.toNat_append, ← Nat.shiftLeft_add_eq_or_of_lt hm]
  rfl

theorem components_to_nat (s : Sign) (e : BitVec 8) (m : BitVec 23) :
    (packComponents .binary32 s e m).toNat =
      s.toBitVec.toNat * 0x80000000 + e.toNat * 0x800000 + m.toNat := by
  have hm : m.toNat < 2 ^ 23 := m.isLt
  have he : e.toNat < 2 ^ 8 := e.isLt
  rw [packComponents, BitVec.toNat_append, BitVec.toNat_append,
    ← Nat.shiftLeft_add_eq_or_of_lt hm, ← Nat.shiftLeft_add_eq_or_of_lt he]
  simp only [Nat.shiftLeft_eq]
  omega

/-- A pattern consists of its fields. -/
theorem fields_eq {b : BitVec 32} {e : BitVec 8} {m : BitVec 23}
    (he : e.toNat = exponentOf b) (hm : m.toNat = mantissaOf b) :
    packComponents .binary32 (signOf b) e m = b := by
  apply BitVec.eq_of_toNat_eq
  rw [components_to_nat, he, hm, sign_eq, exponent_eq, mantissa_eq]
  omega

/-- What the fields of a pattern stand for. -/
inductive Unpacks (b : BitVec 32) : UnpackedFloat → Prop where
  | infinity (hexp : exponentOf b = 255) (hman : mantissaOf b = 0) :
      Unpacks b (.infinity (signOf b))
  | nan (hexp : exponentOf b = 255) (hman : mantissaOf b ≠ 0) : Unpacks b .notANumber
  | zero (hexp : exponentOf b = 0) (hman : mantissaOf b = 0) : Unpacks b (.zero (signOf b))
  | subnormal {m : Nat} {e : Int} {hm : 0 < m} (hexp : exponentOf b = 0)
      (hman : m = mantissaOf b) (he : e = -149) : Unpacks b (.finite (signOf b) m e hm)
  | normal {m : Nat} {e : Int} {hm : 0 < m} (hleast : exponentOf b ≠ 0)
      (hfull : exponentOf b ≠ 255) (hman : m = 0x800000 + mantissaOf b)
      (he : e = exponentOf b - 150) : Unpacks b (.finite (signOf b) m e hm)

theorem unpacks (b : BitVec 32) : Unpacks b (unpack .binary32 b) := by
  have hfull : @unpackExponent .binary32 b = -1#8 ↔ exponentOf b = 255 :=
    BitVec.toNat_inj.symm
  have hleast : @unpackExponent .binary32 b = 0#8 ↔ exponentOf b = 0 :=
    BitVec.toNat_inj.symm
  have hzero : @unpackMantissa .binary32 b = 0#23 ↔ mantissaOf b = 0 :=
    BitVec.toNat_inj.symm
  unfold unpack
  dsimp only
  by_cases hexp : @unpackExponent .binary32 b = -1#8
  · rw [if_pos hexp]
    by_cases hman : @unpackMantissa .binary32 b = 0#23
    · rw [if_pos hman]
      exact .infinity (hfull.mp hexp) (hzero.mp hman)
    · rw [if_neg hman]
      exact .nan (hfull.mp hexp) (mt hzero.mpr hman)
  · rw [if_neg hexp]
    by_cases hnone : @unpackExponent .binary32 b = 0#8
    · rw [if_pos hnone]
      by_cases hman : @unpackMantissa .binary32 b = 0#23
      · rw [dif_pos hman]
        exact .zero (hleast.mp hnone) (hzero.mp hman)
      · rw [dif_neg hman]
        refine .subnormal (hleast.mp hnone) rfl ?_
        rw [hnone]
        rfl
    · rw [if_neg hnone]
      exact .normal (mt hleast.mpr hnone) (mt hfull.mpr hexp) (leading_bit _) rfl

/-- Packing gives back the pattern, but for a NaN. -/
theorem pack_unpack (b : BitVec 32) (h : unpack .binary32 b ≠ .notANumber) :
    pack .binary32 (unpack .binary32 b) = b := by
  have hmantissa : mantissaOf b < 2 ^ 23 := (@unpackMantissa .binary32 b).isLt
  have hexponent : exponentOf b < 2 ^ 8 := (@unpackExponent .binary32 b).isLt
  have hbias : (Float.Model.Format.binary32.exponentBias : Int) = 127 := rfl
  have hunpacks := unpacks b
  generalize unpack .binary32 b = u at h hunpacks
  cases hunpacks with
  | nan => exact absurd rfl h
  | infinity hexp hman => exact fields_eq hexp.symm hman.symm
  | zero hexp hman => exact fields_eq hexp.symm hman.symm
  | @subnormal m e hm hexp hman he =>
    have hlog : m.log2 < 23 := (Nat.log2_lt (Nat.ne_of_gt hm)).mpr (hman ▸ hmantissa)
    unfold pack
    dsimp only
    rw [if_neg, if_neg]
    · refine fields_eq hexp.symm ?_
      rw [BitVec.toNat_ofNat, hman, Nat.mod_eq_of_lt hmantissa]
    · show ¬ m.log2 + 1 = 24
      omega
    · show ¬ 0x100 ≤ _
      omega
  | @normal m e hm hleast hfull hman he =>
    have hlog : m.log2 = 23 := (Nat.log2_eq_iff (Nat.ne_of_gt hm)).mpr ⟨by omega, by omega⟩
    unfold pack
    dsimp only
    rw [if_neg, if_pos]
    · refine fields_eq ?_ ?_
      · rw [BitVec.toNat_ofNat]
        show _ % 0x100 = _
        omega
      · rw [BitVec.toNat_ofNat]
        show _ % 0x800000 = _
        omega
    · exact congrArg (· + 1) hlog
    · show ¬ 0x100 ≤ _
      omega

/-- No number is packed to a NaN. -/
theorem unpack_pack_ne_nan {u : UnpackedFloat} (h : u ≠ .notANumber) :
    unpack .binary32 (pack .binary32 u) ≠ .notANumber := by
  suffices hfields : exponentOf (pack .binary32 u) = 255 → mantissaOf (pack .binary32 u) = 0 by
    intro hnan
    have hunpacks := unpacks (pack .binary32 u)
    rw [hnan] at hunpacks
    cases hunpacks with
    | nan hexp hman => exact hman (hfields hexp)
  have hexponent : ∀ s e m, exponentOf (packComponents .binary32 s e m) = e.toNat :=
    fun _ _ _ => congrArg BitVec.toNat unpackExponent_packComponents
  have hmantissa : ∀ s e m, mantissaOf (packComponents .binary32 s e m) = m.toNat :=
    fun _ _ _ => congrArg BitVec.toNat unpackMantissa_packComponents
  cases u with
  | notANumber => exact absurd rfl h
  | infinity s => exact fun _ => hmantissa s _ _
  | zero s => exact fun _ => hmantissa s _ _
  | finite s m e hm =>
    unfold pack
    dsimp only
    split
    case isTrue => exact fun _ => hmantissa s _ _
    case isFalse hroom =>
      have hroom : ¬ 0x100 ≤ _ + 1 := hroom
      split
      case isTrue =>
        intro hfull
        rw [hexponent, BitVec.toNat_ofNat] at hfull
        change _ % 0x100 = 255 at hfull
        omega
      case isFalse =>
        intro hfull
        rw [hexponent] at hfull
        cases hfull

/-- What a number is unpacked to. -/
def unpacked (x : Binary32) : UnpackedFloat := unpack .binary32 x.bits.toBitVec

theorem unpack_to_float (x : Binary32) : x.toFloat.toModel.unpack = x.unpacked := by
  show unpack .binary32 (pack .binary32 x.unpacked) = _
  by_cases h : x.unpacked = .notANumber
  · rw [h]
    rfl
  · rw [unpacked, pack_unpack _ h]

/-- The place of a number among all numbers, where both zeros are at the same one. -/
def place (x : Binary32) : Int := if x.bits < 0x80000000 then x.orderKey else x.orderKey + 1

theorem lt_bits_iff {x : Binary32} : x.bits < 0x80000000 ↔ x.bits.toNat < 0x80000000 :=
  UInt32.lt_iff_toNat_lt

theorem bits_lt (x : Binary32) : x.bits.toNat < 0x100000000 := x.bits.toBitVec.isLt

theorem is_nan_iff {x : Binary32} : x.isNaN ↔ 0x7F800000 < x.bits.toNat % 0x80000000 := by
  rw [isNaN, decide_eq_true_iff, UInt32.lt_iff_toNat_lt, UInt32.toNat_and]
  exact iff_of_eq (congrArg (0x7F800000 < ·) (Nat.and_two_pow_sub_one_eq_mod _ 31))

theorem is_finite_iff {x : Binary32} : x.isFinite ↔ x.bits.toNat % 0x80000000 < 0x7F800000 := by
  rw [isFinite, decide_eq_true_iff, UInt32.lt_iff_toNat_lt, UInt32.toNat_and]
  exact iff_of_eq (congrArg (· < 0x7F800000) (Nat.and_two_pow_sub_one_eq_mod _ 31))

theorem place_eq (x : Binary32) :
    x.place = (signOf x.bits.toBitVec).apply (x.bits.toNat % 0x80000000 : Nat) := by
  have hlt := bits_lt x
  have hsign := sign_eq x.bits.toBitVec
  rw [UInt32.toNat_toBitVec] at hsign
  unfold place orderKey
  cases hs : signOf x.bits.toBitVec with
  | positive =>
    rw [hs] at hsign
    have hpos : x.bits.toNat < 0x80000000 := by
      change 0 = _ at hsign
      omega
    rw [if_pos (lt_bits_iff.mpr hpos), if_pos (lt_bits_iff.mpr hpos), Sign.apply]
    omega
  | negative =>
    rw [hs] at hsign
    have hneg : ¬ x.bits.toNat < 0x80000000 := by
      change 1 = _ at hsign
      omega
    rw [if_neg (mt lt_bits_iff.mp hneg), if_neg (mt lt_bits_iff.mp hneg), Sign.apply]
    omega

/-- A number as it is read: by its class, and by its place, which counts the least positive
number. -/
inductive Reads (x : Binary32) : UnpackedFloat → Prop where
  | nan (hnan : x.isNaN) : Reads x .notANumber
  | infinity {s : Sign} (hnumber : ¬ x.isNaN) (hinfinite : ¬ x.isFinite)
      (hplace : x.place = s.apply 0x7F800000) : Reads x (.infinity s)
  | zero {s : Sign} (hnumber : ¬ x.isNaN) (hplace : x.place = 0) : Reads x (.zero s)
  | finite {s : Sign} {m : Nat} {e : Int} {hm : 0 < m} (hnumber : ¬ x.isNaN)
      (hplace : x.place = s.apply ((e + 149) * 0x800000 + m))
      (hfinite : (e + 149) * 0x800000 + m < 0x7F800000) (hleast : -149 ≤ e)
      (hmost : m < 0x1000000) (hnormal : e = -149 ∨ 0x800000 ≤ m) : Reads x (.finite s m e hm)

theorem reads (x : Binary32) : x.Reads x.unpacked := by
  have hnan := @is_nan_iff x
  have hfinite := @is_finite_iff x
  have hplace := place_eq x
  have hexponent := exponent_eq x.bits.toBitVec
  have hmantissa := mantissa_eq x.bits.toBitVec
  have hunpacks := unpacks x.bits.toBitVec
  rw [UInt32.toNat_toBitVec] at hexponent hmantissa
  unfold unpacked
  generalize unpack .binary32 x.bits.toBitVec = u at hunpacks
  cases hunpacks with
  | nan hexp hman => exact .nan (hnan.mpr (by omega))
  | infinity hexp hman =>
    refine .infinity (mt hnan.mp (by omega)) (mt hfinite.mp (by omega)) ?_
    rw [hplace]
    congr 1
    omega
  | zero hexp hman =>
    refine .zero (mt hnan.mp (by omega)) ?_
    rw [hplace, show x.bits.toNat % 0x80000000 = 0 by omega]
    cases signOf _ <;> rfl
  | subnormal hexp hman he =>
    refine .finite (mt hnan.mp (by omega)) ?_ (by omega) (by omega) (by omega) (by omega)
    rw [hplace]
    congr 1
    omega
  | normal hleast hfull hman he =>
    refine .finite (mt hnan.mp (by omega)) ?_ (by omega) (by omega) (by omega) (by omega)
    rw [hplace]
    congr 1
    omega

theorem is_nan_iff_unpacked {x : Binary32} : x.isNaN ↔ x.unpacked = .notANumber := by
  have hreads := reads x
  generalize x.unpacked = u at hreads
  cases hreads with
  | nan hnan => exact iff_of_true hnan rfl
  | infinity hnumber _ _ | zero hnumber _ | finite hnumber _ _ _ _ _ =>
    exact iff_of_false hnumber nofun

theorem compare_neg (a b : Int) : compare (-a) (-b) = compare b a := by
  rcases Int.lt_trichotomy a b with h | rfl | h
  · rw [Int.compare_eq_gt.mpr h, Int.compare_eq_gt]
    omega
  · rw [Int.compare_eq_eq.mpr rfl, Int.compare_eq_eq.mpr rfl]
  · rw [Int.compare_eq_lt.mpr h, Int.compare_eq_lt]
    omega

/-- Exponents come first in the order of magnitudes. -/
theorem compare_magnitudes {e f : Int} {m n : Nat} (he : -149 ≤ e) (hf : -149 ≤ f)
    (hm : m < 0x1000000) (hn : n < 0x1000000) (hem : e = -149 ∨ 0x800000 ≤ m)
    (hfn : f = -149 ∨ 0x800000 ≤ n) : (compare e f).then (compare m n) =
      compare ((e + 149) * 0x800000 + m) ((f + 149) * 0x800000 + n) := by
  rcases Int.lt_trichotomy e f with h | rfl | h
  · rw [Int.compare_eq_lt.mpr h, eq_comm]
    exact Int.compare_eq_lt.mpr (by omega)
  · rw [Int.compare_eq_eq.mpr rfl, Ordering.eq_then]
    rcases Nat.lt_trichotomy m n with h | rfl | h
    · rw [Nat.compare_eq_lt.mpr h, eq_comm, Int.compare_eq_lt]
      omega
    · rw [Nat.compare_eq_eq.mpr rfl, eq_comm, Int.compare_eq_eq]
    · rw [Nat.compare_eq_gt.mpr h, eq_comm, Int.compare_eq_gt]
      omega
  · rw [Int.compare_eq_gt.mpr h, eq_comm]
    exact Int.compare_eq_gt.mpr (by omega)

section
variable {x y : Binary32} {u v : UnpackedFloat}

/-- Numbers are compared by their places. -/
theorem Reads.compare_eq (hu : x.Reads u) (hv : y.Reads v) (hx : ¬ x.isNaN) (hy : ¬ y.isNaN) :
    u.compare v = some (compare x.place y.place) := by
  have hlt {a b : Int} : some Ordering.lt = some (compare a b) ↔ a < b := by
    rw [Option.some.injEq, eq_comm, Int.compare_eq_lt]
  have hgt {a b : Int} : some Ordering.gt = some (compare a b) ↔ b < a := by
    rw [Option.some.injEq, eq_comm, Int.compare_eq_gt]
  cases hu with
  | nan hnan => exact absurd hnan hx
  | @infinity s _ _ hu =>
    cases hv with
    | nan hnan => exact absurd hnan hy
    | @infinity t _ _ hv =>
      rw [hu, hv]
      cases s <;> cases t <;> rfl
    | @zero t _ hv =>
      rw [hu, hv]
      cases s <;> rfl
    | @finite t n f _ _ hv hfinite hf _ _ =>
      rw [hu, hv]
      cases s <;> cases t <;> dsimp only [UnpackedFloat.compare, Sign.apply] <;>
        simp only [hlt, hgt] <;> omega
  | @zero s _ hu =>
    cases hv with
    | nan hnan => exact absurd hnan hy
    | @infinity t _ _ hv =>
      rw [hu, hv]
      cases t <;> rfl
    | @zero t _ hv =>
      rw [hu, hv]
      rfl
    | @finite t n f _ _ hv hfinite hf _ _ =>
      rw [hu, hv]
      cases t <;> dsimp only [UnpackedFloat.compare, Sign.apply] <;>
        simp only [hlt, hgt] <;> omega
  | @finite s m e _ _ hu hfinite he hm hem =>
    cases hv with
    | nan hnan => exact absurd hnan hy
    | @infinity t _ _ hv =>
      rw [hu, hv]
      cases s <;> cases t <;> dsimp only [UnpackedFloat.compare, Sign.apply] <;>
        simp only [hlt, hgt] <;> omega
    | @zero t _ hv =>
      rw [hu, hv]
      cases s <;> dsimp only [UnpackedFloat.compare, Sign.apply] <;>
        simp only [hlt, hgt] <;> omega
    | @finite t n f _ _ hv _ hf hn hfn =>
      have hsame := compare_magnitudes he hf hm hn hem hfn
      rw [hu, hv]
      cases s <;> cases t <;> dsimp only [UnpackedFloat.compare, Sign.apply] <;>
        simp only [hlt, hgt, hsame]
      · rw [compare_neg, Int.compare_swap]
      · omega
      · omega

theorem compare_unpacked (x y : Binary32) : x.unpacked.compare y.unpacked =
    if x.isNaN ∨ y.isNaN then none else some (compare x.place y.place) := by
  split
  · rename_i h
    rcases h with h | h
    · rw [is_nan_iff_unpacked.mp h]
      rfl
    · rw [is_nan_iff_unpacked.mp h]
      cases x.unpacked <;> rfl
  · rename_i h
    exact (reads x).compare_eq (reads y) (not_or.mp h).1 (not_or.mp h).2

theorem lt_iff : x.lt y ↔ ¬ x.isNaN ∧ ¬ y.isNaN ∧ x.place < y.place := by
  have hlt : x.lt y ↔ x.unpacked.lt y.unpacked := by
    rw [← unpack_to_float, ← unpack_to_float]
    exact Iff.trans decide_eq_true_iff decide_eq_true_iff
  rw [hlt, UnpackedFloat.lt, beq_iff_eq, compare_unpacked]
  split
  · rename_i h
    exact iff_of_false (by simp) fun hall => h.elim hall.1 hall.2.1
  · rename_i h
    rw [Option.some.injEq, Int.compare_eq_lt]
    exact ⟨fun hlt => ⟨(not_or.mp h).1, (not_or.mp h).2, hlt⟩, fun hall => hall.2.2⟩

theorem ge_iff : x.ge y ↔ ¬ x.isNaN ∧ ¬ y.isNaN ∧ y.place ≤ x.place := by
  have hge : x.ge y ↔ y.unpacked.le x.unpacked := by
    rw [← unpack_to_float, ← unpack_to_float]
    exact Iff.trans decide_eq_true_iff decide_eq_true_iff
  rw [hge, UnpackedFloat.le, compare_unpacked]
  split
  · rename_i h
    exact iff_of_false (by simp) fun hall => h.elim hall.2.1 hall.1
  · rename_i h
    rw [Option.any_some, Int.isLE_compare]
    exact ⟨fun hle => ⟨(not_or.mp h).2, (not_or.mp h).1, hle⟩, fun hall => hall.2.2⟩

theorem above_numbers (hx : x.isNaN) (hpos : x.bits < 0x80000000) (hy : ¬ y.isNaN) :
    y.orderKey < x.orderKey := by
  have hx := is_nan_iff.mp hx
  have hy := mt is_nan_iff.mpr hy
  have hpos' := lt_bits_iff.mp hpos
  unfold orderKey
  rw [if_pos hpos]
  split
  · rename_i h
    have h := lt_bits_iff.mp h
    omega
  · rename_i h
    have h := mt lt_bits_iff.mpr h
    omega

theorem below_numbers (hx : x.isNaN) (hneg : ¬ x.bits < 0x80000000) (hy : ¬ y.isNaN) :
    x.orderKey < y.orderKey := by
  have hx := is_nan_iff.mp hx
  have hy := mt is_nan_iff.mpr hy
  have hneg' := mt lt_bits_iff.mpr hneg
  have hlt := bits_lt x
  unfold orderKey
  rw [if_neg hneg]
  split
  · omega
  · rename_i h
    have h := mt lt_bits_iff.mpr h
    have hlt := bits_lt y
    omega

theorem is_nan_of_float (f : Float32) : (ofFloat f).isNaN ↔ Binary32.isNaN ⟨f.toBits⟩ := by
  unfold ofFloat
  dsimp only
  split
  · rename_i h
    exact iff_of_true rfl h
  · rfl

theorem round_ne_nan (s : Sign) (m : Nat) (e : Int) (a : Accuracy) :
    roundWithAccuracy .binary32 s m e a ≠ .notANumber := by
  have hrounded : ∀ (n : Nat) (f : Int),
      (if h : n = 0 then UnpackedFloat.zero s else .finite s n f (Nat.pos_of_ne_zero h)) ≠
        .notANumber := by
    intro n f
    by_cases hn : n = 0
    · rw [dif_pos hn]
      nofun
    · rw [dif_neg hn]
      nofun
  exact hrounded _ _

/-- A number divided by a positive finite one is a number. -/
theorem Reads.div_ne_nan (hu : x.Reads u) (hv : y.Reads v) (hx : ¬ x.isNaN)
    (hfinite : y.isFinite) (hpos : 0 < y.place) :
    UnpackedFloat.div .binary32 u v ≠ .notANumber := by
  cases hv with
  | nan hnan =>
    have hnan := is_nan_iff.mp hnan
    have hfinite := is_finite_iff.mp hfinite
    omega
  | infinity _ hinfinite _ => exact absurd hfinite hinfinite
  | zero _ hplace => omega
  | finite _ _ _ _ _ _ =>
    cases hu with
    | nan hnan => exact absurd hnan hx
    | infinity _ _ _ | zero _ _ => nofun
    | finite _ _ _ _ _ _ => exact round_ne_nan _ _ _ _

/-- Dividing by a positive finite number keeps NaNs and numbers apart. -/
theorem is_nan_div (hpos : zero.lt y) (hfinite : y.isFinite) : (x / y).isNaN ↔ x.isNaN := by
  obtain ⟨-, hy, hplace⟩ := lt_iff.mp hpos
  have hquotient : x / y =
      if x.isNaN then x else if y.isNaN then y else ofFloat (x.toFloat / y.toFloat) := rfl
  rw [hquotient]
  by_cases hx : x.isNaN
  · rw [if_pos hx]
  · rw [if_neg hx, if_neg hy, is_nan_of_float, is_nan_iff_unpacked]
    refine iff_of_false ?_ hx
    have hdivided : unpacked ⟨(x.toFloat / y.toFloat).toBits⟩ =
        unpack .binary32 (pack .binary32 (UnpackedFloat.div .binary32 x.unpacked y.unpacked)) := by
      rw [← unpack_to_float x, ← unpack_to_float y]
      rfl
    rw [hdivided]
    exact unpack_pack_ne_nan ((reads x).div_ne_nan (reads y) hx hfinite hplace)

end
end CodeIndex.Binary32
