import CodeIndex.Binary32
import Mathlib.Data.List.DropRight

namespace CodeIndex.Embedding

/-- The number that four bytes spell, the lowest first. -/
theorem word_to_nat (a b c d : UInt8) :
    (a.toUInt32 ||| b.toUInt32 <<< 8 ||| c.toUInt32 <<< 16 ||| d.toUInt32 <<< 24).toNat =
      a.toNat + 0x100 * b.toNat + 0x10000 * c.toNat + 0x1000000 * d.toNat := by
  have ha := a.toNat_lt
  have hb := b.toNat_lt
  have hc := c.toNat_lt
  have hd := d.toNat_lt
  have habove {low i : Nat} (h : low < 2 ^ i) (n : Nat) : low ||| n <<< i = low + n <<< i := by
    rw [Nat.or_comm, ← Nat.shiftLeft_add_eq_or_of_lt h, Nat.add_comm]
  have hfits (x : UInt8) {i : Nat} (hi : x.toNat <<< i < 2 ^ 32) :
      x.toNat <<< i % 2 ^ 32 = x.toNat <<< i := Nat.mod_eq_of_lt hi
  simp only [UInt32.toNat_or, UInt32.toNat_shiftLeft, UInt8.toNat_toUInt32, UInt32.reduceToNat,
    Nat.reduceMod]
  rw [hfits b (i := 8) (by omega), hfits c (i := 16) (by omega), hfits d (i := 24) (by omega),
    habove ha, habove (i := 16) (by omega), habove (i := 24) (by omega)]
  omega

/-- The bytes of a component are the digits of its bits to the base 256. -/
theorem component_bytes_to_nat (x : Binary32) :
    (componentBytes x).map UInt8.toNat =
      [x.bits.toNat % 0x100, x.bits.toNat / 0x100 % 0x100, x.bits.toNat / 0x10000 % 0x100,
        x.bits.toNat / 0x1000000 % 0x100] := by
  simp [componentBytes, Nat.shiftRight_eq_div_pow]

theorem length_component_bytes (x : Binary32) : (componentBytes x).length = 4 := rfl

theorem of_bytes_component (x : Binary32) (rest : Bytes) :
    ofBytes (componentBytes x ++ rest) = x :: ofBytes rest := by
  have hlt : x.bits.toNat < 0x100000000 := x.bits.toNat_lt
  have hdigits := component_bytes_to_nat x
  obtain ⟨a, b, c, d, hbytes⟩ : ∃ a b c d, componentBytes x = [a, b, c, d] := ⟨_, _, _, _, rfl⟩
  rw [hbytes] at hdigits ⊢
  simp only [List.map_cons, List.map_nil, List.cons.injEq, and_true] at hdigits
  refine congrArg (· :: ofBytes rest) (congrArg Binary32.mk (UInt32.toNat_inj.mp ?_))
  rw [word_to_nat]
  omega

theorem component_bytes_of_word (a b c d : UInt8) :
    componentBytes ⟨a.toUInt32 ||| b.toUInt32 <<< 8 ||| c.toUInt32 <<< 16 ||| d.toUInt32 <<< 24⟩ =
      [a, b, c, d] := by
  have ha := a.toNat_lt
  have hb := b.toNat_lt
  have hc := c.toNat_lt
  have hd := d.toNat_lt
  apply List.map_injective_iff.mpr fun _ _ => UInt8.toNat_inj.mp
  rw [component_bytes_to_nat, word_to_nat]
  simp only [List.map_cons, List.map_nil, List.cons.injEq, and_true]
  omega

theorem to_bytes_cons (x : Binary32) (v : Embedding) :
    toBytes (x :: v) = componentBytes x ++ v.toBytes := List.flatMap_cons

theorem of_bytes_to_bytes (v : Embedding) : ofBytes v.toBytes = v := by
  induction v with
  | nil => rfl
  | cons x v ih => rw [to_bytes_cons, of_bytes_component, ih]

theorem length_to_bytes (v : Embedding) : v.toBytes.length = 4 * v.length := by
  simp [toBytes, List.length_flatMap, length_component_bytes, Nat.mul_comm]

/-- The bytes of each component stand at its place, the lowest first. -/
theorem to_bytes_at (v : Embedding) (i : Nat) {j : Nat} (hj : j < 4) :
    v.toBytes[4 * i + j]?.map UInt8.toNat =
      v[i]?.map fun x => x.bits.toNat >>> (8 * j) % 0x100 := by
  induction v generalizing i with
  | nil => rfl
  | cons x v ih =>
    rw [to_bytes_cons]
    cases i with
    | zero =>
      rw [Nat.mul_zero, Nat.zero_add, List.getElem?_append_left hj, ← List.getElem?_map,
        component_bytes_to_nat]
      obtain rfl | rfl | rfl | rfl : j = 0 ∨ j = 1 ∨ j = 2 ∨ j = 3 := by omega
      all_goals simp [Nat.shiftRight_eq_div_pow]
    | succ i =>
      have hbeyond : (componentBytes x).length ≤ 4 * (i + 1) + j := by
        rw [length_component_bytes]
        omega
      have hplace : 4 * (i + 1) + j - (componentBytes x).length = 4 * i + j := by
        rw [length_component_bytes]
        omega
      rw [List.getElem?_append_right hbeyond, hplace, ih, List.getElem?_cons_succ]

/-- Bytes after the last complete component are lost, and no others. -/
theorem to_bytes_of_bytes (b : Bytes) : (ofBytes b).toBytes = b.rdrop (b.length % 4) := by
  fun_induction ofBytes b with
  | case1 a b c d rest ih =>
    have hrest : (a :: b :: c :: d :: rest).length - (a :: b :: c :: d :: rest).length % 4 =
        rest.length - rest.length % 4 + 4 := by
      simp only [List.length_cons]
      omega
    rw [to_bytes_cons, component_bytes_of_word, ih, List.rdrop, List.rdrop, hrest]
    rfl
  | case2 b hshort =>
    rcases b with _ | ⟨p, _ | ⟨q, _ | ⟨r, _ | ⟨s, rest⟩⟩⟩⟩
    · rfl
    · rfl
    · rfl
    · rfl
    · exact absurd rfl (hshort p q r s rest)

/-- Vectors and their bytes stand for one another, but for an incomplete component at the end. -/
theorem vector_bytes_exact :
    (∀ v : Embedding, ofBytes v.toBytes = v ∧ v.toBytes.length = 4 * v.length ∧
      ∀ i j, j < 4 → v.toBytes[4 * i + j]?.map UInt8.toNat =
        v[i]?.map fun x => x.bits.toNat >>> (8 * j) % 0x100) ∧
    (∀ b : Bytes, (ofBytes b).toBytes = b.rdrop (b.length % 4)) ∧
    ∀ b c : Bytes, ofBytes b = ofBytes c ↔
      b.rdrop (b.length % 4) = c.rdrop (c.length % 4) := by
  refine ⟨fun v => ⟨of_bytes_to_bytes v, length_to_bytes v, fun i j => to_bytes_at v i⟩,
    to_bytes_of_bytes, fun b c => ?_⟩
  rw [← to_bytes_of_bytes, ← to_bytes_of_bytes]
  constructor
  · exact congrArg toBytes
  · intro h
    have hread := congrArg ofBytes h
    rwa [of_bytes_to_bytes, of_bytes_to_bytes] at hread

/-- A NaN keeps its payload, and the byte after it is left out. -/
example : ofBytes [1, 0, 0xA0, 0xFF, 7] = [⟨0xFFA00001⟩] := by decide

end CodeIndex.Embedding
