import CodeIndex.Chunk.LineWindow
import CodeIndex.Proofs.Positions

namespace CodeIndex.LineWindow
open Text

/-- The pieces that a text is cut into. One that is cut off is full, with `most` characters that are
not blank, and the next one begins with another such character; the last one may hold fewer. -/
inductive Cuts (most : Nat) : Text → List Text → Prop where
  | whole {t : Text} (hsize : t.size ≤ most) : Cuts most t [t]
  | cut {p t : Text} {c : Char} {ps : List Text} (hfull : p.size = most) (hink : ¬ isBlank c)
      (hrest : Cuts most (c :: t) ps) : Cuts most (p ++ c :: t) (p :: ps)

theorem size_snoc (s : Text) (c : Char) :
    size (s ++ [c]) = s.size + if isBlank c then 0 else 1 := by
  rw [size_append]
  by_cases hc : isBlank c <;> simp [size, hc]

theorem one_le_size_cons {c : Char} (hink : ¬ isBlank c) (t : Text) : 1 ≤ size (c :: t) := by
  simp [size, hink]

/-- The text that is still to be cut goes on from what the open piece holds. -/
theorem cutFrom_cuts {limit : Nat} (hlimit : 1 ≤ limit) {s t : Text} (hs : s.size ≤ limit) :
    ∃ p ps, cutFrom limit s.size t = p :: ps ∧ Cuts limit (s ++ t) ((s ++ p) :: ps) := by
  induction t generalizing s with
  | nil => exact ⟨[], [], rfl, by simpa using Cuts.whole hs⟩
  | cons c t ih =>
    have hsize := size_snoc s c
    by_cases hb : isBlank c
    · rw [if_pos hb, Nat.add_zero] at hsize
      obtain ⟨p, ps, hcut, hcuts⟩ := ih (s := s ++ [c]) (hsize ▸ hs)
      rw [hsize] at hcut
      exact ⟨c :: p, ps, by simp [cutFrom, hb, hcut, onFirst], by simpa using hcuts⟩
    · rw [if_neg hb] at hsize
      by_cases hfull : s.size = limit
      · have hone : size [c] = 1 := by simp [size, hb]
        obtain ⟨p, ps, hcut, hcuts⟩ := ih (s := [c]) (hone ▸ hlimit)
        rw [hone] at hcut
        refine ⟨[], (c :: p) :: ps, by simp [cutFrom, hb, hfull, hcut, onFirst], ?_⟩
        rw [List.append_nil]
        exact .cut hfull hb hcuts
      · obtain ⟨p, ps, hcut, hcuts⟩ := ih (s := s ++ [c]) (by omega)
        rw [hsize] at hcut
        exact ⟨c :: p, ps, by simp [cutFrom, hb, hfull, hcut, onFirst], by simpa using hcuts⟩

theorem cut_cuts (limit : Nat) (line : Text) : Cuts (max limit 1) line (cut limit line) := by
  obtain ⟨p, ps, hcut, hcuts⟩ :=
    cutFrom_cuts (t := line) (Nat.le_max_right limit 1) (s := []) (Nat.zero_le _)
  have hline : cut limit line = p :: ps := hcut
  rw [hline]
  exact hcuts

namespace Cuts
variable {most : Nat} {t : Text} {ps : List Text}

theorem flatten_eq (h : Cuts most t ps) : ps.flatten = t := by
  induction h with
  | whole => simp
  | cut _ _ _ ih => rw [List.flatten_cons, ih]

theorem ne_nil (h : Cuts most t ps) : ps ≠ [] := by
  cases h <;> simp

/-- A text that fits one piece is not cut. -/
theorem eq_whole (h : Cuts most t ps) (hsize : t.size ≤ most) : ps = [t] := by
  cases h with
  | whole => rfl
  | @cut p t c ps hfull hink hrest =>
    have hpos := one_le_size_cons hink t
    rw [size_append] at hsize
    omega

/-- There are as many pieces as the size asks for, the last one counted in full. -/
theorem length_eq (h : Cuts most t ps) (hmost : 1 ≤ most) (hsome : 1 ≤ t.size) :
    ps.length = (t.size + most - 1) / most := by
  induction h with
  | whole hsize =>
    rw [List.length_singleton, eq_comm, Nat.div_eq_iff hmost]
    omega
  | @cut p t c ps hfull hink _ ih =>
    have hpos := one_le_size_cons hink t
    have hsum : most + size (c :: t) + most - 1 = size (c :: t) + most - 1 + most := by omega
    rw [List.length_cons, ih hpos, size_append, hfull, hsum, Nat.add_div_right _ hmost]

theorem full (h : Cuts most t ps) : ∀ p ∈ ps.dropLast, p.size = most := by
  induction h with
  | whole => simp
  | cut hfull _ hrest ih =>
    rw [List.dropLast_cons_of_ne_nil hrest.ne_nil]
    exact List.forall_mem_cons.mpr ⟨hfull, ih⟩

theorem bounded (h : Cuts most t ps) : ∀ p ∈ ps, p.size ≤ most := by
  induction h with
  | whole hsize => exact List.forall_mem_singleton.mpr hsize
  | cut hfull _ _ ih => exact List.forall_mem_cons.mpr ⟨Nat.le_of_eq hfull, ih⟩

/-- No piece is blank, unless the text is. -/
theorem filled (h : Cuts most t ps) (hmost : 1 ≤ most) (hsome : 1 ≤ t.size) :
    ∀ p ∈ ps, 1 ≤ p.size := by
  induction h with
  | whole => exact List.forall_mem_singleton.mpr hsome
  | cut hfull hink _ ih =>
    exact List.forall_mem_cons.mpr ⟨hfull ▸ hmost, ih (one_le_size_cons hink _)⟩

/-- A text and its first piece begin alike. -/
theorem head_eq (h : Cuts most t ps) (hmost : 1 ≤ most) : ∀ p ∈ ps.head?, p.head? = t.head? := by
  cases h with
  | whole => simp
  | @cut p t c ps hfull _ _ =>
    rintro q ⟨⟩
    have hne : p ≠ [] := by
      rintro rfl
      exact absurd hfull (Nat.ne_of_lt hmost)
    exact (List.head?_append_of_ne_nil p hne).symm

/-- All pieces but the first one begin with a character that is not blank. -/
theorem begins (h : Cuts most t ps) (hmost : 1 ≤ most) :
    ∀ p ∈ ps.tail, ∃ c rest, p = c :: rest ∧ ¬ isBlank c := by
  induction h with
  | whole => simp
  | @cut p t c ps _ hink hrest ih =>
    have hhead := hrest.head_eq hmost
    obtain ⟨q, qs, rfl⟩ := List.exists_cons_of_ne_nil hrest.ne_nil
    obtain ⟨rest, hq⟩ := List.head?_eq_some_iff.mp (hhead q rfl)
    exact List.forall_mem_cons.mpr ⟨⟨c, rest, hq, hink⟩, ih⟩

end Cuts

/-- A line is cut into consecutive pieces, directly before characters that are not blank, and all
pieces but the last one are full. -/
theorem cut_exact (limit : Nat) (line : Text) :
    (cut limit line).flatten = line ∧
    (∀ before p after, cut limit line = before ++ p :: after →
      line.IsBoundary (byteLength before.flatten) ∧
      line.slice (byteLength before.flatten) (byteLength before.flatten + byteLength p) = p ∧
      (before ≠ [] → line.isInk (line.position (byteLength before.flatten)))) ∧
    (cut limit line).length = (if line.size ≤ max limit 1 then 1
      else (line.size + max limit 1 - 1) / max limit 1) ∧
    (∀ p ∈ (cut limit line).dropLast, p.size = max limit 1) ∧
    ∀ p ∈ (cut limit line).getLast?, p.size ≤ max limit 1 ∧ (1 ≤ line.size → 1 ≤ p.size) := by
  have hcuts := cut_cuts limit line
  have hmost := Nat.le_max_right limit 1
  refine ⟨hcuts.flatten_eq, fun before p after hpieces => ?_, ?_, hcuts.full, fun p hlast => ?_⟩
  · have hline := hcuts.flatten_eq
    rw [hpieces, List.flatten_append, List.flatten_cons] at hline
    rw [← hline]
    refine ⟨is_boundary_append _ _, slice_append _ _ _, fun hbefore => ?_⟩
    have hp : p ∈ (cut limit line).tail := by
      rw [hpieces, List.tail_append_of_ne_nil hbefore]
      simp
    obtain ⟨c, rest, rfl, hink⟩ := hcuts.begins hmost p hp
    rw [position_append]
    simp [isInk, hink]
  · split
    · rename_i hsize
      rw [hcuts.eq_whole hsize]
      rfl
    · exact hcuts.length_eq hmost (by omega)
  · have hp := List.mem_of_getLast? hlast
    exact ⟨hcuts.bounded p hp, fun hsome => hcuts.filled hmost hsome p hp⟩

example : cut 2 " ab cé  d ".toList = [" ab ".toList, "cé  ".toList, "d ".toList] := by decide

end CodeIndex.LineWindow
