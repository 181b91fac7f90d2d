import CodeIndex.Proofs.Positions

namespace CodeIndex.Text

theorem splitAt_cons (isSeparator : Char → Bool) (c : Char) (t : Text) :
    splitAt isSeparator (c :: t) =
      if isSeparator c then [] :: splitAt isSeparator t
      else onFirst c (splitAt isSeparator t) := rfl

theorem splitAt_of_none {isSeparator : Char → Bool} {p : Text} (hp : ∀ c ∈ p, ¬ isSeparator c) :
    splitAt isSeparator p = [p] := by
  induction p with
  | nil => rfl
  | cons c p ih =>
    obtain ⟨hc, hp⟩ := List.forall_mem_cons.mp hp
    rw [splitAt_cons, if_neg hc, ih hp]
    rfl

theorem splitAt_line {p : Text} (hp : '\n' ∉ p) : splitAt (· == '\n') p = [p] := by
  apply splitAt_of_none
  rintro c hc hnewline
  exact hp (beq_iff_eq.mp hnewline ▸ hc)

/-- What stands before a separator and what stands after it are split apart. -/
theorem splitAt_append {isSeparator : Char → Bool} {c : Char} (hc : isSeparator c) (s t : Text) :
    splitAt isSeparator (s ++ c :: t) = splitAt isSeparator s ++ splitAt isSeparator t := by
  induction s with
  | nil => rw [List.nil_append, splitAt_cons, if_pos hc]; rfl
  | cons d s ih =>
    rw [List.cons_append, splitAt_cons, splitAt_cons, ih]
    cases hpieces : splitAt isSeparator s with
    | nil => exact absurd hpieces (splitAt_ne_nil _ s)
    | cons first rest => split <;> rfl

theorem splitAt_newline {p : Text} (hp : '\n' ∉ p) (t : Text) :
    splitAt (· == '\n') (p ++ '\n' :: t) = p :: splitAt (· == '\n') t := by
  rw [splitAt_append rfl, splitAt_line hp]
  rfl

theorem lines_last {t : Text} (ht : t ≠ []) (hline : '\n' ∉ t) : t.lines = [t] := by
  simp [lines, splitAt_line hline, endLines, ht]

theorem lines_cons {p : Text} (hp : '\n' ∉ p) (t : Text) :
    (p ++ '\n' :: t).lines = dropReturn p :: t.lines := by
  rw [lines, splitAt_newline hp, lines]
  cases hs : splitAt (· == '\n') t with
  | nil => exact absurd hs (splitAt_ne_nil _ t)
  | cons q qs => rfl

/-- Induction on a text line by line. -/
theorem byLines {motive : Text → Prop} (nil : motive [])
    (last : ∀ t : Text, t ≠ [] → '\n' ∉ t → motive t)
    (cons : ∀ p t : Text, '\n' ∉ p → motive t → motive (p ++ '\n' :: t)) (t : Text) : motive t := by
  by_cases hline : '\n' ∈ t
  · obtain ⟨p, rest, rfl, hp⟩ := List.eq_append_cons_of_mem hline
    exact cons p rest hp (byLines nil last cons rest)
  · by_cases ht : t = []
    · exact ht ▸ nil
    · exact last t ht hline
termination_by t.length
decreasing_by subst_vars; simp; omega

/-- The characters that are not blank, each with its line; the first line has this number. -/
def marks (n : Nat) : Text → List (Char × Nat)
  | [] => []
  | c :: t => if isBlank c then marks (if c = '\n' then n + 1 else n) t else (c, n) :: marks n t

theorem marks_line {p : Text} (hp : '\n' ∉ p) (n : Nat) : p.marks n = p.ink.map (·, n) := by
  induction p with
  | nil => rfl
  | cons c p ih =>
    obtain ⟨hc, hp⟩ := not_or.mp (List.mem_cons.not.mp hp)
    by_cases hb : isBlank c <;> simp [marks, ink, hb, Ne.symm hc, ih hp]

theorem marks_newline {p : Text} (hp : '\n' ∉ p) (n : Nat) (t : Text) :
    (p ++ '\n' :: t).marks n = p.ink.map (·, n) ++ t.marks (n + 1) := by
  induction p with
  | nil => rfl
  | cons c p ih =>
    obtain ⟨hc, hp⟩ := not_or.mp (List.mem_cons.not.mp hp)
    by_cases hb : isBlank c
    · simp only [List.cons_append, marks, hb, if_true, Ne.symm hc, if_false, ink_blank hb, ih hp]
    · simp [marks, ink, hb, ih hp]

theorem inked_cons (c : Char) (t : Text) :
    inked (c :: t) 0 (t.length + 1) =
      (if isBlank c then [] else [0]) ++ (t.inked 0 t.length).map (1 + ·) := by
  have htail : (List.range' 1 t.length).filter (isInk (c :: t)) =
      ((List.range' 0 t.length).filter t.isInk).map (1 + ·) := by
    rw [← List.map_add_range' 0 t.length 1, List.filter_map]
    congr 2
    funext i
    simp [isInk, Nat.add_comm 1 i]
  rw [inked, Nat.sub_zero, List.range'_succ, List.filter_cons, htail]
  by_cases hb : isBlank c <;> simp [isInk, hb, inked]

/-- The marks of a text are its positions, seen by character and line. -/
theorem marks_eq_inked (n : Nat) (t : Text) :
    (t.marks n).map (fun m => (some m.1, m.2)) =
      (t.inked 0 t.length).map fun i => (t[i]?, (t.take i).count '\n' + n) := by
  induction t generalizing n with
  | nil => rfl
  | cons c t ih =>
    rw [List.length_cons, inked_cons, marks, List.map_append, List.map_map]
    by_cases hb : isBlank c
    · rw [if_pos hb, if_pos hb, ih]
      apply List.map_congr_left
      intro i _
      by_cases hc : c = '\n'
      · simp [Nat.add_comm 1 i, hc, Nat.add_assoc, Nat.add_comm 1 n]
      · simp [Nat.add_comm 1 i, hc]
    · have hc : c ≠ '\n' := by
        rintro rfl
        exact hb (by decide)
      rw [if_neg hb, if_neg hb, List.map_cons, ih]
      simp [Nat.add_comm 1, hc]

theorem ink_dropReturn (line : Text) : (dropReturn line).ink = line.ink := by
  unfold dropReturn
  split
  · rename_i h
    obtain ⟨start, rfl⟩ := List.getLast?_eq_some_iff.mp h
    rw [List.dropLast_concat, ink_append]
    simp [ink, show isBlank '\r' = true from by decide]
  · rfl

end CodeIndex.Text
