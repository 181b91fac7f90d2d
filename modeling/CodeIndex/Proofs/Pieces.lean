import CodeIndex.Proofs.Cuts
import CodeIndex.Proofs.Lines
import Mathlib.Data.List.Chain

namespace CodeIndex.LineWindow
open Text

/-- A line that is cut is too large for one piece, and no piece of it is blank. -/
theorem cut_long {limit : Nat} {line p q : Text} {ps : List Text}
    (hcut : cut limit line = p :: q :: ps) :
    max limit 1 < line.size ∧ ∀ r ∈ p :: q :: ps, 1 ≤ r.size := by
  have hcuts := hcut ▸ cut_cuts limit line
  have hlong : max limit 1 < line.size := by
    by_contra hle
    cases hcuts.eq_whole (Nat.le_of_not_lt hle)
  have hmost := Nat.le_max_right limit 1
  exact ⟨hlong, hcuts.filled hmost (by omega)⟩

/-- The characters of a piece that are not blank, each with the line of the piece. -/
def Piece.marks (p : Piece) : List (Char × Nat) := p.text.ink.map (·, p.line)

/-- A piece that comes later is not on an earlier line, and on a later one if it opens it. -/
def Piece.Before (p q : Piece) : Prop := p.line ≤ q.line ∧ (q.opens → p.line < q.line)

theorem mem_piecesOf {limit n : Nat} {line : Text} {p : Piece} (hp : p ∈ piecesOf limit n line) :
    p.line = n ∧ p.text ∈ cut limit line := by
  unfold piecesOf at hp
  split at hp
  · simp at hp
  · rename_i q qs hcut
    rw [hcut]
    rcases List.mem_cons.mp hp with rfl | hp
    · exact ⟨rfl, List.mem_cons_self⟩
    · obtain ⟨r, hr, rfl⟩ := List.mem_map.mp hp
      exact ⟨rfl, List.mem_cons_of_mem _ hr⟩

theorem piecesOf_marks (limit n : Nat) (line : Text) :
    (piecesOf limit n line).flatMap Piece.marks = line.ink.map (·, n) := by
  have hflat := (cut_cuts limit line).flatten_eq
  unfold piecesOf
  split
  · rename_i hcut
    exact absurd hcut (cut_cuts _ _).ne_nil
  · rename_i p ps hcut
    rw [hcut, List.flatten_cons] at hflat
    rw [← hflat, ink_append, ink_flatten]
    simp [Piece.marks, List.flatMap_map, List.map_flatMap]

theorem piecesOf_ordered (limit n : Nat) (line : Text) :
    (piecesOf limit n line).Pairwise Piece.Before := by
  unfold piecesOf
  split
  · exact .nil
  · refine .cons ?_ (List.pairwise_map.mpr (List.pairwise_of_forall fun _ _ => ?_))
    · intro q hq
      obtain ⟨r, -, rfl⟩ := List.mem_map.mp hq
      exact ⟨Nat.le_refl _, by simp⟩
    · exact ⟨Nat.le_refl _, by simp⟩

theorem mem_pieces {limit n : Nat} {ls : List Text} {p : Piece} (hp : p ∈ pieces limit n ls) :
    n ≤ p.line ∧ p.line < n + ls.length ∧ ∃ l ∈ ls, p.text ∈ cut limit l := by
  induction ls generalizing n with
  | nil => simp [pieces] at hp
  | cons l ls ih =>
    rw [List.length_cons]
    rcases List.mem_append.mp hp with hp | hp
    · obtain ⟨hline, htext⟩ := mem_piecesOf hp
      exact ⟨by omega, by omega, l, List.mem_cons_self, htext⟩
    · obtain ⟨hlow, hhigh, l', hl', htext⟩ := ih hp
      exact ⟨by omega, by omega, l', List.mem_cons_of_mem _ hl', htext⟩

theorem pieces_ordered (limit n : Nat) (ls : List Text) :
    (pieces limit n ls).Pairwise Piece.Before := by
  induction ls generalizing n with
  | nil => exact .nil
  | cons l ls ih =>
    refine List.pairwise_append.mpr ⟨piecesOf_ordered limit n l, ih (n + 1), ?_⟩
    intro p hp q hq
    have hpline := (mem_piecesOf hp).1
    have hqline := (mem_pieces hq).1
    exact ⟨by omega, fun _ => by omega⟩

/-- A piece that does not open its line goes on from the piece before it: it is on the same line, a
long one, and both hold something. -/
def Piece.Continues (long : Nat → Prop) (p q : Piece) : Prop :=
  ¬ q.opens → q.line = p.line ∧ long q.line ∧ 1 ≤ p.text.size ∧ 1 ≤ q.text.size

theorem piecesOf_continue {limit n : Nat} {line : Text} {long : Nat → Prop}
    (hlong : max limit 1 < line.size → long n) :
    (piecesOf limit n line).IsChain (Piece.Continues long) := by
  unfold piecesOf
  split
  · exact .nil
  · rename_i p ps hcut
    cases ps with
    | nil => exact .singleton _
    | cons q ps =>
      obtain ⟨hline, hsizes⟩ := cut_long hcut
      have hsome : ∀ r ∈ q :: ps, 1 ≤ r.size := fun r hr => hsizes r (List.mem_cons_of_mem _ hr)
      have hrest : ((q :: ps).map fun r => (⟨n, false, r⟩ : Piece)).Pairwise
          (Piece.Continues long) :=
        List.pairwise_map.mpr <| List.pairwise_iff_forall_sublist.mpr fun {r r'} hsub _ =>
          ⟨rfl, hlong hline, hsome r (hsub.subset (by simp)), hsome r' (hsub.subset (by simp))⟩
      refine List.isChain_cons.mpr ⟨?_, hrest.isChain⟩
      intro r hr
      obtain rfl := Option.some.inj hr
      exact fun _ => ⟨rfl, hlong hline, hsizes p List.mem_cons_self, hsome q List.mem_cons_self⟩

theorem pieces_opens {limit n : Nat} {ls : List Text} :
    ∀ p ∈ (pieces limit n ls).head?, p.opens := by
  cases ls with
  | nil => simp [pieces]
  | cons l ls =>
    unfold pieces piecesOf
    split
    · rename_i hcut
      exact absurd hcut (cut_cuts _ _).ne_nil
    · simp

/-- In the pieces of all lines each one goes on from the one before it or opens a line. -/
theorem pieces_continue {limit n : Nat} {ls : List Text} {long : Nat → Prop}
    (hlong : ∀ i l, ls[i]? = some l → max limit 1 < l.size → long (n + i)) :
    (pieces limit n ls).IsChain (Piece.Continues long) := by
  induction ls generalizing n with
  | nil => exact .nil
  | cons l ls ih =>
    have hrest := ih (n := n + 1) fun i l hl hsize => by
      rw [Nat.add_assoc, Nat.add_comm 1 i]
      exact hlong (i + 1) l hl hsize
    refine List.isChain_append.mpr ⟨piecesOf_continue (hlong 0 l rfl), hrest, ?_⟩
    intro p _ q hq hopens
    exact absurd (pieces_opens q hq) hopens

/-- The pieces of all lines hold what the text holds, line by line. -/
theorem pieces_marks (limit n : Nat) (t : Text) :
    (pieces limit n t.lines).flatMap Piece.marks = t.marks n := by
  induction t using byLines generalizing n with
  | nil => rfl
  | last t ht hline =>
    rw [lines_last ht hline, marks_line hline, ← piecesOf_marks limit]
    simp [pieces]
  | cons p t hp ih =>
    rw [lines_cons hp, marks_newline hp, ← ih, ← ink_dropReturn, ← piecesOf_marks limit]
    simp [pieces]

end CodeIndex.LineWindow
