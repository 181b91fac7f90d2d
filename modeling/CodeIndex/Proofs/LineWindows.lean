import CodeIndex.Proofs.Pieces
import Mathlib.Data.List.Forall2

namespace CodeIndex

/-- A chunk holds something, but not more than `most`, and goes by the hash of its text. -/
structure Chunk.Fits (most : Nat) (c : Chunk) : Prop where
  some : 1 ≤ c.size
  most : c.size ≤ most
  hash : c.hash = hashText c.code

namespace LineWindow
open Text

/-- A chunk holds these characters, each on a line of the chunk. -/
def Bears (c : Chunk) (part : List (Char × Nat)) : Prop :=
  c.code.ink = part.map Prod.fst ∧ ∀ m ∈ part, c.firstLine ≤ m.2 ∧ m.2 ≤ c.lastLine

/-- An open window holds these characters, and the pieces to come go on from them. -/
structure Open.Holds (w : Open) (count : Nat) (held : List (Char × Nat)) (ps : List Piece) :
    Prop where
  ink : w.text.ink = held.map Prod.fst
  size : w.size = w.text.size
  lines : ∀ m ∈ held, w.start ≤ m.2 ∧ m.2 ≤ count
  next : ∀ p ∈ ps, w.start ≤ p.line ∧ p.line ≤ count
  after : ∀ m ∈ held, ∀ p ∈ ps, m.2 ≤ p.line ∧ (p.opens → m.2 < p.line)
  ordered : ps.Pairwise Piece.Before

theorem Piece.marks_chars (p : Piece) : p.marks.map Prod.fst = p.text.ink := by
  simp [Piece.marks, Function.comp_def]

theorem Piece.marks_lines {p : Piece} {m : Char × Nat} (hm : m ∈ p.marks) : m.2 = p.line := by
  obtain ⟨c, -, rfl⟩ := List.mem_map.mp hm
  rfl

theorem ink_add (w : Open) (p : Piece) : (w.add p).text.ink = w.text.ink ++ p.text.ink := by
  simp only [Open.add]
  split
  · rw [ink_append, ink_append, ink_blank (by decide)]
    simp [ink]
  · exact ink_append _ _

theorem size_add {w : Open} (hw : w.size = w.text.size) (p : Piece) :
    (w.add p).size = (w.add p).text.size := by
  rw [size_eq_length_ink, ink_add, List.length_append, ← size_eq_length_ink,
    ← size_eq_length_ink, ← hw]
  rfl

theorem Open.Holds.add {w : Open} {count : Nat} {held : List (Char × Nat)} {p : Piece}
    {ps : List Piece} (h : w.Holds count held (p :: ps)) :
    (w.add p).Holds count (held ++ p.marks) ps := by
  obtain ⟨hp, hordered⟩ := List.pairwise_cons.mp h.ordered
  constructor
  · rw [ink_add, h.ink, List.map_append, p.marks_chars]
  · exact size_add h.size p
  · intro m hm
    rcases List.mem_append.mp hm with hm | hm
    · exact h.lines m hm
    · rw [Piece.marks_lines hm]
      exact h.next p List.mem_cons_self
  · exact fun q hq => h.next q (List.mem_cons_of_mem _ hq)
  · intro m hm q hq
    rcases List.mem_append.mp hm with hm | hm
    · exact h.after m hm q (List.mem_cons_of_mem _ hq)
    · rw [Piece.marks_lines hm]
      exact hp q hq
  · exact hordered

/-- A window that is opened for a piece holds nothing before it. -/
theorem Open.Holds.fresh {w : Open} {count : Nat} {held : List (Char × Nat)} {p : Piece}
    {ps : List Piece} (h : w.Holds count held (p :: ps)) :
    (Open.mk p.line [] 0).Holds count [] (p :: ps) := by
  refine ⟨rfl, rfl, by simp, ?_, by simp, h.ordered⟩
  intro q hq
  refine ⟨?_, (h.next q hq).2⟩
  rcases List.mem_cons.mp hq with rfl | hq
  · exact Nat.le_refl _
  · exact ((List.pairwise_cons.mp h.ordered).1 q hq).1

theorem Open.Holds.close {w : Open} {count last : Nat} {held : List (Char × Nat)}
    {ps : List Piece} (h : w.Holds count held ps) (hlast : ∀ m ∈ held, m.2 ≤ last) :
    Bears (w.close last) held :=
  ⟨h.ink, fun m hm => ⟨(h.lines m hm).1, Nat.le_trans (hlast m hm) (Nat.le_max_left _ _)⟩⟩

/-- A window starts on the line after the one on which the window before it ends; or on that line,
if it is a long one and both windows hold something of it. A window comes with the lines of what it
holds. -/
def Follows (long : Nat → Prop) (c d : Chunk × List Nat) : Prop :=
  d.1.firstLine = c.1.lastLine + 1 ∨
    d.1.firstLine = c.1.lastLine ∧ long c.1.lastLine ∧ c.1.lastLine ∈ c.2 ∧ c.1.lastLine ∈ d.2

/-- A window with what it holds, as the lines of it. -/
def onLines (x : Chunk × List (Char × Nat)) : Chunk × List Nat := (x.1, x.2.map Prod.snd)

/-- The windows, each with what it holds, that come of an open window and the pieces after it. -/
structure Fills (long : Nat → Prop) (count : Nat) (w : Open) (held : List (Char × Nat))
    (ps : List Piece) (windows : List (Chunk × List (Char × Nat))) : Prop where
  marks : windows.flatMap Prod.snd = held ++ ps.flatMap Piece.marks
  bears : ∀ x ∈ windows, Bears x.1 x.2
  within : ∀ x ∈ windows, x.1.firstLine ≤ x.1.lastLine ∧ x.1.lastLine ≤ count
  first : ∀ x ∈ windows.head?, x.1.firstLine = w.start ∧ held ⊆ x.2
  follows : windows.IsChain fun x y => Follows long (onLines x) (onLines y)

/-- The first of these pieces goes on on a long line, of which something is held, or opens a line.
-/
def Joint (long : Nat → Prop) (held : List (Char × Nat)) (ps : List Piece) : Prop :=
  ∀ p ∈ ps.head?, ¬ p.opens → p.line ∈ held.map Prod.snd ∧ long p.line ∧ 1 ≤ p.text.size

theorem Piece.line_mem {p : Piece} (hp : 1 ≤ p.text.size) : p.line ∈ p.marks.map Prod.snd := by
  rw [size_eq_length_ink] at hp
  obtain ⟨c, hc⟩ := List.exists_mem_of_length_pos hp
  exact List.mem_map.mpr ⟨(c, p.line), List.mem_map_of_mem hc, rfl⟩

theorem joint_add {long : Nat → Prop} {p : Piece} {ps : List Piece}
    (hchain : (p :: ps).IsChain (Piece.Continues long)) (held : List (Char × Nat)) :
    Joint long (held ++ p.marks) ps := by
  intro q hq hopens
  obtain ⟨hline, hlong, hp, hq⟩ := (List.isChain_cons.mp hchain).1 q hq hopens
  rw [List.map_append, hline]
  exact ⟨List.mem_append_right _ (Piece.line_mem hp), hline ▸ hlong, hq⟩

theorem Open.Holds.held_ne_nil {w : Open} {count : Nat} {held : List (Char × Nat)}
    {ps : List Piece} (h : w.Holds count held ps) (hpos : 0 < w.size) : held ≠ [] := by
  rintro rfl
  rw [h.size, size_eq_length_ink, h.ink] at hpos
  exact absurd hpos (Nat.lt_irrefl 0)

/-- Where a window ends that is closed before a piece. -/
def Piece.lastBefore (p : Piece) : Nat := if p.opens then p.line - 1 else p.line

section
variable {long : Nat → Prop} {count : Nat} {w : Open} {held : List (Char × Nat)} {p : Piece}
  {ps : List Piece}

theorem Open.Holds.le_last_before (h : w.Holds count held (p :: ps)) :
    ∀ m ∈ held, m.2 ≤ p.lastBefore := by
  intro m hm
  obtain ⟨hle, hlt⟩ := h.after m hm p List.mem_cons_self
  unfold Piece.lastBefore
  split
  · rename_i hopens
    exact Nat.le_sub_one_of_lt (hlt hopens)
  · exact hle

/-- A window that holds something ends where it is closed. -/
theorem Open.Holds.last_line (h : w.Holds count held (p :: ps)) (hpos : 0 < w.size) :
    (w.close p.lastBefore).lastLine = p.lastBefore := by
  obtain ⟨m, hm⟩ := List.exists_mem_of_ne_nil _ (h.held_ne_nil hpos)
  exact Nat.max_eq_left (Nat.le_trans (h.lines m hm).1 (h.le_last_before m hm))

/-- The window that is opened for a piece follows the one that is closed before it. -/
theorem Open.Holds.follows (h : w.Holds count held (p :: ps)) (hpos : 0 < w.size)
    (hjoint : Joint long held (p :: ps)) {y : Chunk × List (Char × Nat)}
    (hstart : y.1.firstLine = p.line) (hheld : p.marks ⊆ y.2) :
    Follows long (onLines (w.close p.lastBefore, held)) (onLines y) := by
  obtain ⟨m, hm⟩ := List.exists_mem_of_ne_nil _ (h.held_ne_nil hpos)
  unfold Follows onLines
  rw [h.last_line hpos, hstart]
  by_cases hopens : p.opens
  · have hlt := (h.after m hm p List.mem_cons_self).2 hopens
    left
    rw [Piece.lastBefore, if_pos hopens]
    omega
  · obtain ⟨hline, hlong, hsome⟩ := hjoint p rfl hopens
    right
    rw [Piece.lastBefore, if_neg hopens]
    exact ⟨rfl, hlong, hline, List.map_subset _ hheld (Piece.line_mem hsome)⟩

end

/-- Windows hold what the open one held and then the pieces, in order, and each goes on from the one
before it. -/
theorem fill_windows (target : Nat) {long : Nat → Prop} {count : Nat} {w : Open}
    {held : List (Char × Nat)} {ps : List Piece} (h : w.Holds count held ps)
    (hchain : ps.IsChain (Piece.Continues long)) (hjoint : Joint long held ps) :
    ∃ windows, windows.map Prod.fst = fill target count w ps ∧
      Fills long count w held ps windows := by
  -- What the open window holds grows with each piece, so it is generalised with the window.
  induction ps generalizing w held with
  | nil =>
    unfold fill
    split
    · rename_i hpos
      obtain ⟨m, hm⟩ := List.exists_mem_of_ne_nil _ (h.held_ne_nil hpos)
      have hstart := Nat.le_trans (h.lines m hm).1 (h.lines m hm).2
      refine ⟨[(w.close count, held)], rfl, by simp, ?_, ?_, ?_, .singleton _⟩
      · exact List.forall_mem_singleton.mpr (h.close fun m hm => (h.lines m hm).2)
      · exact List.forall_mem_singleton.mpr
          ⟨Nat.le_max_right _ _, Nat.max_le.mpr ⟨Nat.le_refl _, hstart⟩⟩
      · simp [Open.close]
    · rename_i hzero
      have hempty : held.length = 0 := by
        rw [h.size, size_eq_length_ink, h.ink, List.length_map] at hzero
        omega
      refine ⟨[], rfl, ?_, by simp, by simp, by simp, .nil⟩
      simp [List.length_eq_zero_iff.mp hempty]
  | cons p ps ih =>
    have hrest := (List.isChain_cons.mp hchain).2
    unfold fill
    split
    · rename_i hclose
      obtain ⟨windows, hfill, hall⟩ := ih h.fresh.add hrest (joint_add hchain [])
      obtain ⟨hlow, hhigh⟩ := h.next p List.mem_cons_self
      refine ⟨(w.close p.lastBefore, held) :: windows, ?_, ?_, ?_, ?_, ?_, ?_⟩
      · rw [List.map_cons, hfill]
        rfl
      · simp [hall.marks]
      · exact List.forall_mem_cons.mpr ⟨h.close h.le_last_before, hall.bears⟩
      · refine List.forall_mem_cons.mpr ⟨⟨Nat.le_max_right _ _, ?_⟩, hall.within⟩
        rw [h.last_line hclose.2, Piece.lastBefore]
        split <;> omega
      · simp [Open.close]
      · refine List.isChain_cons.mpr ⟨fun y hy => ?_, hall.follows⟩
        obtain ⟨hstart, hheld⟩ := hall.first y hy
        exact h.follows hclose.2 hjoint hstart hheld
    · obtain ⟨windows, hfill, hall⟩ := ih h.add hrest (joint_add hchain held)
      refine ⟨windows, hfill, by simp [hall.marks], hall.bears, hall.within, ?_, hall.follows⟩
      intro x hx
      obtain ⟨hstart, hheld⟩ := hall.first x hx
      exact ⟨hstart, List.Subset.trans (List.subset_append_left _ _) hheld⟩

theorem close_fits {w : Open} {most : Nat} (hsize : w.size = w.text.size) (hpos : 0 < w.size)
    (hw : w.size ≤ most) (last : Nat) : (w.close last).Fits most := by
  rw [hsize] at hpos hw
  exact ⟨hpos, hw, rfl⟩

/-- No window is empty or larger than `most`, if no piece is. -/
theorem fill_fits {target count most : Nat} {w : Open} {ps : List Piece}
    (htarget : target ≤ most) (hsize : w.size = w.text.size) (hw : w.size ≤ most)
    (hps : ∀ p ∈ ps, p.text.size ≤ most) :
    ∀ c ∈ fill target count w ps, c.Fits most := by
  induction ps generalizing w with
  | nil =>
    unfold fill
    split
    · rename_i hpos
      intro c hc
      rw [List.mem_singleton.mp hc]
      exact close_fits hsize hpos hw count
    · simp
  | cons p ps ih =>
    have hp := hps p List.mem_cons_self
    have hrest : ∀ q ∈ ps, q.text.size ≤ most := fun q hq => hps q (List.mem_cons_of_mem _ hq)
    have hadd : ∀ w : Open, (w.add p).size = w.size + p.text.size := fun _ => rfl
    unfold fill
    split
    · rename_i hfull
      intro c hc
      rcases List.mem_cons.mp hc with rfl | hc
      · exact close_fits hsize hfull.2 hw _
      · refine ih (size_add rfl p) ?_ hrest c hc
        rw [hadd]
        exact Nat.le_trans (Nat.le_of_eq (Nat.zero_add _)) hp
    · rename_i hroom
      refine ih (size_add hsize p) ?_ hrest
      rw [hadd]
      omega

theorem fill_scope {target count : Nat} {w : Open} {ps : List Piece} :
    ∀ c ∈ fill target count w ps, c.scope = [] := by
  induction ps generalizing w with
  | nil =>
    unfold fill
    split <;> simp [Open.close]
  | cons p ps ih =>
    unfold fill
    split
    · exact List.forall_mem_cons.mpr ⟨rfl, ih⟩
    · exact ih

theorem mark_whole_eq (cs : List Chunk) :
    ∃ kind : Chunk → String, markWhole cs = cs.map fun c => { c with nodeType := kind c } := by
  match cs with
  | [c] => exact ⟨fun _ => "file", rfl⟩
  | [] | _ :: _ :: _ => exact ⟨Chunk.nodeType, by simp [markWhole]⟩

end LineWindow

/-- The characters of a chunk that are not blank stand at these positions of a text, on lines of
the chunk. -/
structure Chunk.Holds (source : Text) (c : Chunk) (places : List Nat) : Prop where
  ink : c.code.ink.map some = places.map (source[·]?)
  lines : ∀ i ∈ places, c.firstLine ≤ source.lineAt i ∧ source.lineAt i ≤ c.lastLine

/-- Parts of a list that is the image of another one are images of parts of that one. -/
theorem parts_of_map {f : α → β} {xs : List α} {parts : List (κ × List β)}
    (h : parts.flatMap Prod.snd = xs.map f) : ∃ sources : List (κ × List α),
      parts = sources.map (fun s => (s.1, s.2.map f)) ∧ sources.flatMap Prod.snd = xs := by
  induction parts generalizing xs with
  | nil => exact ⟨[], rfl, (List.map_eq_nil_iff.mp h.symm).symm⟩
  | cons part parts ih =>
    obtain ⟨key, part⟩ := part
    obtain ⟨ys, zs, rfl, rfl, hzs⟩ := List.map_eq_append_iff.mp h.symm
    obtain ⟨sources, rfl, rfl⟩ := ih hzs.symm
    exact ⟨(key, ys) :: sources, rfl, rfl⟩

/-- The windows of a text, but for the kind that a single one is given. -/
theorem chunk_lines_eq (limits : Limits) (t : Text) : ∃ kind : Chunk → String,
    chunkLines limits t = (LineWindow.fill limits.target t.lineCount ⟨1, [], 0⟩
      (LineWindow.pieces limits.max 1 t.lines)).map fun c => { c with nodeType := kind c } :=
  LineWindow.mark_whole_eq _

/-- A line of a text, counted from one, holds more than this. -/
def Text.Exceeds (limit : Nat) (t : Text) (n : Nat) : Prop :=
  ∃ line, t.lines[n - 1]? = some line ∧ limit < line.size

namespace LineWindow

/-- A window with what it holds, of whatever kind it is, as it is compared with a text. -/
def showMarks (kind : Chunk → String) (x : Chunk × List (Char × Nat)) :
    Chunk × List (Option Char × Nat) :=
  ({ x.1 with nodeType := kind x.1 }, x.2.map fun m => (some m.1, m.2))

/-- A window with positions of a text, as what stands there. -/
def showPlaces (t : Text) (x : Chunk × List Nat) : Chunk × List (Option Char × Nat) :=
  (x.1, x.2.map fun i => (t[i]?, t.lineAt i))

/-- Windows, each with what it holds, that go through lines without a gap. -/
structure Tiles (long : Nat → Prop) (count : Nat)
    (shown : List (Chunk × List (Option Char × Nat))) : Prop where
  ink : ∀ x ∈ shown, x.1.code.ink.map some = x.2.map Prod.fst
  lines : ∀ x ∈ shown, ∀ m ∈ x.2, x.1.firstLine ≤ m.2 ∧ m.2 ≤ x.1.lastLine
  within : ∀ x ∈ shown, x.1.firstLine ≤ x.1.lastLine ∧ x.1.lastLine ≤ count
  first : ∀ x ∈ shown.head?, x.1.firstLine = 1
  follows : shown.IsChain fun x y =>
    Follows long (x.1, x.2.map Prod.snd) (y.1, y.2.map Prod.snd)

theorem Fills.tiles {long : Nat → Prop} {count : Nat} {w : Open} {held : List (Char × Nat)}
    {ps : List Piece} {windows : List (Chunk × List (Char × Nat))}
    (h : Fills long count w held ps windows) (hstart : w.start = 1) (kind : Chunk → String) :
    Tiles long count (windows.map (showMarks kind)) := by
  constructor
  · refine List.forall_mem_map.mpr fun x hx => ?_
    refine (congrArg (List.map some) (h.bears x hx).1).trans ?_
    simp [showMarks]
  · exact List.forall_mem_map.mpr fun x hx => List.forall_mem_map.mpr (h.bears x hx).2
  · exact List.forall_mem_map.mpr h.within
  · intro y hy
    rw [List.head?_map] at hy
    obtain ⟨x, hx, rfl⟩ := Option.map_eq_some_iff.mp hy
    exact (h.first x hx).1.trans hstart
  · have hlines (x : Chunk × List (Char × Nat)) :
        (showMarks kind x).2.map Prod.snd = x.2.map Prod.snd := by simp [showMarks]
    refine (List.isChain_map _).mpr (h.follows.imp fun x y hxy => ?_)
    rw [hlines, hlines]
    exact hxy

/-- Windows that hold the marks of a text hold its positions. -/
theorem exists_places {t : Text} {windows : List (Chunk × List (Char × Nat))}
    (hmarks : windows.flatMap Prod.snd = t.marks 1) (kind : Chunk → String) :
    ∃ placed : List (Chunk × List Nat),
      placed.map (showPlaces t) = windows.map (showMarks kind) ∧
      placed.flatMap Prod.snd = t.inked 0 t.length := by
  have hshown : (windows.map (showMarks kind)).flatMap Prod.snd =
      (t.inked 0 t.length).map fun i => (t[i]?, t.lineAt i) := by
    rw [List.flatMap_map]
    refine Eq.trans List.map_flatMap.symm ?_
    rw [hmarks]
    exact Text.marks_eq_inked 1 t
  obtain ⟨placed, hplaced, hplaces⟩ := parts_of_map hshown
  exact ⟨placed, hplaced.symm, hplaces⟩

theorem Tiles.holds {long : Nat → Prop} {count : Nat} {t : Text} {placed : List (Chunk × List Nat)}
    (h : Tiles long count (placed.map (showPlaces t))) : ∀ x ∈ placed, x.1.Holds t x.2 := by
  intro x hx
  have hink := List.forall_mem_map.mp h.ink x hx
  have hlines := List.forall_mem_map.mp h.lines x hx
  refine ⟨hink.trans ?_, List.forall_mem_map.mp hlines⟩
  simp [showPlaces]

end LineWindow

/-- The windows of a text hold its positions and go through its lines. -/
theorem exists_tiles (limits : Limits) (t : Text) : ∃ placed : List (Chunk × List Nat),
    placed.map Prod.fst = chunkLines limits t ∧ placed.flatMap Prod.snd = t.inked 0 t.length ∧
      LineWindow.Tiles (t.Exceeds (max limits.max 1)) t.lineCount
        (placed.map (LineWindow.showPlaces t)) := by
  have hopen : (LineWindow.Open.mk 1 [] 0).Holds t.lineCount []
      (LineWindow.pieces limits.max 1 t.lines) := by
    refine ⟨rfl, rfl, by simp, ?_, by simp, LineWindow.pieces_ordered _ _ _⟩
    intro p hp
    obtain ⟨hlow, hhigh, -⟩ := LineWindow.mem_pieces hp
    exact ⟨hlow, by unfold Text.lineCount; omega⟩
  have hchain : (LineWindow.pieces limits.max 1 t.lines).IsChain
      (LineWindow.Piece.Continues (t.Exceeds (max limits.max 1))) := by
    refine LineWindow.pieces_continue fun i l hl hsize => ⟨l, ?_, hsize⟩
    rw [Nat.add_sub_cancel_left, hl]
  obtain ⟨windows, hfill, hall⟩ := LineWindow.fill_windows limits.target hopen hchain
    fun p hp hopens => absurd (LineWindow.pieces_opens p hp) hopens
  obtain ⟨kind, hkind⟩ := chunk_lines_eq limits t
  obtain ⟨placed, hplaced, hplaces⟩ :=
    LineWindow.exists_places (hall.marks.trans (LineWindow.pieces_marks _ _ _)) kind
  refine ⟨placed, ?_, hplaces, hplaced ▸ hall.tiles rfl kind⟩
  have hchunks := congrArg (List.map Prod.fst) hplaced
  rw [List.map_map, List.map_map] at hchunks
  rw [hkind, ← hfill, List.map_map]
  exact hchunks

/-- Windows by lines hold all that is not blank, in order. -/
theorem chunk_lines_hold (limits : Limits) (t : Text) :
    ∃ places, List.Forall₂ (Chunk.Holds t) (chunkLines limits t) places ∧
      places.flatten = t.inked 0 t.length := by
  obtain ⟨placed, hplaced, hplaces, htiles⟩ := exists_tiles limits t
  refine ⟨placed.map Prod.snd, ?_, hplaces⟩
  rw [← hplaced, List.forall₂_map_left_iff, List.forall₂_map_right_iff, List.forall₂_same]
  exact htiles.holds

/-- Windows by lines conserve the text and go through its lines without a gap. -/
theorem line_windows_tile (limits : Limits) (t : Text) :
    (chunkLines limits t).flatMap (·.code.ink) = t.ink ∧
    (∀ c ∈ (chunkLines limits t).head?, c.firstLine = 1) ∧
    (∀ c ∈ chunkLines limits t, c.firstLine ≤ c.lastLine ∧ c.lastLine ≤ t.lineCount) ∧
    ∃ placed : List (Chunk × List Nat), placed.map Prod.fst = chunkLines limits t ∧
      placed.flatMap Prod.snd = t.inked 0 t.length ∧ (∀ x ∈ placed, x.1.Holds t x.2) ∧
      placed.IsChain fun x y => LineWindow.Follows (t.Exceeds (max limits.max 1))
        (x.1, x.2.map t.lineAt) (y.1, y.2.map t.lineAt) := by
  obtain ⟨placed, hplaced, hplaces, htiles⟩ := exists_tiles limits t
  have hlines (x : Chunk × List Nat) :
      (LineWindow.showPlaces t x).2.map Prod.snd = x.2.map t.lineAt := by
    simp [LineWindow.showPlaces]
  rw [← hplaced]
  refine ⟨?_, fun c hc => ?_, ?_, placed, rfl, hplaces, htiles.holds, ?_⟩
  · apply List.map_injective_iff.mpr fun _ _ => Option.some.inj
    rw [List.flatMap_map, List.map_flatMap, Text.ink_eq_inked, ← hplaces, List.map_flatMap]
    exact List.flatMap_congr fun x hx => (htiles.holds x hx).ink
  · rw [List.head?_map] at hc
    obtain ⟨x, hx, rfl⟩ := Option.map_eq_some_iff.mp hc
    refine htiles.first (LineWindow.showPlaces t x) ?_
    rw [List.head?_map, hx]
    rfl
  · exact List.forall_mem_map.mpr (List.forall_mem_map.mp htiles.within)
  · refine ((List.isChain_map _).mp htiles.follows).imp fun x y hxy => ?_
    rw [hlines, hlines] at hxy
    exact hxy

/-- No window by lines is empty or larger than the maximum. -/
theorem chunk_lines_fit {limits : Limits} (hmax : 1 ≤ limits.max)
    (hle : limits.target ≤ limits.max) (t : Text) :
    ∀ c ∈ chunkLines limits t, c.Fits limits.max := by
  have hpieces : ∀ p ∈ LineWindow.pieces limits.max 1 t.lines, p.text.size ≤ limits.max := by
    intro p hp
    obtain ⟨-, -, l, -, htext⟩ := LineWindow.mem_pieces hp
    have hsize := (LineWindow.cut_cuts limits.max l).bounded p.text htext
    rwa [Nat.max_eq_left hmax] at hsize
  obtain ⟨kind, hkind⟩ := chunk_lines_eq limits t
  rw [hkind, List.forall_mem_map]
  intro c hc
  obtain ⟨hsome, hmost, hhash⟩ := LineWindow.fill_fits hle rfl (Nat.zero_le _) hpieces c hc
  exact ⟨hsome, hmost, hhash⟩

/-- Windows by lines are not inside anything. -/
theorem chunk_lines_scope (limits : Limits) (t : Text) :
    ∀ c ∈ chunkLines limits t, c.scope = [] := by
  obtain ⟨kind, hkind⟩ := chunk_lines_eq limits t
  rw [hkind, List.forall_mem_map]
  exact LineWindow.fill_scope

theorem chunk_lines_ne_nil {limits : Limits} {t : Text} (ht : t.size ≠ 0) :
    chunkLines limits t ≠ [] := by
  intro hnil
  obtain ⟨places, hplaces, hall⟩ := chunk_lines_hold limits t
  rw [hnil, List.forall₂_nil_left_iff] at hplaces
  have hink := Text.ink_eq_inked t
  rw [← hall, hplaces] at hink
  rw [Text.size_eq_length_ink, List.map_eq_nil_iff.mp hink] at ht
  exact ht rfl

end CodeIndex
