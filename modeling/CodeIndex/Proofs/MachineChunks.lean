import CodeIndex.Proofs.Chunking
import CodeIndex.Search.FullText
import Mathlib.Algebra.GroupWithZero.Nat

namespace CodeIndex

namespace Text

theorem newlines_and_ink (t : Text) : t.count '\n' + t.size ≤ t.length := by
  induction t with
  | nil => exact Nat.le_refl 0
  | cons c t ih =>
    unfold size at ih ⊢
    rw [List.count_cons, List.countP_cons, List.length_cons]
    by_cases hc : c = '\n'
    · subst hc
      simp [show isBlank '\n' = true from by decide]
      omega
    · simp only [beq_iff_eq, hc, if_false]
      split <;> omega

theorem lineAt_le_newlines (t : Text) (i : Nat) : t.lineAt i ≤ t.count '\n' + 1 :=
  Nat.succ_le_succ ((List.take_sublist i t).count_le _)

/-- A text with anything on it is at least as long as its last line has a number. -/
theorem newlines_lt {t : Text} (ht : t.size ≠ 0) : t.count '\n' + 1 ≤ t.length := by
  have := newlines_and_ink t
  omega

theorem length_dropReturn_le (line : Text) : (dropReturn line).length ≤ line.length := by
  unfold dropReturn
  split
  · rw [List.length_dropLast]
    omega
  · exact Nat.le_refl _

/-- Lines are not more than there are characters, nor longer. -/
theorem lines_le (t : Text) :
    t.lineCount ≤ t.length ∧ ∀ line ∈ t.lines, line.length ≤ t.length := by
  unfold lineCount
  induction t using byLines with
  | nil => simp [lines, splitAt, endLines]
  | last t ht hline =>
    rw [lines_last ht hline, List.forall_mem_singleton]
    exact ⟨List.length_pos_iff.mpr ht, Nat.le_refl _⟩
  | cons p t hp ih =>
    have := length_dropReturn_le p
    rw [lines_cons hp, List.length_cons, List.length_append, List.length_cons, List.forall_mem_cons]
    refine ⟨by omega, by omega, fun line hl => ?_⟩
    have := ih.2 line hl
    omega

theorem lineCount_le_newlines (t : Text) : t.lineCount ≤ t.count '\n' + 1 := by
  unfold lineCount
  induction t using byLines with
  | nil => simp [lines, splitAt, endLines]
  | last t ht hline => simp [lines_last ht hline]
  | cons p t hp ih =>
    rw [lines_cons hp, List.length_cons, List.count_append, List.count_cons_self]
    omega

theorem size_le (t : Text) : t.size ≤ t.length := List.countP_le_length

end Text

/-- Ascending numbers between two bounds are not more than there are. -/
theorem length_ascending (low : Nat) {high : Nat} {ns : List Nat} (h : ns.Pairwise (· < ·))
    (hns : ∀ n ∈ ns, low ≤ n ∧ n < high) : ns.length ≤ high - low := by
  induction ns generalizing low with
  | nil => exact Nat.zero_le _
  | cons n ns ih =>
    rw [List.pairwise_cons] at h
    rw [List.forall_mem_cons] at hns
    have hrest := ih (n + 1) h.2 fun m hm => ⟨h.1 m hm, (hns.2 m hm).2⟩
    rw [List.length_cons]
    omega

namespace Machine

variable {α β ε : Type}

theorem ok_bind (a : α) (f : α → Except ε β) : (Except.ok a >>= f) = f a := rfl

/-- Steps that all succeed, one after another. -/
theorem mapM_ok {f : α → Except ε β} {g : α → β} {as : List α} (h : ∀ a ∈ as, f a = .ok (g a)) :
    as.mapM f = .ok (as.map g) := by
  induction as with
  | nil => rfl
  | cons a as ih =>
    rw [List.forall_mem_cons] at h
    rw [List.mapM_cons, h.1, ih h.2]
    rfl

/-- A number that has to fit a word. -/
def word (n : Nat) : Except IndexError Nat :=
  if n < UInt64.size then .ok n else .error .integerConversion

/-- A number that has to fit a signed word, as a database has them. -/
def signed (n : Nat) : Except IndexError Nat :=
  if n < FullText.limitBound then .ok n else .error .integerConversion

/-- A difference that has to be a number. -/
def minus (m n : Nat) : Except IndexError Nat :=
  if n ≤ m then .ok (m - n) else .error .integerConversion

theorem word_ok {n : Nat} (h : n < UInt64.size) : word n = .ok n := if_pos h

theorem signed_ok {n : Nat} (h : n < FullText.limitBound) : signed n = .ok n := if_pos h

theorem minus_ok {m n : Nat} (h : n ≤ m) : minus m n = .ok (m - n) := if_pos h

/-- Two numbers that fit signed words have a sum that fits a word. -/
theorem words_eq : UInt64.size = FullText.limitBound + FullText.limitBound := rfl

def size (t : Text) : Except IndexError Nat := word t.size

theorem size_ok {t : Text} (h : t.size < UInt64.size) : size t = .ok t.size := word_ok h

def cutFrom (limit filled : Nat) : Text → Except IndexError (List Text)
  | [] => return [[]]
  | c :: t => do
    if Text.isBlank c then return Text.onFirst c (← cutFrom limit filled t)
    else if filled = limit then return [] :: Text.onFirst c (← cutFrom limit 1 t)
    else
      let filled ← word (filled + 1)
      return Text.onFirst c (← cutFrom limit filled t)

def piecesOf (limit number : Nat) (line : Text) : Except IndexError (List LineWindow.Piece) := do
  match ← cutFrom (max limit 1) 0 line with
  | [] => return []
  | p :: ps => return ⟨number, true, p⟩ :: ps.map (⟨number, false, ·⟩)

/-- The pieces of lines that come after this many others. -/
def pieces (limit before : Nat) : List Text → Except IndexError (List LineWindow.Piece)
  | [] => return []
  | l :: ls => do
    let number ← word (before + 1)
    return (← piecesOf limit number l) ++ (← pieces limit number ls)

def lastBefore (p : LineWindow.Piece) : Except IndexError Nat :=
  if p.opens then minus p.line 1 else return p.line

def fill (target count : Nat) (w : LineWindow.Open) :
    List LineWindow.Piece → Except IndexError (List Chunk)
  | [] => return if 0 < w.size then [w.close count] else []
  | p :: ps => do
    let filled ← word (w.size + (← size p.text))
    if target < filled ∧ 0 < w.size then
      let last ← lastBefore p
      return w.close last :: (← fill target count (LineWindow.Open.add ⟨p.line, [], 0⟩ p) ps)
    else fill target count (w.add p) ps

def chunkLines (limits : Limits) (source : Text) : Except IndexError (List Chunk) := do
  let count ← word source.lineCount
  return LineWindow.markWhole
    (← fill limits.target count ⟨1, [], 0⟩ (← pieces limits.max 0 source.lines))

theorem cutFrom_ok (limit : Nat) {filled : Nat} {t : Text} (h : filled + t.length < UInt64.size) :
    cutFrom limit filled t = .ok (LineWindow.cutFrom limit filled t) := by
  induction t generalizing filled with
  | nil => rfl
  | cons c t ih =>
    rw [List.length_cons] at h
    unfold cutFrom LineWindow.cutFrom
    split
    · rw [ih (by omega)]
      rfl
    · split
      · rw [ih (by omega)]
        rfl
      · rw [word_ok (by omega), ok_bind, ih (by omega)]
        rfl

theorem piecesOf_ok (limit number : Nat) {line : Text} (h : line.length < UInt64.size) :
    piecesOf limit number line = .ok (LineWindow.piecesOf limit number line) := by
  unfold piecesOf LineWindow.piecesOf LineWindow.cut
  rw [cutFrom_ok _ (by omega), ok_bind]
  cases LineWindow.cutFrom (max limit 1) 0 line <;> rfl

theorem pieces_ok (limit before : Nat) {ls : List Text}
    (h : before + ls.length < UInt64.size) (hls : ∀ l ∈ ls, l.length < UInt64.size) :
    pieces limit before ls = .ok (LineWindow.pieces limit (before + 1) ls) := by
  induction ls generalizing before with
  | nil => rfl
  | cons l ls ih =>
    rw [List.length_cons] at h
    rw [List.forall_mem_cons] at hls
    rw [pieces, word_ok (by omega), ok_bind, piecesOf_ok _ _ hls.1, ok_bind, ih _ (by omega) hls.2]
    rfl

/-- The sizes of pieces add up. -/
def filling (ps : List LineWindow.Piece) : Nat := (ps.map (·.text.size)).sum

theorem filling_cons (p : LineWindow.Piece) (ps : List LineWindow.Piece) :
    filling (p :: ps) = p.text.size + filling ps := by
  simp [filling]

/-- The pieces of a text are together as large as the text. -/
theorem filling_pieces (limit : Nat) (t : Text) :
    filling (LineWindow.pieces limit 1 t.lines) = t.size := by
  have hmarks (ps : List LineWindow.Piece) :
      (ps.flatMap LineWindow.Piece.marks).length = filling ps := by
    simp [filling, LineWindow.Piece.marks, List.length_flatMap, Text.size_eq_length_ink]
  have hplaces := congrArg List.length (Text.marks_eq_inked 1 t)
  have hink := congrArg List.length (Text.ink_eq_inked t)
  simp only [List.length_map] at hplaces hink
  rw [← hmarks, LineWindow.pieces_marks, hplaces, ← hink, Text.size_eq_length_ink]

theorem lastBefore_ok {p : LineWindow.Piece} (h : 1 ≤ p.line) :
    lastBefore p = .ok p.lastBefore := by
  unfold lastBefore LineWindow.Piece.lastBefore
  rw [minus_ok h]
  split <;> rfl

/-- What the open window holds and what is still to come fit a word together. -/
theorem fill_ok (target count : Nat) {w : LineWindow.Open} {ps : List LineWindow.Piece}
    (h : w.size + filling ps < UInt64.size) (hps : ∀ p ∈ ps, 1 ≤ p.line) :
    fill target count w ps = .ok (LineWindow.fill target count w ps) := by
  induction ps generalizing w with
  | nil => rfl
  | cons p ps ih =>
    rw [filling_cons] at h
    rw [List.forall_mem_cons] at hps
    have hadd : (w.add p).size = w.size + p.text.size := rfl
    have hfresh : (LineWindow.Open.add ⟨p.line, [], 0⟩ p).size = p.text.size := Nat.zero_add _
    unfold fill LineWindow.fill
    rw [size_ok (by omega), ok_bind, word_ok (by omega), ok_bind]
    split
    · rw [lastBefore_ok hps.1, ok_bind, ih (by omega) hps.2]
      rfl
    · exact ih (by omega) hps.2

theorem chunkLines_ok (limits : Limits) {source : Text} (h : source.length < UInt64.size) :
    chunkLines limits source = .ok (CodeIndex.chunkLines limits source) := by
  obtain ⟨hcount, hlines⟩ := source.lines_le
  have hpieces : pieces limits.max 0 source.lines =
      .ok (LineWindow.pieces limits.max (0 + 1) source.lines) :=
    pieces_ok limits.max 0 (by unfold Text.lineCount at hcount; omega) fun l hl =>
      Nat.lt_of_le_of_lt (hlines l hl) h
  rw [chunkLines, word_ok (by omega), ok_bind, hpieces, ok_bind, fill_ok]
  · rfl
  · have := source.size_le
    rw [filling_pieces]
    simp only
    omega
  · exact fun p hp => (LineWindow.mem_pieces hp).1

mutual

def opened (source : Text) (limits : Limits) (scope : Text) : Node → Except IndexError (List Group)
  | ⟨kind, range, firstRow, lastRow, name, type, children⟩ =>
    let n : Node := ⟨kind, range, firstRow, lastRow, name, type, children⟩
    let inner := Group.scopeWithin source scope n
    if children.isEmpty then return [⟨inner, [n]⟩] else gather source limits inner [] 0 children

def gather (source : Text) (limits : Limits) (scope : Text) (batch : List Node) (filled : Nat) :
    List Node → Except IndexError (List Group)
  | [] => return Group.ofBatch scope batch
  | n :: ns => do
    let here ← size (n.text source)
    if limits.max < here then
      return Group.ofBatch scope batch ++ (← opened source limits scope n) ++
        (← gather source limits scope [] 0 ns)
    else
      let sum ← word (filled + here)
      if limits.target < sum ∧ !batch.isEmpty then
        return Group.ofBatch scope batch ++ (← gather source limits scope [n] here ns)
      else gather source limits scope (batch ++ [n]) sum ns

end

/-- The chunk of a group, of which the lines are counted on from the rows. -/
def chunk? (source imports : Text) (g : Group) : Except IndexError (Option Chunk) := do
  match g.chunk? source imports with
  | none => return none
  | some c =>
    return some { c with firstLine := ← word c.firstLine, lastLine := ← word c.lastLine }

section
variable {source : Text} {limits : Limits}

/-- A node is not larger than what it covers. -/
theorem size_text_le {n : Node} (h : n.Stands source) :
    source.position n.range.start + (n.text source).size ≤ source.position n.range.stop := by
  have hcode : n.text source =
      source.between (source.position n.range.start) (source.position n.range.stop) :=
    h.start.slice_eq h.ordered
  have hlength := Text.length_between (a := source.position n.range.start)
    (source.position_le n.range.stop)
  have hsize := (n.text source).size_le
  have := source.position_mono h.ordered
  rw [hcode] at hsize ⊢
  omega

mutual

theorem opened_ok (h : source.length < UInt64.size) (scope : Text) (n : Node)
    (hn : n.Within source) :
    opened source limits scope n = .ok (Group.opened source limits scope n) := by
  match n with
  | ⟨kind, range, firstRow, lastRow, name, type, children⟩ =>
    unfold opened Group.opened
    dsimp only
    split
    · rfl
    · exact gather_ok h _ [] children hn.aligned (Nat.zero_le _)

/-- As much as has been filled is covered before the nodes that are left. -/
theorem gather_ok (h : source.length < UInt64.size) (scope : Text) (batch : List Node)
    {filled low high : Nat} (ns : List Node) (ha : Aligned source low ns high)
    (hfilled : filled ≤ source.position low) :
    gather source limits scope batch filled ns =
      .ok (Group.gather source limits scope batch filled ns) := by
  match ns with
  | [] =>
    unfold gather Group.gather
    rfl
  | n :: ns =>
    have hn := ha.within n List.mem_cons_self
    have hsize := size_text_le hn.self
    have hstart := source.position_mono ha.ordered.1
    have hstop := source.position_le n.range.stop
    unfold gather Group.gather
    rw [size_ok (by omega), ok_bind]
    dsimp only
    split
    · rw [opened_ok h scope n hn, ok_bind, gather_ok h scope [] ns ha.tail (Nat.zero_le _)]
      rfl
    · rw [word_ok (by omega), ok_bind]
      split
      · rw [gather_ok h scope [n] ns ha.tail (by omega)]
        rfl
      · exact gather_ok h scope (batch ++ [n]) ns ha.tail (by omega)

end

end

def mergeSmall (limits : Limits) : List Chunk → Except IndexError (List Chunk)
  | a :: b :: cs => do
    let here ← size a.code
    let next ← size b.code
    if here < limits.min then
      let sum ← word (here + next)
      if sum ≤ limits.target then mergeSmall limits (a.join b :: cs)
      else return a :: (← mergeSmall limits (b :: cs))
    else return a :: (← mergeSmall limits (b :: cs))
  | cs => return cs
termination_by cs => cs.length

def asPieceOf (whole piece : Chunk) : Except IndexError Chunk := do
  let before ← minus whole.firstLine 1
  return { whole with
    code := piece.code
    hash := piece.hash
    firstLine := ← word (piece.firstLine + before)
    lastLine := ← word (piece.lastLine + before) }

def splitOversized (limits : Limits) : List Chunk → Except IndexError (List Chunk)
  | [] => return []
  | c :: cs => do
    if (← size c.code) ≤ limits.max then return c :: (← splitOversized limits cs)
    else
      let ps ← (← chunkLines limits c.code).mapM (asPieceOf c)
      return ps ++ (← splitOversized limits cs)

/-- The sizes of chunks add up. -/
def bulk (cs : List Chunk) : Nat := (cs.map Chunk.size).sum

theorem bulk_cons (c : Chunk) (cs : List Chunk) : bulk (c :: cs) = c.size + bulk cs := by
  simp [bulk]

theorem mergeSmall_ok {limits : Limits} {cs : List Chunk} (h : bulk cs < UInt64.size) :
    mergeSmall limits cs = .ok (Chunk.mergeSmall limits cs) := by
  -- Joining keeps the bulk, so the bound is handed on to every call.
  fun_induction Chunk.mergeSmall limits cs with
  | case1 a b cs hsmall ih =>
    rw [bulk_cons, bulk_cons] at h
    have ha : size a.code = .ok a.size := size_ok (show a.size < _ by omega)
    have hb : size b.code = .ok b.size := size_ok (show b.size < _ by omega)
    rw [mergeSmall, ha, ok_bind, hb, ok_bind, if_pos hsmall.1, word_ok (by omega), ok_bind,
      if_pos hsmall.2, ih]
    rw [bulk_cons, Chunk.size_join]
    omega
  | case2 a b cs hlarge ih =>
    rw [bulk_cons, bulk_cons] at h
    have ha : size a.code = .ok a.size := size_ok (show a.size < _ by omega)
    have hb : size b.code = .ok b.size := size_ok (show b.size < _ by omega)
    rw [mergeSmall, ha, ok_bind, hb, ok_bind, ih (by rw [bulk_cons]; omega)]
    split
    · rename_i hmin
      rw [word_ok (by omega), ok_bind, if_neg fun hsum => hlarge ⟨hmin, hsum⟩]
      rfl
    · rfl
  | case3 cs hcs =>
    rw [mergeSmall]
    · rfl
    · exact hcs

/-- A chunk can be cut again: its lines begin at a number that leaves room for all of them. -/
structure Cuttable (c : Chunk) : Prop where
  first : 1 ≤ c.firstLine ∧ c.firstLine ≤ FullText.limitBound
  code : c.code.length < FullText.limitBound

theorem asPieceOf_ok {limits : Limits} {c p : Chunk} (h : Cuttable c)
    (hp : p ∈ CodeIndex.chunkLines limits c.code) : asPieceOf c p = .ok (c.asPieceOf p) := by
  obtain ⟨hordered, hlast⟩ := (line_windows_tile limits c.code).2.2.1 p hp
  have hcount := c.code.lines_le.1
  have hcode := h.code
  have hfirst := h.first
  have hwords := words_eq
  rw [asPieceOf, minus_ok hfirst.1, ok_bind, word_ok (by omega), ok_bind, word_ok (by omega)]
  rfl

theorem splitOversized_cons (limits : Limits) (c : Chunk) (cs : List Chunk) :
    Chunk.splitOversized limits (c :: cs) =
      (if c.size ≤ limits.max then [c] else (CodeIndex.chunkLines limits c.code).map c.asPieceOf) ++
        Chunk.splitOversized limits cs := List.flatMap_cons

theorem splitOversized_ok {limits : Limits} {cs : List Chunk} (h : bulk cs < UInt64.size)
    (hcs : ∀ c ∈ cs, limits.max < c.size → Cuttable c) :
    splitOversized limits cs = .ok (Chunk.splitOversized limits cs) := by
  induction cs with
  | nil => rfl
  | cons c cs ih =>
    rw [bulk_cons] at h
    rw [List.forall_mem_cons] at hcs
    have hc : size c.code = .ok c.size := size_ok (show c.size < _ by omega)
    rw [splitOversized, hc, ok_bind, ih (by omega) hcs.2, splitOversized_cons]
    split
    · rfl
    · rename_i hlarge
      have hcut := hcs.1 (Nat.lt_of_not_le hlarge)
      have hwords := words_eq
      have hcode := hcut.code
      rw [chunkLines_ok limits (by omega), ok_bind,
        mapM_ok fun p hp => asPieceOf_ok hcut hp]
      rfl

def chunkTree (source : Text) (language : Language) (limits : Limits) (root : Node) :
    Except IndexError (List Chunk) := do
  let imports := importsOf source language root
  let groups ← gather source limits [] [] 0 root.children
  let chunks ← mergeSmall limits ((← groups.mapM (chunk? source imports)).filterMap id)
  if chunks.isEmpty then chunkLines limits source else splitOversized limits chunks

def chunkFile (parser : Parser) (source : Text) (language : Option Language) (limits : Limits) :
    Except IndexError (List Chunk) :=
  match language with
  | none => chunkLines limits source
  | some l =>
    if l.entityKinds.isEmpty then chunkLines limits source
    else match parser l source with
      | none => .error (.parse ("no parse tree for " ++ l.id ++ " source"))
      | some root => chunkTree source l limits root

theorem bulk_eq {R : Chunk → List α → Prop} {f : α → List Nat} {cs : List Chunk}
    {parts : List (List α)} (h : List.Forall₂ R cs parts)
    (hR : ∀ {c part}, R c part → c.size = (part.flatMap f).length) :
    bulk cs = (parts.flatten.flatMap f).length := by
  induction h with
  | nil => rfl
  | cons hc _ ih =>
    rw [bulk_cons, hR hc, ih, List.flatten_cons, List.flatMap_append, List.length_append]

theorem bulk_mergeSmall (limits : Limits) (cs : List Chunk) :
    bulk (Chunk.mergeSmall limits cs) = bulk cs := by
  fun_induction Chunk.mergeSmall limits cs with
  | case1 a b cs hsmall ih =>
    rw [ih, bulk_cons, bulk_cons, bulk_cons, Chunk.size_join, Nat.add_assoc]
  | case2 a b cs hlarge ih => rw [bulk_cons, ih, ← bulk_cons]
  | case3 => rfl

theorem bulk_chunkLines (limits : Limits) (t : Text) :
    bulk (CodeIndex.chunkLines limits t) = t.size := by
  have hink := congrArg List.length (line_windows_tile limits t).1
  rw [List.length_flatMap, ← Text.size_eq_length_ink] at hink
  rw [← hink, bulk]
  congr 2
  funext c
  exact Text.size_eq_length_ink c.code

section
variable {source : Text} {limits : Limits} {root : Node}

theorem size_ne_zero_of_ink {i : Nat} (h : source.isInk i) : source.size ≠ 0 := by
  obtain ⟨c, hc, hink⟩ := (Option.any_eq_true _ _).mp h
  exact Nat.ne_of_gt (List.countP_pos_iff.mpr ⟨c, List.mem_of_getElem? hc, hink⟩)

theorem size_of_joins {c : Chunk} {ps : List Passage} (h : c.Joins source limits ps) :
    c.size = (ps.flatMap (Passage.places source)).length := by
  have hink := congrArg List.length h.ink
  rwa [List.length_map, List.length_map, ← Text.size_eq_length_ink] at hink

theorem cuttable_of_joins (h : source.length < FullText.limitBound) {c : Chunk}
    {ps : List Passage} (hc : c.Joins source limits ps) (hlarge : limits.max < c.size) :
    Cuttable c := by
  obtain ⟨p, rfl, hcode⟩ := hc.whole hlarge
  have hline := source.lineAt_le_newlines (source.position p.range.start)
  have hnewlines := source.newlines_and_ink
  have hlength := Text.length_between (a := source.position p.range.start)
    (source.position_le p.range.stop)
  have hstop := source.position_le p.range.stop
  refine ⟨⟨?_, ?_⟩, by rw [hcode]; omega⟩
  · rw [hc.firstLine]
    exact Nat.le_add_left 1 _
  · rw [hc.firstLine, List.map_singleton, ByteRange.span_singleton]
    omega

theorem size_ne_zero_of_joins {c : Chunk} {ps : List Passage} (h : c.Joins source limits ps) :
    source.size ≠ 0 := by
  obtain ⟨p, rest, rfl, -⟩ := h.scope
  obtain ⟨i, hi⟩ := List.exists_mem_of_ne_nil _ (h.filled p List.mem_cons_self)
  exact size_ne_zero_of_ink (Text.mem_inked.mp hi).2

/-- Before what is too large is cut again, the chunks of a tree are made of passages and hold no
more than the source does. -/
theorem tree_merged (hroot : root.Within source) (hle : limits.target ≤ limits.max)
    (imports : Text) : ∃ joined, List.Forall₂ (Chunk.Joins source limits) (Chunk.mergeSmall limits
        ((Group.ofTree source limits root).filterMap (·.chunk? source imports))) joined ∧
      bulk ((Group.ofTree source limits root).filterMap (·.chunk? source imports)) ≤
        source.length := by
  obtain ⟨ps, hgroups, hps, -⟩ := tree_passages limits hroot
  obtain ⟨joined, hjoined, -, hplaces⟩ := merged_join hps.stand hle imports
  refine ⟨joined, hgroups ▸ hjoined, ?_⟩
  rw [hgroups, ← bulk_mergeSmall limits, bulk_eq hjoined size_of_joins, hplaces]
  refine length_ascending 0 (places_ascend hps.ordered).1 fun i hi => ⟨Nat.zero_le _, ?_⟩
  obtain ⟨p, -, hi⟩ := List.mem_flatMap.mp hi
  exact Text.lt_length_of_ink (Text.mem_inked.mp hi).2

/-- The chunks of groups are made where their rows count on to lines. -/
theorem chunks_ok (h : source.length < FullText.limitBound) (hroot : root.Within source)
    (imports : Text) : (Group.ofTree source limits root).mapM (chunk? source imports) =
      .ok ((Group.ofTree source limits root).map (·.chunk? source imports)) := by
  obtain ⟨ps, hgroups, hps, -⟩ := tree_passages limits hroot
  rw [hgroups]
  refine mapM_ok (List.forall_mem_map.mpr fun p hp => ?_)
  unfold chunk?
  rcases @Passage.Stands.chunk source limits root p (hps.stand p hp) imports with
    ⟨c, hc, hjoins⟩ | ⟨hnone, -⟩
  · have hnewlines := source.newlines_and_ink
    have hfirst := hjoins.firstLine ▸ source.lineAt_le_newlines _
    have hlast := hjoins.lastLine ▸ source.lineAt_le_newlines _
    have hwords := words_eq
    rw [hc]
    dsimp only
    rw [word_ok (by omega), ok_bind, word_ok (by omega)]
    rfl
  · rw [hnone]
    rfl

theorem chunkTree_ok (h : source.length < FullText.limitBound) (hroot : root.Within source)
    (hle : limits.target ≤ limits.max) (l : Language) :
    chunkTree source l limits root = .ok (CodeIndex.chunkTree source l limits root) := by
  have hwords := words_eq
  obtain ⟨joined, hjoined, hbulk⟩ := tree_merged hroot hle (importsOf source l root)
  have hgather : gather source limits [] [] 0 root.children =
      .ok (Group.ofTree source limits root) :=
    gather_ok (by omega) [] [] root.children hroot.aligned (Nat.zero_le _)
  rw [chunkTree, CodeIndex.chunkTree, hgather, ok_bind, chunks_ok h hroot, ok_bind,
    List.filterMap_map, Function.id_comp, mergeSmall_ok (by omega), ok_bind]
  split
  · exact chunkLines_ok limits (by omega)
  · have hcuttable := (List.forall₂_and_left _ _).mp
      (hjoined.imp fun c part hc => ⟨cuttable_of_joins h hc, hc⟩)
    refine splitOversized_ok ?_ hcuttable.1
    rw [bulk_mergeSmall]
    omega

/-- Chunks whose lines are lines of the text, and which are not more than it has characters. -/
structure Numbered (source : Text) (cs : List Chunk) : Prop where
  count : cs.length ≤ source.length
  lines : ∀ c ∈ cs, c.firstLine ≤ source.length ∧ c.lastLine ≤ source.length

theorem length_le_bulk {cs : List Chunk} (h : ∀ c ∈ cs, 1 ≤ c.size) : cs.length ≤ bulk cs := by
  induction cs with
  | nil => exact Nat.le_refl _
  | cons c cs ih =>
    rw [List.forall_mem_cons] at h
    have hrest := ih h.2
    have hc := h.1
    rw [List.length_cons, bulk_cons]
    omega

theorem bulk_splitOversized (limits : Limits) (cs : List Chunk) :
    bulk (Chunk.splitOversized limits cs) = bulk cs := by
  have hsum (xs ys : List Chunk) : bulk (xs ++ ys) = bulk xs + bulk ys := by simp [bulk]
  have hpieces (c : Chunk) (ps : List Chunk) : bulk (ps.map c.asPieceOf) = bulk ps := by
    rw [bulk, List.map_map]
    rfl
  induction cs with
  | nil => rfl
  | cons c cs ih =>
    rw [splitOversized_cons, hsum, ih, bulk_cons]
    split
    · rw [bulk_cons]
      rfl
    · rw [hpieces, bulk_chunkLines]
      rfl

theorem chunkLines_numbered (hmax : 1 ≤ limits.max) (hle : limits.target ≤ limits.max)
    (source : Text) : Numbered source (CodeIndex.chunkLines limits source) := by
  have hfit := chunk_lines_fit hmax hle source
  have hcount := length_le_bulk fun c hc => (hfit c hc).some
  rw [bulk_chunkLines] at hcount
  refine ⟨Nat.le_trans hcount source.size_le, fun c hc => ?_⟩
  obtain ⟨hordered, hlast⟩ := (line_windows_tile limits source).2.2.1 c hc
  have hlines := source.lines_le.1
  omega

/-- The lines of a part of a text, counted on from where it begins, are lines of the text. -/
theorem lines_between_le (source : Text) (a b : Nat) :
    (source.between a b).lineCount + (source.lineAt a - 1) ≤ source.count '\n' + 1 := by
  have hlines := (source.between a b).lineCount_le_newlines
  have hpart : (source.between a b).count '\n' ≤ (source.drop a).count '\n' := by
    rw [Text.between_eq]
    exact (List.take_sublist _ _).count_le _
  have hall : (source.take a).count '\n' + (source.drop a).count '\n' = source.count '\n' := by
    rw [← List.count_append, List.take_append_drop]
  unfold Text.lineAt
  omega

theorem splitOversized_lines {cs : List Chunk} {joined : List (List Passage)}
    (h : List.Forall₂ (Chunk.Joins source limits) cs joined) :
    ∀ c ∈ Chunk.splitOversized limits cs,
      c.firstLine ≤ source.length ∧ c.lastLine ≤ source.length := by
  induction h with
  | nil => simp [Chunk.splitOversized]
  | @cons c part cs joined hc _ ih =>
    have hnewlines := Text.newlines_lt (size_ne_zero_of_joins hc)
    have hline (i : Nat) : source.lineAt i ≤ source.length :=
      Nat.le_trans (source.lineAt_le_newlines i) hnewlines
    rw [splitOversized_cons, List.forall_mem_append]
    refine ⟨?_, ih⟩
    split
    · rw [List.forall_mem_singleton, hc.firstLine, hc.lastLine]
      exact ⟨hline _, hline _⟩
    · rename_i hlarge
      obtain ⟨p, rfl, hcode⟩ := hc.whole (Nat.lt_of_not_le hlarge)
      have hfirst : c.firstLine = source.lineAt (source.position p.range.start) := hc.firstLine
      have hall := lines_between_le source (source.position p.range.start)
        (source.position p.range.stop)
      rw [← hcode, ← hfirst] at hall
      refine List.forall_mem_map.mpr fun piece hpiece => ?_
      obtain ⟨hordered, hlast⟩ := (line_windows_tile limits c.code).2.2.1 piece hpiece
      dsimp only [Chunk.asPieceOf]
      omega

theorem chunkTree_numbered (hmax : 1 ≤ limits.max) (hle : limits.target ≤ limits.max)
    (hroot : root.Within source) (l : Language) :
    Numbered source (CodeIndex.chunkTree source l limits root) := by
  obtain ⟨joined, hjoined, hbulk⟩ := tree_merged hroot hle (importsOf source l root)
  have hfit := chunk_tree_fit hmax hle source l root
  unfold CodeIndex.chunkTree at hfit ⊢
  dsimp only at hfit ⊢
  split
  · exact chunkLines_numbered hmax hle source
  · rename_i hsome
    rw [if_neg hsome] at hfit
    have hcount := length_le_bulk fun c hc => (hfit c hc).some
    rw [bulk_splitOversized, bulk_mergeSmall] at hcount
    exact ⟨Nat.le_trans hcount hbulk, splitOversized_lines hjoined⟩

end

/-- A parser whose trees stand in the texts that they are read from. -/
def Reads (parser : Parser) : Prop :=
  ∀ l source root, parser l source = some root → root.Within source

section
variable {parser : Parser} {source : Text} {limits : Limits}

theorem chunkFile_eq (hparser : Reads parser) (h : source.length < FullText.limitBound)
    (hle : limits.target ≤ limits.max) (language : Option Language) :
    chunkFile parser source language limits =
      CodeIndex.chunkFile parser source language limits := by
  have hlines : chunkLines limits source = .ok (CodeIndex.chunkLines limits source) :=
    chunkLines_ok limits (Nat.lt_of_lt_of_le h (Nat.le_add_left _ _))
  cases language with
  | none => exact hlines
  | some l =>
    unfold chunkFile CodeIndex.chunkFile
    dsimp only
    split
    · exact hlines
    · cases hroot : parser l source with
      | none => rfl
      | some root => exact chunkTree_ok h (hparser l source root hroot) hle l

theorem chunkFile_numbered (hparser : Reads parser) (hmax : 1 ≤ limits.max)
    (hle : limits.target ≤ limits.max) {language : Option Language} {cs : List Chunk}
    (hcs : CodeIndex.chunkFile parser source language limits = .ok cs) : Numbered source cs := by
  cases language with
  | none => exact Except.ok.inj hcs ▸ chunkLines_numbered hmax hle source
  | some l =>
    unfold CodeIndex.chunkFile at hcs
    dsimp only at hcs
    split at hcs
    · exact Except.ok.inj hcs ▸ chunkLines_numbered hmax hle source
    · cases hroot : parser l source with
      | none =>
        rw [hroot] at hcs
        cases hcs
      | some root =>
        rw [hroot] at hcs
        exact Except.ok.inj hcs ▸ chunkTree_numbered hmax hle (hparser l source root hroot) l

end
end Machine
end CodeIndex
