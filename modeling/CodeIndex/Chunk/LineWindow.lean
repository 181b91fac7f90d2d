import CodeIndex.Chunk.Basic

namespace CodeIndex.LineWindow

/-- Cuts directly before each character that would make a piece larger than `limit`; `filled` is
the size of the piece so far. -/
def cutFrom (limit filled : Nat) : Text → List Text
  | [] => [[]]
  | c :: t =>
    if Text.isBlank c then Text.onFirst c (cutFrom limit filled t)
    else if filled = limit then [] :: Text.onFirst c (cutFrom limit 1 t)
    else Text.onFirst c (cutFrom limit (filled + 1) t)

def cut (limit : Nat) (line : Text) : List Text := cutFrom (max limit 1) 0 line

/-- A piece of a line; the first one of a line opens it. -/
structure Piece where
  line : Nat
  opens : Bool
  text : Text

def piecesOf (limit number : Nat) (line : Text) : List Piece :=
  match cut limit line with
  | [] => []
  | p :: ps => ⟨number, true, p⟩ :: ps.map (⟨number, false, ·⟩)

/-- The pieces of all lines; the first line has this number. -/
def pieces (limit number : Nat) : List Text → List Piece
  | [] => []
  | l :: ls => piecesOf limit number l ++ pieces limit (number + 1) ls

/-- A window that is still being filled. -/
structure Open where
  start : Nat
  text : Text
  size : Nat

def Open.add (w : Open) (p : Piece) : Open :=
  { w with
    text := (if p.opens && !w.text.isEmpty then w.text ++ ['\n'] else w.text) ++ p.text
    size := w.size + p.text.size }

def Open.close (w : Open) (last : Nat) : Chunk where
  code := w.text
  nodeType := "lines"
  entity := none
  firstLine := w.start
  lastLine := max last w.start
  scope := []
  imports := []
  hash := hashText w.text

/-- Fills windows with the pieces; the text has `count` lines. -/
def fill (target count : Nat) (w : Open) : List Piece → List Chunk
  | [] => if 0 < w.size then [w.close count] else []
  | p :: ps =>
    if target < w.size + p.text.size ∧ 0 < w.size then
      w.close (if p.opens then p.line - 1 else p.line) ::
        fill target count (Open.add ⟨p.line, [], 0⟩ p) ps
    else fill target count (w.add p) ps

/-- A text that makes a single chunk is a whole file. -/
def markWhole : List Chunk → List Chunk
  | [c] => [{ c with nodeType := "file" }]
  | cs => cs

end LineWindow

/-- Lines are gathered into windows up to the target size; a line longer than the maximum is first
cut into pieces, which keep its number. -/
def chunkLines (limits : Limits) (source : Text) : List Chunk :=
  LineWindow.markWhole
    (LineWindow.fill limits.target source.lineCount ⟨1, [], 0⟩
      (LineWindow.pieces limits.max 1 source.lines))

end CodeIndex
