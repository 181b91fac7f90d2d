import CodeIndex.Text.Blank

namespace CodeIndex.Text

def onFirst (c : Char) : List Text → List Text
  | [] => [[c]]
  | p :: ps => (c :: p) :: ps

/-- The pieces between the separators, empty ones included; there is always at least one. -/
def splitAt (isSeparator : Char → Bool) (t : Text) : List Text :=
  t.foldr (fun c ps => if isSeparator c then [] :: ps else onFirst c ps) [[]]

def dropReturn (line : Text) : Text :=
  if line.getLast? = some '\r' then line.dropLast else line

/-- Every piece but the last was ended by a newline. -/
def endLines : List Text → List Text
  | [] => []
  | [last] => if last.isEmpty then [] else [last]
  | l :: ls => dropReturn l :: endLines ls

/-- A line ends at a newline, loses one carriage return that stands directly before it, and a last
line without a newline counts only if it holds something. -/
def lines (t : Text) : List Text := endLines (splitAt (· == '\n') t)

def lineCount (t : Text) : Nat := t.lines.length

/-- The pieces one after another, each two with the separator between them. -/
def joinWith (separator : Text) : List Text → Text
  | [] => []
  | [p] => p
  | p :: ps => p ++ separator ++ joinWith separator ps

def joinLines (ls : List Text) : Text := joinWith ['\n'] ls

theorem splitAt_ne_nil (f : Char → Bool) (t : Text) : splitAt f t ≠ [] := by
  cases t with
  | nil => simp [splitAt]
  | cons c t =>
    simp only [splitAt, List.foldr_cons]
    split
    · simp
    · cases h : List.foldr (fun c ps => if f c then [] :: ps else onFirst c ps) [[]] t <;>
        simp [onFirst]

end CodeIndex.Text
