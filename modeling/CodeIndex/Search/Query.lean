import CodeIndex.Text.Lines
import CodeIndex.Text.Lowercase
import CodeIndex.Text.WordChar

namespace CodeIndex.Query

def shortestTerm : Nat := 3

def mostTerms : Nat := 32

/-- Each element where it stands first. -/
def distinct [DecidableEq α] : List α → List α
  | [] => []
  | a :: as => a :: (distinct as).filter (· != a)

def words (t : Text) : List Text := Text.splitAt (fun c => !Text.isWordChar c) t

/-- The words of at least three characters in lower case, each once, thirty-two at most. -/
def terms (t : Text) : List Text :=
  (distinct (((words t).filter fun w => shortestTerm ≤ w.length).map Text.lowercase)).take mostTerms

/-- A term as a quoted phrase. -/
def phrase (term : Text) : Text := '"' :: term ++ ['"']

/-- The phrases of a query, any of which may match; `none` if there is nothing to look for. -/
def expression? (t : Text) : Option Text :=
  let ts := terms t
  if ts.isEmpty then none else some (Text.joinWith " OR ".toList (ts.map phrase))

end CodeIndex.Query
