import CodeIndex.Disk.Glob
import CodeIndex.Text.Lines

namespace CodeIndex

/-- One line of a file that lists what is to be ignored. The last rule that matches a path decides,
and a rule behind an exclamation mark keeps what it matches. -/
structure IgnoreRule where
  glob : List Glob.Token
  keeps : Bool
  onlyDirectories : Bool

inductive Fate where
  | ignored
  | kept
deriving DecidableEq, Repr

namespace IgnoreRule

def isMatch (r : IgnoreRule) (path : Bytes) (isDirectory : Bool) : Bool :=
  (!r.onlyDirectories || isDirectory) && Glob.isMatch r.glob path

def fate (r : IgnoreRule) : Fate := if r.keeps then .kept else .ignored

/-- Blanks at the end do not count, unless the last one is escaped. -/
def trimEnd (line : Text) : Text :=
  if line.reverse.take 2 = [' ', '\\'] then line
  else (line.reverse.dropWhile Text.isBlank).reverse

/-- A line without the marks at its start: whether it keeps, whether it is bound to its directory,
and the rest. -/
def readStart : Text → Bool × Bool × Text
  | '\\' :: '!' :: t => (false, false, '!' :: t)
  | '\\' :: '#' :: t => (false, false, '#' :: t)
  | '!' :: '/' :: t => (true, true, t)
  | '!' :: t => (true, false, t)
  | '/' :: t => (false, true, t)
  | t => (false, false, t)

/-- A slash at the end means directories only; a backslash before it goes too. -/
def readEnd (t : Text) : Bool × Text :=
  match t.reverse with
  | '/' :: '\\' :: r => (true, r.reverse)
  | '/' :: r => (true, r.reverse)
  | _ => (false, t)

/-- A glob without a slash matches in every directory below. -/
def atAnyDepth (bound : Bool) (t : Text) : Text :=
  if bound || t.contains '/' || t = ['*', '*'] then t else ['*', '*', '/'] ++ t

/-- Two stars at the end match what is in a directory, but not the directory. -/
def belowOnly (t : Text) : Text :=
  if "/**".toList.isSuffixOf t then t ++ ['/', '*'] else t

/-- The rule of a line; `none` if there is none in it, or its glob cannot be read. -/
def ofLine? (line : Text) : Option IgnoreRule :=
  if line.head? = some '#' then none
  else
    let line := trimEnd line
    if line.isEmpty then none
    else
      let (keeps, bound, t) := readStart line
      let (onlyDirectories, t) := readEnd t
      (Glob.parse? (belowOnly (atAnyDepth bound t))).map fun glob =>
        ⟨glob, keeps, onlyDirectories⟩

/-- The lines of a file up to the first one that is not UTF-8. -/
def linesOf (bytes : Bytes) : List Text :=
  let pieces := bytes.splitOn 10
  let ended := pieces.dropLast.map fun l => if l.getLast? = some 13 then l.dropLast else l
  ((ended ++ pieces.getLast?.toList).map Utf8.decode?).takeWhile Option.isSome |>.filterMap id

/-- Marks of the byte order at the start do not count. -/
def dropMarks : List Text → List Text
  | [] => []
  | l :: ls => l.dropWhile (· == '\uFEFF') :: ls

/-- The rules of a file; none of them holds if a class of one of them is unsound. -/
def ofBytes (bytes : Bytes) : List IgnoreRule :=
  let rules := (dropMarks (linesOf bytes)).filterMap ofLine?
  if rules.all fun r => Glob.isSound r.glob then rules else []

/-- What the rules make of a path, if one of them matches it. -/
def decide? (rules : List IgnoreRule) (path : Bytes) (isDirectory : Bool) : Option Fate :=
  (rules.reverse.find? (·.isMatch path isDirectory)).map fate

end IgnoreRule
end CodeIndex
