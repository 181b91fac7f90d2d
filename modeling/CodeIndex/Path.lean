import CodeIndex.Text.Lines

namespace CodeIndex

/-- A path that is a Unicode text. It is kept as it is written and compared by its components:
repeated slashes, a slash at the end and dots after the start do not count. -/
abbrev Path := String

namespace Path

inductive Component where
  | root
  | here
  | up
  | name (text : String)
deriving DecidableEq, Repr

/-- The root comes first, then the dots, then names by their characters. -/
def Component.rank : Component → Nat
  | .root => 0
  | .here => 1
  | .up => 2
  | .name _ => 3

def Component.label : Component → String
  | .name text => text
  | _ => ""

def Component.compare (a b : Component) : Ordering :=
  (Ord.compare a.rank b.rank).then (Ord.compare a.label b.label)

/-- The component that a piece between slashes stands for, if it counts at all. -/
def component? (first : Bool) (piece : Text) : Option Component :=
  if piece = [] then none
  else if piece = ['.'] then if first then some .here else none
  else if piece = ['.', '.'] then some .up
  else some (.name (String.ofList piece))

def isAbsolute (p : Path) : Bool := p.toList.head? == some '/'

def components (p : Path) : List Component :=
  (if isAbsolute p then [.root] else []) ++
    match Text.splitAt (· == '/') p.toList with
    | [] => []
    | first :: rest => (component? true first).toList ++ rest.filterMap (component? false)

def compareComponents : List Component → List Component → Ordering
  | [], [] => .eq
  | [], _ :: _ => .lt
  | _ :: _, [] => .gt
  | a :: as, b :: bs => (a.compare b).then (compareComponents as bs)

def compare (p q : Path) : Ordering := compareComponents (components p) (components q)

/-- Two spellings of the same path. -/
def same (p q : Path) : Bool := components p == components q

/-- Whether `p` is `dir` or lies below it. -/
def within (dir p : Path) : Bool := (components dir).isPrefixOf (components p)

def sort (ps : List Path) : List Path := ps.mergeSort fun p q => (compare p q).isLE

/-- The name of the last component, unless it is the root or a dot. -/
def fileName? (p : Path) : Option Text :=
  match (components p).getLast? with
  | some (.name text) => some text.toList
  | _ => none

/-- What follows the last dot of a file name that does not only start with one. -/
def extensionOf (name : Text) : Option Text :=
  let after := name.reverse.takeWhile (· != '.')
  if after.length + 1 < name.length then some after.reverse else none

def extension? (p : Path) : Option Text := (fileName? p).bind extensionOf

/-- The text that begins every path below `dir`. -/
def below (dir : Path) : String :=
  if dir.toList.getLast? = some '/' then dir else dir ++ "/"

/-- Whether the text of `p` begins as paths below `dir` do, character by character. -/
def isBelow (dir p : Path) : Bool :=
  let start := (below dir).toList
  p.toList.take start.length == start

end Path

/-- A form in which paths are given: what they are cut and compared by, and the text that they are
stored and shown under. -/
class PathForm (P : Type) where
  spelling : P → Path
  text : P → Path
  ofText : Path → P
  text_of_text : ∀ t, text (ofText t) = t

instance : PathForm Path := ⟨fun p => p, fun p => p, fun t => t, fun _ => rfl⟩

@[simp] theorem PathForm.spelling_path (p : Path) : spelling p = p := rfl

@[simp] theorem PathForm.text_path (p : Path) : text p = p := rfl

end CodeIndex
