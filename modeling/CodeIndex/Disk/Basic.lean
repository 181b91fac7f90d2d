import CodeIndex.Path
import CodeIndex.Text.Utf8

namespace CodeIndex

/-- Files on disk. Paths are read from the top of the tree, and links are followed up to a limit. -/
inductive Disk where
  | file (bytes : Bytes)
  | link (target : Text)
  | directory (entries : List (String × Disk))

namespace Disk

inductive Fault where
  | missing
  | notDirectory
  | isDirectory
  | tooManyLinks
deriving DecidableEq, Repr

def Fault.text : Fault → String
  | missing => "No such file or directory (os error 2)"
  | notDirectory => "Not a directory (os error 20)"
  | isDirectory => "Is a directory (os error 21)"
  | tooManyLinks => "Too many levels of symbolic links (os error 40)"

def empty : Disk := .directory []

def entries : Disk → List (String × Disk)
  | .directory es => es
  | _ => []

def isDirectory : Disk → Bool
  | .directory _ => true
  | _ => false

def child? (name : String) (d : Disk) : Option Disk := d.entries.lookup name

def setEntry (name : String) (d : Disk) : List (String × Disk) → List (String × Disk)
  | [] => [(name, d)]
  | e :: es => if e.1 = name then (name, d) :: es else e :: setEntry name d es

/-- Changes what stands at a path, making the directories on the way to it. -/
def change (f : Option Disk → Disk) : List String → Option Disk → Disk
  | [], d => f d
  | name :: names, d =>
    let dir := d.getD empty
    .directory (setEntry name (change f names (dir.child? name)) dir.entries)

/-- The names in a path that is written out of a tree. -/
def namesOf (p : Path) : List String :=
  (Text.splitAt (· == '/') p.toList).filterMap fun t =>
    if t.isEmpty || t == ['.'] then none else some (String.ofList t)

def put (d : Disk) (p : Path) (disk : Disk) : Disk :=
  change (fun _ => d) (namesOf p) (some disk)

def makeDirectory (p : Path) (disk : Disk) : Disk :=
  change (fun d => .directory ((d.getD empty).entries)) (namesOf p) (some disk)

/-- What stands at a path of names, no links followed. -/
def at? : List String → Disk → Option Disk
  | [], d => some d
  | name :: names, d => (d.child? name).bind (at? names)

/-- A place in the tree: the names that lead to it, and what stands there. -/
structure Place where
  names : List String
  node : Disk

/-- The most links that are followed on the way to a place. -/
def linkLimit : Nat := 40

def piecesOf (t : Text) : List Text := Text.splitAt (· == '/') t

/-- Where the pieces of a path lead from a directory, at most so many links being followed. -/
def walkTo (disk : Disk) (links : Nat) (here : Place) : List Text → Except Fault Place
  | [] => .ok here
  | piece :: rest =>
    if !here.node.isDirectory then .error .notDirectory
    else if piece = [] ∨ piece = ['.'] then walkTo disk links here rest
    else if piece = ['.', '.'] then
      let names := here.names.dropLast
      walkTo disk links ⟨names, (disk.at? names).getD empty⟩ rest
    else
      let name := String.ofList piece
      match here.node.child? name with
      | none => .error .missing
      | some (.link target) =>
        match links with
        | 0 => .error .tooManyLinks
        | links + 1 =>
          let start := if target.head? = some '/' then ⟨[], disk⟩ else here
          walkTo disk links start (piecesOf target ++ rest)
      | some node => walkTo disk links ⟨here.names ++ [name], node⟩ rest
termination_by pieces => (links, pieces.length)

def find (disk : Disk) (p : Path) : Except Fault Place :=
  walkTo disk linkLimit ⟨[], disk⟩ (piecesOf p.toList)

/-- The bytes of the file that a path leads to. -/
def read (disk : Disk) (p : Path) : Except Fault Bytes :=
  match disk.find p with
  | .error f => .error f
  | .ok place =>
    match place.node with
    | .file bytes => .ok bytes
    | _ => .error .isDirectory

end Disk
end CodeIndex
