import CodeIndex.Disk.Basic
import CodeIndex.Disk.IgnoreRules
import CodeIndex.Error
import CodeIndex.Language

namespace CodeIndex.Disk

/-- The rules of one directory, and how the present directory is reached from it. Its own rules hold
always, and those of version control within a repository; the rules of an outer repository do not
reach into an inner one. -/
structure Level where
  below : List String
  isRepository : Bool
  own : List IgnoreRule
  versioned : List IgnoreRule
  excluded : List IgnoreRule

namespace Level

def join (dir : Path) (name : String) : Path := Path.below dir ++ name

/-- The file that names lead to from a directory, given by the names that lead to it. -/
def fileIn (disk : Disk) (dir names : List String) : Except Fault Bytes :=
  disk.read (String.intercalate "/" (dir ++ names))

def rulesIn (disk : Disk) (dir names : List String) : List IgnoreRule :=
  match fileIn disk dir names with
  | .ok bytes => IgnoreRule.ofBytes bytes
  | .error _ => []

def marker : String := ".git"

/-- What stands in the place that marks a repository, if anything does. -/
def markerOf (disk : Disk) (dir : List String) : Option Disk :=
  match disk.find (String.intercalate "/" (dir ++ [marker])) with
  | .ok place => some place.node
  | .error _ => none

def ofDirectory (disk : Disk) (dir below : List String) : Level where
  below
  isRepository := (markerOf disk dir).isSome
  own := rulesIn disk dir [".ignore"]
  versioned := rulesIn disk dir [".gitignore"]
  excluded :=
    match markerOf disk dir with
    | some (.file _) => []
    | _ => rulesIn disk dir [marker, "info", "exclude"]

/-- The levels above a directory, the nearest first. -/
def above (disk : Disk) (dir : List String) : List Level :=
  ((List.range dir.length).map fun n => ofDirectory disk (dir.take n) (dir.drop n)).reverse

def enter (name : String) (l : Level) : Level := { l with below := l.below ++ [name] }

/-- The path of an entry of the present directory, as the rules of a level see it. -/
def pathOf (l : Level) (name : String) : Bytes :=
  Utf8.encode (String.intercalate "/" (l.below ++ [name])).toList

end Level

/-- What the levels passed so far make of an entry, and whether one of them was a repository. -/
structure Verdict where
  own : Option Fate
  versioned : Option Fate
  excluded : Option Fate
  inRepository : Bool

namespace Verdict

def none : Verdict := ⟨.none, .none, .none, false⟩

/-- Rules of version control count in a repository only, and only up to it. -/
def passLevel (anyRepository : Bool) (name : String) (isDirectory : Bool) (v : Verdict)
    (l : Level) : Verdict :=
  let ask (rules : List IgnoreRule) := IgnoreRule.decide? rules (l.pathOf name) isDirectory
  let open? := anyRepository && !v.inRepository
  { own := v.own.or (ask l.own)
    versioned := v.versioned.or (if open? then ask l.versioned else .none)
    excluded := v.excluded.or (if open? then ask l.excluded else .none)
    inRepository := v.inRepository || l.isRepository }

def fate (v : Verdict) : Option Fate := v.own.or (v.versioned.or v.excluded)

end Verdict

def isHidden (name : String) : Bool := name.toList.head? == some '.'

/-- Whether an entry of the present directory is passed over. -/
def isSkipped (levels : List Level) (name : String) (isDirectory : Bool) : Bool :=
  let anyRepository := levels.any Level.isRepository
  match (levels.foldl (Verdict.passLevel anyRepository name isDirectory) Verdict.none).fate with
  | some .ignored => true
  | some .kept => false
  | none => isHidden name

mutual

/-- The files below one entry of a directory. -/
def filesAt (disk : Disk) (dir : List String) (path : Path) (levels : List Level)
    (name : String) : Disk → List Path
  | .link _ => []
  | .file _ =>
    let p := Level.join path name
    if isSkipped levels name false || !Language.indexable p then [] else [p]
  | .directory es =>
    if isSkipped levels name true then []
    else
      let dir := dir ++ [name]
      filesBelow disk dir (Level.join path name)
        (Level.ofDirectory disk dir [] :: levels.map (Level.enter name)) es

/-- The files below a directory, by its entries. -/
def filesBelow (disk : Disk) (dir : List String) (path : Path) (levels : List Level) :
    List (String × Disk) → List Path
  | [] => []
  | (name, d) :: es =>
    filesAt disk dir path levels name d ++ filesBelow disk dir path levels es

end

/-- The files that are to be indexed below a directory, in path order: all but those that are hidden
or ignored. Links are not followed. -/
def list (disk : Disk) (path : Path) : Except IndexError (List Path) :=
  match disk.find path with
  | .error f => .error (.enumeration path f.text)
  | .ok place =>
    if place.node.isDirectory then
      let levels := Level.ofDirectory disk place.names [] :: Level.above disk place.names
      .ok (Path.sort (filesBelow disk place.names path levels place.node.entries))
    else .error (.enumeration path "not a directory")

def contents (disk : Disk) (path : Path) : Except IndexError Bytes :=
  match disk.read path with
  | .ok bytes => .ok bytes
  | .error f => .error (.io (f = .missing) f.text)

def stripPrefix? (start t : Text) : Option Text :=
  if start.isPrefixOf t then some (t.drop start.length) else none

/-- The branch that the head of a repository names: a reference without its usual start, or else
the commit itself. -/
def branchOfHead (head : Text) : String :=
  let head := head.trim
  match stripPrefix? "ref: ".toList head with
  | some ref => String.ofList ((stripPrefix? "refs/heads/".toList ref).getD ref)
  | none => if head.isEmpty then noBranch else String.ofList head

def pieceOf : Path.Component → Text
  | .root => []
  | .here => ['.']
  | .up => ['.', '.']
  | .name t => t.toList

def headPieces : List Text := [".git".toList, "HEAD".toList]

/-- The branch that a head directly in a directory names; `none` if there is no head, and no branch
if it cannot be read. The components come from the last one on. -/
def branchAt? (disk : Disk) (components : List Path.Component) : Option String :=
  match disk.walkTo linkLimit ⟨[], disk⟩ (components.reverse.map pieceOf ++ headPieces) with
  | .ok ⟨_, .file bytes⟩ => some (((Utf8.decode? bytes).map branchOfHead).getD noBranch)
  | .error .missing => none
  | _ => some noBranch

/-- Looks for a head from a directory upwards. -/
def branchFrom (disk : Disk) : List Path.Component → String
  | [] => (branchAt? disk []).getD noBranch
  | c :: cs => (branchAt? disk (c :: cs)).getD (branchFrom disk cs)

def branch (disk : Disk) (path : Path) : String :=
  branchFrom disk (Path.components path).reverse

/-- The tags of one artifact, one for each directory of a workspace. -/
def tags (disk : Disk) (dirs : List Path) (artifact : String) : List Tag :=
  dirs.map fun dir => ⟨disk.branch dir, dir, artifact⟩

end CodeIndex.Disk
