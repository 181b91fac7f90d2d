import CodeIndex.Tag

namespace CodeIndex

/-- What became of a file since it was last recorded. Each artifact tag keeps a record of its own; a
file is unchanged only if all of them hold its present hash. -/
inductive Change where
  | added
  | updated
  | removed
  | unchanged
deriving DecidableEq, Repr

namespace Change

def name : Change → String
  | added => "added"
  | updated => "updated"
  | removed => "removed"
  | unchanged => "unchanged"

def all : List Change := [.added, .updated, .removed, .unchanged]

def ofName? (name : String) : Option Change := all.find? (·.name == name)

/-- Compares the present hash of a file with the records under its tags. -/
def classify (current : String) (recorded : List (Option String)) : Change :=
  if recorded.all Option.isNone then added
  else if recorded.all (· == some current) then unchanged
  else updated

end Change

/-- A file that needs work. A removed file carries the hash it was last recorded with. -/
structure FileChange (P : Type := Path) where
  path : P
  change : Change
  hash : String
deriving DecidableEq, Repr

/-- The paths recorded under a tag, each with its hash. -/
abbrev Records := List (Path × String)

namespace Records

/-- The hash recorded for a path as written. -/
def hash? (rs : Records) (p : Path) : Option String := rs.lookup p

end Records

namespace FileChange

section
variable {P : Type} [PathForm P]

/-- The listed files whose hash is known and differs from a record. -/
def listedChanges (catalogs : List Records) (listed : List P) (hashOf : P → Option String) :
    List (FileChange P) :=
  listed.filterMap fun p =>
    (hashOf p).bind fun current =>
      match Change.classify current (catalogs.map (·.hash? (PathForm.text p))) with
      | .unchanged => none
      | change => some ⟨p, change, current⟩

/-- Adds the records of paths that no earlier record names. -/
def addRecords (seen : Records) (rs : Records) : Records :=
  rs.foldl (fun seen r => if seen.any (·.1 == r.1) then seen else seen ++ [r]) seen

/-- The records of texts that no listed path has, the first of each. -/
def goneRecords (catalogs : List Records) (listed : List P) : Records :=
  catalogs.foldl
    (fun seen rs => addRecords seen (rs.filter (!(listed.map PathForm.text).contains ·.1))) []

/-- The recorded paths that are not listed, each with its first record, ascending as text. -/
def removedChanges (catalogs : List Records) (listed : List P) : List (FileChange P) :=
  ((goneRecords catalogs listed).mergeSort fun a b => (compare a.1 b.1).isLE).map
    fun r => ⟨PathForm.ofText r.1, .removed, r.2⟩

/-- Whether a change stands before another one, by the components of its path. -/
def precedes (a b : FileChange P) : Bool :=
  (Path.compare (PathForm.spelling a.path) (PathForm.spelling b.path)).isLE

/-- The work that brings the records in line with the listed files, in path order. -/
def plan (catalogs : List Records) (listed : List P) (hashOf : P → Option String) :
    List (FileChange P) :=
  (listedChanges catalogs listed hashOf ++ removedChanges catalogs listed).mergeSort precedes

end
end FileChange
end CodeIndex
