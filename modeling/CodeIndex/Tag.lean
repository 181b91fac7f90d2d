import CodeIndex.Path

namespace CodeIndex

/-- The four forms a file is indexed into, in the order they are brought up to date. -/
inductive ArtifactKind where
  | metadata
  | fullText
  | chunk
  | embeddings
deriving DecidableEq, Repr

namespace ArtifactKind

def all : List ArtifactKind := [.metadata, .fullText, .chunk, .embeddings]

def id : ArtifactKind → String
  | metadata => "metadata"
  | fullText => "fts"
  | chunk => "chunks"
  | embeddings => "embeddings"

def name : ArtifactKind → String
  | metadata => "metadata"
  | fullText => "full_text"
  | chunk => "chunk"
  | embeddings => "embeddings"

def ofId? (id : String) : Option ArtifactKind := all.find? (·.id == id)

def ofName? (name : String) : Option ArtifactKind := all.find? (·.name == name)

theorem ofId?_id (k : ArtifactKind) : ofId? k.id = some k := by cases k <;> decide

end ArtifactKind

/-- Every stored row belongs to a tag. Rows are filed under the key of their tag, its three parts as
written. -/
structure Tag where
  branch : String
  directory : Path
  artifact : String
deriving DecidableEq, Repr

/-- A branch and a directory, before they are bound to an artifact. -/
structure Scope where
  branch : String
  directory : Path
deriving DecidableEq, Repr

/-- The branch of a directory outside every checkout. -/
def noBranch : String := "NONE"

namespace Tag

def key (t : Tag) : String := t.directory ++ "::" ++ t.branch ++ "::" ++ t.artifact

def withArtifact (t : Tag) (artifact : String) : Tag := { t with artifact }

/-- By branch, then directory by its components, then artifact. -/
def compare (s t : Tag) : Ordering :=
  (Ord.compare s.branch t.branch).then
    ((Path.compare s.directory t.directory).then (Ord.compare s.artifact t.artifact))

/-- Puts a tag into an ascending list, unless an equal one is there. -/
def insert (t : Tag) : List Tag → List Tag
  | [] => [t]
  | s :: ts =>
    match compare t s with
    | .lt => t :: s :: ts
    | .eq => s :: ts
    | .gt => s :: insert t ts

/-- The tags in ascending order, the first of equal ones kept. -/
def collect (ts : List Tag) : List Tag := ts.foldl (fun set t => insert t set) []

/-- Keeps the last of each run of equal neighbours. -/
def lastOfEqual : List Tag → List Tag
  | s :: t :: ts =>
    if compare s t = .eq then lastOfEqual (t :: ts) else s :: lastOfEqual (t :: ts)
  | ts => ts

/-- The tags bound to one artifact, in ascending order, the last of equal ones kept. -/
def boundTo (kind : ArtifactKind) (ts : List Tag) : List Tag :=
  lastOfEqual ((ts.map (·.withArtifact kind.id)).mergeSort fun s t => (compare s t).isLE)

end Tag

def Scope.tag (s : Scope) (artifact : String) : Tag := ⟨s.branch, s.directory, artifact⟩

/-- The tag keys of a scope, one for each artifact. -/
def Scope.tagFor (s : Scope) (kind : ArtifactKind) : Tag := s.tag kind.id

end CodeIndex
