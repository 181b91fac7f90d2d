import CodeIndex.Change
import CodeIndex.Store.Rows
import CodeIndex.Store.Table

namespace CodeIndex

structure StoredText where
  id : Nat
  path : Path
  content : Text
deriving DecidableEq, Repr

/-- A window of the full-text artifact is kept in two parts, its text and a segment that points to
the text by its number. -/
structure Segment where
  index : Nat
  textId : Nat
  firstLine : Nat
  lastLine : Nat
deriving DecidableEq, Repr

/-- A catalog with the hash each file was last indexed with, and the tables of the four artifacts.
-/
structure Store where
  catalog : Table String
  facts : Table Fact
  texts : List StoredText
  segments : Table Segment
  chunks : Table ChunkRow
  embeddings : Table EmbeddingRow

namespace Store

def empty : Store := ⟨[], [], [], [], [], []⟩

def hash? (slot : Slot) (st : Store) : Option String := (st.catalog.rows slot).head?

def records (key : String) (st : Store) : Records :=
  (st.catalog.underTag key).map fun r => (r.1.path, r.2)

def record (slot : Slot) (hash : String) (st : Store) : Store :=
  { st with catalog := st.catalog.put slot [hash] }

def forget (slot : Slot) (st : Store) : Store := { st with catalog := st.catalog.without slot }

def forgetTag (key : String) (st : Store) : Store :=
  { st with catalog := st.catalog.withoutTag key }

def textAt? (id : Nat) (st : Store) : Option StoredText := st.texts.find? (·.id = id)

def freshId (texts : List StoredText) : Nat := (texts.map StoredText.id).foldl max 0 + 1

def addWindow (slot : Slot) (st : Store) (w : Window) : Store :=
  let id := freshId st.texts
  { st with
    texts := st.texts ++ [⟨id, slot.path, w.content⟩]
    segments := st.segments ++ [(slot, ⟨w.index, id, w.firstLine, w.lastLine⟩)] }

/-- Drops the texts that some segments point to. -/
def withoutTexts (segments : List Segment) (texts : List StoredText) : List StoredText :=
  texts.filter fun t => !segments.any (·.textId = t.id)

def dropWindows (slot : Slot) (st : Store) : Store :=
  { st with
    texts := withoutTexts (st.segments.rows slot) st.texts
    segments := st.segments.without slot }

def putWindows (slot : Slot) (ws : List Window) (st : Store) : Store :=
  ws.foldl (addWindow slot) (st.dropWindows slot)

def clearWindows (key : String) (st : Store) : Store :=
  { st with
    texts := withoutTexts ((st.segments.underTag key).map (·.2)) st.texts
    segments := st.segments.withoutTag key }

/-- The windows of a slot; one whose text is missing is left out. -/
def windows (slot : Slot) (st : Store) : List Window :=
  (st.segments.rows slot).filterMap fun s =>
    (st.textAt? s.textId).map fun t => ⟨s.index, s.firstLine, s.lastLine, t.content⟩

def remove (kind : ArtifactKind) (slot : Slot) (st : Store) : Store :=
  match kind with
  | .metadata => { st with facts := st.facts.without slot }
  | .fullText => st.dropWindows slot
  | .chunk => { st with chunks := st.chunks.without slot }
  | .embeddings => { st with embeddings := st.embeddings.without slot }

/-- Drops the rows that an artifact holds under a key. -/
def clear (kind : ArtifactKind) (key : String) (st : Store) : Store :=
  match kind with
  | .metadata => { st with facts := st.facts.withoutTag key }
  | .fullText => st.clearWindows key
  | .chunk => { st with chunks := st.chunks.withoutTag key }
  | .embeddings => { st with embeddings := st.embeddings.withoutTag key }

/-- How many rows an artifact holds under a key. -/
def countUnder (kind : ArtifactKind) (key : String) (st : Store) : Nat :=
  match kind with
  | .metadata => (st.facts.underTag key).length
  | .fullText => (st.segments.underTag key).length
  | .chunk => (st.chunks.underTag key).length
  | .embeddings => (st.embeddings.underTag key).length

end Store
end CodeIndex
