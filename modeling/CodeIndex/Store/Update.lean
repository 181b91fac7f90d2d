import CodeIndex.Store.Basic

namespace CodeIndex

/-- How files are cut, embedded and bounded. -/
structure Settings where
  parser : Parser
  limits : Limits
  segmentLines : Nat
  batchSize : Nat
  concurrency : Nat
  maxFileSize : Nat

/-- How many rows an update wrote, and how many chunks of them could not be embedded. -/
structure Outcome where
  records : Nat
  failed : Nat
deriving DecidableEq, Repr

def Outcome.nothing : Outcome := ⟨0, 0⟩

def Settings.chunks (s : Settings) (e : FileEntry) (content : Text) :
    Except IndexError (List Chunk) :=
  chunkFile s.parser content e.language s.limits

/-- The content of a file, which an artifact cannot do without. -/
def FileEntry.require (e : FileEntry) (kind : ArtifactKind) : Except IndexError Text :=
  match e.content with
  | some content => .ok content
  | none => .error (.artifact kind.id ("no content for " ++ e.path))

namespace Store

/-- The rows of a file are written anew, so that nothing is left of what it was stored as before. -/
def write (s : Settings) (kind : ArtifactKind) (slot : Slot) (e : FileEntry) (content : Text)
    (embedded : List Embedded) (st : Store) : Except IndexError (Store × Outcome) :=
  match kind with
  | .metadata =>
    let rows := Fact.ofContent e content
    .ok ({ st with facts := st.facts.put slot rows }, ⟨rows.length, 0⟩)
  | .fullText =>
    let windows := Window.ofContent s.segmentLines content
    .ok (st.putWindows slot windows, ⟨windows.length, 0⟩)
  | .chunk =>
    match s.chunks e content with
    | .error e => .error e
    | .ok cs =>
      .ok ({ st with chunks := st.chunks.put slot (ChunkRow.ofChunks cs) }, ⟨cs.length, 0⟩)
  | .embeddings =>
    let rows := EmbeddingRow.ofAll embedded
    .ok ({ st with embeddings := st.embeddings.put slot rows },
      ⟨rows.length, rows.countP EmbeddingRow.failed⟩)

/-- Brings the rows of a file under a tag up to date. The embeddings are those made for the
entry beforehand. -/
def update (s : Settings) (kind : ArtifactKind) (tag : Tag) (e : FileEntry) (change : Change)
    (embedded : List Embedded) (st : Store) : Except IndexError (Store × Outcome) :=
  let slot : Slot := ⟨tag.key, e.path⟩
  match change with
  | .unchanged => .ok (st, .nothing)
  | .removed => .ok (st.remove kind slot, .nothing)
  | .added | .updated =>
    match e.require kind with
    | .error e => .error e
    | .ok content => st.write s kind slot e content embedded

/-- Enters a file that went through all artifacts into the catalog, or takes it out. -/
def commit (scope : Scope) (e : FileEntry) (change : Change) (st : Store) : Store :=
  ArtifactKind.all.foldl
    (fun st kind =>
      let slot : Slot := ⟨(scope.tagFor kind).key, e.path⟩
      if change = .removed then st.forget slot else st.record slot e.hash) st

end Store
end CodeIndex
