import CodeIndex.Binary32
import CodeIndex.Chunk.File
import CodeIndex.FileEntry
import CodeIndex.Grouping

namespace CodeIndex

structure Fact where
  name : String
  value : String
deriving DecidableEq, Repr

def Fact.ofContent (e : FileEntry) (content : Text) : List Fact :=
  [⟨"language", (e.language.map Language.id).getD "unknown"⟩,
   ⟨"extension", String.ofList ((Path.extension? e.path).getD [])⟩,
   ⟨"size_bytes", toString e.size⟩,
   ⟨"line_count", toString content.lineCount⟩,
   ⟨"content_hash", e.hash⟩]

/-- Neighbouring lines of a file. Lines count from one and both are included. -/
structure Window where
  index : Nat
  firstLine : Nat
  lastLine : Nat
  content : Text
deriving DecidableEq, Repr

namespace Window

def ofGroup (size index : Nat) (group : List Text) : Window where
  index
  firstLine := index * size + 1
  lastLine := index * size + group.length
  content := Text.joinLines group

/-- The windows of `size` lines that are not blank. -/
def ofContent (size : Nat) (content : Text) : List Window :=
  let size := max size 1
  ((inGroups size content.lines).zipIdx.map fun (group, i) => ofGroup size i group).filter
    fun w => !w.content.allBlank

end Window

structure ChunkRow where
  index : Nat
  hash : String
  firstLine : Nat
  lastLine : Nat
  nodeType : String
  entity : Option Text
  content : Text
deriving DecidableEq, Repr

namespace ChunkRow

def ofChunk (index : Nat) (c : Chunk) : ChunkRow :=
  ⟨index, c.hash, c.firstLine, c.lastLine, c.nodeType, c.entity, c.code⟩

def ofChunks (cs : List Chunk) : List ChunkRow := cs.zipIdx.map fun (c, i) => ofChunk i c

end ChunkRow

/-- A chunk with its vector, unless it could not be embedded. -/
structure Embedded where
  firstLine : Nat
  lastLine : Nat
  content : Text
  vector : Option Embedding
deriving DecidableEq

def Embedded.ofChunk (c : Chunk) (vector : Option Embedding) : Embedded :=
  ⟨c.firstLine, c.lastLine, c.code, vector⟩

/-- A stored vector is a string of bytes. -/
structure EmbeddingRow where
  index : Nat
  firstLine : Nat
  lastLine : Nat
  content : Text
  vector : Option Bytes
deriving DecidableEq

namespace EmbeddingRow

def ofEmbedded (index : Nat) (e : Embedded) : EmbeddingRow :=
  ⟨index, e.firstLine, e.lastLine, e.content, e.vector.map Embedding.toBytes⟩

def ofAll (es : List Embedded) : List EmbeddingRow := es.zipIdx.map fun (e, i) => ofEmbedded i e

def failed (r : EmbeddingRow) : Bool := r.vector.isNone

def status (r : EmbeddingRow) : String := if r.failed then "failed" else "ok"

end EmbeddingRow
end CodeIndex
