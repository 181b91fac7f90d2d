import CodeIndex.Refresh.Host
import CodeIndex.Store.Update

namespace CodeIndex

/-- One entry for each text of a batch of `size`. -/
def vectorsOf (size : Nat) : Except ProviderError (List Embedding) → List (Option Embedding)
  | .ok vectors =>
    if vectors.length = size then vectors.map some else List.replicate size none
  | .error _ => List.replicate size none

/-- Sends batches in order and collects an entry for each of their texts. Behind a batch that is
never answered only those are sent that are in flight with it, and there is no result. -/
def sendBatches (h : Host σ P) (concurrency : Nat) :
    List (List Text) → StateM σ (Option (List (Option Embedding)))
  | [] => return some []
  | batch :: rest => do
    match ← h.embed batch with
    | none =>
      (rest.take (concurrency - 1)).forM fun other => discard (h.embed other)
      return none
    | some reply =>
      return (← sendBatches h concurrency rest).map (vectorsOf batch.length reply ++ ·)

/-- The chunks of a file with their vectors; `none` while a batch is never answered. -/
def embedChunks (h : Host σ P) (s : Settings) (e : FileEntry) (cs : List Chunk) :
    StateM σ (Option (List Embedded)) := do
  let texts := cs.map (·.embeddingText e.path e.language)
  return (← sendBatches h (max s.concurrency 1) (inGroups s.batchSize texts)).map
    (List.zipWith Embedded.ofChunk cs ·)

/-- Makes the embeddings of a file that is to be written, before any of it is written. -/
def prepare (h : Host σ P) (s : Settings) (e : FileEntry) (change : Change) :
    StateM σ (Except IndexError (Option (List Embedded))) := do
  match change with
  | .added | .updated =>
    match (e.require .embeddings).bind (s.chunks e) with
    | .error err => return .error err
    | .ok cs => return .ok (← embedChunks h s e cs)
  | .removed | .unchanged => return .ok (some [])

end CodeIndex
