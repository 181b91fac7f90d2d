import CodeIndex.Config.Basic
import CodeIndex.Json.Record

namespace CodeIndex.Config

/-- The format of the document. TOML has no value for nothing, and does not mind elements after the
last field of a section. -/
inductive Format where
  | json
  | toml
deriving DecidableEq, Repr

namespace Format

def section? (f : Format) (names : List String) (j : Json) : Option (List (Option Json)) :=
  match f, j with
  | .toml, .array items => (Json.array (items.take names.length)).record? names 0
  | _, j => j.record? names 0

/-- A name, or an object with the name as its only field and nothing in it. -/
def choice? (f : Format) : Json → Option String
  | .string t => t.map String.ofList
  | .object [(name, payload)] =>
    match f, payload with
    | .json, .null => some name
    | .toml, .object [] => some name
    | .toml, .array [] => some name
    | _, _ => none
  | _ => none

end Format

/-- A field with its default; a field that is there must be readable. -/
def orDefault (default : α) (read : Json → Option α) : Option Json → Option α
  | none => some default
  | some j => read j

def readStorage (f : Format) (j : Json) : Option String := do
  match ← f.section? ["sqlite_path"] j with
  | [path] => orDefault ({} : Config).storePath Json.string? path
  | _ => none

def readEmbeddings (f : Format) (j : Json) : Option EmbeddingsConfig := do
  let d : EmbeddingsConfig := {}
  match ← f.section?
    ["provider", "base_url", "model", "api_key", "batch_size", "max_concurrency"] j with
  | [provider, baseUrl, model, apiKey, batchSize, maxConcurrency] =>
    return {
      provider := ← orDefault d.provider (fun j => (f.choice? j).bind ProviderKind.ofName?) provider
      baseUrl := ← orDefault d.baseUrl Json.string? baseUrl
      model := ← orDefault d.model Json.string? model
      apiKey := ← Json.orNothing? Json.string? apiKey
      batchSize := ← orDefault d.batchSize Json.word? batchSize
      maxConcurrency := ← orDefault d.maxConcurrency Json.word? maxConcurrency }
  | _ => none

def readLimits (f : Format) (j : Json) : Option Limits := do
  let d := ({} : Config).limits
  match ← f.section? ["target_size", "max_size", "min_size"] j with
  | [target, max, min] =>
    return ⟨← orDefault d.target Json.word? target, ← orDefault d.max Json.word? max,
      ← orDefault d.min Json.word? min⟩
  | _ => none

def readIndexer (f : Format) (j : Json) : Option IndexerConfig := do
  let d : IndexerConfig := {}
  match ← f.section? ["max_file_size", "fts_segment_lines", "watch_debounce_ms"] j with
  | [maxFileSize, segmentLines, debounce] =>
    return ⟨← orDefault d.maxFileSize Json.word? maxFileSize,
      ← orDefault d.segmentLines Json.word? segmentLines,
      ← orDefault d.debounce Json.word? debounce⟩
  | _ => none

def readSizes (f : Format) (j : Json) : Option SearchSizes := do
  let d := ({} : Config).sizes
  match ← f.section? ["n_retrieve", "n_final"] j with
  | [retrieved, final] =>
    return ⟨← orDefault d.retrieved Json.word? retrieved, ← orDefault d.final Json.word? final⟩
  | _ => none

/-- Every field may be missing and has a default; fields that are not known do not matter. A section
is an object, or an array of its fields in order. -/
def decode? (f : Format) (j : Json) : Option Config := do
  let d : Config := {}
  match ← f.section? ["storage", "embeddings", "chunker", "indexer", "retrieval"] j with
  | [storage, embeddings, chunker, indexer, retrieval] =>
    return {
      storePath := ← orDefault d.storePath (readStorage f) storage
      embeddings := ← orDefault d.embeddings (readEmbeddings f) embeddings
      limits := ← orDefault d.limits (readLimits f) chunker
      indexer := ← orDefault d.indexer (readIndexer f) indexer
      sizes := ← orDefault d.sizes (readSizes f) retrieval }
  | _ => none

end CodeIndex.Config
