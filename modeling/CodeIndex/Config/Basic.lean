import CodeIndex.Search.Pipeline
import CodeIndex.Store.Update

namespace CodeIndex

inductive ProviderKind where
  | ollama
  | openAi
deriving DecidableEq, Repr

namespace ProviderKind

def name : ProviderKind → String
  | ollama => "ollama"
  | openAi => "openai"

def all : List ProviderKind := [.ollama, .openAi]

def ofName? (name : String) : Option ProviderKind := all.find? (·.name == name)

end ProviderKind

structure EmbeddingsConfig where
  provider : ProviderKind := .ollama
  baseUrl : String := "http://localhost:11434"
  model : String := "nomic-embed-text"
  apiKey : Option String := none
  batchSize : Nat := 32
  maxConcurrency : Nat := 4
deriving DecidableEq, Repr

structure IndexerConfig where
  maxFileSize : Nat := 1024 * 1024
  segmentLines : Nat := 20
  /-- How long changes on disk are gathered, in milliseconds. -/
  debounce : Nat := 500
deriving DecidableEq, Repr

structure Config where
  storePath : String := ".ferret/index.db"
  embeddings : EmbeddingsConfig := {}
  limits : Limits := ⟨600, 1200, 100⟩
  indexer : IndexerConfig := {}
  sizes : SearchSizes := ⟨25, 10⟩
deriving DecidableEq, Repr

namespace Config

/-- The first requirement that is not met. -/
def complaint? (c : Config) : Option String :=
  if c.embeddings.batchSize = 0 then some "embeddings.batch_size must be positive"
  else if c.embeddings.maxConcurrency = 0 then
    some "embeddings.max_concurrency must be positive"
  else if c.limits.target = 0 ∨ c.limits.max < c.limits.target then
    some "chunker.target_size must be in 1..=max_size"
  else if c.limits.target < c.limits.min then
    some "chunker.min_size must not exceed target_size"
  else if c.indexer.segmentLines = 0 then some "indexer.fts_segment_lines must be positive"
  else if c.indexer.maxFileSize = 0 then some "indexer.max_file_size must be positive"
  else if c.sizes.final = 0 then some "retrieval.n_final must be positive"
  else if c.sizes.retrieved < c.sizes.final then
    some "retrieval.n_final must not exceed retrieval.n_retrieve"
  else none

def validate (c : Config) : Except IndexError Unit :=
  match c.complaint? with
  | some complaint => .error (.configuration complaint)
  | none => .ok ()

def settings (c : Config) (parser : Parser) : Settings where
  parser
  limits := c.limits
  segmentLines := c.indexer.segmentLines
  batchSize := c.embeddings.batchSize
  concurrency := c.embeddings.maxConcurrency
  maxFileSize := c.indexer.maxFileSize

end Config
end CodeIndex
