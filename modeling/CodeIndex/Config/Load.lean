import CodeIndex.Config.Decode
import CodeIndex.Toml.Reader

namespace CodeIndex.Config

/-- What is found where the file should be. -/
inductive Source where
  | absent
  | directory
  | file (bytes : Bytes)

inductive LoadError where
  | unreadable
  | malformed
  | invalid (cause : IndexError)
deriving DecidableEq, Repr

def LoadError.message : LoadError → String
  | unreadable => "failed to read config file"
  | malformed => "failed to parse config file"
  | invalid cause => "invalid configuration: " ++ cause.text

def ofSource : Source → Except LoadError Config
  | .absent => .ok {}
  | .directory => .error .unreadable
  | .file bytes =>
    match Utf8.decode? bytes with
    | none => .error .unreadable
    | some t =>
      match (Toml.parse? t).bind (decode? .toml) with
      | none => .error .malformed
      | some c => .ok c

abbrev Environment := List (String × String)

/-- Decimal digits, perhaps behind a plus, of a number below a bound. -/
def numberBelow? (bound : Nat) (t : Text) : Option Nat :=
  let digits := match t with
    | '+' :: t => t
    | t => t
  let n := digits.foldl (fun n c => n * 10 + (c.toNat - 48)) 0
  if !digits.isEmpty && digits.all Char.isDigit && n < bound then some n else none

def word? (s : String) : Option Nat := numberBelow? UInt64.size s.toList

/-- The usable value of a variable, or else what was set before. -/
def usable (env : Environment) (name : String) (read : String → Option α) (before : α) : α :=
  ((env.lookup name).bind read).getD before

def override (env : Environment) (c : Config) : Config :=
  { c with
    storePath := usable env "FERRET_SQLITE_PATH" some c.storePath
    embeddings := {
      provider :=
        usable env "FERRET_EMBEDDINGS_PROVIDER" ProviderKind.ofName? c.embeddings.provider
      baseUrl := usable env "FERRET_EMBEDDINGS_BASE_URL" some c.embeddings.baseUrl
      model := usable env "FERRET_EMBEDDINGS_MODEL" some c.embeddings.model
      apiKey := (env.lookup "FERRET_EMBEDDINGS_API_KEY").or c.embeddings.apiKey
      batchSize := usable env "FERRET_EMBEDDINGS_BATCH_SIZE" word? c.embeddings.batchSize
      maxConcurrency :=
        usable env "FERRET_EMBEDDINGS_MAX_CONCURRENCY" word? c.embeddings.maxConcurrency }
    indexer := { c.indexer with
      maxFileSize := usable env "FERRET_MAX_FILE_SIZE" word? c.indexer.maxFileSize }
    sizes := {
      retrieved := usable env "FERRET_RETRIEVAL_N_RETRIEVE" word? c.sizes.retrieved
      final := usable env "FERRET_RETRIEVAL_N_FINAL" word? c.sizes.final } }

/-- A configuration comes from a file if there is one, then from the environment, whose unusable
values are passed over. -/
def load (source : Source) (env : Environment) : Except LoadError Config :=
  match ofSource source with
  | .error e => .error e
  | .ok c =>
    let c := override env c
    match c.validate with
    | .error e => .error (.invalid e)
    | .ok () => .ok c

end CodeIndex.Config
