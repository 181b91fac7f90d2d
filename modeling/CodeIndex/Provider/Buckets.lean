import CodeIndex.Binary32
import CodeIndex.Error
import CodeIndex.Search.Query
import CodeIndex.Text.Part

namespace CodeIndex

/-- An embedding provider that needs no server. It counts the words of a text in hash buckets and
scales the counts to length one, so that texts with words in common get similar vectors. It can be
told to fail on a marker, and it counts the batches and texts it is given. -/
structure Buckets where
  dimensions : Nat
  failOn : Option Text
  calls : Nat
  texts : Nat

namespace Buckets

/-- The 64-bit FNV-1a hash. -/
def wordHash (bs : Bytes) : UInt64 :=
  bs.foldl (fun h b => (h ^^^ b.toUInt64) * 0x100000001B3) 0xCBF29CE484222325

def bucketOf (count : Nat) (word : Text) : Nat :=
  (wordHash (Utf8.encode (Text.lowercase word)) % count.toUInt64).toNat

def vector (dimensions : Nat) (t : Text) : Embedding :=
  let count := max dimensions 1
  let filled := ((Query.words t).filter (!·.isEmpty)).map (bucketOf count)
  let counts := (List.range count).map fun i => Binary32.ofWord (filled.count i).toUInt64
  let length := Embedding.norm counts
  if Binary32.zero.lt length then counts.map (· / length) else counts

/-- A failing batch counts as a call, but its texts are not counted. -/
def embedBatch (p : Buckets) (batch : List Text) :
    Except ProviderError (List Embedding) × Buckets :=
  let p := { p with calls := p.calls + 1 }
  let fails := match p.failOn with
    | none => false
    | some marker => batch.any (·.includes marker)
  if fails then (.error (.other "mock embedding error"), p)
  else (.ok (batch.map (vector p.dimensions)), { p with texts := p.texts + batch.length })

/-- The name under which this provider is reported. -/
def providerName : String := "mock"

end Buckets

/-- The vector of a single text, from the answer to a batch of one. -/
def onlyVector (provider : String) (answer : Except ProviderError (List Embedding)) :
    Except ProviderError Embedding :=
  match answer with
  | .error e => .error e
  | .ok vectors =>
    match vectors.getLast? with
    | none => .error (.emptyResponse provider)
    | some v => .ok v

/-- Refuses an answer that does not hold one vector for each text. -/
def checkBatch (provider : String) (expected : Nat) (vectors : List Embedding) :
    Except ProviderError (List Embedding) :=
  if vectors.length = expected then .ok vectors
  else .error (.batchMismatch provider expected vectors.length)

end CodeIndex
