import CodeIndex.Config.Shown
import CodeIndex.Http.Message
import CodeIndex.Json.Reader
import CodeIndex.Provider.Buckets

namespace CodeIndex

/-- A provider behind an OpenAI-compatible server. The entries of an answer are put in the order of
their indexes, and there must be one for each text. -/
structure OpenAi where
  apiKey : Option String
  baseUrl : Text
  model : String
deriving DecidableEq, Repr

namespace OpenAi

def providerName : String := "openai"

def userAgent : String := "ferret/0.1.0"

def dropSlashes (t : Text) : Text := (t.reverse.dropWhile (· == '/')).reverse

def ofBaseUrl (apiKey : Option String) (baseUrl : String) (model : String) : OpenAi :=
  ⟨apiKey, dropSlashes baseUrl.toList, model⟩

/-- The value of the header that carries the key. -/
def authorization (key : String) : Text := ("Bearer " ++ key).toList

/-- The request for the vectors of texts, if the address and the key can be sent at all. -/
def request? (p : OpenAi) (texts : List Text) : Option Request := do
  let url ← Url.parse? (p.baseUrl ++ "/embeddings".toList)
  let auth := p.apiKey.map authorization
  if auth.all isHeaderText then
    return {
      target := url.target
      host := url.authority
      authorization := auth.map Text.trim
      userAgent := some userAgent
      body := embeddingBody p.model texts }
  else none

/-- A vector with the place of its text, which may be left out. -/
structure Entry where
  label : Option Nat
  vector : Embedding
deriving DecidableEq

/-- An entry without a label counts as the first. -/
def Entry.index (e : Entry) : Nat := e.label.getD 0

def Entry.ofJson? (j : Json) : Option Entry := do
  match ← j.record? ["index", "embedding"] 2 with
  | [label, some vector] => return ⟨← label.mapM Json.word?, ← readVector vector⟩
  | _ => none

/-- How the entries of a body are read; `none` if it has another form. -/
abbrev Decoder := Text → Option (List Entry)

def entries? (body : Text) : Option (List Entry) := do
  match ← (← Json.parse? body).record? ["data"] 1 with
  | [some data] => (← data.array?).mapM Entry.ofJson?
  | _ => none

/-- Vectors in the order of their indexes; entries of the same index keep theirs. -/
def inOrder (es : List Entry) : List Embedding :=
  (es.mergeSort fun a b => a.index ≤ b.index).map Entry.vector

/-- What an answer to a request for `count` texts holds. Its body is read before its status
counts. -/
def readResponse (count : Nat) (r : Response) (decode : Decoder := entries?) :
    Except ProviderError (List Embedding) :=
  match r.text with
  | none => .error .http
  | some body =>
    if r.status = 429 then .error .rateLimited
    else if !r.isSuccess then
      .error (.other ("embedding request failed (status " ++ toString r.status ++ " " ++ r.reason
        ++ ")"))
    else match decode body with
      | none => .error .json
      | some es => checkBatch providerName count (inOrder es)

/-- The requests that were answered, and the result. -/
def embedBatch (p : OpenAi) (send : Transport) (texts : List Text)
    (decode : Decoder := entries?) : List Request × Except ProviderError (List Embedding) :=
  if texts.isEmpty then ([], .ok [])
  else match p.request? texts with
    | none => ([], .error .http)
    | some request =>
      match send request with
      | none => ([], .error .http)
      | some response => ([request], readResponse texts.length response decode)

/-- The provider as developers see it. -/
def shown (p : OpenAi) : String :=
  "OpenAiProvider \x7b base_url: " ++ quotedString (String.ofList p.baseUrl) ++
  ", embedding_model: " ++ quotedString p.model ++
  ", api_key: " ++ shownSecret "<redacted>" p.apiKey ++ ", .. \x7d"

end OpenAi
end CodeIndex
