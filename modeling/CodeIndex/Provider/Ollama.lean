import CodeIndex.Config.Load
import CodeIndex.Http.Message
import CodeIndex.Json.Reader
import CodeIndex.Provider.OpenAi

namespace CodeIndex

/-- A provider behind an Ollama server. A port at the end of the address is set on the URL before
it, and is the usual one if there is none. -/
structure Ollama where
  endpoint : Url
  model : String
deriving DecidableEq, Repr

namespace Ollama

def providerName : String := "ollama"

def usualPort : Nat := 11434

/-- What stands before and after the last colon. -/
def splitLastColon (t : Text) : Option (Text × Text) :=
  let after := (t.reverse.takeWhile (· != ':')).reverse
  if after.length = t.length then none
  else some (t.take (t.length - after.length - 1), after)

/-- The address without the slashes at its end, and the port behind its last colon. -/
def hostAndPort (baseUrl : Text) : Text × Nat :=
  let t := OpenAi.dropSlashes baseUrl
  match splitLastColon t with
  | none => (t, usualPort)
  | some (host, after) =>
    match Config.numberBelow? Url.portLimit after with
    | some port => (host, port)
    | none => (t, usualPort)

/-- The endpoint of a server; `none` if the address is no URL with a host. -/
def endpoint? (baseUrl : Text) : Option Url :=
  let (host, port) := hostAndPort baseUrl
  (Url.parse? host).map (·.withPort port)

def ofBaseUrl? (baseUrl model : String) : Option Ollama :=
  (endpoint? baseUrl.toList).map fun endpoint => ⟨endpoint, model⟩

def request (p : Ollama) (texts : List Text) : Request where
  target := p.endpoint.target ++ "api/embed".toList
  host := p.endpoint.authority
  authorization := none
  userAgent := none
  body := embeddingBody p.model texts

def failure (reason : Text) : ProviderError :=
  .other ("Ollama embedding request failed: " ++ String.ofList reason)

def vectors? (body : Text) : Option (List Embedding) := do
  match ← (← Json.parse? body).record? ["embeddings"] 1 with
  | [some vectors] => (← vectors.array?).mapM readVector
  | _ => none

def readResponse (count : Nat) (r : Response) : Except ProviderError (List Embedding) :=
  match r.text with
  | none => .error (failure "broken answer".toList)
  | some body =>
    if !r.isSuccess then .error (failure body)
    else match vectors? body with
      | none => .error (failure "Ollama JSON error".toList)
      | some vectors => checkBatch providerName count vectors

/-- The requests that were answered, and the result. -/
def embedBatch (p : Ollama) (send : Transport) (texts : List Text) :
    List Request × Except ProviderError (List Embedding) :=
  if texts.isEmpty then ([], .ok [])
  else
    let request := p.request texts
    match send request with
    | none => ([], .error (failure "no answer".toList))
    | some response => ([request], readResponse texts.length response)

end Ollama
end CodeIndex
