import CodeIndex.Tag

namespace CodeIndex

inductive ProviderError where
  | http
  | json
  | rateLimited
  | unavailable
  | emptyResponse (provider : String)
  | batchMismatch (provider : String) (expected got : Nat)
  | embedUnsupported (provider : String)
  | other (text : String)
deriving DecidableEq, Repr

def ProviderError.message? : ProviderError → Option String
  | http => none
  | json => none
  | rateLimited => some "rate limited"
  | unavailable => some "provider unavailable"
  | emptyResponse provider => some ("empty response from " ++ provider)
  | batchMismatch provider expected got =>
    some (provider ++ " returned " ++ toString got ++ " embeddings for a batch of "
      ++ toString expected)
  | embedUnsupported provider => some ("embedding not supported by " ++ provider)
  | other text => some text

/-- What can go wrong while indexing and searching. Causes that come from a database, a network or a
decoder carry no message of their own. -/
inductive IndexError where
  | io (missing : Bool) (text : String)
  | database
  | migration
  | provider (cause : ProviderError)
  | parse (text : String)
  | enumeration (directory : Path) (reason : String)
  | artifact (id : String) (reason : String)
  | fileTooLarge (path : Path) (size limit : Nat)
  | cancelled
  | configuration (text : String)
  | watcher
  | integerConversion
deriving DecidableEq, Repr

namespace IndexError

def message? : IndexError → Option String
  | io _ text => some ("IO error: " ++ text)
  | database => none
  | migration => none
  | provider cause => cause.message?.map ("embeddings provider error: " ++ ·)
  | parse text => some ("parse failed: " ++ text)
  | enumeration directory reason =>
    some ("cannot enumerate " ++ directory ++ ": " ++ reason)
  | artifact id reason => some (id ++ " update failed: " ++ reason)
  | fileTooLarge path size limit =>
    some (path ++ " is " ++ toString size ++ " bytes, over the " ++ toString limit
      ++ " byte limit")
  | cancelled => some "indexing cancelled"
  | configuration text => some ("configuration error: " ++ text)
  | watcher => none
  | integerConversion =>
    some "integer conversion failed: number too large to fit in target type"

/-- The text by which a failure is reported. -/
def text (e : IndexError) : String := e.message?.getD ""

end IndexError
end CodeIndex
