import CodeIndex.Provider.Ollama

namespace CodeIndex

inductive ServerProvider where
  | ollama (provider : Ollama)
  | openAi (provider : OpenAi)
deriving DecidableEq, Repr

namespace ServerProvider

def name : ServerProvider → String
  | ollama _ => Ollama.providerName
  | openAi _ => OpenAi.providerName

/-- The provider of a configuration; `none` if its address is no URL with a host where one is
needed from the start. -/
def ofConfig? (e : EmbeddingsConfig) : Option ServerProvider :=
  match e.provider with
  | .ollama => (Ollama.ofBaseUrl? e.baseUrl e.model).map .ollama
  | .openAi => some (.openAi (OpenAi.ofBaseUrl e.apiKey e.baseUrl e.model))

def embedBatch (p : ServerProvider) (send : Transport) (texts : List Text) :
    List Request × Except ProviderError (List Embedding) :=
  match p with
  | ollama p => p.embedBatch send texts
  | openAi p => p.embedBatch send texts

/-- The vector of one text. -/
def embed (p : ServerProvider) (send : Transport) (t : Text) :
    List Request × Except ProviderError Embedding :=
  let (requests, answer) := p.embedBatch send [t]
  (requests, onlyVector p.name answer)

end ServerProvider
end CodeIndex
