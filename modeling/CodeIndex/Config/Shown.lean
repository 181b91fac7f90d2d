import CodeIndex.Config.Basic
import CodeIndex.Text.Quoted

namespace CodeIndex

def quotedString (s : String) : String := String.ofList (Text.quoted s.toList)

/-- A secret, of which only its presence is shown. -/
def shownSecret (mask : String) : Option String → String
  | none => "None"
  | some _ => "Some(" ++ quotedString mask ++ ")"

def ProviderKind.shown : ProviderKind → String
  | ollama => "Ollama"
  | openAi => "OpenAi"

/-- The settings as developers see them. The key of a server is never shown. -/
def EmbeddingsConfig.shown (e : EmbeddingsConfig) : String :=
  "EmbeddingsConfig \x7b provider: " ++ e.provider.shown ++
  ", base_url: " ++ quotedString e.baseUrl ++
  ", model: " ++ quotedString e.model ++
  ", api_key: " ++ shownSecret "[REDACTED]" e.apiKey ++
  ", batch_size: " ++ toString e.batchSize ++
  ", max_concurrency: " ++ toString e.maxConcurrency ++ " \x7d"

end CodeIndex
