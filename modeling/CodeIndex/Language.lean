import CodeIndex.Path

namespace CodeIndex

/-- The languages whose files are indexed. A language without entities is cut by lines. -/
inductive Language where
  | rust
  | python
  | javaScript
  | typeScript
  | go
  | bash
  | toml
  | json
  | markdown
deriving DecidableEq, Repr

namespace Language

def all : List Language :=
  [.rust, .python, .javaScript, .typeScript, .go, .bash, .toml, .json, .markdown]

def id : Language → String
  | rust => "rust"
  | python => "python"
  | javaScript => "javascript"
  | typeScript => "typescript"
  | go => "go"
  | bash => "bash"
  | toml => "toml"
  | json => "json"
  | markdown => "markdown"

def extensions : Language → List String
  | rust => ["rs"]
  | python => ["py", "pyi"]
  | javaScript => ["js", "jsx", "mjs", "cjs"]
  | typeScript => ["ts", "tsx", "mts", "cts"]
  | go => ["go"]
  | bash => ["sh", "bash", "zsh"]
  | toml => ["toml"]
  | json => ["json", "jsonc"]
  | markdown => ["md", "markdown"]

def scriptEntities : List String :=
  ["function_declaration", "class_declaration", "method_definition", "arrow_function",
   "export_statement", "lexical_declaration"]

def entityKinds : Language → List String
  | rust =>
    ["function_item", "struct_item", "enum_item", "trait_item", "impl_item", "type_item",
     "const_item", "static_item", "macro_definition", "mod_item"]
  | python => ["function_definition", "class_definition", "decorated_definition"]
  | javaScript => scriptEntities
  | typeScript => scriptEntities
  | go =>
    ["function_declaration", "method_declaration", "type_declaration", "const_declaration"]
  | _ => []

def importKinds : Language → List String
  | rust => ["use_declaration"]
  | python => ["import_statement", "import_from_statement"]
  | javaScript => ["import_statement"]
  | typeScript => ["import_statement"]
  | go => ["import_declaration"]
  | _ => []

def ofId? (id : String) : Option Language := all.find? (·.id == id)

/-- The language of a file, by the extension of its name; case counts. -/
def ofPath? (p : Path) : Option Language :=
  (Path.extension? p).bind fun ext =>
    all.find? fun l => l.extensions.contains (String.ofList ext)

def indexable (p : Path) : Bool := (ofPath? p).isSome

theorem ofId?_id (l : Language) : ofId? l.id = some l := by cases l <;> decide

end Language
end CodeIndex
