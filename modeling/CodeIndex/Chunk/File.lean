import CodeIndex.Chunk.Group
import CodeIndex.Chunk.Merge
import CodeIndex.Error
import CodeIndex.Language

namespace CodeIndex

/-- Reads the syntax tree of a text. -/
abbrev Parser := Language → Text → Option Node

/-- The imports at the top of a file, one after another. -/
def importsOf (source : Text) (language : Language) (root : Node) : Text :=
  (root.children.filter fun n => language.importKinds.contains n.kind).flatMap fun n =>
    n.text source ++ ['\n']

def chunkTree (source : Text) (language : Language) (limits : Limits) (root : Node) :
    List Chunk :=
  let imports := importsOf source language root
  let chunks :=
    Chunk.mergeSmall limits ((Group.ofTree source limits root).filterMap (·.chunk? source imports))
  if chunks.isEmpty then chunkLines limits source else Chunk.splitOversized limits chunks

/-- A file of a language with entities is cut along its syntax tree; every other file, and one whose
tree yields nothing, is cut by lines. -/
def chunkFile (parser : Parser) (source : Text) (language : Option Language) (limits : Limits) :
    Except IndexError (List Chunk) :=
  match language with
  | none => .ok (chunkLines limits source)
  | some l =>
    if l.entityKinds.isEmpty then .ok (chunkLines limits source)
    else match parser l source with
      | none => .error (.parse ("no parse tree for " ++ l.id ++ " source"))
      | some root => .ok (chunkTree source l limits root)

namespace Chunk

/-- How many lines of imports a header shows. -/
def headerImports : Nat := 5

def headerLines (c : Chunk) (path : Path) (language : Option Language) : List Text :=
  [("# " ++ path).toList] ++
  (if c.scope.isEmpty then [] else ["# Scope: ".toList ++ c.scope]) ++
  (language.toList.map fun l => ("# Language: " ++ l.id).toList) ++
  c.imports.lines.take headerImports

def header (c : Chunk) (path : Path) (language : Option Language) : Text :=
  (c.headerLines path language).flatMap (· ++ ['\n'])

/-- The text that is embedded for a chunk. -/
def embeddingText (c : Chunk) (path : Path) (language : Option Language) : Text :=
  c.header path language ++ c.code

end Chunk
end CodeIndex
