import CodeIndex.Chunk.Basic
import CodeIndex.SyntaxTree

namespace CodeIndex

/-- Neighbouring nodes, with the names of the nodes that were opened to reach them. -/
structure Group where
  scope : Text
  nodes : List Node

namespace Group

def ofBatch (scope : Text) (batch : List Node) : List Group :=
  if batch.isEmpty then [] else [⟨scope, batch⟩]

def scopeWithin (source scope : Text) (n : Node) : Text :=
  let name := (n.entity? source).getD n.kind.toList
  if scope.isEmpty then name else scope ++ [' ', '>', ' '] ++ name

mutual

/-- The groups of a node larger than the maximum. -/
def opened (source : Text) (limits : Limits) (scope : Text) : Node → List Group
  | ⟨kind, range, firstRow, lastRow, name, type, children⟩ =>
    let n : Node := ⟨kind, range, firstRow, lastRow, name, type, children⟩
    let inner := scopeWithin source scope n
    if children.isEmpty then [⟨inner, [n]⟩] else gather source limits inner [] 0 children

/-- The groups of neighbouring nodes, after a batch of `filled` characters that is still open. -/
def gather (source : Text) (limits : Limits) (scope : Text) (batch : List Node) (filled : Nat) :
    List Node → List Group
  | [] => ofBatch scope batch
  | n :: ns =>
    let size := (n.text source).size
    if limits.max < size then
      ofBatch scope batch ++ opened source limits scope n ++ gather source limits scope [] 0 ns
    else if limits.target < filled + size ∧ !batch.isEmpty then
      ofBatch scope batch ++ gather source limits scope [n] size ns
    else gather source limits scope (batch ++ [n]) (filled + size) ns

end

/-- Neighbouring children are gathered into groups up to the target size; a child larger than the
maximum is opened, and its children are grouped under its name. -/
def ofTree (source : Text) (limits : Limits) (root : Node) : List Group :=
  gather source limits [] [] 0 root.children

def nodeType (first : Node) (count : Nat) : String :=
  if count = 1 then first.kind else first.kind ++ "x" ++ toString count

/-- The chunk of a group, unless its text is blank. -/
def chunk? (source imports : Text) (g : Group) : Option Chunk :=
  match g.nodes.head?, g.nodes.getLast? with
  | some first, some last =>
    let code := source.slice first.range.start last.range.stop
    if code.size = 0 then none
    else some {
      code
      nodeType := nodeType first g.nodes.length
      entity := g.nodes.findSome? (·.entity? source)
      firstLine := first.firstRow + 1
      lastLine := last.lastRow + 1
      scope := g.scope
      imports
      hash := hashText code }
  | _, _ => none

end Group
end CodeIndex
