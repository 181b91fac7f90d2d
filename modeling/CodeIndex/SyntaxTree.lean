import CodeIndex.Text.Utf8

namespace CodeIndex

structure ByteRange where
  start : Nat
  stop : Nat
deriving DecidableEq, Repr

def ByteRange.text (r : ByteRange) (source : Text) : Text := source.slice r.start r.stop

/-- A syntax tree. A node covers a range of bytes of the source and a range of rows, and holds its
named children in order. The fields `name` and `type` of a node are ranges of bytes too. -/
structure Node where
  kind : String
  range : ByteRange
  firstRow : Nat
  lastRow : Nat
  name : Option ByteRange
  type : Option ByteRange
  children : List Node

namespace Node

def text (n : Node) (source : Text) : Text := n.range.text source

/-- A node is named by its `name`, or by its `type` where it has no name. -/
def entity? (n : Node) (source : Text) : Option Text :=
  (n.name.or n.type).map (·.text source)

end Node
end CodeIndex
