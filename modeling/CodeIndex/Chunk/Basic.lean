import CodeIndex.Blake3
import CodeIndex.Text.Lines

namespace CodeIndex

/-- The limits on the sizes of chunks. Sizes count characters that are not blank. -/
structure Limits where
  target : Nat
  max : Nat
  min : Nat
deriving DecidableEq, Repr

/-- A piece of a file. Lines count from one and both are included. -/
structure Chunk where
  code : Text
  nodeType : String
  entity : Option Text
  firstLine : Nat
  lastLine : Nat
  scope : Text
  imports : Text
  hash : String
deriving DecidableEq, Repr

def Chunk.size (c : Chunk) : Nat := c.code.size

end CodeIndex
