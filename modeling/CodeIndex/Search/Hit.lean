import CodeIndex.Binary32
import CodeIndex.Tag

namespace CodeIndex

/-- A piece of a file with its score. Lines count from one and both are included. -/
structure Hit where
  path : String
  content : Text
  score : Binary32
  firstLine : Nat
  lastLine : Nat
  source : ArtifactKind
deriving DecidableEq

end CodeIndex
