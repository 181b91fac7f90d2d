import CodeIndex.Chunk.LineWindow

namespace CodeIndex.Chunk

def join (a b : Chunk) : Chunk :=
  let code := a.code ++ ['\n'] ++ b.code
  { a with code, lastLine := b.lastLine, hash := hashText code, entity := a.entity.or b.entity }

/-- A small chunk is joined with the next one as long as both fit the target. -/
def mergeSmall (limits : Limits) : List Chunk → List Chunk
  | a :: b :: cs =>
    if a.size < limits.min ∧ a.size + b.size ≤ limits.target then
      mergeSmall limits (join a b :: cs)
    else a :: mergeSmall limits (b :: cs)
  | cs => cs
termination_by cs => cs.length

/-- A piece of `whole`, whose lines were counted from the start of `whole`. -/
def asPieceOf (whole piece : Chunk) : Chunk :=
  { whole with
    code := piece.code
    hash := piece.hash
    firstLine := piece.firstLine + (whole.firstLine - 1)
    lastLine := piece.lastLine + (whole.firstLine - 1) }

def splitOversized (limits : Limits) (cs : List Chunk) : List Chunk :=
  cs.flatMap fun c =>
    if c.size ≤ limits.max then [c] else (chunkLines limits c.code).map (asPieceOf c)

end CodeIndex.Chunk
