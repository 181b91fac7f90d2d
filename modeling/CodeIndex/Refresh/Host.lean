import CodeIndex.Error
import CodeIndex.Binary32

namespace CodeIndex

/-- What a provider makes of a batch; `none` if it never answers. -/
abbrev BatchReply := Option (Except ProviderError (List Embedding))

/-- What a refresh asks of the outside: the workspace, the embedding provider, and the switches for
pausing and cancelling. Every question may change the state of the outside, so that files may be
edited and switches flipped at any moment. Paths are in the form in which the workspace has them. -/
structure Host (σ : Type) (P : Type := Path) where
  dirs : StateM σ (List P)
  branch : P → StateM σ String
  list : P → StateM σ (Except IndexError (List P))
  read : P → StateM σ (Except IndexError Bytes)
  embed : List Text → StateM σ BatchReply
  isCancelled : StateM σ Bool
  isPaused : StateM σ Bool

namespace Host

variable {P : Type} [PathForm P] (h : Host σ P)

/-- Reads a file that is not larger than `limit` bytes. -/
def readWithin (limit : Nat) (p : P) : StateM σ (Except IndexError Bytes) := do
  match ← h.read p with
  | .error e => return .error e
  | .ok bytes =>
    if limit < bytes.length then return .error (.fileTooLarge (PathForm.text p) bytes.length limit)
    else return .ok bytes

def scope (dir : P) : StateM σ Scope := do return ⟨← h.branch dir, PathForm.text dir⟩

/-- The tags of one artifact, one for each directory of the workspace. -/
def tagsFor (artifact : String) : StateM σ (List Tag) := do
  (← h.dirs).mapM fun dir => do return (← h.scope dir).tag artifact

/-- The tags of all artifacts, artifact by artifact. -/
def tags : StateM σ (List Tag) := do
  return (← ArtifactKind.all.mapM fun kind => h.tagsFor kind.id).flatten

end Host
end CodeIndex
