import CodeIndex.Language
import CodeIndex.Path.Map
import CodeIndex.Provider.Scripted
import CodeIndex.Refresh.Host

namespace CodeIndex

/-- A workspace in memory with a scripted provider, and the switches of a refresh. Files can be made
unreadable, directories unlistable, and reading a file can be made to cancel the refresh. -/
structure World where
  dirs : List Path
  branches : PathMap String
  files : PathMap Bytes
  unreadable : PathMap IndexError
  broken : PathMap String
  cancelOnRead : Option Path
  provider : Scripted
  paused : Bool
  cancelled : Bool

namespace World

def branch (w : World) (dir : Path) : String := (w.branches.at? dir).getD noBranch

/-- The files below a directory whose language is known, in path order. -/
def list (w : World) (dir : Path) : Except IndexError (List Path) :=
  match w.broken.at? dir with
  | some reason => .error (.enumeration dir reason)
  | none =>
    .ok (Path.sort ((w.files.map (·.1)).filter fun p => Path.within dir p && Language.indexable p))

def contentOf (w : World) (p : Path) : Except IndexError Bytes :=
  match w.unreadable.at? p with
  | some e => .error e
  | none =>
    match w.files.at? p with
    | some bytes => .ok bytes
    | none => .error (.io true "no such file")

def read (w : World) (p : Path) : Except IndexError Bytes × World :=
  let cancels := match w.cancelOnRead with
    | some q => Path.same q p
    | none => false
  (w.contentOf p, { w with cancelled := w.cancelled || cancels })

def embed (w : World) (batch : List Text) : BatchReply × World :=
  let ((reply, cancels), provider) := w.provider.embedBatch batch
  (reply, { w with provider, cancelled := w.cancelled || cancels })

def host : Host World where
  dirs := fun w => (w.dirs, w)
  branch := fun dir w => (w.branch dir, w)
  list := fun dir w => (w.list dir, w)
  read := fun p w => w.read p
  embed := fun batch w => w.embed batch
  isCancelled := fun w => (w.cancelled, w)
  isPaused := fun w => (w.paused, w)

end World
end CodeIndex
