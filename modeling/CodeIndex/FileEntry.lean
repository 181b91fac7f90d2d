import CodeIndex.Blake3
import CodeIndex.Language

namespace CodeIndex

/-- A file as the artifacts see it. Its hash and its size are those of the bytes; its content is the
text of the bytes, with a replacement character for whatever is not UTF-8. -/
structure FileEntry where
  path : Path
  hash : String
  size : Nat
  content : Option Text
  language : Option Language
deriving DecidableEq, Repr

namespace FileEntry

def ofBytes (path : Path) (bytes : Bytes) : FileEntry where
  path
  hash := hashBytes bytes
  size := bytes.length
  content := some (Utf8.decodeLossy bytes)
  language := Language.ofPath? path

/-- A file that is no longer there. -/
def gone (path : Path) (hash : String) : FileEntry where
  path
  hash
  size := 0
  content := none
  language := Language.ofPath? path

end FileEntry
end CodeIndex
