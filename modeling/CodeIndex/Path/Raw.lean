import CodeIndex.Path
import CodeIndex.Text.Utf8

namespace CodeIndex

/-- A path as a file system has it: any bytes. It is cut and compared byte by byte; what is stored
and shown of it is a text, in which different paths may look the same. -/
structure RawPath where
  bytes : Bytes
deriving DecidableEq, Repr

namespace RawPath

/-- The path with a character for each byte. -/
def spelling (p : RawPath) : Path := String.ofList (p.bytes.map fun b => Char.ofNat b.toNat)

/-- The text of the bytes, with a replacement character for whatever is not UTF-8. -/
def text (p : RawPath) : Path := String.ofList (Utf8.decodeLossy p.bytes)

/-- A path that is a Unicode text. -/
def ofText (t : Path) : RawPath := ⟨Utf8.encode t.toList⟩

def within (dir p : RawPath) : Bool := Path.within dir.spelling p.spelling

def same (p q : RawPath) : Bool := Path.same p.spelling q.spelling

theorem text_of_text (t : Path) : (ofText t).text = t := by
  rw [text, ofText, Utf8.decode_encode, String.ofList_toList]

instance : PathForm RawPath := ⟨spelling, text, ofText, text_of_text⟩

end RawPath
end CodeIndex
