import CodeIndex.Blake3
import CodeIndex.Json.Reader
import CodeIndex.Text.Utf8

namespace CodeIndex.Percent

def upperHex (n : Nat) : Char := (Blake3.hexDigit n).toUpper

def encodeByte (b : UInt8) : Text := ['%', upperHex (b.toNat / 16), upperHex (b.toNat % 16)]

/-- Encodes the characters that are not plain ASCII, and those that are reserved. -/
def encode (reserved : Char → Bool) (t : Text) : Text :=
  t.flatMap fun c =>
    if c.toNat ≤ 0x1F || 0x7F ≤ c.toNat || reserved c then (Utf8.encode [c]).flatMap encodeByte
    else [c]

/-- The bytes of a text, with its percent signs decoded where two digits follow. -/
def decode : Text → Bytes
  | '%' :: a :: b :: t =>
    match Json.hexValue? a, Json.hexValue? b with
    | some x, some y => (x * 16 + y).toUInt8 :: decode t
    | _, _ => 0x25 :: decode (a :: b :: t)
  | c :: t => Utf8.encode [c] ++ decode t
  | [] => []

end CodeIndex.Percent
