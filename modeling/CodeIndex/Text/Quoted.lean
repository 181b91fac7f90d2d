import CodeIndex.Text.Unprintable
import CodeIndex.Text.Blank

namespace CodeIndex.Text

def hexDigits (n : Nat) : Text := Nat.toDigits 16 n

def escapeUnprintable (c : Char) : Text :=
  if c = '\t' then ['\\', 't']
  else if c = '\r' then ['\\', 'r']
  else if c = '\n' then ['\\', 'n']
  else if c = '"' then ['\\', '"']
  else if c = '\\' then ['\\', '\\']
  else if c.toNat = 0 then ['\\', '0']
  else if isUnprintable c then '\\' :: 'u' :: '{' :: hexDigits c.toNat ++ ['}']
  else [c]

/-- Text in double quotes for the eyes of developers: quotes, backslashes and characters that do not
print are escaped. -/
def quoted (t : Text) : Text := '"' :: t.flatMap escapeUnprintable ++ ['"']

end CodeIndex.Text
