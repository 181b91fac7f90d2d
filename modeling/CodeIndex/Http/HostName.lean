import CodeIndex.Http.Percent
import CodeIndex.Text.Lines
import CodeIndex.Text.Lowercase
import CodeIndex.Text.Punycode

namespace CodeIndex.HostName

/-- A number in octal behind a zero and in hexadecimal behind a zero and an x. -/
def number? (t : Text) : Option Nat :=
  let read (base : Nat) (ok : Char → Bool) (ds : Text) : Option Nat :=
    if ds.all ok then some (ds.foldl (fun n c => n * base + (Json.hexValue? c).getD 0) 0) else none
  match t with
  | [] => none
  | '0' :: 'x' :: ds => read 16 (fun c => (Json.hexValue? c).isSome) ds
  | '0' :: 'X' :: ds => read 16 (fun c => (Json.hexValue? c).isSome) ds
  | ['0'] => some 0
  | '0' :: ds => read 8 (fun c => '0' ≤ c && c ≤ '7') ds
  | ds => read 10 Char.isDigit ds

/-- The labels of a name, without an empty last one. -/
def labels (t : Text) : List Text :=
  let ls := Text.splitAt (· == '.') t
  if ls.length ≠ 1 ∧ ls.getLast? = some [] then ls.dropLast else ls

def endsInNumber (t : Text) : Bool :=
  match (labels t).getLast? with
  | none => false
  | some last => (!last.isEmpty && last.all Char.isDigit) || (number? last).isSome

/-- The last number fills all bytes that the ones before it leave. -/
def addressOf (ns : List Nat) : Option Nat :=
  match ns.reverse with
  | [] => none
  | last :: before =>
    let before := before.reverse
    if 4 < ns.length ∨ before.any (255 < ·) ∨ Nat.pow 256 (5 - ns.length) ≤ last then none
    else some (before.zipIdx.foldr (fun (n, i) rest => n * Nat.pow 256 (3 - i) + rest) last)

def shownAddress (n : Nat) : Text :=
  Text.joinWith ['.'] ([n / 0x1000000, n / 0x10000 % 256, n / 256 % 256, n % 256].map
    fun b => (toString b).toList)

def fourNumbers? (t : Text) : Option Text :=
  ((labels t).mapM number?).bind fun ns => (addressOf ns).map shownAddress

def group? (t : Text) : Option Nat :=
  if !t.isEmpty && t.length ≤ 4 && t.all fun c => (Json.hexValue? c).isSome then
    some (t.foldl (fun n c => n * 16 + (Json.hexValue? c).getD 0) 0)
  else none

def plainByte? (t : Text) : Option Nat :=
  let n := t.foldl (fun n c => n * 10 + (c.toNat - 48)) 0
  if !t.isEmpty && t.length ≤ 3 && t.all Char.isDigit && n < 256
    && (t.length == 1 || t.head? != some '0') then some n
  else none

/-- Groups between colons, of which the last two may be written as four numbers. -/
def groups? (mayEndPlain : Bool) (t : Text) : Option (List Nat) :=
  if t.isEmpty then some []
  else
    let pieces := Text.splitAt (· == ':') t
    match pieces.getLast? with
    | none => none
    | some last =>
      if mayEndPlain && last.contains '.' then do
        let first ← pieces.dropLast.mapM group?
        match ← (Text.splitAt (· == '.') last).mapM plainByte? with
        | [a, b, c, d] => return first ++ [a * 256 + b, c * 256 + d]
        | _ => none
      else pieces.mapM group?

/-- What stands before and after the first two colons in a row, if there are any. -/
def splitGap (before : Text) : Text → Text × Option Text
  | ':' :: ':' :: t => (before.reverse, some t)
  | c :: t => splitGap (c :: before) t
  | [] => (before.reverse, none)

def eightGroups? (t : Text) : Option (List Nat) :=
  match splitGap [] t with
  | (whole, none) => do
    let gs ← groups? true whole
    if gs.length = 8 then some gs else none
  | (before, some after) => do
    let first ← groups? false before
    let last ← groups? true after
    if first.length + last.length < 8 then
      some (first ++ List.replicate (8 - first.length - last.length) 0 ++ last)
    else none

def zerosAt (gs : List Nat) (i : Nat) : Nat := ((gs.drop i).takeWhile (· == 0)).length

/-- Where the longest run of at least two zero groups starts, and its length. -/
def longestZeros (gs : List Nat) : Option (Nat × Nat) :=
  (List.range gs.length).foldl
    (fun best i =>
      let n := zerosAt gs i
      if n < 2 then best
      else match best with
        | some (_, m) => if m < n then some (i, n) else best
        | none => some (i, n)) none

def shownGroups (gs : List Nat) : Text :=
  let shown (gs : List Nat) := Text.joinWith [':'] (gs.map (Nat.toDigits 16))
  match longestZeros gs with
  | none => shown gs
  | some (i, n) => shown (gs.take i) ++ [':', ':'] ++ shown (gs.drop (i + n))

def isForbidden (c : Char) : Bool :=
  c.toNat ≤ 0x20 || c.toNat == 0x7F || "#/:<>?@[\\]^|%".toList.contains c

def isDot (c : Char) : Bool := c == '.' || c == '\u3002' || c == '\uFF0E' || c == '\uFF61'

def asciiLabel (t : Text) : Text :=
  if t.all Text.Punycode.isAscii then t else "xn--".toList ++ Text.Punycode.encode t

def asciiName (t : Text) : Text :=
  Text.joinWith ['.'] ((Text.splitAt isDot (Text.lowercase t)).map asciiLabel)

def name? (t : Text) : Option Text :=
  let name := asciiName (Utf8.decodeLossy (Percent.decode t))
  if name.isEmpty || name.any isForbidden then none
  else if endsInNumber name then fourNumbers? name
  else some name

def bracketed? (t : Text) : Option Text :=
  if t.getLast? = some ']' then
    (eightGroups? t.dropLast).map fun gs => '[' :: shownGroups gs ++ [']']
  else none

/-- The host of a URL whose scheme is known. -/
def ofText? : Text → Option Text
  | '[' :: t => bracketed? t
  | t => name? t

def isForbiddenOpaque (c : Char) : Bool :=
  c.toNat == 0 || c == '\t' || c == '\n' || c == '\r' || c == ' ' ||
    "#/:<>?@[\\]^|".toList.contains c

/-- The host of any other URL is kept as it is written. -/
def opaqueOf? : Text → Option Text
  | '[' :: t => bracketed? t
  | t =>
    if t.isEmpty || t.any isForbiddenOpaque then none else some (Percent.encode (fun _ => false) t)

end CodeIndex.HostName
