import CodeIndex.Json.Basic

namespace CodeIndex.Json

def skip (t : Text) : Text := t.dropWhile fun c => c == ' ' || c == '\t' || c == '\n' || c == '\r'

def hexValue? (c : Char) : Option Nat :=
  if '0' ≤ c ∧ c ≤ '9' then some (c.toNat - 48)
  else if 'a' ≤ c ∧ c ≤ 'f' then some (c.toNat - 87)
  else if 'A' ≤ c ∧ c ≤ 'F' then some (c.toNat - 55)
  else none

def unit? (a b c d : Char) : Option Nat := do
  return (← hexValue? a) * 4096 + (← hexValue? b) * 256 + (← hexValue? c) * 16 + (← hexValue? d)

def simpleEscape? : Char → Option Char
  | '"' => some '"'
  | '\\' => some '\\'
  | '/' => some '/'
  | 'b' => some (Char.ofNat 8)
  | 'f' => some (Char.ofNat 12)
  | 'n' => some '\n'
  | 'r' => some '\r'
  | 't' => some '\t'
  | _ => none

def isHigh (u : Nat) : Bool := 0xD800 ≤ u && u < 0xDC00

def isLow (u : Nat) : Bool := 0xDC00 ≤ u && u < 0xE000

/-- Pairs up surrogates; `none` if one is left alone. -/
def pairUnits (done : Text) : List Nat → Option Text
  | [] => some done.reverse
  | u :: us =>
    if isHigh u then
      match us with
      | v :: us =>
        if isLow v then
          pairUnits (Char.ofNat (0x10000 + (u - 0xD800) * 0x400 + (v - 0xDC00)) :: done) us
        else none
      | [] => none
    else if isLow u then none
    else pairUnits (Char.ofNat u :: done) us

/-- The rest of a string after its opening quote: its units, in reverse before those of `done`, and
what follows the closing quote. -/
def readString (done : List Nat) : Text → Option (Option Text × Text)
  | '"' :: t => some (pairUnits [] done.reverse, t)
  | '\\' :: 'u' :: a :: b :: c :: d :: t =>
    match unit? a b c d with
    | none => none
    | some u => readString (u :: done) t
  | '\\' :: e :: t =>
    match simpleEscape? e with
    | none => none
    | some c => readString (c.toNat :: done) t
  | c :: t => if c.toNat < 32 then none else readString (c.toNat :: done) t
  | [] => none

def digitsOf (t : Text) : Text × Text := (t.takeWhile Char.isDigit, t.dropWhile Char.isDigit)

def natOf (digits : Text) : Nat := digits.foldl (fun n c => n * 10 + (c.toNat - 48)) 0

/-- A fraction, if a point follows; a point without digits is refused. -/
def readFraction : Text → Option (Text × Text)
  | '.' :: t =>
    let (digits, rest) := digitsOf t
    if digits.isEmpty then none else some (digits, rest)
  | t => some ([], t)

def readExponent : Text → Option (Option Int × Text)
  | e :: t =>
    if e == 'e' || e == 'E' then
      let (negative, t) := match t with
        | '-' :: t => (true, t)
        | '+' :: t => (false, t)
        | t => (false, t)
      let (digits, rest) := digitsOf t
      if digits.isEmpty then none
      else some (some (if negative then -(natOf digits : Int) else natOf digits), rest)
    else some (none, e :: t)
  | [] => some (none, [])

def readNumber (t : Text) : Option (Number × Text) := do
  let (negative, t) := match t with
    | '-' :: t => (true, t)
    | t => (false, t)
  let (digits, t) := digitsOf t
  if digits.isEmpty || (digits.length != 1 && digits.head? == some '0') then none
  let (fraction, t) ← readFraction t
  let (exponent, t) ← readExponent t
  let whole := fraction.isEmpty && exponent.isNone && !(negative && natOf digits == 0)
  return (⟨negative, natOf (digits ++ fraction), exponent.getD 0 - fraction.length, whole⟩, t)

def readWord (word : String) (value : Json) (t : Text) : Option (Json × Text) :=
  if word.toList.isPrefixOf t then some (value, t.drop word.length) else none

mutual

/-- Every step spends a unit of fuel; a text needs less than twice its length. -/
def readValue : Nat → Text → Option (Json × Text)
  | 0, _ => none
  | fuel + 1, t =>
    match skip t with
    | '"' :: t => (readString [] t).map fun (s, t) => (.string s, t)
    | '[' :: t =>
      match skip t with
      | ']' :: t => some (.array [], t)
      | t => (readItems fuel [] t).map fun (items, t) => (.array items, t)
    | '{' :: t =>
      match skip t with
      | '}' :: t => some (.object [], t)
      | t => (readFields fuel [] t).map fun (fields, t) => (.object fields, t)
    | 'n' :: t => readWord "null" .null ('n' :: t)
    | 't' :: t => readWord "true" (.bool true) ('t' :: t)
    | 'f' :: t => readWord "false" (.bool false) ('f' :: t)
    | t => (readNumber t).map fun (n, t) => (.number n, t)

def readItems : Nat → List Json → Text → Option (List Json × Text)
  | 0, _, _ => none
  | fuel + 1, done, t =>
    match readValue fuel t with
    | none => none
    | some (j, t) =>
      match skip t with
      | ',' :: t => readItems fuel (j :: done) t
      | ']' :: t => some ((j :: done).reverse, t)
      | _ => none

def readFields : Nat → List (String × Json) → Text → Option (List (String × Json) × Text)
  | 0, _, _ => none
  | fuel + 1, done, t =>
    match skip t with
    | '"' :: t =>
      match readString [] t with
      | some (some name, t) =>
        match skip t with
        | ':' :: t =>
          match readValue fuel t with
          | none => none
          | some (j, t) =>
            match skip t with
            | ',' :: t => readFields fuel ((String.ofList name, j) :: done) t
            | '}' :: t => some (((String.ofList name, j) :: done).reverse, t)
            | _ => none
        | _ => none
      | _ => none
    | _ => none

end

/-- The whole text must be one value; blanks are spaces, tabs and line ends only. -/
def parse? (t : Text) : Option Json :=
  match readValue (2 * t.length + 2) t with
  | some (j, rest) => if (skip rest).isEmpty then some j else none
  | none => none

end CodeIndex.Json
