import CodeIndex.Toml.Scalar
import CodeIndex.Toml.Table

namespace CodeIndex.Toml

def blanks (t : Text) : Text := t.dropWhile fun c => c == ' ' || c == '\t'

/-- Characters that stand for themselves in comments and strings. -/
def isPlain (c : Char) : Bool := c == '\t' || (32 ≤ c.toNat && c.toNat != 127)

/-- Skips blanks, comments and line ends. -/
def gap (comment : Bool) : Text → Option Text
  | [] => some []
  | '\r' :: '\n' :: t => gap false t
  | '\n' :: t => gap false t
  | c :: t =>
    if comment then (if isPlain c then gap true t else none)
    else if c = ' ' ∨ c = '\t' then gap false t
    else if c = '#' then gap true t
    else some (c :: t)

/-- Whether nothing but blanks and a comment is left of a line, and what follows it. -/
def lineEnd (comment : Bool) : Text → Option Text
  | [] => some []
  | '\r' :: '\n' :: t => some t
  | '\n' :: t => some t
  | c :: t =>
    if comment then (if isPlain c then lineEnd true t else none)
    else if c = ' ' ∨ c = '\t' then lineEnd false t
    else if c = '#' then lineEnd true t
    else none

def char? (code : Nat) : Option Char :=
  if code.isValidChar then some (Char.ofNat code) else none

def escape? : Char → Option Char
  | '"' => some '"'
  | '\\' => some '\\'
  | 'b' => some (Char.ofNat 8)
  | 't' => some '\t'
  | 'n' => some '\n'
  | 'f' => some (Char.ofNat 12)
  | 'r' => some '\r'
  | 'e' => some (Char.ofNat 27)
  | _ => none

/-- The character of an escape by its code in hexadecimal digits. -/
def coded? (digits : Text) : Option Char :=
  if digits.all isHex then char? (valueIn 16 digits) else none

/-- Whether the rest of a line is blank, so that a backslash joins it with what follows. -/
def joinsLines (t : Text) : Bool :=
  match blanks t with
  | '\n' :: _ => true
  | '\r' :: '\n' :: _ => true
  | _ => false

/-- The rest of a string on one line after its opening quote, and what follows it. -/
def readShort (done : Text) : Text → Option (Text × Text)
  | '"' :: t => some (done.reverse, t)
  | '\\' :: 'x' :: a :: b :: t => do readShort ((← coded? [a, b]) :: done) t
  | '\\' :: 'u' :: a :: b :: c :: d :: t => do readShort ((← coded? [a, b, c, d]) :: done) t
  | '\\' :: 'U' :: a :: b :: c :: d :: e :: f :: g :: h :: t => do
    readShort ((← coded? [a, b, c, d, e, f, g, h]) :: done) t
  | '\\' :: c :: t => do readShort ((← escape? c) :: done) t
  | c :: t => if isPlain c then readShort (c :: done) t else none
  | [] => none

/-- The rest of a string over several lines; `skip` while blanks and line ends are joined. -/
def readLong (skip : Bool) (done : Text) : Text → Option (Text × Text)
  | '"' :: '"' :: '"' :: '"' :: '"' :: t => some (('"' :: '"' :: done).reverse, t)
  | '"' :: '"' :: '"' :: '"' :: t => some (('"' :: done).reverse, t)
  | '"' :: '"' :: '"' :: t => some (done.reverse, t)
  | '\\' :: 'x' :: a :: b :: t => do readLong false ((← coded? [a, b]) :: done) t
  | '\\' :: 'u' :: a :: b :: c :: d :: t => do readLong false ((← coded? [a, b, c, d]) :: done) t
  | '\\' :: 'U' :: a :: b :: c :: d :: e :: f :: g :: h :: t => do
    readLong false ((← coded? [a, b, c, d, e, f, g, h]) :: done) t
  | '\r' :: '\n' :: t => if skip then readLong true done t else readLong false ('\n' :: done) t
  | '\n' :: t => if skip then readLong true done t else readLong false ('\n' :: done) t
  | '\\' :: c :: t =>
    if joinsLines (c :: t) then readLong true done (c :: t)
    else do readLong false ((← escape? c) :: done) t
  | c :: t =>
    if skip && (c == ' ' || c == '\t') then readLong true done t
    else if isPlain c then readLong false (c :: done) t
    else none
  | [] => none

/-- The rest of a string without escapes on one line. -/
def readLiteral (t : Text) : Option (Text × Text) :=
  let body := t.takeWhile fun c => isPlain c && c != '\''
  match t.drop body.length with
  | '\'' :: t => some (body, t)
  | _ => none

/-- The rest of a string without escapes over several lines. -/
def readLongLiteral (done : Text) : Text → Option (Text × Text)
  | '\'' :: '\'' :: '\'' :: '\'' :: '\'' :: t => some (('\'' :: '\'' :: done).reverse, t)
  | '\'' :: '\'' :: '\'' :: '\'' :: t => some (('\'' :: done).reverse, t)
  | '\'' :: '\'' :: '\'' :: t => some (done.reverse, t)
  | '\r' :: '\n' :: t => readLongLiteral ('\n' :: done) t
  | '\n' :: t => readLongLiteral ('\n' :: done) t
  | c :: t => if isPlain c then readLongLiteral (c :: done) t else none
  | [] => none

/-- A line end directly after the opening quotes does not count. -/
def dropLineEnd : Text → Text
  | '\r' :: '\n' :: t => t
  | '\n' :: t => t
  | t => t

def isBare (c : Char) : Bool := c.isAlphanum || c == '_' || c == '-'

def readKey (t : Text) : Option (Text × Text) :=
  match t with
  | '"' :: t => readShort [] t
  | '\'' :: t => readLiteral t
  | t =>
    let key := t.takeWhile isBare
    if key.isEmpty then none else some (key, t.drop key.length)

/-- The parts of a dotted key; there are fewer than the text has characters. -/
def readPath : Nat → Text → Option (List Text × Text)
  | 0, _ => none
  | fuel + 1, t => do
    let (key, t) ← readKey (blanks t)
    match blanks t with
    | '.' :: t => do
      let (keys, t) ← readPath fuel t
      return (key :: keys, t)
    | t => return ([key], t)

def isScalarChar (c : Char) : Bool := c.isAlphanum || "+-._:".toList.contains c

/-- The characters of an unquoted value; a date may be parted from its time by a space. -/
def scalarText (t : Text) : Text :=
  let first := t.takeWhile isScalarChar
  match t.drop first.length with
  | ' ' :: c :: rest =>
    if date? first = some [] ∧ c.isDigit then
      first ++ ' ' :: (c :: rest).takeWhile isScalarChar
    else first
  | _ => first

def readScalar (t : Text) : Option (Json × Text) :=
  let token := scalarText t
  (scalar? token).map fun j => (j, t.drop token.length)

def asString (read : Option (Text × Text)) : Option (Json × Text) :=
  read.map fun (s, t) => (.ofText s, t)

mutual

/-- Every step spends a unit of fuel; a text needs less than twice its length. -/
def readValue : Nat → Text → Option (Json × Text)
  | 0, _ => none
  | fuel + 1, t =>
    match t with
    | '"' :: '"' :: '"' :: t => asString (readLong false [] (dropLineEnd t))
    | '"' :: t => asString (readShort [] t)
    | '\'' :: '\'' :: '\'' :: t => asString (readLongLiteral [] (dropLineEnd t))
    | '\'' :: t => asString (readLiteral t)
    | '[' :: t => readItems fuel [] t
    | '{' :: t => readPairs fuel [] t
    | t => readScalar t

def readItems : Nat → List Json → Text → Option (Json × Text)
  | 0, _, _ => none
  | fuel + 1, done, t =>
    match gap false t with
    | none => none
    | some (']' :: t) => some (.array done.reverse, t)
    | some t =>
      match readValue fuel t with
      | none => none
      | some (j, t) =>
        match gap false t with
        | some (',' :: t) => readItems fuel (j :: done) t
        | some (']' :: t) => some (.array (j :: done).reverse, t)
        | _ => none

def readPairs : Nat → Entries → Text → Option (Json × Text)
  | 0, _, _ => none
  | fuel + 1, done, t =>
    match gap false t with
    | none => none
    | some ('}' :: t) => some (.object (fieldsOf done), t)
    | some t =>
      match readPath fuel t with
      | some (path, '=' :: t) =>
        match readValue fuel (blanks t) with
        | none => none
        | some (j, t) =>
          match done.setDotted true j path, gap false t with
          | some done, some (',' :: t) => readPairs fuel done t
          | some done, some ('}' :: t) => some (.object (fieldsOf done), t)
          | _, _ => none
      | _ => none

end

/-- Reads line by line; the current table is at the end of a path. -/
def readLines : Nat → Entries → List Text → Text → Option Entries
  | 0, _, _, _ => none
  | fuel + 1, root, path, t =>
    match gap false t with
    | none => none
    | some [] => some root
    | some ('[' :: '[' :: t) =>
      match readPath (t.length + 1) t with
      | some (keys, ']' :: ']' :: t) => do
        readLines fuel (← root.openItem keys) keys (← lineEnd false t)
      | _ => none
    | some ('[' :: t) =>
      match readPath (t.length + 1) t with
      | some (keys, ']' :: t) => do
        readLines fuel (← root.openTable keys) keys (← lineEnd false t)
      | _ => none
    | some t =>
      match readPath (t.length + 1) t with
      | some (keys, '=' :: t) => do
        let t := blanks t
        let (j, t) ← readValue (2 * t.length + 2) t
        readLines fuel (← root.atPath (·.setDotted true j keys) path) path (← lineEnd false t)
      | _ => none

/-- A mark of the byte order at the start does not count. -/
def dropMark : Text → Text
  | '\uFEFF' :: t => t
  | t => t

/-- A document as a JSON object. A key or a table that is defined twice is refused. -/
def parse? (t : Text) : Option Json :=
  let t := dropMark t
  (readLines (t.length + 1) [] [] t).map fun root => .object (fieldsOf root)

end CodeIndex.Toml
