import CodeIndex.Http.HostName

namespace CodeIndex

/-- A URL with a host, in the normal form that is sent: the scheme and the host in lower case, the
port only if it is not the one of the scheme, and the path without dots and percent-encoded. -/
structure Url where
  scheme : Text
  host : Text
  port : Option Nat
  path : Text
  query : Option Text
deriving DecidableEq, Repr

namespace Url

/-- The schemes whose form is known, each with its port. -/
def knownSchemes : List (String × Nat) :=
  [("http", 80), ("https", 443), ("ws", 80), ("wss", 443), ("ftp", 21)]

def defaultPort (scheme : Text) : Option Nat := knownSchemes.lookup (String.ofList scheme)

def isKnown (scheme : Text) : Bool := (defaultPort scheme).isSome

/-- Control characters and spaces around a URL do not count, nor do tabs and line ends in it. -/
def clean (t : Text) : Text :=
  let isEdge (c : Char) := c.toNat ≤ 0x20
  ((t.dropWhile isEdge).reverse.dropWhile isEdge).reverse.filter
    fun c => c != '\t' && c != '\n' && c != '\r'

def isSchemeChar (c : Char) : Bool := c.isAlphanum || c == '+' || c == '-' || c == '.'

/-- The scheme and what follows its colon. -/
def scheme? (t : Text) : Option (Text × Text) :=
  let scheme := t.takeWhile isSchemeChar
  match scheme, t.drop scheme.length with
  | c :: _, ':' :: rest => if c.isAlpha then some (scheme.map Char.toLower, rest) else none
  | _, _ => none

/-- Whether a character ends the part with the host; a backslash counts as a slash in known
schemes. -/
def endsAuthority (known : Bool) (c : Char) : Bool :=
  c == '/' || c == '?' || c == '#' || (known && c == '\\')

/-- What follows the last at sign, before which the name of a user stands. -/
def dropUser (t : Text) : Text := (t.reverse.takeWhile (· != '@')).reverse

/-- The host and the port; a colon within brackets does not part them. -/
def splitPort (bracketed : Bool) : Text → Text × Option Text
  | [] => ([], none)
  | ':' :: t =>
    if bracketed then
      let (host, port) := splitPort true t
      (':' :: host, port)
    else ([], some t)
  | c :: t =>
    let inside := if c = '[' then true else if c = ']' then false else bracketed
    let (host, port) := splitPort inside t
    (c :: host, port)

def portLimit : Nat := UInt16.size

/-- A port as it is kept: not at all if it is empty or the one of the scheme. -/
def readPort (scheme : Text) : Option Text → Option (Option Nat)
  | none => some none
  | some [] => some none
  | some digits =>
    let n := digits.foldl (fun n c => n * 10 + (c.toNat - 48)) 0
    if digits.all Char.isDigit && n < portLimit then
      some (if defaultPort scheme = some n then none else some n)
    else none

def isPathReserved (c : Char) : Bool := " \"<>`#?{}".toList.contains c

def isQueryReserved (known : Bool) (c : Char) : Bool :=
  " \"#<>".toList.contains c || (known && c == '\'')

/-- A segment with the encoded dots decoded. -/
def plainDots : Text → Text
  | '%' :: '2' :: c :: t =>
    if c = 'e' ∨ c = 'E' then '.' :: plainDots t else '%' :: '2' :: plainDots (c :: t)
  | c :: t => c :: plainDots t
  | [] => []

/-- The segments of a path after those of `done`; one dot stays, two dots go back. -/
def resolve (done : List Text) : List Text → List Text
  | [] => done
  | [last] =>
    match plainDots last with
    | ['.'] => done ++ [[]]
    | ['.', '.'] => done.dropLast ++ [[]]
    | _ => done ++ [Percent.encode isPathReserved last]
  | segment :: rest =>
    match plainDots segment with
    | ['.'] => resolve done rest
    | ['.', '.'] => resolve done.dropLast rest
    | _ => resolve (done ++ [Percent.encode isPathReserved segment]) rest

def normalPath (known : Bool) (t : Text) : Text :=
  match t with
  | [] => if known then ['/'] else []
  | _ :: t =>
    let segments := Text.splitAt (fun c => c == '/' || (known && c == '\\')) t
    '/' :: Text.joinWith ['/'] (resolve [] segments)

def queryOf (known : Bool) : Text → Option Text
  | '?' :: t => some (Percent.encode (isQueryReserved known) (t.takeWhile (· != '#')))
  | _ => none

def parse? (t : Text) : Option Url := do
  let (scheme, t) ← scheme? (clean t)
  let known := isKnown scheme
  if scheme = "file".toList then none
  let t ←
    if known then some (t.dropWhile fun c => c == '/' || c == '\\')
    else match t with
      | '/' :: '/' :: t => some t
      | _ => none
  let authority := t.takeWhile fun c => !endsAuthority known c
  let t := t.drop authority.length
  let (host, port) := splitPort false (dropUser authority)
  let host ← if known then HostName.ofText? host else HostName.opaqueOf? host
  let port ← readPort scheme port
  let path := t.takeWhile fun c => c != '?' && c != '#'
  return ⟨scheme, host, port, normalPath known path, queryOf known (t.drop path.length)⟩

/-- The URL with another port. -/
def withPort (u : Url) (port : Nat) : Url :=
  { u with port := if defaultPort u.scheme = some port then none else some port }

/-- The host with the port, as a request names it. -/
def authority (u : Url) : Text :=
  u.host ++ match u.port with
    | none => []
    | some p => ':' :: (toString p).toList

/-- The path with the query, as a request names it. -/
def target (u : Url) : Text :=
  u.path ++ match u.query with
    | none => []
    | some q => '?' :: q

end Url
end CodeIndex
