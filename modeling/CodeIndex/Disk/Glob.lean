import CodeIndex.Text.Utf8

namespace CodeIndex

namespace Glob

/-- Bytes in ranges with both ends; a negated class holds all others, slashes too. -/
structure ByteClass where
  negated : Bool
  ranges : List (UInt8 × UInt8)
deriving DecidableEq, Repr

/-- A glob is matched against the bytes of a path. A question mark stands for one byte and a star
for any number of them, but neither for a slash; two stars between slashes stand for any number of
directories; brackets hold a class of bytes, and braces hold alternatives. -/
inductive Token where
  | byte (b : UInt8)
  | anyByte
  | star
  /-- Any directories at the start. -/
  | leading
  /-- Everything below a directory. -/
  | trailing
  /-- Any directories in between. -/
  | between
  | among (c : ByteClass)
  | alternatives (options : List (List Token))

def slash : UInt8 := 47

def ByteClass.has (c : ByteClass) (b : UInt8) : Bool :=
  (c.ranges.any fun r => r.1 ≤ b && b ≤ r.2) != c.negated

/-- A class whose ranges ascend. -/
def ByteClass.isSound (c : ByteClass) : Bool := c.ranges.all fun r => r.1 ≤ r.2

/-- The rests behind any number of bytes other than the slash. -/
def afterStar : Bytes → List Bytes
  | [] => [[]]
  | b :: bs => if b = slash then [b :: bs] else (b :: bs) :: afterStar bs

/-- The rests behind each slash. -/
def afterSlashes : Bytes → List Bytes
  | [] => []
  | b :: bs => if b = slash then bs :: afterSlashes bs else afterSlashes bs

def tails : Bytes → List Bytes
  | [] => [[]]
  | b :: bs => (b :: bs) :: tails bs

def afterByte (p : UInt8 → Bool) : Bytes → List Bytes
  | [] => []
  | b :: bs => if p b then [bs] else []

mutual

/-- Whether tokens stand for nothing at all. -/
def isBlank : List Token → Bool
  | [] => true
  | .alternatives options :: ts => allBlank options && isBlank ts
  | _ :: _ => false

def allBlank : List (List Token) → Bool
  | [] => true
  | o :: os => isBlank o && allBlank os

end

mutual

def rests : Token → Bytes → List Bytes
  | .byte b, bs => afterByte (· == b) bs
  | .anyByte, bs => afterByte (· != slash) bs
  | .star, bs => afterStar bs
  | .leading, bs => bs :: afterSlashes bs
  | .trailing, bs => (afterByte (· == slash) bs).flatMap tails
  | .between, bs => (afterByte (· == slash) bs).flatMap fun t => t :: afterSlashes t
  | .among c, bs => afterByte c.has bs
  | .alternatives options, bs => if allBlank options then [bs] else restsOfAny options bs

def restsOfAll : List Token → Bytes → List Bytes
  | [], bs => [bs]
  | t :: ts, bs => (rests t bs).flatMap (restsOfAll ts)

/-- Alternatives that stand for nothing are left out. -/
def restsOfAny : List (List Token) → Bytes → List Bytes
  | [], _ => []
  | o :: os, bs => (if isBlank o then [] else restsOfAll o bs) ++ restsOfAny os bs

end

/-- A lone pair of stars matches everything. -/
def isMatch (ts : List Token) (path : Bytes) : Bool :=
  match ts with
  | [.leading] => true
  | ts => (restsOfAll ts path).any List.isEmpty

/-- What is open while a glob is read: the tokens of the present branch and of those before it, and
outside of them the groups that surround it, innermost first. -/
structure Branches where
  current : List Token
  earlier : List (List Token)

structure Reading where
  here : Branches
  outer : List Branches

def start : Reading := ⟨⟨[], []⟩, []⟩

namespace Reading

def push (r : Reading) (t : Token) : Reading :=
  { r with here := { r.here with current := r.here.current ++ [t] } }

def pushChar (r : Reading) (c : Char) : Reading :=
  (Utf8.encode [c]).foldl (fun r b => r.push (.byte b)) r

/-- Puts tokens in the place of the last one. -/
def replaceLast (r : Reading) (t : Token) : Reading :=
  { r with here := { r.here with current := r.here.current.dropLast ++ [t] } }

def openGroup (r : Reading) : Reading := ⟨⟨[], []⟩, r.here :: r.outer⟩

def nextBranch (r : Reading) : Reading :=
  { r with here := ⟨[], r.here.earlier ++ [r.here.current]⟩ }

def closeGroup? (r : Reading) : Option Reading :=
  match r.outer with
  | [] => none
  | o :: outer =>
    some (Reading.push ⟨o, outer⟩ (.alternatives (r.here.earlier ++ [r.here.current])))

def inGroup (r : Reading) : Bool := !r.outer.isEmpty

def isEmpty (r : Reading) : Bool := r.here.current.isEmpty

/-- The token for stars between two slashes, or behind the last one. -/
def joinStars (r : Reading) (last : Bool) : Reading :=
  match r.here.current.getLast? with
  | some .leading => r
  | some .trailing => r
  | _ => r.replaceLast (if last then .trailing else .between)

end Reading

/-- The characters of a class; `pending` while a range waits for its end. -/
structure ClassReading where
  ranges : List (Char × Char)
  pending : Bool

/-- The rest of a class: its ranges and what follows it; `none` if it is not closed, and no ranges
if one of them is upside down. -/
def readClass (first : Bool) (done : ClassReading) :
    Text → Option (Option (List (Char × Char)) × Text)
  | [] => none
  | c :: t =>
    if c = ']' && !first then
      some (some (done.ranges ++ (if done.pending then [('-', '-')] else [])), t)
    else if done.pending then
      match done.ranges.getLast? with
      | none => none
      | some (low, _) =>
        if c < low then some (none, t)
        else readClass false ⟨done.ranges.dropLast ++ [(low, c)], false⟩ t
    else if c = '-' && !first then readClass false { done with pending := true } t
    else readClass false { done with ranges := done.ranges ++ [(c, c)] } t

/-- A range of characters as ranges of bytes: the last byte of its start up to the first one of its
end, and every other byte on its own. -/
def byteRanges (r : Char × Char) : List (UInt8 × UInt8) :=
  let singles (bs : Bytes) := bs.map fun b => (b, b)
  let low := Utf8.encode [r.1]
  if r.1 = r.2 then singles low
  else match low.getLast?, Utf8.encode [r.2] with
    | some a, b :: more => singles low.dropLast ++ (a, b) :: singles more
    | _, _ => []

def classOf (negated : Bool) (ranges : List (Char × Char)) : ByteClass :=
  ⟨negated, ranges.flatMap byteRanges⟩

def splitNegation : Text → Bool × Text
  | '!' :: t => (true, t)
  | '^' :: t => (true, t)
  | t => (false, t)

/-- Reads characters into tokens; `previous` is the character before them. A bracket that is not
closed stands for itself; a brace that is not closed or not opened, and a backslash at the end,
are refused. Every character spends a unit of fuel. -/
def read : Nat → Option Char → Reading → Text → Option (List Token)
  | 0, _, _, _ => none
  | _ + 1, _, r, [] => if r.inGroup then none else some r.here.current
  | fuel + 1, previous, r, c :: t =>
    match c, t with
    | '?', t => read fuel (some '?') (r.push .anyByte) t
    | '*', '*' :: t =>
      let plain := read fuel (some '*') ((r.push .star).push .star) t
      if r.isEmpty then
        match t with
        | [] => read fuel (some '*') (r.push .leading) []
        | '/' :: t => read fuel (some '/') (r.push .leading) t
        | _ => plain
      else if previous != some '/' then plain
      else
        match t with
        | [] => read fuel (some '*') (r.joinStars true) []
        | '/' :: t => read fuel (some '/') (r.joinStars false) t
        | d :: _ =>
          if r.inGroup && (d == ',' || d == '}') then read fuel (some '*') (r.joinStars true) t
          else plain
    | '*', t => read fuel (some '*') (r.push .star) t
    | '[', t =>
      let (negated, body) := splitNegation t
      match readClass true ⟨[], false⟩ body with
      | none => read fuel (some '[') (r.pushChar '[') t
      | some (none, _) => none
      | some (some ranges, t) => read fuel (some ']') (r.push (.among (classOf negated ranges))) t
    | '{', t => read fuel (some '{') r.openGroup t
    | '}', t => r.closeGroup?.bind fun r => read fuel (some '}') r t
    | ',', t => read fuel (some ',') (if r.inGroup then r.nextBranch else r.pushChar ',') t
    | '\\', [] => none
    | '\\', d :: t => read fuel (some d) (r.pushChar d) t
    | c, t => read fuel (some c) (r.pushChar c) t

def parse? (t : Text) : Option (List Token) := read (t.length + 1) none start t

mutual

/-- Whether the ranges of all classes ascend. -/
def isSound : List Token → Bool
  | [] => true
  | .among c :: ts => c.isSound && isSound ts
  | .alternatives options :: ts => allSound options && isSound ts
  | _ :: ts => isSound ts

def allSound : List (List Token) → Bool
  | [] => true
  | o :: os => isSound o && allSound os

end

end Glob
end CodeIndex
