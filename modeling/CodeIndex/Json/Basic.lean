import CodeIndex.Binary32

namespace CodeIndex

namespace Json

/-- The number `mantissa * 10 ^ exponent`, negated if `negative`. -/
structure Number where
  negative : Bool
  mantissa : Nat
  exponent : Int
  whole : Bool
deriving DecidableEq, Repr

end Json

/-- A JSON value. A string that escapes half of a surrogate pair denotes no text. -/
inductive Json where
  | null
  | bool (value : Bool)
  | number (value : Json.Number)
  | string (text : Option Text)
  | array (items : List Json)
  | object (fields : List (String × Json))

namespace Json

def ofText (t : Text) : Json := .string (some t)

def ofString (s : String) : Json := ofText s.toList

def ofNat (n : Nat) : Json := .number ⟨false, n, 0, true⟩

def optional (f : α → Json) : Option α → Json
  | none => .null
  | some a => f a

namespace Number

/-- The position of the point behind which the digits start, if there are any. -/
def magnitude (n : Number) : Int := n.exponent + (toString n.mantissa).length

/-- The nearest double-precision number. -/
def toDouble (n : Number) : Float :=
  let size :=
    if n.mantissa = 0 ∨ n.magnitude < -400 then 0
    else if 400 < n.magnitude then 1 / 0
    else Float.ofScientific n.mantissa (n.exponent < 0) n.exponent.natAbs
  if n.negative then -size else size

/-- Whole numbers that fit a machine word are rounded once, all others by way of double precision;
a number too large for double precision is refused. -/
def toBinary32? (n : Number) : Option Binary32 :=
  if n.whole && n.mantissa < UInt64.size && (!n.negative || n.mantissa ≤ UInt64.size / 2) then
    let size := Binary32.ofWord n.mantissa.toUInt64
    some (if n.negative then size.negate else size)
  else
    let d := n.toDouble
    if d.isInf then none else some (.ofDouble d)

/-- The natural number that is written, if it fits a machine word. -/
def toWord? (n : Number) : Option Nat :=
  if n.whole && !n.negative && n.mantissa < UInt64.size then some n.mantissa else none

end Number

/-- The field of an object; the last one of a name counts. -/
def field? (name : String) : Json → Option Json
  | object fields => (fields.reverse.find? (·.1 == name)).map (·.2)
  | _ => none

def text? : Json → Option Text
  | string t => t
  | _ => none

def string? (j : Json) : Option String := j.text?.map String.ofList

def word? : Json → Option Nat
  | number n => n.toWord?
  | _ => none

def binary32? : Json → Option Binary32
  | number n => n.toBinary32?
  | _ => none

def bool? : Json → Option Bool
  | bool b => some b
  | _ => none

def array? : Json → Option (List Json)
  | array items => some items
  | _ => none

end Json
end CodeIndex
