import CodeIndex.Text.Utf8

namespace CodeIndex

/-- A single-precision number as its bit pattern. Arithmetic is that of IEEE 754; an operation on a
NaN answers its first NaN operand, and an operation that has no value answers the NaN with the sign
bit set. Order between scores is the total order of IEEE 754, which tells the zeros and the NaNs
apart by their signs. -/
structure Binary32 where
  bits : UInt32
deriving DecidableEq, Inhabited

namespace Binary32

def toFloat (x : Binary32) : Float32 := Float32.ofBits x.bits

def isNaN (x : Binary32) : Bool := 0x7F800000 < (x.bits &&& 0x7FFFFFFF)

def isFinite (x : Binary32) : Bool := (x.bits &&& 0x7FFFFFFF) < 0x7F800000

def zero : Binary32 := ⟨0⟩
def negativeZero : Binary32 := ⟨0x80000000⟩
def one : Binary32 := ⟨0x3F800000⟩
def negativeInfinity : Binary32 := ⟨0xFF800000⟩

/-- The NaN that callers hand in and that every NaN is shown as. -/
def nan : Binary32 := ⟨0x7FC00000⟩

/-- The NaN of an operation on numbers that has no value. -/
def invalid : Binary32 := ⟨0xFFC00000⟩

def ofFloat (f : Float32) : Binary32 :=
  let x : Binary32 := ⟨f.toBits⟩
  if x.isNaN then invalid else x

def lift (f : Float32 → Float32 → Float32) (x y : Binary32) : Binary32 :=
  if x.isNaN then x else if y.isNaN then y else ofFloat (f x.toFloat y.toFloat)

def add : Binary32 → Binary32 → Binary32 := lift (· + ·)
def mul : Binary32 → Binary32 → Binary32 := lift (· * ·)
def div : Binary32 → Binary32 → Binary32 := lift (· / ·)

instance : Add Binary32 := ⟨add⟩
instance : Mul Binary32 := ⟨mul⟩
instance : Div Binary32 := ⟨div⟩

def sqrt (x : Binary32) : Binary32 := if x.isNaN then x else ofFloat x.toFloat.sqrt

def negate (x : Binary32) : Binary32 := ⟨x.bits ^^^ 0x80000000⟩

/-- From left to right; the empty sum is the negative zero. -/
def sum (xs : List Binary32) : Binary32 := xs.foldl (· + ·) negativeZero

def lt (x y : Binary32) : Bool := x.toFloat < y.toFloat

def ge (x y : Binary32) : Bool := y.toFloat ≤ x.toFloat

def isZero (x : Binary32) : Bool := x.bits &&& 0x7FFFFFFF == 0

/-- The greater number; a NaN gives way to a number. -/
def max (x y : Binary32) : Binary32 :=
  if x.isNaN then y else if y.isNaN then x else if x.lt y then y else x

/-- The greatest number of a list, negative infinity if there is none. -/
def maximum (xs : List Binary32) : Binary32 := xs.foldl max negativeInfinity

/-- Bounds a number to the range from zero to one; a NaN and a negative zero stay as they are. -/
def clampUnit (x : Binary32) : Binary32 :=
  if x.lt zero then zero else if one.lt x then one else x

/-- The place in the total order, from the negative NaNs to the positive ones. -/
def orderKey (x : Binary32) : Int :=
  if x.bits < 0x80000000 then x.bits.toNat else 0x7FFFFFFF - (x.bits.toNat : Int)

def totalCompare (x y : Binary32) : Ordering := compare x.orderKey y.orderKey

/-- The nearest number to a natural number that fits a machine word. -/
def ofWord (n : UInt64) : Binary32 := ofFloat n.toFloat32

/-- Rounds a double-precision number. -/
def ofDouble (x : Float) : Binary32 := ofFloat x.toFloat32

/-- The bits shown for a number; every NaN is shown the same. -/
def shown (x : Binary32) : Nat := if x.isNaN then nan.bits.toNat else x.bits.toNat

end Binary32

/-- A vector of an embedding. -/
abbrev Embedding := List Binary32

namespace Embedding

/-- Four bytes per component, the lowest first. -/
def componentBytes (x : Binary32) : Bytes :=
  [x.bits.toUInt8, (x.bits >>> 8).toUInt8, (x.bits >>> 16).toUInt8, (x.bits >>> 24).toUInt8]

def toBytes (v : Embedding) : Bytes := v.flatMap componentBytes

/-- Bytes after the last complete component are left out. -/
def ofBytes : Bytes → Embedding
  | a :: b :: c :: d :: rest =>
    ⟨a.toUInt32 ||| (b.toUInt32 <<< 8) ||| (c.toUInt32 <<< 16) ||| (d.toUInt32 <<< 24)⟩ ::
      ofBytes rest
  | _ => []

def dot (v w : Embedding) : Binary32 := Binary32.sum (v.zipWith (· * ·) w)

def norm (v : Embedding) : Binary32 := (Binary32.sum (v.map fun x => x * x)).sqrt

/-- The cosine of the angle between two vectors, zero if either has no length. -/
def cosine (v w : Embedding) : Binary32 :=
  let a := norm v
  let b := norm w
  if a.isZero || b.isZero then Binary32.zero else dot v w / (a * b)

end Embedding
end CodeIndex
