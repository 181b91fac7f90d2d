import CodeIndex.Json.Reader
import CodeIndex.Text.Lines

namespace CodeIndex.Toml

def isBinary (c : Char) : Bool := c == '0' || c == '1'

def isOctal (c : Char) : Bool := '0' ≤ c && c ≤ '7'

def isHex (c : Char) : Bool := (Json.hexValue? c).isSome

/-- Digits without the underscores, each of which must stand between two digits. -/
def digits? (isDigit : Char → Bool) (t : Text) : Option Text :=
  let groups := Text.splitAt (· == '_') t
  if groups.all fun g => !g.isEmpty && g.all isDigit then some groups.flatten else none

def valueIn (base : Nat) (digits : Text) : Nat :=
  digits.foldl (fun n c => n * base + (Json.hexValue? c).getD 0) 0

def noLeadingZero (digits : Text) : Bool := digits.length == 1 || digits.head? != some '0'

/-- Whole numbers are kept as far as they fit into 128 bits. -/
def wholeNumber? (negative : Bool) (n : Nat) : Option Json :=
  if n < (if negative then Nat.pow 2 127 + 1 else Nat.pow 2 128) then
    some (.number ⟨negative && n ≠ 0, n, 0, true⟩)
  else none

def sign (t : Text) : Bool × Text :=
  match t with
  | '-' :: t => (true, t)
  | '+' :: t => (false, t)
  | t => (false, t)

def integer? (t : Text) : Option Json :=
  match t with
  | '0' :: 'x' :: t => (digits? isHex t).bind fun ds => wholeNumber? false (valueIn 16 ds)
  | '0' :: 'o' :: t => (digits? isOctal t).bind fun ds => wholeNumber? false (valueIn 8 ds)
  | '0' :: 'b' :: t => (digits? isBinary t).bind fun ds => wholeNumber? false (valueIn 2 ds)
  | t =>
    let (negative, t) := sign t
    (digits? Char.isDigit t).bind fun ds =>
      if noLeadingZero ds then wholeNumber? negative (valueIn 10 ds) else none

def isExponentMark (c : Char) : Bool := c == 'e' || c == 'E'

def exponent? (t : Text) : Option Int :=
  let (negative, t) := sign t
  (digits? Char.isDigit t).map fun ds =>
    if negative then -(valueIn 10 ds : Int) else valueIn 10 ds

/-- The digits before and after the point, if there is one. -/
def mantissa? (t : Text) : Option (Text × Text) :=
  match Text.splitAt (· == '.') t with
  | [whole] => (digits? Char.isDigit whole).map fun ds => (ds, [])
  | [whole, fraction] => do return (← digits? Char.isDigit whole, ← digits? Char.isDigit fraction)
  | _ => none

def fractionNumber? (negative : Bool) (mantissa : Text) (exponent : Int) : Option Json := do
  let (whole, fraction) ← mantissa? mantissa
  let n : Json.Number :=
    ⟨negative, valueIn 10 (whole ++ fraction), exponent - fraction.length, false⟩
  if noLeadingZero whole && !n.toDouble.isInf then some (.number n) else none

/-- A number with a fraction, an exponent or both. The values that are no numbers count as zero. -/
def float? (t : Text) : Option Json :=
  let (negative, t) := sign t
  if t = "inf".toList ∨ t = "nan".toList then some (.number ⟨negative, 0, 0, false⟩)
  else
    let mantissa := t.takeWhile fun c => !isExponentMark c
    match t.drop mantissa.length with
    | [] => if mantissa.contains '.' then fractionNumber? negative mantissa 0 else none
    | _ :: exponent => (exponent? exponent).bind (fractionNumber? negative mantissa)

/-- A number of exactly so many digits, and what follows it. -/
def fixed? (count : Nat) (t : Text) : Option (Nat × Text) :=
  let ds := t.take count
  if ds.length = count ∧ ds.all Char.isDigit then some (valueIn 10 ds, t.drop count) else none

def expect (c : Char) : Text → Option Text
  | d :: t => if c = d then some t else none
  | [] => none

def isLeap (year : Nat) : Bool := (year % 4 == 0 && year % 100 != 0) || year % 400 == 0

def daysIn (year month : Nat) : Nat :=
  if month = 2 then (if isLeap year then 29 else 28)
  else if month = 4 ∨ month = 6 ∨ month = 9 ∨ month = 11 then 30
  else 31

def date? (t : Text) : Option Text := do
  let (year, t) ← fixed? 4 t
  let (month, t) ← fixed? 2 (← expect '-' t)
  let (day, t) ← fixed? 2 (← expect '-' t)
  if 1 ≤ month ∧ month ≤ 12 ∧ 1 ≤ day ∧ day ≤ daysIn year month then some t else none

def fraction? : Text → Option Text
  | '.' :: t =>
    let ds := t.takeWhile Char.isDigit
    if ds.isEmpty then none else some (t.drop ds.length)
  | t => some t

/-- The seconds may be missing, and with them their fraction. -/
def time? (t : Text) : Option Text := do
  let (hour, t) ← fixed? 2 t
  let (minute, t) ← fixed? 2 (← expect ':' t)
  if 24 ≤ hour ∨ 60 ≤ minute then none
  match t with
  | ':' :: t =>
    let (second, t) ← fixed? 2 t
    if 60 < second then none else fraction? t
  | t => some t

def offset? : Text → Option Text
  | [] => some []
  | c :: t =>
    if c = 'Z' ∨ c = 'z' then some t
    else if c = '+' ∨ c = '-' then do
      let (hour, t) ← fixed? 2 t
      let (minute, t) ← fixed? 2 (← expect ':' t)
      if 24 ≤ hour ∨ 60 ≤ minute then none else some t
    else none

def isDateTime (t : Text) : Bool :=
  let rest := match date? t with
    | some [] => some []
    | some (c :: t) =>
      if c = 'T' ∨ c = 't' ∨ c = ' ' then (time? t).bind offset? else none
    | none => time? t
  rest == some []

/-- An unquoted value. Of a date or a time it only matters that it is one, so that it becomes an
object whose only field has no name and holds nothing. -/
def scalar? (t : Text) : Option Json :=
  if t = "true".toList then some (.bool true)
  else if t = "false".toList then some (.bool false)
  else (integer? t).or ((float? t).or (if isDateTime t then some (.object [("", .null)]) else none))

end CodeIndex.Toml
