import CodeIndex.Json.Basic
import CodeIndex.Blake3
import CodeIndex.Text.Lines

namespace CodeIndex.Json

def escapeChar (c : Char) : Text :=
  match c with
  | '"' => ['\\', '"']
  | '\\' => ['\\', '\\']
  | '\n' => ['\\', 'n']
  | '\r' => ['\\', 'r']
  | '\t' => ['\\', 't']
  | c =>
    if c.toNat = 8 then ['\\', 'b']
    else if c.toNat = 12 then ['\\', 'f']
    else if c.toNat < 32 then
      ['\\', 'u', '0', '0', Blake3.hexDigit (c.toNat / 16), Blake3.hexDigit (c.toNat % 16)]
    else [c]

def quote (t : Text) : Text := '"' :: t.flatMap escapeChar ++ ['"']

/-- The digits of a mantissa without the zeros at its end, and how many those were. -/
def strip (digits : Text) : Text × Nat :=
  let zeros := (digits.reverse.takeWhile (· == '0')).length
  (digits.take (digits.length - zeros), zeros)

/-- Positional from a hundred thousandth up to sixteen digits before the point, scientific
beyond. -/
def renderDecimal (n : Number) : Text :=
  if n.mantissa = 0 then ['0', '.', '0']
  else
    let (digits, zeros) := strip (toString n.mantissa).toList
    let exponent := n.exponent + zeros
    let point := exponent + digits.length
    if 0 ≤ exponent ∧ point ≤ 16 then digits ++ List.replicate exponent.toNat '0' ++ ['.', '0']
    else if 0 < point ∧ point ≤ 16 then
      digits.take point.toNat ++ ['.'] ++ digits.drop point.toNat
    else if -5 < point ∧ point ≤ 0 then
      ['0', '.'] ++ List.replicate (-point).toNat '0' ++ digits
    else
      digits.take 1 ++ (if digits.length = 1 then [] else '.' :: digits.drop 1) ++
        'e' :: (toString (point - 1)).toList

def Number.render (n : Number) : Text :=
  (if n.negative then ['-'] else []) ++
    if n.whole ∧ n.mantissa < UInt64.size then (toString n.mantissa).toList else renderDecimal n

mutual

/-- JSON without blanks. The fields of an object are written in the order of their names. -/
def render : Json → Text
  | null => "null".toList
  | bool b => (toString b).toList
  | number n => n.render
  | string t => quote (t.getD [])
  | array items => '[' :: Text.joinWith [','] (renderItems items) ++ [']']
  | object fields =>
    let written := (renderFields fields).mergeSort fun a b => (compare a.1 b.1).isLE
    '{' :: Text.joinWith [','] (written.map fun f => quote f.1.toList ++ ':' :: f.2) ++ ['}']

def renderItems : List Json → List Text
  | [] => []
  | j :: js => render j :: renderItems js

def renderFields : List (String × Json) → List (String × Text)
  | [] => []
  | (name, j) :: fs => (name, render j) :: renderFields fs

end

end CodeIndex.Json
