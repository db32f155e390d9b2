import Handoff.Decimal.Shortest
import Handoff.Json.Basic
import Handoff.Text.Digits

/-! # Reading numbers

A number is a sign, a whole part without needless zeros, and perhaps a fraction and an exponent.

* `Numeral.read`: takes a number off the front of a text.
* `Numeral.value`: its value. Without fraction and exponent it is exact if it fits into 64 bits.
  Otherwise it is the product of two doubles, one nearest to the digits and one nearest to the power
  of ten; only as many digits count as fit into 64 bits.
-/

namespace Handoff.Json

/-- A number as it is written. -/
structure Numeral where
  negative : Bool
  whole : List Char
  fraction : Option (List Char)
  /-- Whether the exponent is below zero, and its digits. -/
  exponent : Option (Bool × List Char)
deriving DecidableEq, Repr

namespace Numeral

/-- The digits at the front of a text, and the rest. -/
def digits (l : List Char) : List Char × List Char :=
  (l.takeWhile Char.isDigit, l.dropWhile Char.isDigit)

/-- Takes a whole part off: a zero alone, or digits of which the first is no zero. -/
def readWhole (l : List Char) : Option (List Char × List Char) :=
  match digits l with
  | ([], _) => none
  | ('0' :: _ :: _, _) => none
  | (ds, r) => some (ds, r)

/-- Takes a fraction off, if there is a point. -/
def readFraction : List Char → Option (Option (List Char) × List Char)
  | '.' :: r =>
    match digits r with
    | ([], _) => none
    | (ds, r) => some (some ds, r)
  | r => some (none, r)

/-- Takes the digits of an exponent off. -/
def readExponentDigits (negative : Bool) (l : List Char) :
    Option (Option (Bool × List Char) × List Char) :=
  match digits l with
  | ([], _) => none
  | (ds, r) => some (some (negative, ds), r)

/-- Takes an exponent off, if there is its mark. -/
def readExponent : List Char → Option (Option (Bool × List Char) × List Char)
  | c :: r =>
    if c = 'e' || c = 'E' then
      match r with
      | '+' :: r => readExponentDigits false r
      | '-' :: r => readExponentDigits true r
      | r => readExponentDigits false r
    else some (none, c :: r)
  | [] => some (none, [])

/-- Takes a number off the front of a text. -/
def read (l : List Char) : Option (Numeral × List Char) := do
  let (negative, l) := match l with
    | '-' :: r => (true, r)
    | r => (false, r)
  let (whole, l) ← readWhole l
  let (fraction, l) ← readFraction l
  let (exponent, l) ← readExponent l
  return (⟨negative, whole, fraction, exponent⟩, l)

/-- Digits that count, as long as they fit into 64 bits after `start`, and the digits left over. -/
def fill (start : Nat) : List Char → Nat × List Char
  | [] => (start, [])
  | c :: r =>
    let n := 10 * start + (c.toNat - '0'.toNat)
    if n < 0x10000000000000000 then fill n r else (start, c :: r)

/-- The double for `digits * 10 ^ exponent`; nothing if it is too large. Below the least power of
ten that a double holds the division is done in two steps. -/
def product (digits : Nat) (exponent : Int) : Option Float :=
  let x := digits.toUInt64.toFloat
  let power (n : Nat) := (Decimal.mk 1 n).toFloat
  if 308 < exponent then if digits = 0 then some x else none
  else if 0 ≤ exponent then
    let y := x * power exponent.toNat
    if y.isInf then none else some y
  else some (descend 3 x exponent)
where
  /-- Divides by at most `10 ^ 308` at a time; after three times nothing is left. -/
  descend : Nat → Float → Int → Float
  | 0, _, _ => 0
  | n + 1, x, e =>
    if -308 ≤ e then x / (Decimal.mk 1 (-e)).toFloat
    else if x == 0 then x
    else descend n (x / (Decimal.mk 1 308).toFloat) (e + 308)

/-- The double that a number with fraction or exponent, or a very long one, stands for; nothing if
it is too large. -/
def floatValue (n : Numeral) : Option Float :=
  let (filled, dropped) := fill 0 n.whole
  let (filled, leftOver) := fill filled (n.fraction.getD [])
  let counted := (n.fraction.getD []).length - leftOver.length
  let start : Int := dropped.length - counted
  let magnitude : Option Float := match n.exponent with
    | none => product filled start
    | some (negative, ds) =>
      let e := Text.natOfDigits 10 ds
      if 0x80000000 ≤ e then if negative || filled == 0 then some 0 else none
      else product filled (if negative then start - e else start + e)
  magnitude.map fun x => if n.negative then -x else x

/-- The value of a number; nothing if it is too large. -/
def value (n : Numeral) : Option Json :=
  match n.fraction, n.exponent with
  | none, none =>
    let m := Text.natOfDigits 10 n.whole
    if n.negative then
      if 0 < m && m ≤ 0x8000000000000000 then some (int (-m)) else (floatValue n).map float
    else if m < 0x10000000000000000 then some (int m)
    else (floatValue n).map float
  | _, _ => (floatValue n).map float

end Numeral

end Handoff.Json
