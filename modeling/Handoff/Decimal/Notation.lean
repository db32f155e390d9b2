import Handoff.Decimal.Shortest

/-! # Doubles as text

A double is written with the fewest digits that read back. A notation says which magnitudes are
written out, how an exponent is written, and which of two equally near numbers is taken.

* `FloatNotation.document`: the notation of structured values: written out from `0.00001` up to
  below `10 ^ 16`, with an exponent beyond; a half goes to the even digit.
* `FloatNotation.plain`: always written out; a half goes up.
-/

namespace Handoff

/-- How doubles are written. -/
structure FloatNotation where
  /-- The least and the greatest number of places before the point that are written out; zeros
  after the point count negatively. `none` has no bound. -/
  writtenOut : Option (Int × Int)
  /-- The last digit of a double that is half-way between two numbers of the same length. -/
  tie : Decimal.Tie

namespace FloatNotation

/-- Written out from `0.00001` up to below `10 ^ 16`; a half goes to the even digit. -/
def document : FloatNotation := ⟨some (-4, 16), .toEven⟩

/-- Always written out; a half goes up. -/
def plain : FloatNotation := ⟨none, .up⟩

/-- Digits with a point after `places` of them; at least one digit stands on either side. -/
def pointed (digits : List Char) (places : Int) : List Char :=
  if places ≤ 0 then '0' :: '.' :: (List.replicate (-places).toNat '0' ++ digits)
  else
    let n := places.toNat
    if digits.length ≤ n then digits ++ List.replicate (n - digits.length) '0' ++ ['.', '0']
    else digits.take n ++ '.' :: digits.drop n

/-- Digits with a point after the first of them, if there are more, and an exponent with a sign. -/
def withExponent (digits : List Char) (e : Int) : List Char :=
  let mantissa := match digits with
    | [] => []
    | [d] => [d]
    | d :: r => d :: '.' :: r
  let sign := if e < 0 then '-' else '+'
  mantissa ++ 'e' :: sign :: Nat.toDigits 10 e.natAbs

/-- The text of a positive decimal number. -/
def decimal (f : FloatNotation) (d : Decimal) : List Char :=
  let digits := Nat.toDigits 10 d.digits
  let places := digits.length + d.exponent
  let out := match f.writtenOut with
    | none => true
    | some (least, greatest) => least ≤ places && places ≤ greatest
  if out then pointed digits places else withExponent digits (places - 1)

/-- The text of a double. -/
def text (f : FloatNotation) (x : Float) : String :=
  let bits := x.toBits
  let sign := if bits >>> 63 = 1 then "-" else ""
  if x.isNaN then "NaN"
  else if x.isInf then sign ++ "inf"
  else if x == 0 then sign ++ "0.0"
  else sign ++ String.ofList (f.decimal (Decimal.shortest f.tie bits))

end FloatNotation

end Handoff
