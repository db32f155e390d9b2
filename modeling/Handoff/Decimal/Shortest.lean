/-! # Decimal numbers and binary doubles

A finite double other than zero is `m * 2 ^ q`. Between it and its two neighbours lie the half-way
points; every decimal number between those points reads back as the double, and the points
themselves do if `m` is even.

* `Decimal.toBits`: the double nearest to a decimal number, a half-way point going to the even one.
* `Decimal.shortest`: of the decimal numbers that read back as a double those with the fewest
  digits, and of these the nearest. The number of digits is found by trying: the grid of numbers
  with `n` digits has two points next to the double, and if any point of the grid reads back then
  one of the two does. If the double is half-way between the two, a `Tie` tells which is taken.
-/

namespace Handoff

/-- The number `digits * 10 ^ exponent`. -/
structure Decimal where
  digits : Nat
  exponent : Int
deriving DecidableEq, Repr, Inhabited

namespace Decimal

/-- Which of two whole numbers is taken for a number half-way between them. -/
inductive Tie where
  | toEven
  | up
deriving DecidableEq, Repr

/-- The number of decimal digits of `n`. -/
def width (n : Nat) : Nat := (Nat.toDigits 10 n).length

/-- A quotient with numerator and denominator. -/
structure Quotient where
  num : Nat
  den : Nat

/-- `m * b ^ e` as a quotient. -/
def scaled (m b : Nat) (e : Int) : Quotient :=
  if 0 ≤ e then ⟨m * b.pow e.toNat, 1⟩ else ⟨m, b.pow (-e).toNat⟩

/-- The whole number nearest to `num / den`. -/
def nearest (tie : Tie) (num den : Nat) : Nat :=
  let d := num / den
  let r := 2 * (num % den)
  if r < den then d
  else if den < r then d + 1
  else match tie with
    | .toEven => d + d % 2
    | .up => d + 1

/-! ### From decimal to binary -/

/-- The bits of the nonnegative double nearest to `num / den`, where `0 < den`: infinity beyond the
largest double. With `l` the binary logarithm rounded down, the grid near the value has the step
`2 ^ (l - 52)`, but never a smaller one than `2 ^ (-1074)`. -/
def bitsOfQuotient (x : Quotient) : Nat :=
  if x.num = 0 then 0
  else
    let guess : Int := x.num.log2 - x.den.log2
    let fits := if 0 ≤ guess then x.den * Nat.pow 2 guess.toNat ≤ x.num
      else x.den ≤ x.num * Nat.pow 2 (-guess).toNat
    let l := if fits then guess else guess - 1
    let q := max (l - 52) (-1074)
    let m := if 0 ≤ q then nearest .toEven x.num (x.den * Nat.pow 2 q.toNat)
      else nearest .toEven (x.num * Nat.pow 2 (-q).toNat) x.den
    let bits := m + (q + 1074).toNat * 0x10000000000000
    min bits 0x7ff0000000000000

/-- The bits of the nonnegative double nearest to a decimal number. Numbers far beyond the largest
or far below the smallest double are told apart by their number of digits alone. -/
def toBits (d : Decimal) : UInt64 :=
  if d.digits = 0 then 0
  else if 400 < width d.digits + d.exponent then 0x7ff0000000000000
  else if width d.digits + d.exponent < -400 then 0
  else UInt64.ofNat (bitsOfQuotient (scaled d.digits 10 d.exponent))

/-- The nonnegative double nearest to a decimal number. -/
def toFloat (d : Decimal) : Float := Float.ofBits d.toBits

/-! ### From binary to decimal -/

/-- A positive finite double `m * 2 ^ q`, and whether the double below it is at half the usual
distance. -/
structure Binary where
  m : Nat
  q : Int
  closeBelow : Bool

/-- The double with these bits, its sign left out. -/
def Binary.ofBits (bits : UInt64) : Binary :=
  let fraction : Nat := bits.toNat % 0x10000000000000
  let exponent : Nat := bits.toNat / 0x10000000000000 % 0x800
  if exponent = 0 then ⟨fraction, -1074, false⟩
  else ⟨fraction + 0x10000000000000, (exponent : Int) - 1075, fraction == 0 && exponent != 1⟩

/-- Whether the number `c * step` reads back as `b`. All numbers are counted in quarters of the
double's unit. -/
def Binary.reads (b : Binary) (c : Nat) (step : Quotient) : Bool :=
  let unit := scaled 1 2 (b.q - 2)
  let x := c * step.num * unit.den
  let low := (4 * b.m - if b.closeBelow then 1 else 2) * unit.num * step.den
  let high := (4 * b.m + 2) * unit.num * step.den
  if b.m % 2 = 0 then low ≤ x && x ≤ high else low < x && x < high

/-- The decimal number with `n` digits that reads back as `b` and is nearest to it, if there is one;
`magnitude` is the number of places before the point. -/
def Binary.onGrid (b : Binary) (tie : Tie) (magnitude : Int) (n : Nat) : Option Decimal :=
  let e := magnitude - n
  let step := scaled 1 10 e
  let v := scaled b.m 2 b.q
  let num := v.num * step.den
  let den := v.den * step.num
  let below := num / den
  let first := nearest tie num den
  let other := if first = below then below + 1 else below
  if b.reads first step then some ⟨first, e⟩
  else if b.reads other step then some ⟨other, e⟩
  else none

/-- The number of places before the point of `num / den`, where it is positive; for numbers below
one the zeros after the point count negatively. -/
def magnitude (x : Quotient) : Int :=
  let guess : Int := width x.num - width x.den
  let below := if 0 ≤ guess then x.num < x.den * Nat.pow 10 guess.toNat
    else x.num * Nat.pow 10 (-guess).toNat < x.den
  if below then guess else guess + 1

/-- The decimal number without zeros at the end of its digits. -/
def trimmed (d : Decimal) : Decimal :=
  go (width d.digits) d
where
  /-- Takes away at most `n` zeros. -/
  go : Nat → Decimal → Decimal
  | 0, d => d
  | n + 1, d => if d.digits % 10 = 0 then go n ⟨d.digits / 10, d.exponent + 1⟩ else d

/-- **The shortest decimal number that reads back** as the positive finite double with these bits,
its sign left out; seventeen digits always do. -/
def shortest (tie : Tie) (bits : UInt64) : Decimal :=
  let b := Binary.ofBits bits
  let k := magnitude (scaled b.m 2 b.q)
  let found := (List.range 17).findSome? fun n => b.onGrid tie k (n + 1)
  (found.getD ⟨0, 0⟩).trimmed

end Decimal

end Handoff
