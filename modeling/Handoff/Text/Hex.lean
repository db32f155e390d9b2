/-! # Hexadecimal digits

* `hexValue?`: the number that a row of digits stands for; letters may be of either case.
* `hexDigit`: a digit, in lower case.
* `charOfCode?`: the character with a number, if there is one.
-/

namespace Handoff.Text

/-- The value of a digit. -/
def hexDigit? (c : Char) : Option Nat :=
  if '0' ≤ c ∧ c ≤ '9' then some (c.toNat - '0'.toNat)
  else if 'a' ≤ c ∧ c ≤ 'f' then some (c.toNat - 'a'.toNat + 10)
  else if 'A' ≤ c ∧ c ≤ 'F' then some (c.toNat - 'A'.toNat + 10)
  else none

/-- The number that a row of digits stands for. -/
def hexValue? (ds : List Char) : Option Nat :=
  ds.foldlM (fun n c => (hexDigit? c).map (16 * n + ·)) 0

/-- A digit, in lower case. -/
def hexDigit (n : Nat) : Char := if n < 10 then Char.ofNat (48 + n) else Char.ofNat (87 + n)

/-- The character with a number; halves of pairs are none. -/
def charOfCode? (n : Nat) : Option Char := if n.isValidChar then some (Char.ofNat n) else none

end Handoff.Text
