/-! # Rows of decimal digits

* `natOfDigits`: the number that a row of digits stands for.
-/

namespace Handoff.Text

/-- The number that a row of digits stands for, to a base; digits beyond nine are not read. -/
def natOfDigits (base : Nat) (ds : List Char) : Nat :=
  ds.foldl (fun n c => base * n + (c.toNat - '0'.toNat)) 0

end Handoff.Text
