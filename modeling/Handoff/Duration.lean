/-! # Spans of time

A span is a whole number of nanoseconds. Its text uses the largest unit that leaves a part before
the point, and only as many places after the point as it needs.
-/

namespace Handoff

/-- A span of time. -/
structure Duration where
  nanos : Nat
deriving DecidableEq, Repr, Inhabited

namespace Duration

/-- A span of whole milliseconds. -/
def ofMillis (n : Nat) : Duration := ⟨n * 1000000⟩

/-- A span of seconds and nanoseconds. The seconds, with those the nanoseconds fill up, have to fit
into 64 bits. -/
def ofSeconds? (seconds nanos : Nat) : Option Duration :=
  if seconds + nanos / 1000000000 < 0x10000000000000000 then some ⟨seconds * 1000000000 + nanos⟩
  else none

/-- The digits after the point, of `places` places, without zeros at the end. -/
def fraction (n places : Nat) : List Char :=
  let ds := Nat.toDigits 10 n
  let full := List.replicate (places - ds.length) '0' ++ ds
  (full.reverse.dropWhile (· == '0')).reverse

/-- The amount `n` counted in units of `10 ^ places`. -/
def inUnits (n places : Nat) : String :=
  let whole := toString (n / Nat.pow 10 places)
  match fraction (n % Nat.pow 10 places) places with
  | [] => whole
  | ds => whole ++ "." ++ String.ofList ds

/-- The text of a span: seconds if there is a whole one, else milliseconds, microseconds,
nanoseconds. -/
def text (d : Duration) : String :=
  if 1000000000 ≤ d.nanos then inUnits d.nanos 9 ++ "s"
  else if 1000000 ≤ d.nanos then inUnits d.nanos 6 ++ "ms"
  else if 1000 ≤ d.nanos then inUnits d.nanos 3 ++ "µs"
  else toString d.nanos ++ "ns"

end Duration

end Handoff
