import Handoff.Stream.Exchange

/-! # The range publisher

A producer that publishes `0`, …, `count - 1` and completes.
-/

namespace Handoff

/-- The script of the range publisher. -/
def Script.range (count : Nat) : Script Nat := ⟨count, id, .complete⟩

/-- **The exchange in which a range is published** over a new channel: `reads` signals are read, and
then the rest is driven, or dropped. -/
def publishRange? (count capacity reads : Nat) (dropping : Bool) : Option (Exchange Nat) :=
  (Channel.open? Nat capacity).map fun c => .start (.range count) c reads dropping

end Handoff
