import Handoff.Failure

/-! # Signals

What travels through a stream: items, and at most one last signal that says how the stream ended.
-/

namespace Handoff

/-- What a producer hands to its reader. -/
inductive Signal (α : Type) where
  /-- One more item. -/
  | next (item : α)
  /-- No more items will come. -/
  | complete
  /-- The producer failed. -/
  | error (fault : StreamFault)
deriving DecidableEq, Repr

/-- Whether a signal ends its stream. -/
def Signal.isLast {α : Type} : Signal α → Bool
  | next _ => false
  | complete => true
  | error _ => true

end Handoff
