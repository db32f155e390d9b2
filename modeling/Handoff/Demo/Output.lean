/-! # What a demonstration leaves behind

A demonstration writes a text and ends with a status.
-/

namespace Handoff.Demo

/-- The text that was written, and the status. -/
structure Output where
  text : String
  status : Nat
deriving DecidableEq, Repr

namespace Output

/-- A run that came to its end. -/
def success (text : String) : Output := ⟨text, 0⟩

/-- A run that ended with a failure. -/
def failure (text : String) : Output := ⟨text, 1⟩

/-- A run that broke off. -/
def aborted (text : String) : Output := ⟨text, 101⟩

end Output

/-- A heading. -/
def heading (title : String) : String := "=== " ++ title ++ " ===\n"

/-- Numbered lines. -/
def numbered (n : Nat) : List String → String
  | [] => ""
  | p :: ps => toString n ++ ". " ++ p ++ "\n" ++ numbered (n + 1) ps

/-- The lines with which a demonstration ends. -/
def keyPoints (points : List String) : String :=
  "\n" ++ heading "Key Points" ++ numbered 1 points

end Handoff.Demo
