import Handoff.Deferred.Greeting
import Handoff.Demo.Output
import Handoff.Text.UpperCase

/-! # The demonstration of deferred values

A greeting is composed of two halves; then its second half is turned into a shout, step by step.
-/

namespace Handoff.Demo

open Deferred

/-- A text in upper case, without the points at its end. -/
def shout (s : String) : String :=
  Text.upper (String.ofList (s.toList.reverse.dropWhile (· == '.')).reverse)

/-- Makes the tasks of a shout; the number of the one that yields it. -/
def composeShout (x : Executor String) (s : String) : Nat × Executor String :=
  let (start, x) := x.make (.completed s)
  let (loud, x) := x.make (.andThen start fun t => ⟨0, .ok (shout t)⟩)
  x.make (.map loud fun t => .ok (t ++ "!"))

/-- The line on what a task has yielded; nothing on a failure. -/
def resultLine : Option (Outcome String) → String
  | some (.ok s) => "Result: " ++ s ++ "\n"
  | _ => ""

/-- **The demonstration.** -/
def deferredOutput (c : DeferredConfig) : Output :=
  let (i, x) := composeGreeting {} c
  let (greeting, x) := x.get i
  let (j, x) := composeShout x c.tail
  let (loud, _) := x.get j
  .success <| heading "Deferred Value Composition" ++ "\n" ++ resultLine greeting ++ "\n" ++
    heading "Sequential Composition" ++ resultLine loud ++
    keyPoints ["A deferred value is read once: get() consumes the handle",
      "combine() waits for both inputs, which run concurrently",
      "A panicking producer surfaces as an error, not a crash"]

end Handoff.Demo
