import Handoff.Config.Basic
import Handoff.Demo.Output
import Handoff.Stream.Range

/-! # The demonstration of push streams

A range is published and driven to its end.
-/

namespace Handoff.Demo

/-- A list of numbers between brackets. -/
def numbersText (ns : List Nat) : String := "[" ++ ", ".intercalate (ns.map toString) ++ "]"

/-- A summary with the names of its parts. -/
def summaryText (s : Summary) : String :=
  "StreamSummary \x7b items: " ++ toString s.items ++ ", completed: " ++ toString s.completed ++
    ", errored: " ++ toString s.errored ++ " \x7d"

/-- What is written about a stream that was driven. -/
def driveText (l : Log Nat) (s : Summary) : String :=
  "Received: " ++ numbersText l.received.toList ++ "\n" ++
    "Completions: " ++ toString l.completions ++ "\n" ++
    "Summary: " ++ summaryText s ++ "\n"

/-- **The demonstration.** It breaks off if no channel can have the configured capacity. -/
def streamOutput (c : StreamConfig) : Output :=
  let opening := heading "Push Stream" ++ "\n"
  match publishRange? c.count c.capacity 0 false with
  | none => .aborted opening
  | some x =>
    let x := x.run
    match x.consumer with
    | .finished s => .success <| opening ++ driveText x.log s ++
        keyPoints ["Items, completion and errors travel through one channel",
          "complete() and error() consume the emitter: one terminal signal",
          "A producer that vanishes shows up as a truncated stream"]
    | _ => .aborted opening

end Handoff.Demo
