import Handoff.Stream.Channel

/-! # Driving a stream

To drive a stream is to hand each of its signals to a subscriber until the first last one. A stream
that ends without one is reported as truncated.

* `Log`: a subscriber that remembers what it was told.
* `Drive.hear`: one signal is handed on.
* `drive`: a whole stream, given as its signals and whether more can come after them.
* `Channel.drive`: the stream of a channel, as far as it goes without waiting.
-/

namespace Handoff

/-- What a subscriber was told. -/
structure Log (α : Type) where
  /-- The items, in their order. -/
  received : Array α := #[]
  /-- How often a stream was completed. -/
  completions : Nat := 0
  /-- How other streams ended, in their order. -/
  errors : Array StreamFault := #[]
deriving DecidableEq, Repr

/-- What one stream handed on. -/
structure Summary where
  items : Nat := 0
  completed : Bool := false
  errored : Bool := false
deriving DecidableEq, Repr

namespace Log

variable {α : Type}

/-- The log with one more signal. -/
def tell (l : Log α) : Signal α → Log α
  | .next x => { l with received := l.received.push x }
  | .complete => { l with completions := l.completions + 1 }
  | .error e => { l with errors := l.errors.push e }

end Log

namespace Summary

variable {α : Type}

/-- The summary with one more signal. -/
def count (s : Summary) : Signal α → Summary
  | .next _ => { s with items := s.items + 1 }
  | .complete => { s with completed := true }
  | .error _ => { s with errored := true }

/-- Whether a last signal was counted. -/
def isOver (s : Summary) : Bool := s.completed || s.errored

end Summary

/-- How far driving has come. -/
structure Drive (α : Type) where
  log : Log α
  summary : Summary
deriving DecidableEq, Repr

namespace Drive

variable {α : Type}

/-- The start of a stream. -/
def start (l : Log α) : Drive α := ⟨l, {}⟩

/-- Hands one signal on. -/
def hear (d : Drive α) (s : Signal α) : Drive α := ⟨d.log.tell s, d.summary.count s⟩

/-- Hands signals on up to the first last one. -/
def hearAll (d : Drive α) : List (Signal α) → Drive α
  | [] => d
  | s :: r => if s.isLast then d.hear s else (d.hear s).hearAll r

/-- The stream has ended: if no last signal came, it was truncated. -/
def close (d : Drive α) : Drive α :=
  if d.summary.isOver then d else d.hear (.error .truncated)

end Drive

/-- **Drives a stream**, which is given as its signals and whether more can come after them. In that
case the summary may not be over: then the subscriber waits. -/
def drive {α : Type} (l : Log α) (signals : List (Signal α)) (more : Bool) : Drive α :=
  let d := (Drive.start l).hearAll signals
  if more then d else d.close

/-- Drives the stream of a channel as far as it goes without waiting; then the stream is dropped.
Nothing is driven if the stream is gone. -/
def Channel.drive? {α : Type} (c : Channel α) (l : Log α) : Option (Drive α × Channel α) :=
  if c.receiver = .dropped then none
  else
    let more : Bool := c.emitting ∧ c.receiver = .listening
    some (Handoff.drive l c.queue more, c.withoutStream)

end Handoff
