import Handoff.Stream.Drive

/-! # Exchanges between a producer and a consumer

A producer sends the items of a script one after another, waiting where the channel is full, and
then ends the stream as the script says. A consumer reads a number of signals first, and then drives
the rest or drops the stream. Both are tasks of their own: an exchange moves on by single steps, and
which of them is next is open.

* `Exchange.produce?`, `Exchange.consume?`: the next step of each task. It is missing if the task is
  done or has to wait.
* `Exchange.Step`, `Exchange.Reachable`: all interleavings.
* `Exchange.weight_lt`: every step lowers the weight, so every run ends.
* `Exchange.run`: the run in which the consumer goes first wherever it can.
-/

namespace Handoff

/-- How a producer ends its stream. -/
inductive Ending where
  | complete
  | error (fault : StreamFault)
  /-- The emitter is dropped without a last signal. -/
  | drop
deriving DecidableEq, Repr

/-- What a producer does: it sends `item 0`, …, `item (length - 1)`, and then ends the stream. -/
structure Script (α : Type) where
  length : Nat
  item : Nat → α
  ending : Ending

/-- How far a consumer has come. -/
inductive Consumer where
  /-- So many signals are still to be read. -/
  | reading (left : Nat)
  /-- The rest is driven. -/
  | driving (summary : Summary)
  /-- The stream was driven to its end. -/
  | finished (summary : Summary)
  /-- The stream was dropped. -/
  | left
deriving DecidableEq, Repr

/-- A producer and a consumer with a channel between them. -/
structure Exchange (α : Type) where
  script : Script α
  /-- Whether the consumer drops the stream after its reads. -/
  dropping : Bool
  channel : Channel α
  /-- How many items the producer has sent. -/
  sent : Nat
  /-- Whether the producer is still at work. -/
  producing : Bool
  consumer : Consumer
  /-- What the consumer has read before driving, in its order. -/
  taken : Array (Answer α)
  log : Log α

namespace Exchange

variable {α : Type}

/-- The start of an exchange over a new channel, in which `reads` signals are read first. -/
def start (script : Script α) (channel : Channel α) (reads : Nat) (dropping : Bool) :
    Exchange α where
  script
  dropping
  channel
  sent := 0
  producing := true
  consumer := .reading reads
  taken := #[]
  log := {}

/-- The exchange with its producer gone. -/
def stopProducing (x : Exchange α) : Exchange α :=
  { x with channel := x.channel.withoutEmitter, producing := false }

/-- The exchange after the producer has tried to send its next item. -/
def sendItem? (x : Exchange α) : Option (Exchange α) :=
  match x.channel.send (.next (x.script.item x.sent)) with
  | (.done, c) => some { x with channel := c, sent := x.sent + 1 }
  | (.pending, _) => none
  | _ => some x.stopProducing

/-- The exchange after the producer has tried to send its last signal. -/
def sendLast? (x : Exchange α) (s : Signal α) : Option (Exchange α) :=
  match x.channel.send s with
  | (.pending, _) => none
  | (_, c) => some { x with channel := c.withoutEmitter, producing := false }

/-- **The producer's next step**, if it has one. -/
def produce? (x : Exchange α) : Option (Exchange α) :=
  if !x.producing then none
  else if x.sent < x.script.length then x.sendItem?
  else match x.script.ending with
    | .complete => x.sendLast? .complete
    | .error e => x.sendLast? (.error e)
    | .drop => some x.stopProducing

/-- The exchange after the consumer has read once more. -/
def read? (x : Exchange α) (left : Nat) : Option (Exchange α) :=
  match x.channel.recv with
  | (.pending, _) => none
  | (a, c) => some { x with channel := c, consumer := .reading left, taken := x.taken.push a }

/-- The exchange after the consumer has handed on one signal. -/
def hear (x : Exchange α) (summary : Summary) (s : Signal α) : Exchange α :=
  let log := x.log.tell s
  let summary := summary.count s
  if s.isLast then { x with log, consumer := .finished summary, channel := x.channel.withoutStream }
  else { x with log, consumer := .driving summary }

/-- The exchange after the consumer has driven the stream by one signal. -/
def drive? (x : Exchange α) (summary : Summary) : Option (Exchange α) :=
  match x.channel.recv with
  | (.signal s, c) => some ({ x with channel := c }.hear summary s)
  | (.pending, _) => none
  | _ => some (x.hear summary (.error .truncated))

/-- **The consumer's next step**, if it has one. -/
def consume? (x : Exchange α) : Option (Exchange α) :=
  match x.consumer with
  | .reading (left + 1) => x.read? left
  | .reading 0 =>
    some (if x.dropping then { x with consumer := .left, channel := x.channel.withoutStream }
      else { x with consumer := .driving {} })
  | .driving summary => x.drive? summary
  | .finished _ => none
  | .left => none

/-- A step of one of the two tasks. -/
inductive Step : Exchange α → Exchange α → Prop where
  | producer {x y : Exchange α} (h : x.produce? = some y) : Step x y
  | consumer {x y : Exchange α} (h : x.consume? = some y) : Step x y

/-- What some interleaving leads to. -/
inductive Reachable (x : Exchange α) : Exchange α → Prop where
  | refl : Reachable x x
  | tail {y z : Exchange α} : Reachable x y → Step y z → Reachable x z

/-! ### Every run ends -/

/-- How much the consumer still has to do, apart from the signals it has to read. -/
def Consumer.weight : Consumer → Nat
  | .reading left => left + 2
  | .driving _ => 1
  | .finished _ => 0
  | .left => 0

/-- An upper bound on the number of steps. Every signal counts twice: it is sent, and then read. -/
def weight (x : Exchange α) : Nat :=
  2 * (x.script.length - x.sent) + (if x.producing then 2 else 0) + x.channel.queue.length +
    Consumer.weight x.consumer

theorem weight_produce {x y : Exchange α} (h : x.produce? = some y) : y.weight < x.weight := by
  unfold produce? sendItem? sendLast? stopProducing Channel.send Channel.withoutEmitter at h
  unfold weight
  grind

theorem weight_consume {x y : Exchange α} (h : x.consume? = some y) : y.weight < x.weight := by
  unfold consume? read? drive? hear Channel.recv Channel.withoutStream at h
  unfold weight
  grind [Consumer.weight, Signal.isLast]

/-- **Every step lowers the weight.** -/
theorem weight_lt {x y : Exchange α} (h : Step x y) : y.weight < x.weight := by
  cases h with
  | producer h => exact weight_produce h
  | consumer h => exact weight_consume h

/-- The next step of the run in which the consumer goes first. -/
def next? (x : Exchange α) : Option (Exchange α) := x.consume? <|> x.produce?

theorem step_of_next {x y : Exchange α} (h : x.next? = some y) : Step x y := by
  unfold next? at h
  rcases hc : x.consume? with _ | z
  · rw [hc] at h; exact .producer h
  · rw [hc] at h; exact .consumer (hc.trans h)

/-- **The run in which the consumer goes first** wherever it can, up to its end. -/
def run (x : Exchange α) : Exchange α :=
  match _h : x.next? with
  | some y => run y
  | none => x
termination_by x.weight
decreasing_by exact weight_lt (step_of_next (by assumption))

end Exchange

end Handoff
