import Handoff.Stream.Signal

/-! # Channels

A channel is a bounded queue of signals between two ends: the emitter, which sends, and the stream,
which receives. The last signal uses up the emitter. The stream can be closed, after which nothing
more is sent but what is queued can still be read; dropping it discards the queue.

* `Channel.open?`: a new channel. A capacity of zero is raised to one.
* `Channel.apply`: one operation, tried once and without waiting. Where it would have to wait, the
  answer is `pending` and no signal is moved.
-/

namespace Handoff

/-- How the receiving end stands. -/
inductive Receiver where
  /-- Signals are taken. -/
  | listening
  /-- Signals are no longer taken; queued ones can be read. -/
  | closed
  /-- The end is gone. -/
  | dropped
deriving DecidableEq, Repr

/-- A bounded queue between an emitter and a stream. -/
structure Channel (α : Type) where
  /-- The greatest number of queued signals. -/
  capacity : Nat
  /-- The queued signals, the oldest first. -/
  queue : List (Signal α)
  /-- Whether the emitter is still held. -/
  emitting : Bool
  receiver : Receiver
deriving DecidableEq, Repr

/-- What can be done with the ends of a channel. -/
inductive Operation (α : Type) where
  /-- Sends an item. -/
  | next (item : α)
  /-- Sends the completion; uses up the emitter. -/
  | complete
  /-- Sends a failure; uses up the emitter. -/
  | error (fault : StreamFault)
  /-- Reads a signal. -/
  | recv
  /-- Closes the stream. -/
  | close
  /-- Drops the emitter. -/
  | dropEmitter
  /-- Drops the stream. -/
  | dropStream
deriving DecidableEq, Repr

/-- What came of an operation. -/
inductive Answer (α : Type) where
  /-- It was done. -/
  | done
  /-- Nobody takes signals any more. -/
  | refused
  /-- It would have to wait; no signal was moved. -/
  | pending
  /-- The signal that was read. -/
  | signal (s : Signal α)
  /-- The queue is empty and nothing more will come. -/
  | closed
  /-- The end that the operation needs is gone. -/
  | gone
deriving DecidableEq, Repr

namespace Channel

/-- The largest capacity of a channel. -/
def maxCapacity : Nat := 0x1fffffffffffffff

/-- A new channel, unless the capacity is beyond the largest. -/
def open? (α : Type) (capacity : Nat) : Option (Channel α) :=
  if max capacity 1 ≤ maxCapacity then some ⟨max capacity 1, [], true, .listening⟩ else none

variable {α : Type}

/-- **Tries to queue a signal.** -/
def send (c : Channel α) (s : Signal α) : Answer α × Channel α :=
  if c.receiver ≠ .listening then (.refused, c)
  else if c.queue.length < c.capacity then (.done, { c with queue := c.queue ++ [s] })
  else (.pending, c)

/-- The channel without emitter. -/
def withoutEmitter (c : Channel α) : Channel α := { c with emitting := false }

/-- Tries to queue a last signal; the emitter is used up in any case. -/
def finish (c : Channel α) (s : Signal α) : Answer α × Channel α :=
  let (a, c) := c.send s
  (a, c.withoutEmitter)

/-- **Tries to read a signal.** -/
def recv (c : Channel α) : Answer α × Channel α :=
  match c.queue with
  | s :: r => (.signal s, { c with queue := r })
  | [] => (if c.emitting ∧ c.receiver = .listening then .pending else .closed, c)

/-- The channel with its stream closed. -/
def close (c : Channel α) : Channel α := { c with receiver := .closed }

/-- The channel without stream. -/
def withoutStream (c : Channel α) : Channel α := { c with queue := [], receiver := .dropped }

/-- An operation of the emitter. -/
def ifEmitting (c : Channel α) (f : Channel α → Answer α × Channel α) : Answer α × Channel α :=
  if c.emitting then f c else (.gone, c)

/-- An operation of the stream. -/
def ifReadable (c : Channel α) (f : Channel α → Answer α × Channel α) : Answer α × Channel α :=
  if c.receiver = .dropped then (.gone, c) else f c

/-- **One operation, tried once and without waiting.** -/
def apply (c : Channel α) : Operation α → Answer α × Channel α
  | .next x => c.ifEmitting (·.send (.next x))
  | .complete => c.ifEmitting (·.finish .complete)
  | .error e => c.ifEmitting (·.finish (.error e))
  | .dropEmitter => c.ifEmitting fun c => (.done, c.withoutEmitter)
  | .recv => c.ifReadable recv
  | .close => c.ifReadable fun c => (.done, c.close)
  | .dropStream => c.ifReadable fun c => (.done, c.withoutStream)

/-- Operations one after another: the answers and the channel afterwards. -/
def applyAll (c : Channel α) : List (Operation α) → List (Answer α) × Channel α
  | [] => ([], c)
  | o :: os =>
    let (a, c) := c.apply o
    let (as', c) := c.applyAll os
    (a :: as', c)

end Channel

end Handoff
