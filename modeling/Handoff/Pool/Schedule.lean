import Handoff.Pool.World

/-! # A schedule with a virtual clock

The moves of a world leave open which thread is next and when limits are up. This is one schedule of
many: a client goes before the workers, and computing takes no time, so the clock only moves when
every thread has to wait, and then to the end of the nearest limit.

* `Schedule.next?`: the next move of the schedule.
* `Schedule.runClient`: moves until a client is done.
-/

namespace Handoff.Pool

/-- When a thread stops waiting. -/
structure Deadline where
  thread : Thread
  due : Nat
deriving DecidableEq, Repr

/-- A world with a clock, in nanoseconds. -/
structure Schedule (ν : Type) where
  world : World ν := {}
  now : Nat := 0
  /-- The limits of the threads that wait. -/
  deadlines : List Deadline := []

namespace Schedule

variable {ν : Type}

/-- The threads of a world: the clients before the workers. -/
def threads (w : World ν) : List Thread :=
  (List.range w.clients.length).map .client ++
    w.pools.zipIdx.flatMap fun (q, p) => (List.range q.workers.length).map (.worker p)

/-- The schedule after a move of a thread, which then waits no longer. -/
def moved (s : Schedule ν) (t : Thread) (w : World ν) : Schedule ν :=
  { s with world := w, deadlines := s.deadlines.filter (·.thread ≠ t) }

/-- The moves that need no clock, in the order in which they are tried. A limit of zero is up at
once. -/
def moves (w : World ν) : List Move :=
  (threads w).flatMap fun t =>
    match w.program? t >>= Program.limit? with
    | some ⟨0⟩ => [.act t, .expire t]
    | _ => [.act t]

/-- The first move that is possible without the clock. -/
def act? (s : Schedule ν) : Option (Schedule ν) :=
  (moves s.world).findSome? fun m => (s.world.move? m).map (s.moved m.thread)

/-- The deadline of a thread that has just begun to wait with a limit. -/
def deadline? (s : Schedule ν) (t : Thread) : Option Deadline :=
  if s.deadlines.any (·.thread = t) then none
  else do
    let limit ← (← s.world.program? t).limit?
    return ⟨t, s.now + limit.nanos⟩

/-- The earlier of two deadlines. -/
def earlier (a : Option Deadline) (b : Deadline) : Option Deadline :=
  match a with
  | some a => some (if b.due < a.due then b else a)
  | none => some b

/-- Whether a thread goes on when its limit is up. -/
def canExpire (s : Schedule ν) (d : Deadline) : Bool := (s.world.move? (.expire d.thread)).isSome

/-- The end of the nearest limit, when every thread waits. -/
def expire? (s : Schedule ν) : Option (Schedule ν) := do
  let s := { s with deadlines := s.deadlines ++ (threads s.world).filterMap s.deadline? }
  let d ← (s.deadlines.filter s.canExpire).foldl earlier none
  let w ← s.world.move? (.expire d.thread)
  return { s with now := max s.now d.due }.moved d.thread w

/-- **The next move of the schedule**, if there is one. -/
def next? (s : Schedule ν) : Option (Schedule ν) := s.act? <|> s.expire?

/-- Moves until a client is done, at most `n` times. -/
def runWithin (i : Nat) : Nat → Schedule ν → Schedule ν
  | 0, s => s
  | n + 1, s =>
    if (s.world.ending? i).isSome then s
    else match s.next? with
      | some s => runWithin i n s
      | none => s

/-- **A client runs a program**: how it ends, if it does within `n` moves, and the schedule
afterwards. -/
def runClient (s : Schedule ν) (i : Nat) (program : Program ν) (n : Nat) :
    Option (Ending ν) × Schedule ν :=
  let s := { s with world := s.world.setProgram program (.client i) }
  let s := s.runWithin i n
  (s.world.ending? i, s)

end Schedule

end Handoff.Pool
