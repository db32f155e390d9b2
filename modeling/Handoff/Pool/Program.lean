import Handoff.Failure

/-! # Programs of threads

A thread, be it a client of pools or a worker with a job, runs a program: a tree of instructions, of
which each is one indivisible step. What an instruction answers decides how the program goes on.

* `Ending`: what a program ends with. What a job ends with is disposed of if nobody takes it, and not all of
  it can be.
* `Program`: the instructions.
* `Program.forget`, `Program.join`: what can be done with the handle of a task.
* `Program.shutdown`, `Program.awaitTermination`, `Program.shutdownAndWait`, `Program.letGo`: what
  can be done with a pool, as sequences of instructions. Other threads can act in between.
-/

namespace Handoff.Pool

/-- What a job breaks off with. -/
inductive Payload where
  /-- A text. -/
  | text (message : String)
  /-- Something that is no text. -/
  | other
  /-- Something that cannot be disposed of: its worker goes down with it. -/
  | bomb
deriving DecidableEq, Repr

/-- The text that stands for a payload. -/
def Payload.message : Payload → String
  | text m => m
  | other => "job panicked"
  | bomb => "job panicked"

/-- How a program ends. -/
inductive Ending (ν : Type) where
  | value (v : ν)
  /-- With a value that cannot be disposed of: who tries to breaks off. -/
  | fragile (v : ν)
  | panic (payload : Payload)
deriving DecidableEq, Repr

namespace Ending

variable {ν : Type}

/-- Whether it is a value that cannot be disposed of. -/
def isFragile : Ending ν → Bool
  | fragile _ => true
  | _ => false

/-- What a job that ends so sends to the handle of its task: its value, or the text for its payload. -/
def outcome : Ending ν → Except String ν
  | value v => .ok v
  | fragile v => .ok v
  | panic payload => .error payload.message

end Ending

/-- How far the life of a pool has come. -/
inductive Phase where
  | running
  | shuttingDown
  | terminated
deriving DecidableEq, Repr

/-- The name of a phase. -/
def Phase.name : Phase → String
  | running => "Running"
  | shuttingDown => "ShuttingDown"
  | terminated => "Terminated"

/-- The phase of a pool that is shut down. One that is past that stays where it is. -/
def Phase.shutDown : Phase → Phase
  | running => shuttingDown
  | p => p

/-- **What a thread still has to do.** Pools and tasks are given by number; `ν` is what jobs
yield. -/
inductive Program (ν : Type) where
  /-- Nothing more. -/
  | finish (e : Ending ν)
  /-- Offers a job to a pool, and tells in which pools the job holds shares; goes on with the task's
  number, or the refusal. -/
  | submit (pool : Nat) (holds : List Nat) (job : Program ν)
      (next : Except Failure Nat → Program ν)
  /-- Waits for what a task yields, for ever or for a span. -/
  | receive (task : Nat) (limit : Option Duration) (next : Except Failure ν → Program ν)
  /-- Gives the handle of a task up, and disposes of what it has received; goes on with whether that could be
  done. -/
  | discard (task : Nat) (next : Bool → Program ν)
  /-- Closes the intake of a pool; goes on with whether it was open. -/
  | closeIntake (pool : Nat) (next : Bool → Program ν)
  /-- Moves a pool on to shutting down. -/
  | markShuttingDown (pool : Nat) (next : Program ν)
  /-- Asks whether a pool's end can be awaited: its intake is closed, and the thread is none of its
  workers. -/
  | mayAwait (pool : Nat) (next : Bool → Program ν)
  /-- Waits until all workers of a pool are gone, for ever or for a span; goes on with whether they
  are. -/
  | awaitExit (pool : Nat) (limit : Option Duration) (next : Bool → Program ν)
  /-- Moves a pool on to terminated. -/
  | markTerminated (pool : Nat) (next : Program ν)
  /-- Asks for the phase of a pool. -/
  | readPhase (pool : Nat) (next : Phase → Program ν)
  /-- Waits until a pool has counted so many jobs, for ever or for a span; goes on with the
  count. -/
  | awaitCount (pool atLeast : Nat) (limit : Option Duration) (next : Nat → Program ν)
  /-- Takes one more share in a pool. -/
  | retain (pool : Nat) (next : Program ν)
  /-- Gives a share in a pool up; goes on with whether it was the last one. -/
  | release (pool : Nat) (next : Bool → Program ν)
  /-- Opens a gate. -/
  | openGate (gate : String) (next : Program ν)
  /-- Waits until a gate is open. -/
  | awaitGate (gate : String) (next : Program ν)
  /-- Writes a value down. -/
  | record (v : ν) (next : Program ν)
  /-- Asks for the name of the thread, if it is a worker. -/
  | threadName (next : Option String → Program ν)

namespace Program

variable {ν : Type}

/-- Ends with a value. -/
def yield (v : ν) : Program ν := finish (.value v)

instance [Inhabited ν] : Inhabited (Program ν) := ⟨yield default⟩

/-- How long the next instruction waits at most, if it has a limit. -/
def limit? : Program ν → Option Duration
  | receive _ limit _ => limit
  | awaitExit _ limit _ => limit
  | awaitCount _ _ limit _ => limit
  | _ => none

/-- **Drops the handle of a task.** Who cannot dispose of what it has received breaks off. -/
def forget (task : Nat) (next : Program ν) : Program ν :=
  discard task fun disposed => if disposed then next else finish (.panic .other)

/-- **Waits with a handle for what its task yields**, for ever or for a span. With the span the handle is
used up too: it is dropped. -/
def join (task : Nat) (limit : Option Duration) (next : Except Failure ν → Program ν) : Program ν :=
  receive task limit fun
    | .error (.timeout d) => forget task (next (.error (.timeout d)))
    | r => next r

/-- **Stops a pool from taking jobs.** Queued jobs still run. -/
def shutdown (pool : Nat) (next : Program ν) : Program ν :=
  closeIntake pool fun wasOpen => if wasOpen then markShuttingDown pool next else next

/-- **Waits for the end of a pool**, and goes on with whether it has come. A pool that still takes
jobs is not waited for, and no worker waits for its own pool. -/
def awaitTermination (pool : Nat) (limit : Option Duration) (next : Bool → Program ν) : Program ν :=
  mayAwait pool fun may =>
    if may then
      awaitExit pool limit fun gone => if gone then markTerminated pool (next true) else next false
    else next false

/-- Stops a pool from taking jobs, and waits for its end. -/
def shutdownAndWait (pool : Nat) (next : Bool → Program ν) : Program ν :=
  shutdown pool (awaitTermination pool none next)

/-- **Gives a share in a pool up.** Who gives up the last one shuts the pool down and waits for its
end, unless that has come. -/
def letGo (pool : Nat) (next : Program ν) : Program ν :=
  release pool fun last =>
    if last then
      readPhase pool fun phase =>
        if phase = .terminated then next else shutdownAndWait pool fun _ => next
    else next

/-- Takes shares in several pools. -/
def retainAll (pools : List Nat) (next : Program ν) : Program ν := pools.foldr retain next

/-- Gives shares in several pools up. -/
def letGoAll (pools : List Nat) (next : Program ν) : Program ν := pools.foldr letGo next

/-- Disposes of a job that never runs: the shares that it holds are given up. -/
def dispose (holds : List Nat) : Program ν := letGoAll holds (finish (.panic .bomb))

end Program

end Handoff.Pool
