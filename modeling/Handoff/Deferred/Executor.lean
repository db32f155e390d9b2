import Handoff.Deferred.Gathering

/-! # Tasks under virtual time

An executor looks at its tasks one at a time, in the order in which they became ready. A task that
is done makes the task ready that reads its result. After a turn of looks, what was put off comes
back. When nothing is ready, the clock jumps to the next timer; computing takes no time.

* `Executor.make`: a new task. Its inputs are used up: a result is read once.
* `Executor.step`: looks at the first ready task.
* `Executor.round`: a turn of looks, and what was put off.
* `Executor.settle`: runs all that can run without the clock.
* `Executor.wait`, `Executor.get`: lets time pass; waits for a result.
-/

namespace Handoff.Deferred

/-- How far a task has come. -/
inductive Stage (ν : Type) where
  /-- It has not yet got what it is made of. -/
  | pending (maker : Maker ν)
  /-- It gathers the results of many tasks. -/
  | gathering (gathering : Gathering ν)
  /-- Its result is ready once its timer has expired. -/
  | sleeping (result : Except Panic ν)
  /-- It is done since a point in time. -/
  | done (outcome : Outcome ν) (time : Nat)

/-- A task, and the task that reads its result, if there is one. -/
structure Task (ν : Type) where
  stage : Stage ν
  reader : Option Nat

/-- A timer: when it expires, and the task that it makes ready. -/
structure Timer where
  due : Nat
  task : Nat
deriving DecidableEq, Repr

/-- Tasks under virtual time, in milliseconds. -/
structure Executor (ν : Type) where
  now : Nat := 0
  /-- The tasks by number. -/
  tasks : List (Task ν) := []
  /-- The numbers of the ready tasks, the longest ready first. -/
  ready : List Nat := []
  /-- The timers, the oldest first. -/
  timers : List Timer := []
  /-- The numbers of the tasks that have put inputs off, the last first. -/
  postponed : List Nat := []
  /-- How many results can still be read from outside before the tasks have a turn. -/
  credit : Nat := readsPerLook

namespace Executor

variable {ν : Type}

/-- What a task has yielded, if it is done. -/
def outcome? (x : Executor ν) (i : Nat) : Option (Outcome ν) :=
  match x.tasks[i]? with
  | some ⟨.done o _, _⟩ => some o
  | _ => none

/-- Whether a task is done. -/
def isFinished (x : Executor ν) (i : Nat) : Bool := (x.outcome? i).isSome

/-- When a task was done. -/
def finishTime? (x : Executor ν) (i : Nat) : Option Nat :=
  match x.tasks[i]? with
  | some ⟨.done _ t, _⟩ => some t
  | _ => none

/-! ### Making tasks -/

/-- The executor in which a task reads the result of another. -/
def read (x : Executor ν) (reader input : Nat) : Executor ν :=
  { x with tasks := x.tasks.modify input fun t => { t with reader := some reader } }

/-- **A new task**, which is ready at once; its number, and the executor afterwards. -/
def make (x : Executor ν) (m : Maker ν) : Nat × Executor ν :=
  let i := x.tasks.length
  let x := m.inputs.foldl (fun x input => x.read i input) x
  (i, { x with tasks := x.tasks ++ [⟨.pending m, none⟩], ready := x.ready ++ [i] })

/-! ### Running tasks -/

/-- The executor with a task at another stage. -/
def setStage (x : Executor ν) (i : Nat) (s : Stage ν) : Executor ν :=
  { x with tasks := x.tasks.modify i fun t => { t with stage := s } }

/-- The executor with a task ready, unless it is ready or done. -/
def wake (x : Executor ν) (i : Nat) : Executor ν :=
  if x.ready.contains i || x.isFinished i then x else { x with ready := x.ready ++ [i] }

/-- A task is told that one of its inputs is there. One that gathers is only told of inputs that it
has looked at. -/
def tell (x : Executor ν) (i input : Nat) : Executor ν :=
  match x.tasks[i]? with
  | some ⟨.gathering g, _⟩ =>
    if g.awaits input then (x.setStage i (.gathering (g.enqueue input))).wake i else x
  | _ => x.wake i

/-- The executor with a task done, and its reader told. -/
def finish (x : Executor ν) (i : Nat) (o : Outcome ν) : Executor ν :=
  let x := x.setStage i (.done o x.now)
  match x.tasks[i]? with
  | some ⟨_, some j⟩ => x.tell j i
  | _ => x

/-- The longest time that a task sleeps, in milliseconds: thirty years of 365 days. -/
def longestSleep : Nat := 946080000000

/-- The executor with a task asleep. -/
def sleep (x : Executor ν) (i delay : Nat) (r : Except Panic ν) : Executor ν :=
  let x := x.setStage i (.sleeping r)
  { x with timers := x.timers ++ [⟨x.now + min delay longestSleep, i⟩] }

/-- The executor in which a task has put inputs off. -/
def postpone (x : Executor ν) (i : Nat) : Executor ν :=
  if x.postponed.contains i then x else { x with postponed := i :: x.postponed }

/-- Looks at a task that gathers. It is looked at once more if the look was in vain. -/
def gather (x : Executor ν) (i : Nat) (g : Gathering ν) : Executor ν :=
  let seen := g.look x.isFinished
  match seen.result? x.outcome? with
  | some o => x.finish i o
  | none =>
    let y := x.setStage i (.gathering seen)
    let y := if seen.putOff.isEmpty then y else y.postpone i
    if g.isVain x.isFinished then y.wake i else y

/-- Looks at a task. -/
def look (x : Executor ν) (i : Nat) : Executor ν :=
  match x.tasks[i]? with
  | some ⟨.pending m, _⟩ =>
    match m.poll x.outcome? with
    | .waits => x
    | .sleeps delay r => x.sleep i delay r
    | .gathers inputs pack => x.gather i { inputs, pack }
    | .ends o => x.finish i o
  | some ⟨.gathering g, _⟩ => x.gather i g
  | some ⟨.sleeping r, _⟩ => x.finish i (outcomeOf r)
  | _ => x

/-- **Looks at the first ready task.** -/
def step (x : Executor ν) : Executor ν :=
  match x.ready with
  | [] => x
  | i :: r => { x with ready := r }.look i

/-- Looks at ready tasks, at most `n` times. -/
def turn : Nat → Executor ν → Executor ν
  | 0, x => x
  | n + 1, x => if x.ready.isEmpty then x else turn n x.step

/-- The executor in which a task has got back what it has put off. -/
def resume (x : Executor ν) (i : Nat) : Executor ν :=
  match x.tasks[i]? with
  | some ⟨.gathering g, _⟩ => (x.setStage i (.gathering g.resume)).wake i
  | _ => x

/-- The executor in which all tasks have got back what they have put off. -/
def resumeAll (x : Executor ν) : Executor ν := x.postponed.foldl resume { x with postponed := [] }

/-- How often tasks are looked at in one turn. -/
def turnLength : Nat := 61

/-- **A turn of looks at the ready tasks**, after which comes back what was put off. -/
def round (x : Executor ν) : Executor ν := (x.turn turnLength).resumeAll

/-- Whether nothing can run without the clock. -/
def isIdle (x : Executor ν) : Bool := x.ready.isEmpty && x.postponed.isEmpty

/-! ### How much is left to do -/

/-- How often a task can still be looked at with effect, at most. A task pays for what it makes
ready, for its timer and for what it puts off. -/
def Stage.weight : Stage ν → Nat
  | .pending m => 4 + m.inputs.length
  | .gathering g => g.weight
  | .sleeping _ => 2
  | .done _ _ => 0

/-- How often the tasks of a list can still be looked at with effect, at most. -/
def weightOf : List (Task ν) → Nat
  | [] => 0
  | t :: ts => Stage.weight t.stage + weightOf ts

/-- A bound on what the tasks can still do by themselves: every look, every round and every jump of
the clock lowers it. -/
def weight (x : Executor ν) : Nat :=
  weightOf x.tasks + x.ready.length + 2 * x.timers.length + 3 * x.postponed.length

/-- At most `n` rounds. -/
def rounds : Nat → Executor ν → Executor ν
  | 0, x => x
  | n + 1, x => if x.isIdle then x else rounds n x.round

/-- **Runs all that can run without the clock.** -/
def settle (x : Executor ν) : Executor ν := x.rounds x.weight

/-! ### Time -/

/-- When the next timer expires. -/
def nextDue? (x : Executor ν) : Option Nat := (x.timers.map Timer.due).min?

/-- The clock jumps to `t`, and the tasks of the timers that have expired are ready. -/
def jump (x : Executor ν) (t : Nat) : Executor ν :=
  { x with
    now := t
    ready := x.ready ++ (x.timers.filter (·.due ≤ t)).map Timer.task
    timers := x.timers.filter (t < ·.due) }

/-- Lets time pass up to `t` by at most `n` jumps. -/
def passUntil (t : Nat) : Nat → Executor ν → Executor ν
  | 0, x => { x with now := t }
  | n + 1, x =>
    let x := x.settle
    match x.nextDue? with
    | some due => if due ≤ t then passUntil t n (x.jump due) else { x with now := t }
    | none => { x with now := t }

/-- **Lets time pass**, no longer than a task sleeps. Everything due then has run. -/
def wait (x : Executor ν) (span : Nat) : Executor ν :=
  { passUntil (x.now + min span longestSleep) (x.weight + 1) x with credit := readsPerLook }

/-- Lets the tasks run until one of them is done, in at most `n` rounds and jumps. -/
def runUntil (i : Nat) : Nat → Executor ν → Executor ν
  | 0, x => x
  | n + 1, x =>
    if x.isFinished i then x
    else if x.isIdle then
      match x.nextDue? with
      | some due => runUntil i n (x.jump due)
      | none => x
    else runUntil i n x.round

/-- **Waits for the result of a task.** Results that are there are read without letting the tasks
run, as long as there is credit. -/
def get (x : Executor ν) (i : Nat) : Option (Outcome ν) × Executor ν :=
  let x := if x.credit = 0 then { x.round with credit := readsPerLook } else x
  if x.isFinished i then (x.outcome? i, { x with credit := x.credit - 1 })
  else
    let x := x.runUntil i (x.weight + 1)
    (x.outcome? i, { x with credit := readsPerLook - 1 })

end Executor

end Handoff.Deferred
