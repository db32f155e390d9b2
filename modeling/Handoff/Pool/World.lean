import Handoff.Pool.Program

/-! # Worker pools and their clients

A pool has a fixed number of workers, one queue of jobs, and an intake that can be closed for good.
A worker takes the oldest job, runs it, sends what it yields to the handle of the task, and then counts
it. It leaves when the intake is closed and the queue is empty.

A handle has room for what one job yields. If it was given up, nobody takes what is sent to it: the
worker disposes of it. Who gives up a handle that has received something disposes of that. A worker
that cannot dispose of what its job has ended with goes down. The last one that does disposes of the
queued jobs, one after the other, before it is gone.

A world holds pools, tasks and clients. Its threads are the clients and the workers of the pools. In
a move one thread does one indivisible step, so all interleavings of the threads are the sequences
of moves.

* `World.exec`: one instruction of a program. It is missing where the thread has to wait.
* `World.expire`: what a thread does when its limit is up. It is missing if what it waits for is
  there.
* `World.move?`: one move. `World.Step` and `World.Reachable` are what moves lead to.
-/

namespace Handoff.Pool

/-- What has become of a task. -/
inductive Slot (ν : Type) where
  /-- Its job has not ended. -/
  | waiting
  /-- Its job has ended with a value, or has broken off with a text. -/
  | delivered (outcome : Except String ν)
  /-- Its job was lost with its worker. -/
  | lost

/-- What who waits for a task gets. -/
def Slot.result? {ν : Type} : Slot ν → Option (Except Failure ν)
  | waiting => none
  | delivered o => some (o.mapError .taskFailed)
  | lost => some (.error .taskDropped)

/-- A job that a pool has accepted. -/
structure Entry (ν : Type) where
  pool : Nat
  /-- The pools in which the job holds shares. -/
  holds : List Nat
  job : Program ν
  slot : Slot ν

/-- What a worker is at. -/
inductive Worker (ν : Type) where
  /-- It waits for a job. -/
  | idle
  /-- It runs a task's job, of which this is left. -/
  | busy (task : Nat) (program : Program ν)
  /-- It has sent off what a task yields, and has not yet counted it. -/
  | counting (task : Nat)
  /-- It goes down. It disposes of a task's job, of which this is left to do, and then of those of
  other tasks. -/
  | falling (task : Nat) (program : Program ν) (others : List Nat)
  /-- It has left. -/
  | gone

namespace Worker

variable {ν : Type}

/-- Whether a worker has left. -/
def isGone : Worker ν → Bool
  | gone => true
  | _ => false

/-- Whether a worker takes no more jobs. -/
def isLost : Worker ν → Bool
  | gone => true
  | falling _ _ _ => true
  | _ => false

/-- What a worker runs, if it runs or disposes of a job. -/
def program? : Worker ν → Option (Program ν)
  | busy _ program => some program
  | falling _ program _ => some program
  | _ => none

/-- The worker with its program changed, if it runs one. -/
def setProgram (program : Program ν) : Worker ν → Worker ν
  | busy t _ => busy t program
  | falling t _ others => falling t program others
  | x => x

end Worker

/-- A pool of workers with a queue of jobs. -/
structure WorkerPool (ν : Type) where
  name : String
  /-- Whether the intake is open. -/
  accepting : Bool
  /-- The tasks that no worker has taken, the oldest first. -/
  queue : List Nat
  phase : Phase
  /-- How many jobs were counted. -/
  completed : Nat
  /-- How many shares in the pool are held. -/
  shares : Nat
  workers : List (Worker ν)

namespace WorkerPool

variable {ν : Type}

/-- A pool that has just been started; its starter holds the one share. -/
def start (ν : Type) (name : String) (size : Nat) : WorkerPool ν where
  name
  accepting := true
  queue := []
  phase := .running
  completed := 0
  shares := 1
  workers := List.replicate size .idle

/-- Whether all workers have left. -/
def isDeserted (q : WorkerPool ν) : Bool := q.workers.all Worker.isGone

/-- Whether no worker takes jobs any more. -/
def isLost (q : WorkerPool ν) : Bool := q.workers.all Worker.isLost

/-- Whether a job that is offered is accepted. -/
def takesJobs (q : WorkerPool ν) : Bool := q.accepting && !q.isLost

/-- The pool with a worker at something else. -/
def setWorker (q : WorkerPool ν) (i : Nat) (x : Worker ν) : WorkerPool ν :=
  { q with workers := q.workers.set i x }

/-- The name of a worker's thread. -/
def workerName (q : WorkerPool ν) (i : Nat) : String := q.name ++ "-worker-" ++ toString i

end WorkerPool

/-- Who acts: a client, or a worker of a pool. -/
inductive Thread where
  | client (i : Nat)
  | worker (pool i : Nat)
deriving DecidableEq, Repr

/-- Whether a thread is a worker of a pool. -/
def Thread.worksFor (pool : Nat) : Thread → Bool
  | client _ => false
  | worker p _ => p == pool

/-- What can happen next. -/
inductive Move where
  /-- A thread does its next step. -/
  | act (thread : Thread)
  /-- A thread's limit is up. -/
  | expire (thread : Thread)
deriving DecidableEq, Repr

/-- Whose move it is. -/
def Move.thread : Move → Thread
  | act t => t
  | expire t => t

/-- Pools, the tasks they have accepted, and their clients. -/
structure World (ν : Type) where
  pools : List (WorkerPool ν) := []
  tasks : List (Entry ν) := []
  /-- What the clients still have to do. -/
  clients : List (Program ν) := []
  /-- The open gates. -/
  gates : List String := []
  /-- What was written down, in its order. -/
  recorded : List ν := []
  /-- The tasks whose handles were given up. -/
  givenUp : List Nat := []
  /-- The tasks whose handles have received a value that cannot be disposed of. -/
  fragile : List Nat := []

namespace World

variable {ν : Type}

/-! ### Parts of a world -/

/-- The world with a pool changed. -/
def setPool (w : World ν) (p : Nat) (q : WorkerPool ν) : World ν :=
  { w with pools := w.pools.set p q }

/-- The world with a task's slot changed. -/
def setSlot (w : World ν) (t : Nat) (s : Slot ν) : World ν :=
  { w with tasks := w.tasks.modify t fun task => { task with slot := s } }

/-- The world with a pool's worker at something else. -/
def setWorker (w : World ν) (p i : Nat) (x : Worker ν) : World ν :=
  { w with pools := w.pools.modify p fun q => q.setWorker i x }

/-- What a task has for who waits for it. -/
def result? (w : World ν) (t : Nat) : Option (Except Failure ν) := do (← w.tasks[t]?).slot.result?

/-- Whether what is sent to the handle of a task goes off at once: there is room for it, or nobody to take
it. -/
def hasRoom (w : World ν) (t : Nat) : Bool := w.givenUp.contains t || (w.result? t).isNone

/-- The world with what a task's job has ended with in the hands of who holds its handle. -/
def store (w : World ν) (t : Nat) (e : Ending ν) : World ν :=
  { w with fragile := if e.isFragile then t :: w.fragile else w.fragile }

/-- The world with a handle empty. -/
def takeOut (w : World ν) (t : Nat) : World ν := { w with fragile := w.fragile.filter (· != t) }

/-- The world with a handle given up. -/
def giveUp (w : World ν) (t : Nat) : World ν := { w.takeOut t with givenUp := t :: w.givenUp }

/-- The world with a job in a pool's queue. -/
def accept (w : World ν) (p : Nat) (q : WorkerPool ν) (holds : List Nat) (job : Program ν) :
    World ν :=
  { w.setPool p { q with queue := q.queue ++ [w.tasks.length] } with
    tasks := w.tasks ++ [⟨p, holds, job, .waiting⟩] }

/-- The name of a thread, if it is a worker. -/
def nameOf (w : World ν) : Thread → Option String
  | .client _ => none
  | .worker p i => w.pools[p]?.map fun q => q.workerName i

/-- The pools in which a task's job holds shares. -/
def holds (w : World ν) (t : Nat) : List Nat := (w.tasks[t]?.map Entry.holds).getD []

/-- How a client's program has ended, if it has. -/
def ending? (w : World ν) (i : Nat) : Option (Ending ν) :=
  match w.clients[i]? with
  | some (.finish e) => some e
  | _ => none

/-! ### Instructions -/

/-- A step that concerns one pool: the world with the pool changed, and what follows. -/
def withPool {α : Type} (w : World ν) (p : Nat) (f : WorkerPool ν → Option (WorkerPool ν × α)) :
    Option (World ν × α) := do
  let (q, next) ← f (← w.pools[p]?)
  return (w.setPool p q, next)

/-- **One instruction of a thread**: the world and the program afterwards, if the thread does not
have to wait. -/
def exec (w : World ν) (self : Thread) : Program ν → Option (World ν × Program ν)
  | .finish _ => none
  | .submit p holds job next => do
    let q ← w.pools[p]?
    if q.takesJobs then return (w.accept p q holds job, next (.ok w.tasks.length))
    else return (w, next (.error (.poolShutdown q.name)))
  | .receive t _ next => do return (w.takeOut t, next (← w.result? t))
  | .discard t next => some (w.giveUp t, next (!w.fragile.contains t))
  | .closeIntake p next =>
    w.withPool p fun q => some ({ q with accepting := false }, next q.accepting)
  | .markShuttingDown p next =>
    w.withPool p fun q => some ({ q with phase := q.phase.shutDown }, next)
  | .mayAwait p next =>
    w.withPool p fun q => some (q, next (!q.accepting && !self.worksFor p))
  | .awaitExit p _ next =>
    w.withPool p fun q => if q.isDeserted then some (q, next true) else none
  | .markTerminated p next =>
    w.withPool p fun q => some ({ q with phase := .terminated }, next)
  | .readPhase p next => w.withPool p fun q => some (q, next q.phase)
  | .awaitCount p n _ next =>
    w.withPool p fun q => if n ≤ q.completed then some (q, next q.completed) else none
  | .retain p next => w.withPool p fun q => some ({ q with shares := q.shares + 1 }, next)
  | .release p next =>
    w.withPool p fun q => some ({ q with shares := q.shares - 1 }, next (q.shares == 1))
  | .openGate g next => some ({ w with gates := g :: w.gates }, next)
  | .awaitGate g next => if w.gates.contains g then some (w, next) else none
  | .record v next => some ({ w with recorded := w.recorded ++ [v] }, next)
  | .threadName next => some (w, next (w.nameOf self))

/-- **What a thread goes on with when its limit is up**, if what it waits for is not there. Once no
worker of a pool takes jobs any more, its end is waited for without limit. -/
def expire (w : World ν) : Program ν → Option (Program ν)
  | .receive t (some d) next =>
    if (w.result? t).isNone then some (next (.error (.timeout d))) else none
  | .awaitExit p (some _) next => do
    let q ← w.pools[p]?
    if q.isLost then none else return next false
  | .awaitCount p n (some _) next => do
    let q ← w.pools[p]?
    if n ≤ q.completed then none else return next q.completed
  | _ => none

/-! ### Moves of the workers -/

/-- **Whether a worker goes down with what a task's job has ended with**, because it cannot dispose of it. A
payload it disposes of in any case, once it has the text for it, and a value if nobody takes it. -/
def bringsDown (w : World ν) (t : Nat) : Ending ν → Bool
  | .value _ => false
  | .fragile _ => w.givenUp.contains t
  | .panic payload => payload == .bomb

/-- A worker has run a job to its end, and the task has what it has ended with. -/
def deliver (w : World ν) (p i t : Nat) (o : Except String ν) : World ν :=
  (w.setSlot t (.delivered o)).setWorker p i (.counting t)

/-- A worker that goes down and has these tasks to dispose of. -/
def fallingWith (w : World ν) : List Nat → Worker ν
  | [] => .gone
  | t :: others => .falling t (.dispose (w.holds t)) others

/-- A worker goes down with its task. The last one that takes jobs has to dispose of the queued
tasks. -/
def goDown (w : World ν) (p i t : Nat) (q : WorkerPool ν) : World ν :=
  let w := w.setSlot t .lost
  let q := q.setWorker i .gone
  if q.isLost then w.setPool p { q.setWorker i (w.fallingWith q.queue) with queue := [] }
  else w.setPool p q

/-- A worker that goes down has disposed of a task's job, and the task is lost. -/
def lose (w : World ν) (p i t : Nat) (others : List Nat) : World ν :=
  (w.setSlot t .lost).setWorker p i (w.fallingWith others)

/-- The next step of an idle worker: it takes the oldest task, or leaves if none can come. -/
def takeTask? (w : World ν) (p i : Nat) (q : WorkerPool ν) : Option (World ν) :=
  match q.queue with
  | t :: r => do
    let task ← w.tasks[t]?
    return w.setPool p { q.setWorker i (.busy t task.job) with queue := r }
  | [] => if q.accepting then none else some (w.setPool p (q.setWorker i .gone))

/-- **The next step of a worker**, if it has one. -/
def work? (w : World ν) (p i : Nat) : Option (World ν) := do
  let q ← w.pools[p]?
  match ← q.workers[i]? with
  | .idle => w.takeTask? p i q
  | .busy t (.finish e) =>
    if w.bringsDown t e then some (w.goDown p i t q)
    else if w.hasRoom t then some ((w.store t e).deliver p i t e.outcome)
    else none
  | .busy t program => do
    let (w, next) ← w.exec (.worker p i) program
    return w.setWorker p i (.busy t next)
  | .counting _ =>
    some (w.setPool p { q.setWorker i .idle with completed := q.completed + 1 })
  | .falling t (.finish _) others => some (w.lose p i t others)
  | .falling t program others => do
    let (w, next) ← w.exec (.worker p i) program
    return w.setWorker p i (.falling t next others)
  | .gone => none

/-! ### Moves -/

/-- What a thread runs, if it runs a program. -/
def program? (w : World ν) : Thread → Option (Program ν)
  | .client i => w.clients[i]?
  | .worker p i => do (← (← w.pools[p]?).workers[i]?).program?

/-- The world with the program of a thread changed. -/
def setProgram (w : World ν) (program : Program ν) : Thread → World ν
  | .client i => { w with clients := w.clients.set i program }
  | .worker p i =>
    { w with pools := w.pools.modify p fun q =>
        { q with workers := q.workers.modify i fun x => Worker.setProgram program x } }

/-- **One move**, if it is possible. -/
def move? (w : World ν) : Move → Option (World ν)
  | .act (.client i) => do
    let (w, next) ← w.exec (.client i) (← w.clients[i]?)
    return w.setProgram next (.client i)
  | .act (.worker p i) => w.work? p i
  | .expire thread => do
    let next ← w.expire (← w.program? thread)
    return w.setProgram next thread

/-- What one move leads to. -/
def Step (w w' : World ν) : Prop := ∃ m, w.move? m = some w'

/-- What some sequence of moves leads to. -/
inductive Reachable (w : World ν) : World ν → Prop where
  | refl : Reachable w w
  | tail {v u : World ν} : Reachable w v → Step v u → Reachable w u

/-- Whether nothing can happen. -/
def IsStuck (w : World ν) : Prop := ∀ m, w.move? m = none

/-! ### Making pools -/

/-- **Starts a pool**; its number, and the world afterwards. A pool needs workers. The answer is
missing if no thread can be named after the pool. -/
def startPool? (w : World ν) (name : String) (size : Nat) :
    Option (Except Failure (Nat × World ν)) :=
  if size = 0 then some (.error (.emptyPool name))
  else if name.toList.contains '\x00' then none
  else some (.ok (w.pools.length, { w with pools := w.pools ++ [.start ν name size] }))

end World

end Handoff.Pool
