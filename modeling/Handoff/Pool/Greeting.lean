import Handoff.Pool.Schedule

/-! # The nested greeting

An outer job on one pool offers an inner job to another pool and waits for it. The caller starts the two
pools one after the other, waits for the outer job, and in any case shuts down the pools that it has
started before it returns.

* `Greeting.caller`, `Greeting.abandon`: what the caller does with both pools, and with the outer one alone.
* `greetingWorld?`: the pools and the caller, before anything else has happened.
* `nestedGreeting?`: what the caller returns under the schedule with a virtual clock.
-/

namespace Handoff.Pool

/-- What a nested greeting leads to. -/
structure NestedGreeting where
  inner : String
  outer : String
  poolsTerminated : Bool
deriving DecidableEq, Repr

/-- What the jobs of a greeting and its caller yield. -/
inductive Part where
  /-- What the inner job yields. -/
  | word (s : String)
  /-- What the outer job yields: what the inner job has, and its own text. -/
  | nested (r : Except Failure (String × String))
  /-- What the caller returns. -/
  | whole (r : Except Failure NestedGreeting)

namespace Greeting

/-- The number of the outer pool. -/
def outerPool : Nat := 0

/-- The number of the inner pool. -/
def innerPool : Nat := 1

/-- The inner job. -/
def innerJob : Program Part := .yield (.word "hello")

/-- What the outer job makes of what it has received. -/
def extend : Except Failure Part → Except Failure (String × String)
  | .error e => .error e
  | .ok (.word s) => .ok (s, s ++ " master thesis")
  | .ok (.nested r) => r
  | .ok (.whole r) => r.map fun g => (g.inner, g.outer)

/-- The outer job, which holds a share in the inner pool. -/
def outerJob (limit : Option Duration) : Program Part :=
  .submit innerPool [] innerJob fun
    | .error e => .letGo innerPool (.yield (.nested (.error e)))
    | .ok t => .join t limit fun r => .letGo innerPool (.yield (.nested (extend r)))

/-- The last steps of the caller: it gives both pools up and returns. -/
def leave (r : Except Failure NestedGreeting) : Program Part :=
  .letGo innerPool (.letGo outerPool (.yield (.whole r)))

/-- What the caller returns once both pools have been shut down. -/
def report (r : Except Failure Part) : Program Part :=
  match r >>= fun part => extend (.ok part) with
  | .error e => leave (.error e)
  | .ok (inner, outer) =>
    .readPhase outerPool fun a => .readPhase innerPool fun b =>
      leave (.ok ⟨inner, outer, a = .terminated && b = .terminated⟩)

/-- **The caller.** -/
def caller (limit : Option Duration) : Program Part :=
  .retain innerPool (.submit outerPool [innerPool] (outerJob limit) fun
    | .error e => .letGo innerPool (leave (.error e))
    | .ok t => .join t limit fun r =>
        .shutdownAndWait outerPool fun _ => .shutdownAndWait innerPool fun _ => report r)

/-- **The caller that has not got an inner pool**: it gives up the outer one and returns the failure. -/
def abandon (e : Failure) : Program Part := .letGo outerPool (.yield (.whole (.error e)))

end Greeting

/-- **The pools and the caller**, when the caller has started its pools; or the failure, if it has started
none. -/
def greetingWorld? (outerWorkers innerWorkers : Nat) (limit : Option Duration) :
    Option (Except Failure (World Part)) := do
  match ← World.startPool? {} "outer" outerWorkers with
  | .error e => return .error e
  | .ok (_, w) =>
    match ← w.startPool? "inner" innerWorkers with
    | .error e => return .ok { w with clients := [Greeting.abandon e] }
    | .ok (_, w) => return .ok { w with clients := [Greeting.caller limit] }

/-- **What the caller returns** under the schedule with a virtual clock. -/
def nestedGreeting? (outerWorkers innerWorkers : Nat) (limit : Option Duration) :
    Option (Except Failure NestedGreeting) := do
  match ← greetingWorld? outerWorkers innerWorkers limit with
  | .error e => return .error e
  | .ok w =>
    let s : Schedule Part := { world := w }
    match (s.runWithin 0 (100 + 2 * (outerWorkers + innerWorkers))).world.ending? 0 with
    | some (.value (.whole r)) => some r
    | _ => none

end Handoff.Pool
