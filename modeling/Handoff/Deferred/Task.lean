import Handoff.Failure
import Handoff.Text.Quoted

/-! # Tasks that yield deferred values

A task yields one value or fails. A source yields its result by itself, after a delay; every other
task is composed of the results of tasks made before it.

* `Maker`: what a task is made of.
* `Maker.poll`: what a task does when it is looked at, given what its inputs have yielded.
* `joinPair`, `joinEarly`, `joinInOrder`: how several inputs are awaited, side by side or in order.
-/

namespace Handoff.Deferred

/-- What a function broke off with. -/
inductive Panic where
  /-- A text. -/
  | text (message : String)
  /-- Something that is no text. -/
  | other
deriving DecidableEq, Repr

/-- The failure of a task whose function broke off. -/
def Panic.failure : Panic → Failure
  | text m => .taskFailed ("task panicked: task # panicked with message " ++ Text.quoted m)
  | other => .taskFailed "task panicked: task # panicked"

/-- What a task has yielded. -/
abbrev Outcome (ν : Type) := Except Failure ν

/-- The outcome of a task whose own function has run. -/
def outcomeOf {ν : Type} (r : Except Panic ν) : Outcome ν := r.mapError Panic.failure

/-- A computation that takes some virtual time, in milliseconds. -/
structure Later (ν : Type) where
  delay : Nat
  result : Except Panic ν

/-- What a task is made of. Inputs are the numbers of tasks. -/
inductive Maker (ν : Type) where
  /-- A result after a delay. One that is computed `apart` comes after all that can run at once,
  even without delay. -/
  | source (later : Later ν) (apart : Bool)
  /-- A function of a value. -/
  | map (input : Nat) (f : ν → Except Panic ν)
  /-- A computation that starts from a value. -/
  | andThen (input : Nat) (f : ν → Later ν)
  /-- A function of two values, which are awaited side by side. -/
  | combine (left right : Nat) (f : ν → ν → Except Panic ν)
  /-- All values of a list, packed into one. -/
  | all (inputs : List Nat) (pack : List ν → ν)

namespace Maker

variable {ν : Type}

/-- A value that is there. -/
def completed (v : ν) : Maker ν := source ⟨0, .ok v⟩ false

/-- A computation of its own. -/
def spawn (later : Later ν) : Maker ν := source later false

/-- A computation apart from the tasks, which takes no virtual time. -/
def supply (result : Except Panic ν) : Maker ν := source ⟨0, result⟩ true

/-- The tasks whose results a task reads. -/
def inputs : Maker ν → List Nat
  | source _ _ => []
  | map i _ => [i]
  | andThen i _ => [i]
  | combine l r _ => [l, r]
  | all is _ => is

end Maker

/-! ### Awaiting several inputs -/

section Join
variable {ν : Type}

/-- Awaits two inputs side by side: the left is looked at first, and the first failure ends it. -/
def joinPair : Option (Outcome ν) → Option (Outcome ν) → Option (Except Failure (ν × ν))
  | some (.error e), _ => some (.error e)
  | _, some (.error e) => some (.error e)
  | some (.ok a), some (.ok b) => some (.ok (a, b))
  | _, _ => none

/-- The first failure among what is there. -/
def firstFailure : List (Option (Outcome ν)) → Option Failure
  | [] => none
  | some (.error e) :: _ => some e
  | _ :: r => firstFailure r

/-- All values, if all are there. -/
def allValues : List (Option (Outcome ν)) → Option (List ν)
  | [] => some []
  | some (.ok v) :: r => (allValues r).map (v :: ·)
  | _ :: _ => none

/-- Awaits inputs side by side: any failure that is there ends it. -/
def joinEarly (os : List (Option (Outcome ν))) : Option (Except Failure (List ν)) :=
  match firstFailure os with
  | some e => some (.error e)
  | none => (allValues os).map .ok

/-- Awaits inputs in their order: a failure counts once everything before it is there. -/
def joinInOrder : List (Option (Outcome ν)) → Option (Except Failure (List ν))
  | [] => some (.ok [])
  | none :: _ => none
  | some (.error e) :: _ => some (.error e)
  | some (.ok v) :: r => (joinInOrder r).map fun vs => vs.map (v :: ·)

/-- The greatest number of inputs that are awaited side by side. -/
def sideBySide : Nat := 30

end Join

/-! ### Looking at a task -/

/-- What became of a task that was looked at. -/
inductive Progress (ν : Type) where
  /-- It waits for an input. -/
  | waits
  /-- It goes on after a delay. -/
  | sleeps (delay : Nat) (result : Except Panic ν)
  /-- It goes on to gather its inputs one by one. -/
  | gathers (inputs : List Nat) (pack : List ν → ν)
  /-- It is done. -/
  | ends (outcome : Outcome ν)

/-- A computation goes on at once if it has no delay. -/
def Later.start {ν : Type} (l : Later ν) : Progress ν :=
  if l.delay = 0 then .ends (outcomeOf l.result) else .sleeps l.delay l.result

/-- **What a task does when it is looked at**, given what the tasks have yielded so far. A failed
input's failure is handed on, and the task's own function does not run. A few inputs are awaited
side by side, many are gathered. -/
def Maker.poll {ν : Type} (outcome? : Nat → Option (Outcome ν)) : Maker ν → Progress ν
  | source l apart => if apart then .sleeps l.delay l.result else l.start
  | map i f =>
    match outcome? i with
    | none => .waits
    | some (.error e) => .ends (.error e)
    | some (.ok v) => .ends (outcomeOf (f v))
  | andThen i f =>
    match outcome? i with
    | none => .waits
    | some (.error e) => .ends (.error e)
    | some (.ok v) => (f v).start
  | combine l r f =>
    match joinPair (outcome? l) (outcome? r) with
    | none => .waits
    | some (.error e) => .ends (.error e)
    | some (.ok (a, b)) => .ends (outcomeOf (f a b))
  | all is pack =>
    if sideBySide < is.length then .gathers is pack
    else match joinEarly (is.map outcome?) with
      | none => .waits
      | some o => .ends (o.map pack)

end Handoff.Deferred
