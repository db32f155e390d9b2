import Handoff.Deferred.Task

/-! # Gathering many results

A task that awaits many inputs reads their results one by one, as they come. One look at it reads no
more than a fixed number of results; the inputs that are left then are put off, and come back after
the ready tasks have had their turn.

* `Gathering`: how far the reading has come.
* `Gathering.look`: one look at the inputs that are queued.
* `Gathering.result?`: what the gathering yields, once that is known.
-/

namespace Handoff.Deferred

/-- The greatest number of results that are read in one look. -/
def readsPerLook : Nat := 128

/-- The reading of the results of many tasks. -/
structure Gathering (ν : Type) where
  inputs : List Nat
  pack : List ν → ν
  /-- The inputs whose results were read. -/
  read : List Nat := []
  /-- The inputs to look at, in this order. -/
  queued : List Nat := inputs
  /-- The inputs that were put off. -/
  putOff : List Nat := []

/-- What comes after the first `n` inputs that are there. -/
def afterReads (isThere : Nat → Bool) : Nat → List Nat → List Nat
  | _, [] => []
  | 0, is => is
  | n + 1, i :: is => afterReads isThere (if isThere i then n else n + 1) is

namespace Gathering

variable {ν : Type}

/-- **One look at the queued inputs**, in their order: the results that are there are read, as many
as one look reads, and what comes after them is put off. -/
def look (g : Gathering ν) (isThere : Nat → Bool) : Gathering ν :=
  { g with
    read := g.read ++ (g.queued.filter isThere).take readsPerLook
    queued := []
    putOff := g.putOff ++ afterReads isThere readsPerLook g.queued }

/-- How many queued inputs come after the last one that `read` holds. -/
def missed (g : Gathering ν) (read : List Nat) : Nat :=
  (g.queued.reverse.takeWhile fun i => !read.contains i).length

/-- Whether a look was in vain: after the last result that it has read, it went through all inputs
that are left. -/
def isVain (g : Gathering ν) (isThere : Nat → Bool) : Bool :=
  let read := (g.look isThere).read
  let n := g.missed read
  n != 0 && n == g.inputs.length - read.length

/-- Whether an input that has just come is to be queued: it was looked at before. -/
def awaits (g : Gathering ν) (i : Nat) : Bool := !g.queued.contains i && !g.putOff.contains i

/-- The gathering with one more input queued. -/
def enqueue (g : Gathering ν) (i : Nat) : Gathering ν := { g with queued := g.queued ++ [i] }

/-- The gathering with what was put off queued again, the last first. -/
def resume (g : Gathering ν) : Gathering ν :=
  { g with queued := g.queued ++ g.putOff.reverse, putOff := [] }

/-- **What the gathering yields**, once that is known from the results that were read: a failure
counts once everything before it was read. -/
def result? (g : Gathering ν) (outcome? : Nat → Option (Outcome ν)) : Option (Outcome ν) :=
  (joinInOrder (g.inputs.map fun i => if g.read.contains i then outcome? i else none)).map
    fun r => r.map g.pack

/-- A bound on what the gathering can still do: every look lowers it, or reads nothing and has
nothing queued. -/
def weight (g : Gathering ν) : Nat :=
  2 + (g.inputs.length - g.read.length) + if g.queued.isEmpty then 0 else 1

end Gathering

end Handoff.Deferred
