import Mathlib.Data.List.Basic
import Mathlib.Tactic.SplitIfs
import Handoff.Proofs.Stream.Delivery
import Handoff.Stream.Range

/-! # Which ranges are published

A range is published over every channel that can be opened, and then every interleaving drives it to its end.

* `Channel.exists_open?_iff`: the capacities of channels.
* `Exchange.exists_run`: the run in which the consumer goes first is a run, and it is at its end.
* `Exchange.exists_publishRange?_iff`, `Exchange.served_of_run`: the range publisher.
-/

namespace Handoff

/-! ### Channels -/

theorem Channel.open?_eq_some_iff {α : Type} {capacity : Nat} {c : Channel α} :
    Channel.open? α capacity = some c ↔
      max capacity 1 ≤ maxCapacity ∧ c = ⟨max capacity 1, [], true, .listening⟩ := by
  unfold Channel.open?
  split_ifs with h
  · simp only [Option.some.injEq, h, true_and, eq_comm]
  · simp only [h, false_and]

/-- **A channel opens** just if its capacity is not beyond the largest. -/
theorem Channel.exists_open?_iff {α : Type} {capacity : Nat} :
    (∃ c, Channel.open? α capacity = some c) ↔ capacity ≤ maxCapacity := by
  simp only [Channel.open?_eq_some_iff, exists_and_left, exists_eq, and_true]
  have hone : 1 ≤ maxCapacity := by decide
  omega

namespace Exchange

/-! ### Runs -/

variable {α : Type}

/-- **The run in which the consumer goes first** is one of the runs, and it is at its end. -/
theorem exists_run (x : Exchange α) {n : Nat} {l : List (Signal α)} {y : Exchange α} (h : x.Run n l y) :
    ∃ n' l', x.Run n' l' y.run ∧ ¬ ∃ z, y.run.Step z := by
  unfold run
  split
  case h_1 z hz =>
    have hlt := weight_lt (step_of_next hz)
    cases step_of_next hz with
    | producer hz => exact exists_run x (h.produced hz)
    | consumer hz => exact exists_run x (h.consumed hz)
  case h_2 hnone =>
    have hboth : y.consume? = none ∧ y.produce? = none := by simpa [next?] using hnone
    refine ⟨n, l, h, ?_⟩
    rintro ⟨z, hz⟩
    cases hz with
    | producer hz => cases hboth.2.symm.trans hz
    | consumer hz => cases hboth.1.symm.trans hz
termination_by y.weight

/-- **A range that was driven to its end**: the subscriber was told all of it and that it is complete, and nothing
else. -/
structure Served (count : Nat) (x : Exchange Nat) : Prop where
  consumer : x.consumer = .finished ⟨count, true, false⟩
  log : x.log = ⟨Array.range count, 1, #[]⟩

theorem Delivered.served {count : Nat} {l : List (Signal Nat)} {x : Exchange Nat}
    (h : Delivered (Script.range count) l x) : x.Served count := by
  refine ⟨h.consumer, ?_⟩
  have hreceived : x.log.received = Array.range count := by
    rw [← Array.toList_inj, h.received, Array.toList_range, Script.items, Script.range, List.map_id]
  have hcompletions : x.log.completions = 1 := h.completions
  have herrors : x.log.errors = #[] := Array.toList_inj.1 h.errors
  rw [← hreceived, ← hcompletions, ← herrors]

theorem publishRange?_eq_some_iff {count capacity : Nat} {x : Exchange Nat} :
    publishRange? count capacity 0 false = some x ↔
      ∃ c, Channel.open? Nat capacity = some c ∧ start (.range count) c 0 false = x :=
  Option.map_eq_some_iff

/-- **A range is published** just if its channel opens. -/
theorem exists_publishRange?_iff {count capacity : Nat} :
    (∃ x, publishRange? count capacity 0 false = some x) ↔ capacity ≤ Channel.maxCapacity := by
  rw [← Channel.exists_open?_iff (α := Nat)]
  constructor
  · rintro ⟨x, hx⟩
    obtain ⟨c, hc, -⟩ := publishRange?_eq_some_iff.1 hx
    exact ⟨c, hc⟩
  · rintro ⟨c, hc⟩
    exact ⟨_, publishRange?_eq_some_iff.2 ⟨c, hc, rfl⟩⟩

/-- **Every run of a published range** is bounded, and can go on until the range was driven to its end. -/
theorem served_of_run {count capacity : Nat} {x : Exchange Nat} (hx : publishRange? count capacity 0 false = some x)
    {n : Nat} {l : List (Signal Nat)} {y : Exchange Nat} (h : x.Run n l y) :
    n ≤ 2 * count + 4 ∧ ((∃ z, y.Step z) ∨ y.Served count) := by
  obtain ⟨c, hc, rfl⟩ := publishRange?_eq_some_iff.1 hx
  constructor
  · have hle := h.add_weight_le
    obtain ⟨-, rfl⟩ := Channel.open?_eq_some_iff.1 hc
    simp only [weight, start, Consumer.weight, Script.range, List.length_nil, if_true] at hle
    omega
  · exact (h.underway hc).exists_step.imp_right Delivered.served

end Exchange

end Handoff
