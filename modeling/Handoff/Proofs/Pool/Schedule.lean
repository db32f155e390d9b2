import Handoff.Proofs.Pool.NestedGreeting

/-! # The schedule with a virtual clock is one interleaving

What is inevitable comes about under this schedule too, and what is true after every run is true of what
it computes.

* `Schedule.reachable_runWithin`: every move of the schedule is a move of the world.
* `nestedGreeting?_result`: what the greeting computes under the schedule.
-/

namespace Handoff.Pool

namespace Schedule

variable {ν : Type}

theorem step_of_act? {s s' : Schedule ν} (h : s.act? = some s') : s.world.Step s'.world := by
  obtain ⟨m, -, hm⟩ := List.exists_of_findSome?_eq_some h
  obtain ⟨w, hw, rfl⟩ := Option.map_eq_some_iff.1 hm
  exact ⟨m, hw⟩

theorem step_of_expire? {s s' : Schedule ν} (h : s.expire? = some s') : s.world.Step s'.world := by
  simp only [expire?, Option.bind_eq_bind, Option.bind_eq_some_iff, Option.pure_def,
    Option.some.injEq] at h
  obtain ⟨d, -, w, hw, rfl⟩ := h
  exact ⟨_, hw⟩

/-- **Every move of the schedule is a move of the world.** -/
theorem step_of_next? {s s' : Schedule ν} (h : s.next? = some s') : s.world.Step s'.world := by
  unfold next? at h
  rcases hact : s.act? with _ | s''
  · rw [hact] at h
    exact step_of_expire? h
  · rw [hact] at h
    cases h
    exact step_of_act? hact

theorem reachable_runWithin (i n : Nat) (s : Schedule ν) :
    s.world.Reachable (s.runWithin i n).world := by
  induction n generalizing s with
  | zero => exact .refl
  | succ n ih =>
    unfold runWithin
    split
    · exact .refl
    · split
      · next s' hs => exact World.Reachable.trans (.tail .refl (step_of_next? hs)) (ih s')
      · exact .refl

end Schedule

/-- What a caller has returned under the schedule was returned in a run. -/
theorem run_of_nestedGreeting? {outerWorkers innerWorkers : Nat} {limit : Option Duration} {w₀ : World Part}
    (hworld : greetingWorld? outerWorkers innerWorkers limit = some (.ok w₀))
    {r : Except Failure NestedGreeting} (h : nestedGreeting? outerWorkers innerWorkers limit = some r) :
    ∃ k w, w₀.Run k w ∧ w.ending? 0 = some (.value (.whole r)) := by
  rw [nestedGreeting?, hworld] at h
  simp only [Option.bind_eq_bind, Option.bind_some] at h
  split at h
  · next r' hx =>
    cases h
    have hreach := Schedule.reachable_runWithin 0 (100 + 2 * (outerWorkers + innerWorkers)) ⟨w₀, 0, []⟩
    obtain ⟨k, hr⟩ := World.reachable_iff_run.1 hreach
    exact ⟨k, _, hr, hx⟩
  · cases h

/-- **What the greeting computes under the schedule.** -/
theorem nestedGreeting?_result {outerWorkers innerWorkers : Nat} {limit : Option Duration}
    {r : Except Failure NestedGreeting} (h : nestedGreeting? outerWorkers innerWorkers limit = some r) :
    if outerWorkers = 0 then r = .error (.emptyPool "outer")
    else if innerWorkers = 0 then r = .error (.emptyPool "inner")
    else r = .ok ⟨"hello", "hello master thesis", true⟩ ∨ ∃ d, limit = some d ∧ r = .error (.timeout d) := by
  split
  · next ho => subst ho; cases h; rfl
  · next ho =>
    split
    · next hi =>
      subst hi
      obtain ⟨k, w, hr, hx⟩ := run_of_nestedGreeting? (greetingWorld?_of_inner_zero ho) h
      cases (Greeting.refused ho hr hx).1
      rfl
    · next hi =>
      obtain ⟨k, w, hr, hx⟩ := run_of_nestedGreeting? (greetingWorld?_of_ne_zero ho hi) h
      obtain ⟨r', hr', hreturned⟩ := Greeting.returned ho hi hr hx
      cases hr'
      exact hreturned.result

end Handoff.Pool
