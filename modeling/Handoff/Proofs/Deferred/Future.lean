import Handoff.Proofs.Deferred.Recasting
import Handoff.Proofs.Deferred.Timeline

/-! # What becomes of the tasks

When nothing more is made, the tasks run on by themselves, and what becomes of each is settled. To wait and to read
results only goes along the way that they take: neither how far one goes at a time nor what is read changes it.

* `Executor.future`: what becomes of a task if it is waited for; `Executor.future_recast` says that it is the same if
  the tasks are recast, and `Executor.future_credit` that it does not depend on the credit.
* `Executor.runUntil_eq`: the bound on the rounds and jumps does not matter.
* `Executor.future_round`, `Executor.future_jump`, `Executor.future_pass`: none of the things that an executor does by
  itself changes the future.
* `Executor.future_wait`, `Executor.future_get`: hence waits and reads do not, and `Executor.future_run` says the same
  of programs that make nothing.
-/

namespace Handoff.Deferred

/-- Whether a step makes nothing. -/
def Step.IsQuiet {ν : Type} : Step ν → Prop
  | .make _ => False
  | _ => True

namespace Executor

variable {ν : Type} {book : List (Entry ν)} {x y : Executor ν} {i : Nat}

/-- **What becomes of a task** if it is waited for. -/
def future (x : Executor ν) (i : Nat) : Option (Outcome ν × Nat) := (x.runUntil i (x.weight + 1)).result? i

/-- **The future is the same if the tasks are recast**, whatever the credit. -/
theorem future_recast {φ : Maker ν → Maker ν} (hφ : Unseen φ) (γ : Nat → Nat) (x : Executor ν) (i : Nat) :
    (x.recast φ γ).future i = x.future i := by
  rw [future, future, weight_recast γ x hφ, runUntil_recast γ x i hφ, result?_recast]

/-- The future does not depend on the credit. -/
theorem future_credit (x : Executor ν) (i c : Nat) : ({ x with credit := c } : Executor ν).future i = x.future i := by
  have hrecast := future_recast unseen_id (fun _ => c) x i
  rwa [recast_id] at hrecast

/-! ### What an executor does by itself -/

/-- **What is done stays as it is.** -/
theorem future_of_result? {r : Outcome ν × Nat} (h : x.result? i = some r) : x.future i = some r := by
  rw [future, runUntil, isFinished_eq, h]
  exact h

/-- **The bound on the rounds and jumps does not matter.** -/
theorem runUntil_eq {n m : Nat} (h : InOrder book x) (hn : x.weight < n) (hm : x.weight < m) :
    x.runUntil i n = x.runUntil i m := by
  induction n generalizing x m with
  | zero => exact absurd hn (Nat.not_lt_zero _)
  | succ n ih =>
    obtain ⟨m, rfl⟩ : ∃ m', m = m' + 1 := ⟨m - 1, by omega⟩
    rw [runUntil, runUntil]
    split_ifs with hdone hidle
    · rfl
    · rcases hnext : x.nextDue? with _ | due
      · rfl
      · have hlt := weight_jump_lt hnext
        exact ih (h.move (h.move_jump hidle hnext)) (by omega) (by omega)
    · obtain ⟨hround, hlt⟩ := works_round h
      have hless := hlt (by simpa using hidle)
      exact ih (h.moves hround.moves) (by omega) (by omega)

/-- An idle executor has no round to do. -/
theorem round_of_idle (h : x.isIdle = true) : x.round = x := by
  simp only [isIdle, Bool.and_eq_true, List.isEmpty_iff] at h
  have hturn : x.turn turnLength = x := by
    rw [turnLength, turn, h.1]
    rfl
  rw [round, hturn, resumeAll, h.2, List.foldl_nil, ← h.2]

/-- **A round does not change the future.** -/
theorem future_round (h : InOrder book x) : x.round.future i = x.future i := by
  obtain ⟨hround, hlt⟩ := works_round h
  by_cases hidle : x.isIdle = true
  · rw [round_of_idle hidle]
  · have hless := hlt (by simpa using hidle)
    rcases hres : x.result? i with _ | r
    · have hstep : x.runUntil i (x.weight + 1) = x.round.runUntil i x.weight := by
        rw [runUntil, isFinished_eq, hres, if_neg hidle]
        rfl
      rw [future, future, hstep, runUntil_eq (h.moves hround.moves) (Nat.lt_succ_self _) hless]
    · rw [future_of_result? hres, future_of_result? ((Grows.of_moves hround.moves).keeps i r hres)]

/-- **A jump to the next timer does not change the future.** -/
theorem future_jump (h : InOrder book x) (hidle : x.isIdle = true) {due : Nat} (hnext : x.nextDue? = some due) :
    (x.jump due).future i = x.future i := by
  have hmove := h.move_jump hidle hnext
  rcases hres : x.result? i with _ | r
  · have hstep : x.runUntil i (x.weight + 1) = (x.jump due).runUntil i x.weight := by
      rw [runUntil, isFinished_eq, hres, if_pos hidle, hnext]
      rfl
    rw [future, future, hstep, runUntil_eq (h.move hmove) (Nat.lt_succ_self _) (weight_jump_lt hnext)]
  · rw [future_of_result? hres, future_of_result? (hmove.grows.keeps i r hres)]

/-- **Time that passes while nothing can run does not change the future.** -/
theorem future_pass (hidle : x.isIdle = true) (t : Nat) : ({ x with now := t } : Executor ν).future i = x.future i := by
  rcases hres : x.result? i with _ | r
  · have hres' : ({ x with now := t } : Executor ν).result? i = none := hres
    have hidle' : ({ x with now := t } : Executor ν).isIdle = true := hidle
    have hnext : ({ x with now := t } : Executor ν).nextDue? = x.nextDue? := rfl
    rw [future, future, runUntil, runUntil, isFinished_eq, isFinished_eq, hres, hres', hidle, hidle', hnext]
    rcases x.nextDue? with _ | due <;> rfl
  · rw [future_of_result? hres]
    exact future_of_result? (x := { x with now := t }) hres

/-! ### Waits and reads -/

theorem future_settle (h : InOrder book x) : x.settle.future i = x.future i := by
  have hrounds : ∀ (n : Nat) (x : Executor ν), InOrder book x → (x.rounds n).future i = x.future i := by
    intro n
    induction n with
    | zero => exact fun x _ => rfl
    | succ n ih =>
      intro x h
      rw [rounds]
      split_ifs
      · rfl
      · rw [ih _ (h.moves (works_round h).1.moves), future_round h]
  exact hrounds x.weight x h

theorem future_passUntil {t : Nat} (n : Nat) (h : InOrder book x) (hn : x.weight < n) :
    (passUntil t n x).future i = x.future i := by
  induction n generalizing x with
  | zero => exact absurd hn (Nat.not_lt_zero _)
  | succ n ih =>
    obtain ⟨hworks, hidle⟩ := works_settle h
    have hsettled := h.moves hworks.moves
    have hend : ({ x.settle with now := t } : Executor ν).future i = x.future i := by
      rw [future_pass hidle, future_settle h]
    rw [passUntil]
    rcases hnext : x.settle.nextDue? with _ | due
    · exact hend
    · dsimp only
      split_ifs
      · have hlt := weight_jump_lt hnext
        have hle := hworks.weight
        rw [ih (hsettled.move (hsettled.move_jump hidle hnext)) (by omega), future_jump hsettled hidle hnext,
          future_settle h]
      · exact hend

/-- **A wait does not change the future**, however long it is. -/
theorem future_wait (span : Nat) (h : InOrder book x) : (x.wait span).future i = x.future i :=
  (future_credit _ i readsPerLook).trans (future_passUntil _ h (Nat.lt_succ_self _))

theorem future_runUntil (j n : Nat) (h : InOrder book x) : (x.runUntil j n).future i = x.future i := by
  induction n generalizing x with
  | zero => rfl
  | succ n ih =>
    rw [runUntil]
    split_ifs with hdone hidle
    · rfl
    · rcases hnext : x.nextDue? with _ | due
      · rfl
      · exact (ih (h.move (h.move_jump hidle hnext))).trans (future_jump h hidle hnext)
    · rw [ih (h.moves (works_round h).1.moves), future_round h]

/-- **To read a result does not change the future.** -/
theorem future_get (j : Nat) (h : InOrder book x) : (x.get j).2.future i = x.future i := by
  generalize hturn : (if x.credit = 0 then { x.round with credit := readsPerLook } else x) = y
  have hy : InOrder book y ∧ y.future i = x.future i := by
    rw [← hturn]
    split_ifs
    · have hround := h.moves (works_round h).1.moves
      exact ⟨hround.move (.credit _), (future_credit x.round i readsPerLook).trans (future_round h)⟩
    · exact ⟨h, rfl⟩
  rw [get, hturn]
  dsimp only
  split_ifs
  · exact (future_credit y i _).trans hy.2
  · exact (future_credit _ i _).trans ((future_runUntil j _ hy.1).trans hy.2)

/-! ### Programs -/

/-- **Where nothing is made, the future stays the same.** -/
theorem future_run {s t : List (Step ν)} (hp : IsLinear 0 [] (s ++ t)) (ht : ∀ a ∈ t, Step.IsQuiet a) (i : Nat) :
    (({} : Executor ν).run (s ++ t)).future i = (({} : Executor ν).run s).future i := by
  induction t generalizing s with
  | nil => rw [List.append_nil]
  | cons a t ih =>
    obtain ⟨ha, ht⟩ := List.forall_mem_cons.1 ht
    obtain ⟨hx, -⟩ := run_split hp
    have hsplit : s ++ a :: t = s ++ [a] ++ t := by simp
    rw [hsplit] at hp ⊢
    rw [ih hp ht, run_append]
    cases a with
    | make m => exact ha.elim
    | wait span => exact future_wait span hx
    | get j => exact future_get j hx

theorem quiet_waits (n : Nat) : ∀ a ∈ (waits n : List (Step ν)), a.IsQuiet := by
  intro a ha
  rw [List.eq_of_mem_replicate ha]
  trivial

/-- The future is known: of all tasks it says what they come to. -/
theorem exists_future (x : Executor ν) : ∃ f : Nat → Outcome ν × Nat, ∀ i r, x.future i = some r → f i = r :=
  ⟨fun i => (x.future i).getD (.error (Panic.failure .other), 0), fun i r hr => by
    simp only [hr, Option.getD_some]⟩

/-- The end of a program whose future is known. -/
theorem exists_isEnd {s : List (Step ν)} {f : Nat → Outcome ν × Nat} (hs : IsLinear 0 [] s)
    (hf : ∀ i r, (({} : Executor ν).run s).future i = some r → f i = r) :
    ∃ n, IsLinear 0 [] (s ++ waits n) ∧ IsEnd f (({} : Executor ν).run (s ++ waits n)) := by
  obtain ⟨hx, -⟩ := run_split ((List.append_nil s).symm ▸ hs)
  obtain ⟨n, hall⟩ := exists_waits hx
  rw [← run_append] at hall
  have hlinear := isLinear_append_waits hs n
  refine ⟨n, hlinear, hall, fun i r hr => hf i r ?_⟩
  rw [← future_run hlinear (quiet_waits n), future_of_result? hr]

end Executor

end Handoff.Deferred
