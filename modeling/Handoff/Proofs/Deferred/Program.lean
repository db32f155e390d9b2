import Handoff.Proofs.Deferred.Settling

/-! # Programs of deferred values

A program makes tasks, lets time pass and reads results. Every task is used once, after it was made.

* `Step`, `Executor.run`: programs and their runs.
* `IsLinear`: each task is used once, after it was made.
* `Executor.Account.run`: the account is kept, and for each task that is made its entry is written.
* `Executor.exists_waits`: after some waits all tasks are done.
-/

namespace Handoff.Deferred

variable {ν : Type}

/-- **A step of a program.** -/
inductive Step (ν : Type) where
  /-- A task is made. -/
  | make (maker : Maker ν)
  /-- Time passes. -/
  | wait (span : Nat)
  /-- A result is waited for and read. -/
  | get (task : Nat)

/-- **Each task is used once, after it was made.** So many were made before, and those in `used` are used
up. -/
def IsLinear (made : Nat) (used : List Nat) : List (Step ν) → Prop
  | [] => True
  | .make m :: p =>
    (m.inputs.Nodup ∧ ∀ j ∈ m.inputs, j < made ∧ j ∉ used) ∧ IsLinear (made + 1) (m.inputs ++ used) p
  | .wait _ :: p => IsLinear made used p
  | .get i :: p => (i < made ∧ i ∉ used) ∧ IsLinear made (i :: used) p

namespace Executor

open Relation (ReflTransGen)

variable {x : Executor ν}

/-- The executor after a step. -/
def perform (x : Executor ν) : Step ν → Executor ν
  | .make m => (x.make m).2
  | .wait span => x.wait span
  | .get i => (x.get i).2

/-- **The executor after a program.** -/
def run (x : Executor ν) (p : List (Step ν)) : Executor ν := p.foldl perform x

/-- What is written in a run. -/
def written (x : Executor ν) : List (Step ν) → List (Entry ν)
  | [] => []
  | .make m :: p => x.entry m :: written (x.make m).2 p
  | .wait span :: p => written (x.wait span) p
  | .get i :: p => written (x.get i).2 p

theorem run_append (x : Executor ν) (p q : List (Step ν)) : x.run (p ++ q) = (x.run p).run q :=
  List.foldl_append

/-- **A run keeps the account.** What is still to be run is used as the program says. -/
theorem Account.run {book : List (Entry ν)} {used : List Nat} {p q : List (Step ν)}
    (h : InOrder book x) (hused : ∀ b ∈ book, ∀ j ∈ b.maker.inputs, j ∈ used)
    (hp : IsLinear book.length used (p ++ q)) :
    InOrder (book ++ x.written p) (x.run p) ∧ Grows x (x.run p) ∧
      ∃ used', (∀ b ∈ book ++ x.written p, ∀ j ∈ b.maker.inputs, j ∈ used') ∧
        IsLinear (book ++ x.written p).length used' q := by
  induction p generalizing x book used with
  | nil => simpa [written] using ⟨h, .refl x, used, hused, hp⟩
  | cons s p ih =>
    cases s with
    | make m =>
      obtain ⟨⟨hnodup, hm⟩, hp⟩ := hp
      have hlt : ∀ j ∈ m.inputs, j < x.tasks.length := fun j hj => h.length ▸ (hm j hj).1
      have hfree : ∀ j ∈ m.inputs, x.reader? j = none := by
        intro j hj
        by_contra hread
        obtain ⟨k, hk⟩ := Option.ne_none_iff_exists'.1 hread
        obtain ⟨b, hb, hin⟩ := (h.reader j k).1 hk
        exact (hm j hj).2 (hused b (List.mem_of_getElem? hb) j hin)
      have hused' : ∀ b ∈ book ++ [x.entry m], ∀ j ∈ b.maker.inputs, j ∈ m.inputs ++ used := by
        refine List.forall_mem_append.2 ⟨fun b hb j hj => List.mem_append_right _ (hused b hb j hj), ?_⟩
        simp only [List.mem_singleton, forall_eq]
        exact fun j hj => List.mem_append_left _ hj
      have hrest := ih (h.make hnodup hlt hfree) hused' (by simpa using hp)
      rw [List.append_assoc] at hrest
      exact ⟨hrest.1, (grows_make hlt).trans hrest.2.1, hrest.2.2⟩
    | wait span =>
      have hmoves := (wait_spec span h).1
      have hrest := ih (h.moves hmoves) hused hp
      exact ⟨hrest.1, (Grows.of_moves hmoves).trans hrest.2.1, hrest.2.2⟩
    | get i =>
      obtain ⟨⟨hi, -⟩, hp⟩ := hp
      have hmoves := (get_spec h (h.length ▸ hi)).1
      have hrest := ih (h.moves hmoves) (fun b hb j hj => List.mem_cons_of_mem _ (hused b hb j hj)) hp
      exact ⟨hrest.1, (Grows.of_moves hmoves).trans hrest.2.1, hrest.2.2⟩

/-- What holds in the middle of a run, and at its end. -/
theorem run_split {before after : List (Step ν)} (hp : IsLinear 0 [] (before ++ after)) :
    let x := ({} : Executor ν).run before
    let y := ({} : Executor ν).run (before ++ after)
    InOrder (written {} before) x ∧ Grows x y ∧ InOrder (written {} before ++ x.written after) y ∧
      ∃ used, IsLinear x.tasks.length used after := by
  obtain ⟨hx, -, used, hused, hafter⟩ :=
    Account.run (p := before) inOrder_start (by simp) hp
  rw [List.nil_append] at hx hused hafter
  obtain ⟨hy, hgrows, -⟩ := Account.run (p := after) (q := []) hx hused (by simpa using hafter)
  rw [run_append]
  exact ⟨hx, hgrows, hy, used, hx.length ▸ hafter⟩

/-! ### To the end -/

/-- So many waits of the greatest length. -/
def waits (n : Nat) : List (Step ν) := List.replicate n (.wait longestSleep)

theorem isLinear_append_waits {p : List (Step ν)} {made : Nat} {used : List Nat} (h : IsLinear made used p)
    (n : Nat) : IsLinear made used (p ++ waits n) := by
  induction p generalizing made used with
  | nil =>
    induction n with
    | zero => trivial
    | succ n ih => exact ih
  | cons s p ih =>
    cases s with
    | make m => exact ⟨h.1, ih h.2⟩
    | wait span =>
      have h : IsLinear made used p := h
      exact ih h
    | get i => exact ⟨h.1, ih h.2⟩

/-- At rest, a long wait lowers the weight as long as a task is not done. -/
theorem AtRest.wait_lt {book : List (Entry ν)} (hrest : AtRest x) (h : InOrder book x) {k : Nat}
    {s : Stage ν} (hs : x.stage? k = some s) (hy : s.yield? = none) :
    (x.wait longestSleep).weight < x.weight := by
  obtain ⟨tm, htm⟩ := exists_timer h hrest.idle k hs hy
  have hdue := (h.timers tm htm).2.2
  refine (wait_spec longestSleep h).2.2.2.2 ⟨tm, ?_, by rwa [Nat.min_self]⟩
  rwa [settle_of_idle hrest.idle]

/-- **After some waits all tasks are done.** -/
theorem exists_waits {book : List (Entry ν)} (h : InOrder book x) :
    ∃ n, ∀ k < (x.run (waits n)).tasks.length, (x.run (waits n)).result? k ≠ none := by
  have hmain : ∀ w (x : Executor ν), InOrder book x → AtRest x → x.weight ≤ w →
      ∃ n, ∀ k < (x.run (waits n)).tasks.length, (x.run (waits n)).result? k ≠ none := by
    intro w
    induction w with
    | zero =>
      intro x h hrest hw
      refine ⟨0, fun k hk hnone => ?_⟩
      obtain ⟨s, hs⟩ := exists_stage? hk
      have := hrest.wait_lt h hs ((result?_of_stage? hs).symm.trans hnone)
      omega
    | succ w ih =>
      intro x h hrest hw
      by_cases hall : ∀ k < x.tasks.length, x.result? k ≠ none
      · exact ⟨0, hall⟩
      · simp only [not_forall, not_not] at hall
        obtain ⟨k, hk, hnone⟩ := hall
        obtain ⟨s, hs⟩ := exists_stage? hk
        have hlt := hrest.wait_lt h hs ((result?_of_stage? hs).symm.trans hnone)
        obtain ⟨hmoves, -, hrest', -⟩ := wait_spec longestSleep h
        obtain ⟨n, hn⟩ := ih (x.wait longestSleep) (h.moves hmoves) hrest' (by omega)
        exact ⟨n + 1, hn⟩
  obtain ⟨hmoves, -, hrest, -⟩ := wait_spec longestSleep h
  obtain ⟨n, hn⟩ := hmain _ _ (h.moves hmoves) hrest (Nat.le_refl _)
  exact ⟨n + 1, hn⟩

end Executor

end Handoff.Deferred
