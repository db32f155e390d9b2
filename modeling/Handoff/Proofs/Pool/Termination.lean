import Handoff.Proofs.Pool.Weight
import Mathlib.Data.Multiset.DershowitzManna
import Mathlib.Data.Prod.Lex
import Mathlib.SetTheory.Ordinal.Rank

/-! # Every run ends

A program is a tree in which each answer leads to one branch, so no thread can go on for ever by itself.
A job that is offered is a part of the program that offers it. So a world is weighed with a multiset of
prices, one for each program that runs or is queued and one for each worker, and every move replaces one
of them by smaller ones.

* `Program.Part`: what is left of a program after an answer, or a job that it offers.
* `prices`: the weights. `Happens.prices_lt`: every move lowers the weight of a world.
* `IsStuck.not_answered`, `IsStuck.worker`: what threads are at where nothing can happen.
* `Inevitably`: a property that every run comes to, whatever the interleaving.
* `Story.inevitably_of_stuck`: what holds wherever nothing can happen is inevitable.
-/

namespace Handoff.Pool

variable {ν : Type}

/-- What is left of a program after an answer, or a job that its next instruction offers. -/
inductive Program.Part : Program ν → Program ν → Prop where
  | after {f g : Program ν} {a : Answer ν} (h : f.after? a = some g) : Part g f
  | job {p : Nat} {holds : List Nat} {job : Program ν} {next : Except Failure Nat → Program ν} :
      Part job (.submit p holds job next)

/-- **Programs are trees.** -/
theorem Program.wellFounded_part : WellFounded (Program.Part (ν := ν)) := by
  refine ⟨fun f => ?_⟩
  induction f with
  | submit p holds job next ihj ihn =>
    refine ⟨_, fun g hg => ?_⟩
    rcases hg with @⟨_, _, a, ha⟩ | _
    · cases a <;> cases ha
      exact ihn _
    · exact ihj
  | finish e =>
    refine ⟨_, fun g hg => ?_⟩
    rcases hg with @⟨_, _, a, ha⟩ | _
    cases a <;> cases ha
  | receive _ _ next ih | closeIntake _ next ih | mayAwait _ next ih | awaitExit _ _ next ih
  | readPhase _ next ih | awaitCount _ _ _ next ih | release _ next ih | threadName next ih
  | discard _ next ih =>
    refine ⟨_, fun g hg => ?_⟩
    rcases hg with @⟨_, _, a, ha⟩ | _
    cases a <;> cases ha
    exact ih _
  | markShuttingDown _ next ih | markTerminated _ next ih | retain _ next ih
  | openGate _ next ih | awaitGate _ next ih | record _ next ih =>
    refine ⟨_, fun g hg => ?_⟩
    rcases hg with @⟨_, _, a, ha⟩ | _
    cases a <;> cases ha
    exact ih

instance : IsWellFounded (Program ν) Program.Part := ⟨Program.wellFounded_part⟩

/-! ### Prices -/

/-- Prices are compared by the program first. -/
abbrev Price : Type 1 := Ordinal.{0} ×ₗ ℕ

/-- The price of a program; `n` tells how far off the end of its thread's work is after its own. -/
noncomputable def Program.price (n : ℕ) (f : Program ν) : Price :=
  toLex (IsWellFounded.rank Program.Part f, n)

theorem Program.Part.price_lt {f g : Program ν} (h : Part g f) (n m : ℕ) : g.price n < f.price m :=
  Prod.Lex.toLex_lt_toLex.2 (.inl (IsWellFounded.rank_lt_of_rel h))

theorem Program.price_lt (f : Program ν) {n m : ℕ} (h : n < m) : f.price n < f.price m :=
  Prod.Lex.toLex_lt_toLex.2 (.inr ⟨rfl, h⟩)

/-- The price of what comes after every program. -/
noncomputable def restPrice (n : ℕ) : Price := toLex (0, n)

theorem restPrice_lt_restPrice {n m : ℕ} (h : n < m) : restPrice n < restPrice m :=
  Prod.Lex.toLex_lt_toLex.2 (.inr ⟨rfl, h⟩)

theorem restPrice_lt_price {n m : ℕ} (h : n < m) (f : Program ν) : restPrice n < f.price m := by
  rcases (zero_le : 0 ≤ IsWellFounded.rank Program.Part f).lt_or_eq with h0 | h0
  · exact Prod.Lex.toLex_lt_toLex.2 (.inl h0)
  · exact Prod.Lex.toLex_lt_toLex.2 (.inr ⟨h0, h⟩)

/-- **Prices as weights**: one price for each part of a world. -/
noncomputable def prices : Weights ν (Multiset Price) where
  running f := {f.price 3}
  queued f := {f.price 4}
  idle := {restPrice 1}
  counting := {restPrice 2}
  gone := {restPrice 0}

/-- **Every event pays with smaller prices.** -/
theorem prices_lt {e : Event ν} {a b : Multiset Price} (h : prices.Exchange e a b) :
    a ≠ ∅ ∧ ∀ y ∈ b, ∃ z ∈ a, y < z := by
  have one : ∀ {y z : Price}, y < z →
      ({z} : Multiset Price) ≠ ∅ ∧ ∀ x ∈ ({y} : Multiset Price), ∃ u ∈ ({z} : Multiset Price), x < u :=
    fun {y z} hyz => ⟨Multiset.singleton_ne_zero z, fun x hx =>
      ⟨z, Multiset.mem_singleton_self z, Multiset.mem_singleton.1 hx ▸ hyz⟩⟩
  cases h with
  | went _ hn => exact one ((Program.Part.after hn).price_lt 3 3)
  | delivered => exact one (restPrice_lt_price (by omega) _)
  | counted => exact one (restPrice_lt_restPrice (by omega))
  | left => exact one (restPrice_lt_restPrice (by omega))
  | @offered s p t holds job next =>
    refine ⟨Multiset.singleton_ne_zero _, fun y hy => ⟨_, Multiset.mem_singleton_self _, ?_⟩⟩
    rcases Multiset.mem_add.1 hy with hy | hy
    · rw [Multiset.mem_singleton.1 hy]
      exact (Program.Part.after (a := .task (.ok t)) rfl).price_lt 3 3
    · rw [Multiset.mem_singleton.1 hy]
      exact Program.Part.job.price_lt 4 3
  | @took p i t job =>
    refine ⟨by simp [prices], fun y hy => ⟨job.price 4, by simp [prices], ?_⟩⟩
    rw [Multiset.mem_singleton.1 hy]
    exact job.price_lt (by omega)

/-- **Every move lowers the prices.** -/
theorem World.Happens.prices_lt {h : List (Event ν)} {w v : World ν} {e : Event ν}
    (he : w.Happens e v) (hs : w.Story h) (hw : w.Harmless) :
    (v.weight prices).IsDershowitzMannaLT (w.weight prices) := by
  obtain ⟨X, a, b, hX, hX', hab⟩ := he.weight prices hs hw
  obtain ⟨ha, hlt⟩ := Pool.prices_lt hab
  exact ⟨X, b, a, ha, hX', hX, hlt⟩

namespace World

/-! ### Where nothing can happen -/

/-- Where nothing can happen, nobody offers a job. -/
theorem IsStuck.not_submit {w : World ν} (hs : w.IsStuck) {self : Thread} {p : Nat}
    {holds : List Nat} {job : Program ν} {next : Except Failure Nat → Program ν}
    {q : WorkerPool ν} (hq : w.pools[p]? = some q) :
    w.program? self ≠ some (.submit p holds job next) := by
  intro hf
  rcases htakes : q.takesJobs with _ | _
  · exact hs.not_answered hf (.refused hq htakes)
  · exact hs.not_answered hf (.accepted hq htakes)

/-- **Where nothing can happen, a worker is gone, or waits for a job that can still come, or waits
within its job.** -/
theorem IsStuck.worker {h : List (Event ν)} {w : World ν} (hs : w.IsStuck) (hst : Story h w)
    (hw : w.Harmless) {p i : Nat} {q : WorkerPool ν} {x : Worker ν} (hq : w.pools[p]? = some q)
    (hi : q.workers[i]? = some x) :
    x = .gone ∨ (x = .idle ∧ q.queue = [] ∧ q.accepting = true) ∨
      ∃ t f, x = .busy t f ∧ ∀ e, f ≠ .finish e := by
  have never : ∀ {e v}, ¬ w.Happens e v := fun {e v} => isStuck_iff.1 hs e v
  cases x with
  | gone => exact Or.inl rfl
  | idle =>
    rcases hr : q.queue with _ | ⟨t, r⟩
    · refine Or.inr (Or.inl ⟨rfl, rfl, ?_⟩)
      by_contra ha
      exact never (.left hq hi hr (by simpa using ha))
    · have hlt := hst.lt_of_mem_queue hq (t := t) (by rw [hr]; exact List.mem_cons_self ..)
      exact absurd (.took hq hi hr (List.getElem?_eq_getElem hlt)) never
  | counting t => exact absurd (.counted hq hi) never
  | falling t f others => exact absurd hi (hw.not_falling hq)
  | busy t f =>
    refine Or.inr (Or.inr ⟨t, f, rfl, ?_⟩)
    rintro e rfl
    have hd := (hw.isDisposable hq hi).bringsDown w t
    have hroom := hst.hasRoom (worker?_eq_some.2 ⟨q, hq, hi⟩)
    exact never (.delivered hq hi (outcome?_of_bringsDown hd) hd hroom)

/-! ### What every run comes to -/

/-- **What every run from a world comes to**, whatever the interleaving. -/
inductive Inevitably (P : World ν → Prop) : World ν → Prop where
  | now {w : World ν} (h : P w) : Inevitably P w
  | later {w : World ν} (hs : ¬ w.IsStuck) (h : ∀ v, Step w v → Inevitably P v) : Inevitably P w

theorem Inevitably.mono {P Q : World ν → Prop} {w : World ν} (h : Inevitably P w)
    (hPQ : ∀ v, Reachable w v → P v → Q v) : Inevitably Q w := by
  induction h with
  | now hP => exact .now (hPQ _ .refl hP)
  | later hs _ ih =>
    refine .later hs fun v hv => ih v hv fun u hu => hPQ u ?_
    have hv' : Reachable _ v := .tail .refl hv
    exact hv'.trans hu

/-- **What holds wherever nothing can happen is inevitable.** -/
theorem Story.inevitably_of_stuck {k : List (Event ν)} {w₀ : World ν} (h₀ : Story k w₀)
    (hw : w₀.Harmless) {P : World ν → Prop}
    (hP : ∀ h w, w₀.Run h w → w.IsStuck → P w) : Inevitably P w₀ := by
  have all : ∀ M : Multiset Price, ∀ h w, w₀.Run h w → w.weight prices = M → Inevitably P w := by
    refine Multiset.wellFounded_isDershowitzMannaLT.fix fun M ih h w hr hM => ?_
    by_cases hs : w.IsStuck
    · exact .now (hP h w hr hs)
    · refine .later hs fun v hv => ?_
      obtain ⟨e, he⟩ := step_iff_happens.1 hv
      have hlt := he.prices_lt (hr.story_append h₀ hw) (hr.harmless hw)
      exact ih _ (hM ▸ hlt) _ _ (.tail hr he) rfl
  exact all _ [] w₀ .refl rfl

end World

end Handoff.Pool
