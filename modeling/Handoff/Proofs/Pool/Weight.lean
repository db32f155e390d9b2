import Handoff.Proofs.Pool.Life
import Mathlib.Algebra.BigOperators.Group.List.Basic
import Mathlib.Tactic.Abel

/-! # Weighing a world

A world is weighed by what its threads still run and what its pools have queued. A move takes one or two
of these weights away and puts one or two others in their place, and leaves the rest. Which ones is known
from the event alone, so whoever weighs worlds has to look at seven exchanges and at no world.

* `Weights`: what a program that runs, a queued job and a worker without a program weigh.
* `World.weight`: the sum over a world.
* `Weights.Exchange`: what an event takes away and puts in place, `Happens.weight`: nothing else
  changes.
-/

namespace Handoff.Pool

universe u

variable {ν : Type} {M : Type u}

/-- What the parts of a world weigh. -/
structure Weights (ν : Type) (M : Type u) where
  running : Program ν → M
  queued : Program ν → M
  idle : M
  counting : M
  gone : M

/-- The weight of a worker. -/
def Weights.worker (W : Weights ν M) : Worker ν → M
  | .idle => W.idle
  | .busy _ f => W.running f
  | .counting _ => W.counting
  | .falling _ f _ => W.running f
  | .gone => W.gone

variable [AddCancelCommMonoid M]

/-- The weight of a queued task. -/
def Weights.task (W : Weights ν M) (tasks : List (Entry ν)) (t : Nat) : M :=
  (tasks[t]?.map fun task => W.queued task.job).getD 0

/-- The weight of a pool. -/
def Weights.pool (W : Weights ν M) (tasks : List (Entry ν)) (q : WorkerPool ν) : M :=
  (q.queue.map (W.task tasks)).sum + (q.workers.map W.worker).sum

/-- **The weight of a world.** -/
def World.weight (w : World ν) (W : Weights ν M) : M :=
  (w.clients.map W.running).sum + (w.pools.map (W.pool w.tasks)).sum

/-- **What an event takes away and what it puts in place.** -/
inductive Weights.Exchange (W : Weights ν M) : Event ν → M → M → Prop where
  | went {s : Thread} {f g : Program ν} {a : Answer ν} (ha : ∀ t, a ≠ .task (.ok t))
      (hn : f.after? a = some g) : Exchange W (.did s f a) (W.running f) (W.running g)
  | offered {s : Thread} {p t : Nat} {holds : List Nat} {job : Program ν}
      {next : Except Failure Nat → Program ν} :
      Exchange W (.did s (.submit p holds job next) (.task (.ok t)))
        (W.running (.submit p holds job next)) (W.running (next (.ok t)) + W.queued job)
  | took {p i t : Nat} {job : Program ν} :
      Exchange W (.took p i t) (W.queued job + W.idle) (W.running job)
  | delivered {p i t : Nat} {e : Ending ν} {o : Except String ν} :
      Exchange W (.delivered p i t o) (W.running (.finish e)) W.counting
  | counted {p i t : Nat} : Exchange W (.counted p i t) W.counting W.idle
  | left {p i : Nat} : Exchange W (.left p i) W.idle W.gone

/-! ### Parts of a sum -/

section

variable {α : Type} {l : List α} {i : Nat} {a : α}

theorem sum_map_of_getElem? (f : α → M) (h : l[i]? = some a) :
    (l.map f).sum = ((l.eraseIdx i).map f).sum + f a := by
  rw [((perm_of_getElem? h).map f).sum_eq, List.map_cons, List.sum_cons, add_comm]

theorem sum_map_set (f : α → M) (h : l[i]? = some a) (b : α) :
    ((l.set i b).map f).sum = ((l.eraseIdx i).map f).sum + f b := by
  rw [((perm_set h b).map f).sum_eq, List.map_cons, List.sum_cons, add_comm]

end

theorem Weights.pool_worker (W : Weights ν M) (tasks : List (Entry ν)) {q : WorkerPool ν} {i : Nat}
    {x : Worker ν} (hi : q.workers[i]? = some x) :
    ∃ X, W.pool tasks q = X + W.worker x ∧
      ∀ q' y, q'.queue = q.queue → q'.workers = q.workers.set i y →
        W.pool tasks q' = X + W.worker y := by
  refine ⟨(q.queue.map (W.task tasks)).sum + ((q.workers.eraseIdx i).map W.worker).sum, ?_,
    fun q' y hr hw => ?_⟩
  · rw [pool, sum_map_of_getElem? W.worker hi, add_assoc]
  · rw [pool, hr, hw, sum_map_set W.worker hi, add_assoc]

namespace World

variable (W : Weights ν M)

theorem weight_pool {w : World ν} {p : Nat} {q : WorkerPool ν} (hq : w.pools[p]? = some q) :
    ∃ X, w.weight W = X + W.pool w.tasks q ∧
      ∀ q', (w.setPool p q').weight W = X + W.pool w.tasks q' := by
  refine ⟨(w.clients.map W.running).sum + ((w.pools.eraseIdx p).map (W.pool w.tasks)).sum, ?_,
    fun q' => ?_⟩
  · rw [weight, sum_map_of_getElem? _ hq, add_assoc]
  · rw [weight, setPool, sum_map_set _ hq, add_assoc]

theorem weight_worker {w : World ν} {p i : Nat} {q : WorkerPool ν} {x : Worker ν}
    (hq : w.pools[p]? = some q) (hi : q.workers[i]? = some x) :
    ∃ X, w.weight W = X + W.worker x ∧
      ∀ q' y, q'.queue = q.queue → q'.workers = q.workers.set i y →
        (w.setPool p q').weight W = X + W.worker y := by
  obtain ⟨X, hX, hX'⟩ := weight_pool W hq
  obtain ⟨Y, hY, hY'⟩ := W.pool_worker w.tasks hi
  refine ⟨X + Y, ?_, fun q' y hr hw => ?_⟩
  · rw [hX, hY, add_assoc]
  · rw [hX', hY' q' y hr hw, add_assoc]

theorem weight_program {w : World ν} {s : Thread} {f : Program ν} (h : w.program? s = some f) :
    ∃ X, w.weight W = X + W.running f ∧
      ∀ g, (w.setProgram g s).weight W = X + W.running g := by
  cases s with
  | client i =>
    have h : w.clients[i]? = some f := h
    refine ⟨((w.clients.eraseIdx i).map W.running).sum + (w.pools.map (W.pool w.tasks)).sum, ?_,
      fun g => ?_⟩
    · rw [weight, sum_map_of_getElem? _ h, add_right_comm]
    · rw [weight, setProgram, sum_map_set _ h, add_right_comm]
  | worker p i =>
    obtain ⟨q, x, hq, hi, hx⟩ := exists_worker h
    obtain ⟨X, hX, hX'⟩ := weight_worker W hq hi
    have hxf : W.worker x = W.running f ∧ ∀ g, W.worker (x.setProgram g) = W.running g := by
      cases x <;> cases hx <;> exact ⟨rfl, fun _ => rfl⟩
    refine ⟨X, ?_, fun g => ?_⟩
    · rw [hX, hxf.1]
    · rw [setProgram_eq_setPool g hq hi, ← hxf.2]
      exact hX' _ _ rfl rfl

theorem Tuned.weight {w v : World ν} (h : w.Tuned v) : v.weight W = w.weight W := by
  have hpools : v.pools.map (W.pool w.tasks) = w.pools.map (W.pool w.tasks) := by
    refine List.ext_getElem? fun p => ?_
    have hp := h.pools p
    simp only [List.getElem?_map]
    generalize w.pools[p]? = o, v.pools[p]? = o' at hp ⊢
    cases hp with
    | none => rfl
    | some hp => simp only [Option.map_some, Weights.pool, hp.queue, hp.workers]
  rw [World.weight, World.weight, h.tasks, h.clients, hpools]

theorem weight_setSlot (w : World ν) (t : Nat) (s : Slot ν) :
    (w.setSlot t s).weight W = w.weight W := by
  have hq : W.task (w.setSlot t s).tasks = W.task w.tasks := by
    funext u
    rw [Weights.task, Weights.task, setSlot, List.getElem?_modify, Option.map_eq_map,
      Option.map_map]
    congr 2
    funext task
    by_cases hu : t = u <;> simp [hu]
  have hp : W.pool (w.setSlot t s).tasks = W.pool w.tasks := by
    funext q
    rw [Weights.pool, hq]; rfl
  rw [weight, hp]; rfl

theorem weight_accept {w : World ν} {p : Nat} {q : WorkerPool ν} (holds : List Nat)
    (job : Program ν) (hq : w.pools[p]? = some q)
    (hlt : ∀ (i : Nat) (x : WorkerPool ν), w.pools[i]? = some x → ∀ t ∈ x.queue, t < w.tasks.length) :
    (w.accept p q holds job).weight W = w.weight W + W.queued job := by
  let tasks := w.tasks ++ [⟨p, holds, job, .waiting⟩]
  have hold : ∀ x ∈ w.pools, W.pool tasks x = W.pool w.tasks x := by
    intro x hx
    obtain ⟨i, hi⟩ := List.getElem?_of_mem hx
    have : x.queue.map (W.task tasks) = x.queue.map (W.task w.tasks) := by
      refine List.map_congr_left fun t ht => ?_
      rw [Weights.task, Weights.task, List.getElem?_append_left (hlt i x hi t ht)]
    rw [Weights.pool, Weights.pool, this]
  have hnew : W.pool tasks { q with queue := q.queue ++ [w.tasks.length] } =
      W.pool w.tasks q + W.queued job := by
    have : W.task tasks w.tasks.length = W.queued job := by simp [Weights.task, tasks]
    rw [← hold q (List.mem_of_getElem? hq), Weights.pool, Weights.pool, List.map_append,
      List.sum_append, List.map_singleton, List.sum_singleton, this, add_right_comm]
  obtain ⟨X, hX, hX'⟩ := weight_pool W (w := { w with tasks }) hq
  have hw : weight { w with tasks } W = w.weight W := by
    rw [weight, weight, List.map_congr_left hold]
  calc (w.accept p q holds job).weight W
      = X + W.pool tasks { q with queue := q.queue ++ [w.tasks.length] } := hX' _
    _ = X + W.pool tasks q + W.queued job := by
      rw [hnew, ← hold q (List.mem_of_getElem? hq), add_assoc]
    _ = w.weight W + W.queued job := by rw [← hX, hw]

theorem Story.lt_of_mem_queue {h : List (Event ν)} {w : World ν} (hs : Story h w) {p : Nat}
    {q : WorkerPool ν} (hq : w.pools[p]? = some q) {t : Nat} (ht : t ∈ q.queue) :
    t < w.tasks.length := by
  obtain ⟨task, htask, -⟩ := hs.queued hq ht
  exact (List.getElem?_eq_some_iff.1 htask).1

theorem weight_took {w : World ν} {p i t : Nat} {r : List Nat} {q : WorkerPool ν} {task : Entry ν}
    (hq : w.pools[p]? = some q) (hi : q.workers[i]? = some .idle) (hr : q.queue = t :: r)
    (ht : w.tasks[t]? = some task) :
    ∃ X, w.weight W = X + (W.queued task.job + W.idle) ∧
      (w.setPool p { q.setWorker i (.busy t task.job) with queue := r }).weight W =
        X + W.running task.job := by
  obtain ⟨X, hX, hX'⟩ := weight_pool W hq
  obtain ⟨Y, hY, hY'⟩ := W.pool_worker (q := { q with queue := r }) w.tasks hi
  have hpool : W.pool w.tasks q = W.queued task.job + (Y + W.idle) := by
    have htask : W.task w.tasks t = W.queued task.job := by simp [Weights.task, ht]
    have hY : W.pool w.tasks { q with queue := r } = Y + W.idle := hY
    rw [← hY, Weights.pool, Weights.pool, hr, List.map_cons, List.sum_cons, htask, add_assoc]
  refine ⟨X + Y, ?_, ?_⟩
  · rw [hX, hpool]; abel
  · have htaken := hY' { q.setWorker i (.busy t task.job) with queue := r } _ rfl rfl
    rw [hX', htaken, add_assoc]; rfl

/-- **A move exchanges weights, and leaves the rest of the world.** -/
theorem Happens.weight {h : List (Event ν)} {w v : World ν} {e : Event ν} (he : w.Happens e v)
    (hs : Story h w) (hw : w.Harmless) :
    ∃ X a b, w.weight W = X + a ∧ v.weight W = X + b ∧ W.Exchange e a b := by
  cases he with
  | @did s f a u g hp ha hn =>
    obtain ⟨X, hX, hX'⟩ := weight_program W ((ha.program? s).trans hp)
    rcases ha.accepted_or_tuned with ⟨p, holds, job, next, q, rfl, rfl, hq, -, rfl⟩ | ⟨ha', hu⟩
    · obtain ⟨Y, hY, -⟩ := weight_program W hp
      have hXY : X = Y + W.queued job := by
        have hu := weight_accept W holds job hq fun i x hx t ht => hs.lt_of_mem_queue hx ht
        rw [hX, hY, add_right_comm] at hu
        exact add_right_cancel hu
      obtain rfl := Option.some.inj hn
      refine ⟨Y, _, _, hY, ?_, .offered⟩
      rw [hX', hXY, add_assoc, add_comm (W.queued job)]
    · exact ⟨X, _, _, by rw [← hu.weight W, hX], hX' g, .went ha' hn⟩
  | took hq hi hr ht =>
    obtain ⟨X, hX, hX'⟩ := weight_took W hq hi hr ht
    exact ⟨X, _, _, hX, hX', .took⟩
  | @delivered p i q t e o hq hi ho =>
    obtain ⟨X, hX, hX'⟩ := weight_worker W (w := (w.store t e).setSlot t (.delivered o)) hq hi
    have hv := hX' (q.setWorker i (.counting t)) (.counting t) rfl rfl
    refine ⟨X, _, _, (weight_setSlot W w t _).symm.trans hX, ?_, .delivered⟩
    rw [deliver, setWorker_eq_setPool (w := (w.store _ _).setSlot _ _) _ hq]
    exact hv
  | @counted p i q t hq hi =>
    obtain ⟨X, hX, hX'⟩ := weight_worker W hq hi
    have hv := hX' { q.setWorker i .idle with completed := q.completed + 1 } .idle rfl rfl
    exact ⟨X, _, _, hX, hv, .counted⟩
  | @left p i q hq hi =>
    obtain ⟨X, hX, hX'⟩ := weight_worker W hq hi
    have hv := hX' (q.setWorker i .gone) .gone rfl rfl
    exact ⟨X, _, _, hX, hv, .left⟩
  | fell hq hi hd => exact absurd hd (hw.not_bringsDown hq hi)
  | lost hq hi => exact absurd hi (hw.not_falling hq)

end World

end Handoff.Pool
