import Handoff.Proofs.Pool.Ledger
import Handoff.Proofs.Pool.Termination

/-! # Jobs that wait for jobs of their own pool

A job of depth `d` offers a job of depth `d - 1` to its own pool and waits for it. Each worker that waits
is missing for the jobs that are waited for. A client offers `k` jobs of depth `d` to a pool of `n`
workers, one after the other; the pool is open and idle, and may have run jobs before.

What counts is how many waits are still to come or under way, in the programs that run and in the jobs
that are queued. This number starts at `k * (d - 1)` and never rises, and a worker that waits has one of
them. So `k * (d - 1)` workers at most wait at a time.

* `Nesting`, `Nesting.job`, `Nesting.client`, `Nesting.IsStart`: the jobs, their client, and the start.
* `Program.waits`, `waiting`: how many waits are to come.
* `Nesting.Shape`: what the threads can be at, `Shape.happens`: every move keeps it.
* `Shape.stuck_worker`, `Shape.completed`: where nothing can happen, either every worker waits, or
  everything is done.
-/

namespace Handoff.Pool

variable {ν : Type}

/-- `jobs` jobs of a depth for a pool with so many workers. A job has a limit for its wait, by its depth,
and makes its own value of what it gets. -/
structure Nesting (ν : Type) where
  workers : Nat
  jobs : Nat
  depth : Nat
  limit : Nat → Option Duration
  leaf : ν
  back : Except Failure ν → ν

namespace Nesting

variable (N : Nesting ν)

/-- What is left of a job of depth `d` when it waits for a task. -/
def wait (d t : Nat) : Program ν := .join t (N.limit d) fun r => .yield (N.back r)

/-- **A job of depth `d`.** -/
def job : Nat → Program ν
  | 0 => .yield N.leaf
  | 1 => .yield N.leaf
  | d + 2 => .submit 0 [] (job (d + 1)) fun
      | .ok t => N.wait (d + 2) t
      | .error e => .yield (N.back (.error e))

/-- **The client**, with `k` jobs left to offer. -/
def client : Nat → Program ν
  | 0 => .yield N.leaf
  | k + 1 => .submit 0 [] (N.job N.depth) fun _ => client k

/-- **The start**: an open and idle pool, all of whose earlier jobs are done, and the client. -/
structure IsStart (w : World ν) : Prop where
  pool : ∃ q, w.pools = [q] ∧ q.accepting = true ∧ q.queue = [] ∧
    q.workers = List.replicate N.workers .idle
  tasks : ∀ (t : Nat) (task : Entry ν), w.tasks[t]? = some task →
    task.pool = 0 ∧ task.job.Harmless ∧ ∃ o, task.slot = .delivered o
  clients : w.clients = [N.client N.jobs]

end Nesting

namespace World

/-- A world in which every client has finished and every task has been delivered. -/
def Completed (w : World ν) : Prop :=
  (∀ f ∈ w.clients, ∃ e, f = .finish e) ∧
    ∀ (t : Nat) (task : Entry ν), w.tasks[t]? = some task → ∃ o, task.slot = .delivered o

/-- **A deadlock**: nothing can happen, and not everything is done. -/
def Deadlocked (w : World ν) : Prop := w.IsStuck ∧ ¬ w.Completed

end World

/-! ### How many waits are to come -/

/-- How many waits are to come in a program and in the jobs that it offers. -/
def Program.waits : Program ν → Nat
  | submit _ _ job next => job.waits + (next (.ok 0)).waits
  | receive _ _ _ => 1
  | _ => 0

/-- The waits that are to come, as weights. -/
def waiting : Weights ν Nat where
  running := Program.waits
  queued := Program.waits
  idle := 0
  counting := 0
  gone := 0

namespace Nesting

variable {N : Nesting ν}

@[simp] theorem waits_job (d : Nat) : (N.job d).waits = d - 1 := by
  induction d using job.induct with
  | case1 => rfl
  | case2 => rfl
  | case3 d ih => simp only [job, Program.waits, wait, Program.join, ih]; omega

@[simp] theorem waits_client (k : Nat) : (N.client k).waits = k * (N.depth - 1) := by
  induction k with
  | zero => simp [client, Program.yield, Program.waits]
  | succ k ih => rw [client, Program.waits, ih, waits_job, Nat.succ_mul, Nat.add_comm]

/-! ### What the threads can be at -/

/-- What a worker can be at with a job. -/
inductive At (N : Nesting ν) (w : World ν) : Program ν → Program ν → Prop where
  | start {d : Nat} : At N w (N.job d) (N.job d)
  | wait {d c : Nat} {task : Entry ν} (hc : w.tasks[c]? = some task) (hj : task.job = N.job (d + 1)) :
      At N w (N.job (d + 2)) (N.wait (d + 2) c)
  /-- Its limit was up, and it drops the handle. -/
  | drop {d c : Nat} {v : ν} : At N w (N.job d) (.forget c (.yield v))
  | done {d : Nat} {e : Ending ν} : At N w (N.job d) (.finish e)

/-- **What the threads can be at**, and the pool. -/
structure Shape (N : Nesting ν) (w : World ν) (q : WorkerPool ν) : Prop where
  pools : w.pools = [q]
  accepting : q.accepting = true
  size : q.workers.length = N.workers
  present : ∀ x ∈ q.workers, x ≠ .gone
  queued : ∀ t ∈ q.queue, ∃ task d, w.tasks[t]? = some task ∧ task.job = N.job d
  client : ∃ k, w.clients = [N.client k]
  busy : ∀ i t f, w.worker? 0 i = some (.busy t f) →
    ∃ task, w.tasks[t]? = some task ∧ N.At w task.job f

theorem harmless_job (d : Nat) : (N.job d).Harmless := by
  induction d using job.induct with
  | case1 => exact Program.harmless_yield _
  | case2 => exact Program.harmless_yield _
  | case3 d ih =>
    refine ⟨ih, fun r => ?_⟩
    rcases r with e | t
    · exact Program.harmless_yield _
    · exact .join fun r => Program.harmless_yield _

theorem harmless_client (k : Nat) : (N.client k).Harmless := by
  induction k with
  | zero => exact Program.harmless_yield _
  | succ k ih => exact ⟨harmless_job _, fun _ => ih⟩

section

variable {w v : World ν} {q : WorkerPool ν} {e : Event ν}

theorem IsStart.worker? (h : N.IsStart w) {p i : Nat} {x : Worker ν}
    (hx : w.worker? p i = some x) : p = 0 ∧ x = .idle := by
  obtain ⟨q, hq, -, -, hw⟩ := h.pool
  obtain ⟨q', hq', hi⟩ := World.worker?_eq_some.1 hx
  rw [hq] at hq'
  obtain ⟨hp, rfl⟩ := getElem?_singleton_eq_some hq'
  rw [hw] at hi
  exact ⟨hp, List.eq_of_mem_replicate (List.mem_of_getElem? hi)⟩

theorem IsStart.harmless (h : N.IsStart w) : w.Harmless where
  program s f hf := by
    cases s with
    | client i =>
      have hf : w.clients[i]? = some f := hf
      rw [h.clients] at hf
      rw [List.mem_singleton.1 (List.mem_of_getElem? hf)]
      exact harmless_client _
    | worker p i =>
      rw [World.program?_worker] at hf
      obtain ⟨x, hx, hf⟩ := Option.bind_eq_some_iff.1 hf
      rw [(h.worker? hx).2] at hf
      cases hf
  job t task ht := (h.tasks t task ht).2.1
  up p i x hx := by rw [(h.worker? hx).2]; trivial

theorem IsStart.story (h : N.IsStart w) : World.Story [] w where
  unborn _ _ := rfl
  born t task ht := by
    obtain ⟨hp, -, o, ho⟩ := h.tasks t task ht
    obtain ⟨q, hq, -⟩ := h.pool
    exact ⟨.old ho, q, by rw [hp, hq]; rfl⟩
  pool p q' hq' := by
    obtain ⟨q, hq, -, hr, hw⟩ := h.pool
    rw [hq] at hq'
    obtain rfl := List.mem_singleton.1 (List.mem_of_getElem? hq')
    refine ⟨fun t => ?_, fun i t => ?_, ?_⟩
    · simp [WorkerPool.view, hr]
    · simp [WorkerPool.view, hw, List.getElem?_replicate, Worker.place]
    · simp [WorkerPool.view, hr]

theorem IsStart.shape (h : N.IsStart w) : ∃ q, N.Shape w q := by
  obtain ⟨q, hq, ha, hr, hw⟩ := h.pool
  refine ⟨q, hq, ha, ?_, fun x hx => ?_, fun t ht => ?_, ⟨_, h.clients⟩, fun i t f hx => ?_⟩
  · rw [hw, List.length_replicate]
  · rw [hw] at hx
    rw [List.eq_of_mem_replicate hx]
    simp
  · rw [hr] at ht; cases ht
  · cases (h.worker? hx).2

/-! ### Every move keeps the shape -/

theorem At.mono {j f : Program ν} (h : N.At w j f)
    (hv : ∀ (c : Nat) (task : Entry ν), w.tasks[c]? = some task →
      ∃ s, v.tasks[c]? = some { task with slot := s }) : N.At v j f := by
  cases h with
  | start => exact .start
  | wait hc hj =>
    obtain ⟨s, hs⟩ := hv _ _ hc
    exact .wait hs hj
  | drop => exact .drop
  | done => exact .done

/-- There is one pool. -/
theorem Shape.of_pool (hs : N.Shape w q) {p : Nat} {q' : WorkerPool ν}
    (hq : w.pools[p]? = some q') : p = 0 ∧ q = q' := by
  rw [hs.pools] at hq
  exact getElem?_singleton_eq_some hq

theorem Shape.pool_zero (hs : N.Shape w q) : w.pools[0]? = some q := by rw [hs.pools]; rfl

/-- What runs in a world of this shape. -/
theorem Shape.program (hs : N.Shape w q) (hw : w.Harmless) {s : Thread} {f : Program ν}
    (hf : w.program? s = some f) :
    (∃ k, s = .client 0 ∧ f = N.client k) ∨
      ∃ i t task, s = .worker 0 i ∧ w.worker? 0 i = some (.busy t f) ∧
        w.tasks[t]? = some task ∧ N.At w task.job f := by
  cases s with
  | client i =>
    left
    obtain ⟨k, hk⟩ := hs.client
    have hf : w.clients[i]? = some f := hf
    rw [hk] at hf
    obtain ⟨rfl, rfl⟩ := getElem?_singleton_eq_some hf
    exact ⟨k, rfl, rfl⟩
  | worker p i =>
    right
    rw [World.program?_worker] at hf
    obtain ⟨x, hx, hf⟩ := Option.bind_eq_some_iff.1 hf
    obtain ⟨q', hq', -⟩ := World.worker?_eq_some.1 hx
    obtain ⟨rfl, -⟩ := hs.of_pool hq'
    cases x with
    | idle | counting | gone => cases hf
    | falling => exact (hw.up _ _ _ hx).elim
    | busy t g =>
      cases hf
      obtain ⟨task, ht, hat⟩ := hs.busy i t f hx
      exact ⟨i, t, task, rfl, hx, ht, hat⟩

/-- What a job offers. -/
theorem submit_eq_job {p d : Nat} {holds : List Nat} {j : Program ν}
    {next : Except Failure Nat → Program ν} (h : .submit p holds j next = N.job d) :
    ∃ e, d = e + 2 ∧ p = 0 ∧ j = N.job (e + 1) ∧ next = fun
      | .ok t => N.wait (e + 2) t
      | .error r => .yield (N.back (.error r)) := by
  match d, h with
  | 0, h => cases h
  | 1, h => cases h
  | d + 2, h => cases h; exact ⟨d, rfl, rfl, rfl, rfl⟩

theorem submit_eq_client {p k : Nat} {holds : List Nat} {j : Program ν}
    {next : Except Failure Nat → Program ν} (h : .submit p holds j next = N.client k) :
    ∃ l, k = l + 1 ∧ p = 0 ∧ j = N.job N.depth ∧ next = fun _ => N.client l := by
  match k, h with
  | 0, h => cases h
  | k + 1, h => cases h; exact ⟨k, rfl, rfl, rfl, rfl⟩

/-- Nobody closes the intake. -/
theorem Shape.ne_close (hs : N.Shape w q) (hw : w.Harmless) (he : w.Happens e v) (s : Thread)
    (p : Nat) (next : Bool → Program ν) (a : Answer ν) : e ≠ .did s (.closeIntake p next) a := by
  rintro rfl
  cases he with
  | did hp ha hn =>
    rcases hs.program hw hp with ⟨k, -, hk⟩ | ⟨i, t, task, -, -, -, hat⟩
    · cases k <;> cases hk
    · generalize hf : Program.closeIntake p next = f, task.job = j at hat
      cases hat with
      | @start d => rcases d with _ | _ | d <;> cases hf
      | wait | drop | done => cases hf

/-- Only jobs of this kind are offered. -/
theorem Shape.offered (hs : N.Shape w q) (hw : w.Harmless) {s : Thread} {p t : Nat}
    {holds : List Nat} {j : Program ν} {next : Except Failure Nat → Program ν}
    (he : w.Happens (.did s (.submit p holds j next) (.task (.ok t))) v) :
    ∃ d, v.tasks[t]? = some ⟨p, holds, N.job d, .waiting⟩ := by
  obtain ⟨ht, hv⟩ := he.offered
  have hnew : v.tasks[t]? = some ⟨p, holds, j, .waiting⟩ := by
    rw [hv, ht, List.getElem?_append_right (Nat.le_refl _), Nat.sub_self]; rfl
  cases he with
  | did hp ha hn =>
    rcases hs.program hw hp with ⟨k, -, hk⟩ | ⟨i, u, task, -, -, -, hat⟩
    · obtain ⟨l, -, -, rfl, -⟩ := submit_eq_client hk
      exact ⟨_, hnew⟩
    · generalize hf : Program.submit p holds j next = f, task.job = l at hat
      cases hat with
      | start =>
        obtain ⟨d, -, -, rfl, -⟩ := submit_eq_job hf
        exact ⟨_, hnew⟩
      | wait | drop | done => cases hf

/-- What a worker goes on with. -/
theorem At.after {s : Thread} {j f g : Program ν} {a : Answer ν} (h : N.At w j g)
    (he : w.Happens (.did s g a) v) (hn : g.after? a = some f) : N.At v j f := by
  cases h with
  | @start d =>
    match d with
    | 0 => cases a <;> cases hn
    | 1 => cases a <;> cases hn
    | d + 2 =>
      rcases a with (r | t) | _ | _ | _ | _ | _ | _ <;> cases hn
      · exact .done
      · obtain ⟨ht, hv⟩ := World.Happens.offered he
        have hchild : v.tasks[t]? = some ⟨0, [], N.job (d + 1), .waiting⟩ := by
          rw [hv, ht, List.getElem?_append_right (Nat.le_refl _), Nat.sub_self]; rfl
        exact .wait hchild rfl
  | @wait d c =>
    rcases a with _ | (r | v) | _ | _ | _ | _ | _ <;> cases hn
    · cases r <;> first | exact .drop | exact .done
    · exact .done
  | drop =>
    rcases a with _ | _ | (_ | _) | _ | _ | _ | _ <;> cases hn <;> exact .done
  | done => cases a <;> cases hn

/-- What the client goes on with. -/
theorem Shape.happens_client (hs : N.Shape w q) (he : w.Happens e v) :
    ∃ k, v.clients = [N.client k] := by
  obtain ⟨k, hk⟩ := hs.client
  rcases he.clients with h | ⟨i, f, a, g, rfl, hi, hn, h⟩
  · exact ⟨k, by rw [h, hk]⟩
  · rw [hk] at hi h
    obtain ⟨rfl, rfl⟩ := getElem?_singleton_eq_some hi
    cases k with
    | zero => cases a <;> cases hn
    | succ k => cases a <;> cases hn; exact ⟨k, h⟩

/-- What the workers are busy with. -/
theorem Shape.happens_busy (hs : N.Shape w q) (he : w.Happens e v) {i t : Nat} {f : Program ν}
    (hx : v.worker? 0 i = some (.busy t f)) :
    ∃ task, v.tasks[t]? = some task ∧ N.At v task.job f := by
  rcases he.busy hx with ⟨-, hwx⟩ | ⟨task, rfl, htask, rfl⟩ | ⟨g, a, rfl, hwx, hn⟩
  · obtain ⟨task, htask, hat⟩ := hs.busy i t f hwx
    obtain ⟨slot, hslot⟩ := he.task htask
    exact ⟨_, hslot, hat.mono fun _ _ => he.task⟩
  · obtain ⟨slot, hslot⟩ := he.task htask
    have hm : t ∈ q.queue := by
      cases he with
      | took hq _ hr _ =>
        obtain rfl := Option.some.inj (hs.pool_zero.symm.trans hq)
        rw [hr]
        exact List.mem_cons_self ..
    obtain ⟨task', d, htask', hj⟩ := hs.queued t hm
    obtain rfl := Option.some.inj (htask.symm.trans htask')
    exact ⟨_, hslot, by rw [hj]; exact .start⟩
  · obtain ⟨task, htask, hat⟩ := hs.busy i t g hwx
    obtain ⟨slot, hslot⟩ := he.task htask
    exact ⟨_, hslot, hat.after he hn⟩

/-- **Every move keeps the shape.** -/
theorem Shape.happens (hs : N.Shape w q) (hw : w.Harmless) (he : w.Happens e v) :
    ∃ q', N.Shape v q' := by
  obtain ⟨q', hq', ht⟩ := he.turn hw hs.pool_zero
  have hgone : .gone ∉ q.view.places := by
    rw [WorkerPool.view, List.mem_map]
    rintro ⟨x, hx, hp⟩
    cases x <;> cases hp
    exact hs.present _ hx rfl
  have ha := ht.open hs.accepting fun s next a => hs.ne_close hw he s 0 next a
  obtain ⟨hlen, hgone'⟩ := ht.of_open hs.accepting hgone
  refine ⟨q', ?_, ha, ?_, ?_, fun t hm => ?_, hs.happens_client he,
    fun i t f => hs.happens_busy he⟩
  · have hl : v.pools.length = 1 := by rw [he.length_pools, hs.pools]; rfl
    obtain ⟨x, hx⟩ := List.length_eq_one_iff.1 hl
    rw [hx] at hq' ⊢
    rw [← Option.some.inj hq']
  · have : q'.workers.length = q.workers.length := by simpa [WorkerPool.view] using hlen
    rw [this, hs.size]
  · rintro x hx rfl
    exact hgone' (List.mem_map.2 ⟨_, hx, rfl⟩)
  · rcases ht.mem_queue hm with hm | ⟨s, holds, j, next, rfl⟩
    · obtain ⟨task, d, htask, hj⟩ := hs.queued t hm
      obtain ⟨slot, hslot⟩ := he.task htask
      exact ⟨_, d, hslot, hj⟩
    · obtain ⟨d, hd⟩ := hs.offered hw he
      exact ⟨_, d, hd, rfl⟩

theorem IsStart.shape_of_run {w₀ : World ν} {h : List (Event ν)} (h₀ : N.IsStart w₀)
    (hr : w₀.Run h w) : ∃ q, N.Shape w q := by
  induction hr with
  | refl => exact h₀.shape
  | tail hr he ih =>
    obtain ⟨q, hq⟩ := ih
    exact hq.happens (hr.harmless h₀.harmless) he

/-! ### The waits that are to come -/

theorem At.waits_after {j f g : Program ν} {a : Answer ν} (h : N.At w j f)
    (ha : ∀ t, a ≠ .task (.ok t)) (hn : f.after? a = some g) : g.waits = 0 := by
  cases h with
  | @start d =>
    match d with
    | 0 => cases a <;> cases hn
    | 1 => cases a <;> cases hn
    | d + 2 =>
      rcases a with (r | t) | _ | _ | _ | _ | _ | _ <;> cases hn
      · rfl
      · exact absurd rfl (ha t)
  | wait =>
    rcases a with _ | (r | v) | _ | _ | _ | _ | _ <;> cases hn
    · cases r <;> rfl
    · rfl
  | drop => rcases a with _ | _ | (_ | _) | _ | _ | _ | _ <;> cases hn <;> rfl
  | done => cases a <;> cases hn

/-- **No move adds to the waits that are to come.** -/
theorem Shape.weight_le {h : List (Event ν)} (hs : N.Shape w q) (hst : World.Story h w)
    (hw : w.Harmless) (he : w.Happens e v) : v.weight waiting ≤ w.weight waiting := by
  obtain ⟨X, a, b, hX, hX', hab⟩ := he.weight waiting hst hw
  rw [hX, hX']
  apply Nat.add_le_add_left
  cases hab with
  | @went s f g a ha hn =>
    have hp : w.program? s = some f := by cases he with | did hp => exact hp
    rcases hs.program hw hp with ⟨k, -, rfl⟩ | ⟨i, t, task, -, -, -, hat⟩
    · cases k with
      | zero => cases a <;> cases hn
      | succ k =>
        cases a <;> cases hn
        show (N.client k).waits ≤ (N.client (k + 1)).waits
        rw [waits_client, waits_client]
        exact Nat.mul_le_mul_right _ (Nat.le_succ k)
    · show g.waits ≤ f.waits
      rw [hat.waits_after ha hn]
      exact Nat.zero_le _
  | @offered s p t holds j next =>
    have hp : w.program? s = some (.submit p holds j next) := by cases he with | did hp => exact hp
    have hnext : (next (.ok t)).waits = (next (.ok 0)).waits := by
      rcases hs.program hw hp with ⟨k, -, hk⟩ | ⟨i, u, task, -, -, -, hat⟩
      · obtain ⟨l, -, -, -, rfl⟩ := submit_eq_client hk
        rfl
      · generalize hf : Program.submit p holds j next = f, task.job = l at hat
        cases hat with
        | start =>
          obtain ⟨d, -, -, -, rfl⟩ := submit_eq_job hf
          rfl
        | wait | drop | done => cases hf
    show (next (.ok t)).waits + j.waits ≤ j.waits + (next (.ok 0)).waits
    omega
  | took => exact Nat.le_refl _
  | delivered | counted | left => exact Nat.zero_le _

theorem IsStart.weight (h : N.IsStart w) : w.weight waiting = N.jobs * (N.depth - 1) := by
  obtain ⟨q, hq, -, hr, hw⟩ := h.pool
  have hidle : (List.replicate N.workers Worker.idle).map (waiting (ν := ν)).worker =
      List.replicate N.workers 0 := List.map_replicate
  simp only [World.weight, hq, h.clients, List.map_singleton, List.sum_singleton, Weights.pool, hr,
    hw, hidle, List.sum_replicate_nat]
  show (N.client N.jobs).waits + (0 + N.workers * 0) = _
  rw [waits_client, Nat.mul_zero, Nat.add_zero]

theorem IsStart.weight_le {w₀ : World ν} {h : List (Event ν)} (h₀ : N.IsStart w₀)
    (hr : w₀.Run h w) : w.weight waiting ≤ N.jobs * (N.depth - 1) := by
  induction hr with
  | refl => exact h₀.weight.le
  | tail hr he ih =>
    obtain ⟨q, hq⟩ := h₀.shape_of_run hr
    have hst := hr.story_append h₀.story h₀.harmless
    exact (hq.weight_le hst (hr.harmless h₀.harmless) he).trans ih

/-! ### Where nothing can happen -/

theorem Shape.stuck_client (hs : N.Shape w q) (hstuck : w.IsStuck) :
    w.clients = [.yield N.leaf] := by
  obtain ⟨k, hk⟩ := hs.client
  have hp : w.program? (.client 0) = some (N.client k) := by rw [World.program?, hk]; rfl
  have hq := hs.pool_zero
  cases k with
  | zero => exact hk
  | succ k => exact absurd hp (hstuck.not_submit hq)

/-- **Where nothing can happen, a worker waits for a job, or within a job for one of smaller depth that
is not done.** -/
theorem Shape.stuck_worker {h : List (Event ν)} (hs : N.Shape w q) (hst : World.Story h w)
    (hw : w.Harmless) (hstuck : w.IsStuck) {i : Nat} {x : Worker ν}
    (hi : q.workers[i]? = some x) :
    (x = .idle ∧ q.queue = []) ∨
    ∃ t task d c child, x = .busy t (N.wait (d + 2) c) ∧ w.tasks[t]? = some task ∧
      task.job = N.job (d + 2) ∧ w.tasks[c]? = some child ∧ child.job = N.job (d + 1) ∧
      w.result? c = none ∧ N.limit (d + 2) = none := by
  have hq := hs.pool_zero
  rcases hstuck.worker hst hw hq hi with rfl | ⟨rfl, hr, -⟩ | ⟨t, f, rfl, hf⟩
  · exact absurd rfl (hs.present _ (List.mem_of_getElem? hi))
  · exact Or.inl ⟨rfl, hr⟩
  · right
    have hx := World.worker?_eq_some.2 ⟨q, hq, hi⟩
    have hp : w.program? (.worker 0 i) = some f := by rw [World.program?_worker, hx]; rfl
    obtain ⟨task, ht, hat⟩ := hs.busy i t f hx
    generalize hj : task.job = j at hat
    cases hat with
    | @start d =>
      exfalso
      match d with
      | 0 => exact hf _ rfl
      | 1 => exact hf _ rfl
      | d + 2 => exact hstuck.not_submit hq hp
    | @wait d c child hc hcj =>
      rcases hres : w.result? c with _ | r
      · rcases hlim : N.limit (d + 2) with _ | l
        · exact ⟨t, task, d, c, child, rfl, ht, hj, hc, hcj, hres, hlim⟩
        · exfalso
          rw [wait, hlim] at hp
          exact hstuck.not_answered hp (.receiveExpired hres)
      · exact absurd (.received hres) (hstuck.not_answered hp)
    | drop => exact absurd .discarded (hstuck.not_answered hp)
    | done => exact absurd rfl (hf _)

/-- **Where nothing can happen and no job is queued, every task is done**: a job that is not done would
wait for one of smaller depth that is not done. -/
theorem Shape.stuck_delivered {h : List (Event ν)} (hs : N.Shape w q) (hst : World.Story h w)
    (hw : w.Harmless) (hstuck : w.IsStuck) (hr : q.queue = []) (t : Nat) (task : Entry ν)
    (ht : w.tasks[t]? = some task) : ∃ o, task.slot = .delivered o := by
  by_contra hn
  induction hm : task.job.waits using Nat.strong_induction_on generalizing t task with
  | _ m ih =>
    rcases hst.pending ht fun o ho => hn ⟨o, ho⟩ with ⟨q', hq', hmem⟩ | ⟨i, f, hx⟩
    · rw [← (hs.of_pool hq').2, hr] at hmem
      cases hmem
    · obtain ⟨q', hq', hi⟩ := World.worker?_eq_some.1 hx
      obtain ⟨-, rfl⟩ := hs.of_pool hq'
      rcases hs.stuck_worker hst hw hstuck hi with ⟨h, -⟩ |
        ⟨u, task', d, c, child, hb, hu, hj, hc, hcj, hres, -⟩
      · cases h
      · cases hb
        obtain rfl := Option.some.inj (ht.symm.trans hu)
        rw [hj, waits_job] at hm
        refine ih child.job.waits ?_ c child hc ?_ rfl
        · rw [hcj, waits_job]; omega
        · rintro ⟨o, ho⟩
          rw [World.result?, hc] at hres
          simp [ho, Slot.result?] at hres

/-- If every worker waits within a job, there are as many waits as workers. -/
theorem Shape.workers_le (hs : N.Shape w q)
    (hall : ∀ x ∈ q.workers, ∃ t d c, x = .busy t (N.wait d c)) :
    N.workers ≤ w.weight waiting := by
  have hone : q.workers.map (waiting (ν := ν)).worker = List.replicate N.workers 1 := by
    refine List.eq_replicate_iff.2 ⟨by rw [List.length_map, hs.size], fun y hy => ?_⟩
    obtain ⟨x, hx, rfl⟩ := List.mem_map.1 hy
    obtain ⟨t, d, c, rfl⟩ := hall x hx
    rfl
  have hsum : (q.workers.map (waiting (ν := ν)).worker).sum = N.workers := by
    rw [hone, List.sum_replicate_nat, Nat.mul_one]
  simp only [World.weight, hs.pools, List.map_singleton, List.sum_singleton, Weights.pool, hsum]
  omega

end

end Nesting

end Handoff.Pool
