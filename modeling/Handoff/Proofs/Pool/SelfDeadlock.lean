import Handoff.Proofs.Pool.Nesting

/-! # When jobs that wait for jobs of their own pool block it

With `n` workers, `k` jobs of depth `d` can be in a deadlock exactly if `n ≤ k * (d - 1)`. One worker more
than there can be waits is always left over, and takes what the others wait for. For the other direction
there is a schedule: all `k` jobs are offered, and then the workers, one after the other, each take the
oldest task and offer the next. The `j`-th task that is taken has depth `d - j / k`, so each of the first
`k * (d - 1)` tasks makes its worker wait. A single job with `n < d` blocks the pool in every schedule: its
chain of tasks has one task at a time that is not waited in, and never comes to the last.

* `Nesting.entryOf`, `Nesting.offered`, `Nesting.taking`, `Nesting.blocked`: the worlds of the schedule.
* `Nesting.Chain`: the chain of a single job, `Chain.happens`: every move keeps it.
* `self_deadlock_bound`: the statement.
-/

namespace Handoff.Pool

variable {ν : Type} {N : Nesting ν}

namespace Nesting

/-! ### Enough workers -/

section

variable {w₀ w : World ν} {h : List (Event ν)}

theorem Shape.exists_worker {q : WorkerPool ν} (hs : N.Shape w q) (hn : 1 ≤ N.workers) :
    ∃ x, q.workers[0]? = some x := by
  have hpos : 0 < q.workers.length := by rw [hs.size]; exact hn
  exact ⟨_, List.getElem?_eq_getElem hpos⟩

theorem IsStart.completed (h₀ : N.IsStart w₀) (hr : w₀.Run h w) (hstuck : w.IsStuck)
    {q : WorkerPool ν} (hs : N.Shape w q) (hempty : q.queue = []) : w.Completed := by
  have hst := hr.story_append h₀.story h₀.harmless
  refine ⟨fun f hf => ?_, hs.stuck_delivered hst (hr.harmless h₀.harmless) hstuck hempty⟩
  rw [hs.stuck_client hstuck] at hf
  exact ⟨_, List.mem_singleton.1 hf⟩

/-- **With one worker more than there can be waits**, everything is done where nothing can happen. -/
theorem IsStart.completed_of_lt (h₀ : N.IsStart w₀) (hn : N.jobs * (N.depth - 1) + 1 ≤ N.workers)
    (hr : w₀.Run h w) (hstuck : w.IsStuck) : w.Completed := by
  obtain ⟨q, hs⟩ := h₀.shape_of_run hr
  have hst := hr.story_append h₀.story h₀.harmless
  refine h₀.completed hr hstuck hs ?_
  by_contra hne
  have hle : N.workers ≤ w.weight waiting := by
    refine hs.workers_le fun x hx => ?_
    obtain ⟨i, hi⟩ := List.getElem?_of_mem hx
    rcases hs.stuck_worker hst (hr.harmless h₀.harmless) hstuck hi with ⟨-, hempty⟩ |
      ⟨t, task, d, c, child, hb, -⟩
    · exact absurd hempty hne
    · exact ⟨t, _, c, hb⟩
  have := h₀.weight_le hr
  omega

/-- **With limits**, everything is done where nothing can happen. -/
theorem IsStart.completed_of_limit (h₀ : N.IsStart w₀) (hn : 1 ≤ N.workers)
    (hl : ∀ d, N.limit d ≠ none) (hr : w₀.Run h w) (hstuck : w.IsStuck) : w.Completed := by
  obtain ⟨q, hs⟩ := h₀.shape_of_run hr
  have hst := hr.story_append h₀.story h₀.harmless
  obtain ⟨x, hi⟩ := hs.exists_worker hn
  rcases hs.stuck_worker hst (hr.harmless h₀.harmless) hstuck hi with ⟨-, hempty⟩ |
    ⟨t, task, d, c, child, -, -, -, -, -, -, hlim⟩
  · exact h₀.completed hr hstuck hs hempty
  · exact absurd hlim (hl _)

end

/-! ### A schedule that blocks the pool -/

variable (N) in
/-- The `t`-th task that is offered, if the jobs are all taken in their order. -/
def entryOf (t : Nat) : Entry ν := ⟨0, [], N.job (N.depth - t / N.jobs), .waiting⟩

variable (N) in
/-- The start with the first `r` jobs offered. -/
def offered (w₀ : World ν) (q₀ : WorkerPool ν) (r : Nat) : World ν :=
  { w₀ with
    pools := [{ q₀ with queue := List.range' w₀.tasks.length r }]
    tasks := w₀.tasks ++ (List.range r).map N.entryOf
    clients := [N.client (N.jobs - r)] }

variable (N) in
/-- What the worker is at that has taken the `j`-th task, and waits. -/
def blockedWorker (m j : Nat) : Worker ν :=
  .busy (m + j) (N.wait (N.depth - j / N.jobs) (m + (N.jobs + j)))

variable (N) in
/-- All jobs offered, and the first `j` workers waiting. -/
def blocked (w₀ : World ν) (q₀ : WorkerPool ν) (j : Nat) : World ν :=
  { w₀ with
    pools := [{ q₀ with
      queue := List.range' (w₀.tasks.length + j) N.jobs
      workers := (List.range j).map (N.blockedWorker w₀.tasks.length) ++
        List.replicate (N.workers - j) .idle }]
    tasks := w₀.tasks ++ (List.range (N.jobs + j)).map N.entryOf
    clients := [N.client 0] }

variable (N) in
/-- The first `j` workers waiting, and the next one with a job of depth `d` that it has just taken. -/
def taking (w₀ : World ν) (q₀ : WorkerPool ν) (j d : Nat) : World ν :=
  { w₀ with
    pools := [{ q₀ with
      queue := List.range' (w₀.tasks.length + j + 1) (N.jobs - 1)
      workers := (List.range j).map (N.blockedWorker w₀.tasks.length) ++
        .busy (w₀.tasks.length + j) (N.job d) :: List.replicate (N.workers - (j + 1)) .idle }]
    tasks := w₀.tasks ++ (List.range (N.jobs + j)).map N.entryOf
    clients := [N.client 0] }

section

variable {w₀ : World ν} {q₀ : WorkerPool ν}

theorem entryOf_of_lt {t : Nat} (ht : t < N.jobs) : N.entryOf t = ⟨0, [], N.job N.depth, .waiting⟩ := by
  rw [entryOf, Nat.div_eq_of_lt ht, Nat.sub_zero]

/-- The task that is offered by the job of the `j`-th task. -/
theorem entryOf_add {j d : Nat} (hd : N.depth - j / N.jobs = d + 2) (hk : 0 < N.jobs) :
    N.entryOf (N.jobs + j) = ⟨0, [], N.job (d + 1), .waiting⟩ := by
  rw [entryOf, Nat.add_div_left _ hk]
  congr 2
  omega

theorem step_offered (ha : q₀.accepting = true) (hw : q₀.workers = List.replicate N.workers .idle)
    (hn : 1 ≤ N.workers) {r : Nat} (hr : r < N.jobs) :
    World.Step (N.offered w₀ q₀ r) (N.offered w₀ q₀ (r + 1)) := by
  let q := { q₀ with queue := List.range' w₀.tasks.length r }
  have htakes : q.takesJobs = true := by
    obtain ⟨n, hn⟩ : ∃ n, N.workers = n + 1 := ⟨N.workers - 1, by omega⟩
    simp [q, WorkerPool.takesJobs, ha, WorkerPool.isLost, hw, hn, List.replicate_succ,
      Worker.isLost]
  have hclient : N.client (N.jobs - r) =
      .submit 0 [] (N.job N.depth) fun _ => N.client (N.jobs - (r + 1)) := by
    rw [show N.jobs - r = N.jobs - (r + 1) + 1 by omega]; rfl
  have hprogram : (N.offered w₀ q₀ r).program? (.client 0) =
      some (.submit 0 [] (N.job N.depth) fun _ => N.client (N.jobs - (r + 1))) := by
    rw [← hclient]; rfl
  have hv : ((N.offered w₀ q₀ r).accept 0 q [] (N.job N.depth)).setProgram
      (N.client (N.jobs - (r + 1))) (.client 0) = N.offered w₀ q₀ (r + 1) := by
    simp [q, offered, World.accept, World.setProgram, World.setPool, List.range'_1_concat,
      List.range_succ, entryOf_of_lt hr]
  rw [← hv]
  exact World.step_iff_happens.2 ⟨_, .did hprogram (.accepted rfl htakes) rfl⟩

theorem offered_zero (hq : w₀.pools = [q₀]) (hr : q₀.queue = [])
    (hc : w₀.clients = [N.client N.jobs]) : N.offered w₀ q₀ 0 = w₀ := by
  obtain ⟨name, accepting, queue, phase, completed, shares, workers⟩ := q₀
  obtain ⟨pools, tasks, clients, gates, recorded, givenUp, fragile⟩ := w₀
  cases hq; cases hc; cases hr
  simp [offered]

theorem offered_jobs (hw : q₀.workers = List.replicate N.workers .idle) :
    N.offered w₀ q₀ N.jobs = N.blocked w₀ q₀ 0 := by
  simp [offered, blocked, ← hw]

theorem getElem?_entries {r j : Nat} (hj : j < r) :
    (w₀.tasks ++ (List.range r).map N.entryOf)[w₀.tasks.length + j]? = some (N.entryOf j) := by
  rw [List.getElem?_append_right (Nat.le_add_right _ _), Nat.add_sub_cancel_left]
  simp [hj]

/-- What the first `k * (d - 1)` tasks have to do. -/
theorem exists_depth {j : Nat} (hj : j < N.jobs * (N.depth - 1)) :
    0 < N.jobs ∧ ∃ d, N.depth - j / N.jobs = d + 2 := by
  have hk : 0 < N.jobs := by
    by_contra h0
    rw [show N.jobs = 0 by omega, Nat.zero_mul] at hj
    omega
  have hlt : j / N.jobs < N.depth - 1 := (Nat.div_lt_iff_lt_mul hk).2 (by rwa [Nat.mul_comm])
  generalize j / N.jobs = x at hlt ⊢
  exact ⟨hk, N.depth - x - 2, by omega⟩

theorem getElem?_front (m j : Nat) (x : Worker ν) (l : List (Worker ν)) :
    ((List.range j).map (N.blockedWorker m) ++ x :: l)[j]? = some x := by
  have hlen : ((List.range j).map (N.blockedWorker m)).length = j := by simp
  rw [List.getElem?_append_right hlen.le, hlen, Nat.sub_self]
  rfl

theorem set_front (m j : Nat) (x y : Worker ν) (l : List (Worker ν)) :
    ((List.range j).map (N.blockedWorker m) ++ x :: l).set j y =
      (List.range j).map (N.blockedWorker m) ++ y :: l := by
  have hlen : ((List.range j).map (N.blockedWorker m)).length = j := by simp
  rw [List.set_append_right _ _ hlen.le, hlen, Nat.sub_self]
  rfl

/-- The next worker takes the oldest task. -/
theorem step_taking {j d : Nat} (hj : j < N.workers) (hk : 0 < N.jobs)
    (hd : N.depth - j / N.jobs = d + 2) :
    World.Step (N.blocked w₀ q₀ j) (N.taking w₀ q₀ j (d + 2)) := by
  have hqueue : List.range' (w₀.tasks.length + j) N.jobs =
      (w₀.tasks.length + j) :: List.range' (w₀.tasks.length + j + 1) (N.jobs - 1) := by
    rw [← List.range'_succ, Nat.sub_add_cancel hk]
  have hidle : List.replicate (N.workers - j) (Worker.idle (ν := ν)) =
      .idle :: List.replicate (N.workers - (j + 1)) .idle := by
    rw [← List.replicate_succ, show N.workers - (j + 1) + 1 = N.workers - j by omega]
  let q : WorkerPool ν := { q₀ with
    queue := (w₀.tasks.length + j) :: List.range' (w₀.tasks.length + j + 1) (N.jobs - 1)
    workers := (List.range j).map (N.blockedWorker w₀.tasks.length) ++
      .idle :: List.replicate (N.workers - (j + 1)) .idle }
  have hq : (N.blocked w₀ q₀ j).pools[0]? = some q := by
    rw [blocked, hqueue, hidle]; rfl
  have htask : (N.blocked w₀ q₀ j).tasks[w₀.tasks.length + j]? = some (N.entryOf j) :=
    getElem?_entries (by omega)
  have hv : (N.blocked w₀ q₀ j).setPool 0
      { q.setWorker j (.busy (w₀.tasks.length + j) (N.entryOf j).job) with
        queue := List.range' (w₀.tasks.length + j + 1) (N.jobs - 1) } =
      N.taking w₀ q₀ j (d + 2) := by
    simp only [World.setPool, WorkerPool.setWorker, q, set_front, entryOf, hd]
    rfl
  exact hv ▸ World.step_iff_happens.2 ⟨_, .took hq (getElem?_front _ _ _ _) rfl htask⟩

/-- It offers the next task, and waits for it. -/
theorem step_blocked (ha : q₀.accepting = true) {j d : Nat} (hk : 0 < N.jobs)
    (hd : N.depth - j / N.jobs = d + 2) :
    World.Step (N.taking w₀ q₀ j (d + 2)) (N.blocked w₀ q₀ (j + 1)) := by
  let q : WorkerPool ν := { q₀ with
    queue := List.range' (w₀.tasks.length + j + 1) (N.jobs - 1)
    workers := (List.range j).map (N.blockedWorker w₀.tasks.length) ++
      .busy (w₀.tasks.length + j) (N.job (d + 2)) :: List.replicate (N.workers - (j + 1)) .idle }
  have hq : (N.taking w₀ q₀ j (d + 2)).pools[0]? = some q := rfl
  have hworker := getElem?_front (N := N) w₀.tasks.length j
    (.busy (w₀.tasks.length + j) (N.job (d + 2))) (List.replicate (N.workers - (j + 1)) .idle)
  have htakes : q.takesJobs = true := by
    simp [q, WorkerPool.takesJobs, ha, WorkerPool.isLost, Worker.isLost]
  have hprogram : (N.taking w₀ q₀ j (d + 2)).program? (.worker 0 j) = some (N.job (d + 2)) := by
    rw [World.program?_worker, World.worker?_eq_some.2 ⟨q, hq, hworker⟩]
    rfl
  have hlen : (N.taking w₀ q₀ j (d + 2)).tasks.length = w₀.tasks.length + (N.jobs + j) := by
    simp [taking]
  have hqueue : List.range' (w₀.tasks.length + (j + 1)) N.jobs =
      List.range' (w₀.tasks.length + j + 1) (N.jobs - 1) ++ [w₀.tasks.length + (N.jobs + j)] := by
    obtain ⟨k, hk⟩ : ∃ k, N.jobs = k + 1 := ⟨N.jobs - 1, by omega⟩
    rw [hk, List.range'_1_concat, Nat.add_sub_cancel,
      show w₀.tasks.length + (j + 1) + k = w₀.tasks.length + (k + 1 + j) by omega]
    rfl
  have hworkers : (List.range (j + 1)).map (N.blockedWorker w₀.tasks.length) =
      (List.range j).map (N.blockedWorker w₀.tasks.length) ++
        [.busy (w₀.tasks.length + j) (N.wait (d + 2) (w₀.tasks.length + (N.jobs + j)))] := by
    rw [List.range_succ, List.map_append, ← hd]
    rfl
  have htasks : (List.range (N.jobs + (j + 1))).map N.entryOf =
      (List.range (N.jobs + j)).map N.entryOf ++ [⟨0, [], N.job (d + 1), .waiting⟩] := by
    rw [← Nat.add_assoc, List.range_succ, List.map_append, List.map_singleton, entryOf_add hd hk]
  have hv : ((N.taking w₀ q₀ j (d + 2)).accept 0 q [] (N.job (d + 1))).setProgram
      (N.wait (d + 2) (N.taking w₀ q₀ j (d + 2)).tasks.length) (.worker 0 j) =
      N.blocked w₀ q₀ (j + 1) := by
    rw [World.setProgram_eq_setPool
      (q := { q with queue := q.queue ++ [w₀.tasks.length + (N.jobs + j)] }) _
      (by rw [World.accept, hlen]; rfl) hworker, hlen, blocked, hqueue, hworkers, htasks,
      List.append_assoc]
    simp only [World.setPool, WorkerPool.setWorker, Worker.setProgram, World.accept, q, set_front]
    simp only [taking, List.append_assoc]
    rfl
  exact hv ▸ World.step_iff_happens.2 ⟨_, .did hprogram (.accepted hq htakes) rfl⟩

theorem reachable_offered (ha : q₀.accepting = true)
    (hw : q₀.workers = List.replicate N.workers .idle) (hn : 1 ≤ N.workers) :
    ∀ r ≤ N.jobs, World.Reachable (N.offered w₀ q₀ 0) (N.offered w₀ q₀ r)
  | 0, _ => .refl
  | r + 1, hr => .tail (reachable_offered ha hw hn r (by omega)) (step_offered ha hw hn hr)

theorem reachable_blocked (ha : q₀.accepting = true) :
    ∀ j ≤ N.workers, j ≤ N.jobs * (N.depth - 1) →
      World.Reachable (N.blocked w₀ q₀ 0) (N.blocked w₀ q₀ j)
  | 0, _, _ => .refl
  | j + 1, hj, hjd => by
    obtain ⟨hk, d, hd⟩ := exists_depth hjd
    have hreach := reachable_blocked ha j (by omega) (by omega)
    exact .tail (.tail hreach (step_taking hj hk hd)) (step_blocked ha hk hd)

/-- **When all workers wait, nothing can happen.** -/
theorem blocked_isStuck (hl : ∀ d, N.limit d = none) :
    World.IsStuck (N.blocked w₀ q₀ N.workers) := by
  have hworker : ∀ {p i x}, (N.blocked w₀ q₀ N.workers).worker? p i = some x →
      ∃ j < N.workers, x = N.blockedWorker w₀.tasks.length j := by
    intro p i x hx
    obtain ⟨q, hq, hi⟩ := World.worker?_eq_some.1 hx
    rw [List.mem_singleton.1 (List.mem_of_getElem? hq)] at hi
    have hm := List.mem_of_getElem? hi
    rw [Nat.sub_self, List.replicate_zero, List.append_nil, List.mem_map] at hm
    obtain ⟨j, hj, rfl⟩ := hm
    exact ⟨j, List.mem_range.1 hj, rfl⟩
  refine World.isStuck_iff.2 fun e v he => ?_
  cases he with
  | @did s f a u g hp ha hn =>
    cases s with
    | client i =>
      have hp : (N.blocked w₀ q₀ N.workers).clients[i]? = some f := hp
      obtain rfl := List.mem_singleton.1 (List.mem_of_getElem? hp)
      cases a <;> cases hn
    | worker p i =>
      rw [World.program?_worker] at hp
      obtain ⟨x, hx, hf⟩ := Option.bind_eq_some_iff.1 hp
      obtain ⟨j, hj, rfl⟩ := hworker hx
      obtain rfl := Option.some.inj hf
      rw [wait, Program.join, hl] at ha
      cases ha with
      | received hres =>
        have hslot : (N.blocked w₀ q₀ N.workers).tasks[w₀.tasks.length + (N.jobs + j)]? =
            some (N.entryOf (N.jobs + j)) := getElem?_entries (by omega)
        rw [World.result?, hslot] at hres
        cases hres
  | took hq hi | counted hq hi | left hq hi | delivered hq hi | fell hq hi | lost hq hi =>
    obtain ⟨j, -, hx⟩ := hworker (World.worker?_eq_some.2 ⟨_, hq, hi⟩)
    cases hx

/-- **With no more workers than there can be waits**, a deadlock is reachable. -/
theorem IsStart.exists_deadlocked (h₀ : N.IsStart w₀) (hl : ∀ d, N.limit d = none)
    (hn : 1 ≤ N.workers) (hle : N.workers ≤ N.jobs * (N.depth - 1)) :
    ∃ w, w₀.Reachable w ∧ w.Deadlocked := by
  obtain ⟨q₀, hq, ha, hr, hw⟩ := h₀.pool
  have hreach : World.Reachable (N.offered w₀ q₀ 0) (N.offered w₀ q₀ N.jobs) :=
    reachable_offered ha hw hn N.jobs (Nat.le_refl _)
  rw [offered_zero hq hr h₀.clients, offered_jobs hw] at hreach
  refine ⟨_, hreach.trans (reachable_blocked ha _ (Nat.le_refl _) hle),
    blocked_isStuck hl, fun hdone => ?_⟩
  obtain ⟨o, ho⟩ := hdone.2 (w₀.tasks.length + 0) _ (getElem?_entries (by omega))
  cases ho

end

/-! ### A single job with too few workers -/

/-- A worker of the chain of a single job, whose tasks have the numbers from `m` on: it waits for the
next task, or has the last one and is about to offer the next. -/
inductive Link (N : Nesting ν) (m total : Nat) (empty : Prop) : Worker ν → Prop where
  | idle : Link N m total empty .idle
  | wait {t : Nat} (ht : m + t + 1 < total) :
      Link N m total empty (.busy (m + t) (N.wait (N.depth - t) (m + t + 1)))
  | head {t d : Nat} (ht : m + t + 1 = total) (hr : empty) (hd : N.depth - t = d + 2) :
      Link N m total empty (.busy (m + t) (N.job (d + 2)))

/-- **The chain of a single job** for too few workers: each task but the last makes a worker wait, and
the last is queued or about to offer the next. -/
structure Chain (N : Nesting ν) (m : Nat) (w : World ν) (q : WorkerPool ν) : Prop where
  task : ∀ (t : Nat) (task : Entry ν), w.tasks[m + t]? = some task →
    task.slot = .waiting ∧ task.job = N.job (N.depth - t)
  worker : ∀ x ∈ q.workers, Link N m w.tasks.length (q.queue = []) x
  queue : q.queue = [] ∨ ∃ t, q.queue = [m + t] ∧ m + t + 1 = w.tasks.length
  count : w.tasks.length = m + q.queue.length + q.view.places.countP Place.hasTask
  client : (w.clients = [N.client 1] ∧ w.tasks.length = m) ∨
    (w.clients = [N.client 0] ∧ m < w.tasks.length)

section

variable {w v : World ν} {q : WorkerPool ν} {e : Event ν} {m : Nat}

theorem IsStart.chain (h : N.IsStart w) (hj : N.jobs = 1) :
    ∃ q, N.Shape w q ∧ N.Chain w.tasks.length w q := by
  obtain ⟨q, hs⟩ := h.shape
  obtain ⟨q', hq, -, hr, hw⟩ := h.pool
  obtain rfl : q' = q := by simpa [hs.pools] using hq.symm
  refine ⟨q', hs, fun t task ht => ?_, fun x hx => ?_, Or.inl hr, ?_, Or.inl ⟨?_, rfl⟩⟩
  · have := (List.getElem?_eq_some_iff.1 ht).1
    omega
  · rw [hw] at hx
    rw [List.eq_of_mem_replicate hx]
    exact .idle
  · simp [hr, WorkerPool.view, hw, List.countP_replicate, Worker.place, Place.hasTask]
  · rw [h.clients, hj]

theorem Shape.takesJobs (hs : N.Shape w q) (hw : w.Harmless) (hn : 1 ≤ N.workers) :
    q.takesJobs = true := by
  obtain ⟨x, hi⟩ := hs.exists_worker hn
  have hm := List.mem_of_getElem? hi
  rw [WorkerPool.takesJobs, hs.accepting, Bool.true_and, Bool.not_eq_true', WorkerPool.isLost,
    List.all_eq_false]
  refine ⟨x, hm, ?_⟩
  cases x with
  | gone => exact absurd rfl (hs.present _ hm)
  | falling t f others =>
    have hq := hs.pool_zero
    exact absurd hi (hw.not_falling hq)
  | idle | busy | counting => simp [Worker.isLost]

/-- A job is offered: the task that comes with it is the last one, and it is queued. -/
theorem Chain.offered (hc : N.Chain m w q) (hm : m ≤ w.tasks.length) (hempty : q.queue = [])
    (j : Program ν) (workers : List (Worker ν)) {clients : List (Program ν)}
    (hj : j = N.job (N.depth - (w.tasks.length - m))) (hc' : clients = [N.client 0])
    (hcount : (workers.map Worker.place).countP Place.hasTask =
      q.view.places.countP Place.hasTask)
    (hworker : ∀ x ∈ workers, Link N m (w.tasks.length + 1) False x) :
    N.Chain m { w with
      pools := [{ q with queue := [w.tasks.length], workers := workers }]
      tasks := w.tasks ++ [⟨0, [], j, .waiting⟩]
      clients := clients } { q with queue := [w.tasks.length], workers := workers } where
  task t task ht := by
    rw [List.getElem?_append] at ht
    split at ht
    · exact hc.task t task ht
    · have hlt := (List.getElem?_eq_some_iff.1 ht).1
      rw [List.length_singleton] at hlt
      obtain rfl : t = w.tasks.length - m := by omega
      rw [show m + (w.tasks.length - m) - w.tasks.length = 0 by omega] at ht
      obtain rfl := Option.some.inj ht
      exact ⟨rfl, hj⟩
  worker x hx := by
    rw [List.length_append, List.length_singleton]
    cases hworker x hx with
    | idle => exact .idle
    | wait ht => exact .wait ht
    | head _ hf => exact hf.elim
  queue := Or.inr ⟨w.tasks.length - m, by rw [Nat.add_sub_cancel' hm], by simp; omega⟩
  count := by
    have := hc.count
    rw [hempty] at this
    simp only [List.length_append, List.length_singleton, WorkerPool.view, hcount]
    simp only [List.length_nil, WorkerPool.view] at this
    omega
  client := Or.inr ⟨hc', by simp; omega⟩

theorem Chain.le (hc : N.Chain m w q) : m ≤ w.tasks.length := by
  rcases hc.client with ⟨-, h⟩ | ⟨-, h⟩ <;> omega

theorem Chain.link (hc : N.Chain m w q) {i : Nat} {x : Worker ν} (hi : q.workers[i]? = some x) :
    N.Link m w.tasks.length (q.queue = []) x :=
  hc.worker _ (List.mem_of_getElem? hi)

/-- The client offers its job. -/
theorem Chain.client_offers (hc : N.Chain m w q) (hs : N.Shape w q)
    (hclients : w.clients = [N.client 1]) :
    ∃ q', (w.accept 0 q [] (N.job N.depth)).setProgram (N.client 0) (.client 0) =
        { w with
          pools := [q']
          tasks := w.tasks ++ [⟨0, [], N.job N.depth, .waiting⟩]
          clients := [N.client 0] } ∧
      N.Chain m { w with
        pools := [q']
        tasks := w.tasks ++ [⟨0, [], N.job N.depth, .waiting⟩]
        clients := [N.client 0] } q' := by
  have hlen : w.tasks.length = m := by
    rcases hc.client with ⟨-, h⟩ | ⟨h, -⟩
    · exact h
    · rw [hclients] at h; cases h
  have hempty : q.queue = [] := by
    rcases hc.queue with h | ⟨t, -, ht⟩
    · exact h
    · omega
  refine ⟨{ q with queue := [w.tasks.length] }, ?_, ?_⟩
  · simp [World.accept, World.setPool, World.setProgram, hs.pools, hclients, hempty]
  · refine hc.offered hc.le hempty (N.job N.depth) q.workers ?_ rfl rfl fun x hx => ?_
    · rw [hlen, Nat.sub_self]; rfl
    · cases hc.worker x hx with
      | idle => exact .idle
      | wait ht => exact .wait (Nat.lt_succ_of_lt ht)
      | @head t d ht => omega

/-- The worker with the last task offers the next, and waits for it. -/
theorem Chain.worker_offers {h : List (Event ν)} (hc : N.Chain m w q) (hs : N.Shape w q)
    (hst : World.Story h w) {i t d : Nat}
    (hi : q.workers[i]? = some (.busy (m + t) (N.job (d + 2))))
    (hlast : m + t + 1 = w.tasks.length) (hempty : q.queue = []) (hdt : N.depth - t = d + 2) :
    ∃ q', (w.accept 0 q [] (N.job (d + 1))).setProgram (N.wait (d + 2) w.tasks.length)
        (.worker 0 i) =
        { w with
          pools := [q']
          tasks := w.tasks ++ [⟨0, [], N.job (d + 1), .waiting⟩] } ∧
      N.Chain m { w with
        pools := [q']
        tasks := w.tasks ++ [⟨0, [], N.job (d + 1), .waiting⟩] } q' := by
  have hq := hs.pool_zero
  have hclients : w.clients = [N.client 0] := by
    rcases hc.client with ⟨-, h⟩ | ⟨h, -⟩
    · omega
    · exact h
  let y : Worker ν := .busy (m + t) (N.wait (d + 2) w.tasks.length)
  refine ⟨{ q with queue := [w.tasks.length], workers := q.workers.set i y }, ?_, ?_⟩
  · have haccept : w.accept 0 q [] (N.job (d + 1)) = { w with
        pools := [{ q with queue := [w.tasks.length] }]
        tasks := w.tasks ++ [⟨0, [], N.job (d + 1), .waiting⟩] } := by
      rw [World.accept, World.setPool, hs.pools, hempty]
      rfl
    rw [haccept, World.setProgram_eq_setPool (q := { q with queue := [w.tasks.length] }) _ rfl hi]
    rfl
  refine hc.offered hc.le hempty (N.job (d + 1)) (q.workers.set i y) ?_ hclients ?_ fun x hx => ?_
  · rw [show N.depth - (w.tasks.length - m) = d + 1 by omega]
  · have hplace : q.view.places[i]? = some (.busy (m + t)) := World.view_places hi
    have := countP_set Place.hasTask hplace (.busy (m + t))
    rw [List.map_set]
    exact Nat.add_right_cancel this
  · obtain ⟨k, hk⟩ := List.getElem?_of_mem hx
    rw [List.getElem?_set] at hk
    split at hk
    · split at hk
      · cases hk
        have hlink : N.Link m (w.tasks.length + 1) False
            (.busy (m + t) (N.wait (N.depth - t) (m + t + 1))) := .wait (Nat.lt_succ_of_le hlast.le)
        rwa [hdt, hlast] at hlink
      · cases hk
    · next hik =>
      cases hc.link hk with
      | idle => exact .idle
      | wait ht => exact .wait (Nat.lt_succ_of_lt ht)
      | @head u _ hu =>
        obtain rfl : u = t := by omega
        exact absurd (hst.busy_inj (World.worker?_eq_some.2 ⟨q, hq, hi⟩)
          (World.worker?_eq_some.2 ⟨q, hq, hk⟩)).2 hik

/-- A worker takes the last task. There are fewer tasks than the job is deep, as many as there are
workers with one, so that this task too has one to offer. -/
theorem Chain.took (hc : N.Chain m w q) (hs : N.Shape w q) (hd : N.workers < N.depth)
    {i u : Nat} {r : List Nat} {task : Entry ν} (hi : q.workers[i]? = some .idle)
    (hr : q.queue = u :: r) (ht : w.tasks[u]? = some task) :
    N.Chain m { w with pools := [{ q.setWorker i (.busy u task.job) with queue := r }] }
      { q.setWorker i (.busy u task.job) with queue := r } := by
  obtain ⟨t, hu, hlast⟩ : ∃ t, q.queue = [m + t] ∧ m + t + 1 = w.tasks.length := by
    rcases hc.queue with h | h
    · rw [h] at hr; cases hr
    · exact h
  obtain ⟨rfl, rfl⟩ : u = m + t ∧ r = [] := by
    rw [hr] at hu
    exact ⟨(List.cons.inj hu).1, (List.cons.inj hu).2⟩
  have hcount := hc.count
  rw [hr, List.length_singleton] at hcount
  have hplace : q.view.places[i]? = some .idle := World.view_places hi
  have hset := countP_set Place.hasTask hplace (.busy (m + t))
  simp only [Place.hasTask, Bool.toNat_false, Bool.toNat_true] at hset
  have hfree : q.view.places.countP Place.hasTask < N.workers := by
    have hle := List.countP_le_length (p := Place.hasTask) (l := q.view.places.set i (.busy (m + t)))
    have hsize : q.view.places.length = N.workers := by simp [WorkerPool.view, hs.size]
    rw [List.length_set, hsize] at hle
    omega
  obtain ⟨d, hdt⟩ : ∃ d, N.depth - t = d + 2 := ⟨N.depth - t - 2, by omega⟩
  have hjob : task.job = N.job (d + 2) := by
    rw [← hdt]
    exact (hc.task t task ht).2
  refine ⟨hc.task, fun x hx => ?_, Or.inl rfl, ?_, hc.client⟩
  · obtain ⟨k, hk⟩ := List.getElem?_of_mem hx
    rw [WorkerPool.setWorker, List.getElem?_set] at hk
    split at hk
    · split at hk
      · cases hk
        rw [hjob]
        exact .head hlast rfl hdt
      · cases hk
    · cases hc.link hk with
      | idle => exact .idle
      | wait ht => exact .wait ht
      | head _ hempty => rw [hempty] at hr; cases hr
  · have hview : (q.setWorker i (.busy (m + t) task.job)).view.places =
        q.view.places.set i (.busy (m + t)) := by rw [World.view_setWorker]; rfl
    show w.tasks.length = m + 0 + (q.setWorker i (.busy (m + t) task.job)).view.places.countP _
    rw [hview]
    omega

/-- The client goes on. -/
theorem Chain.after_client {i : Nat} {f g : Program ν} {a : Answer ν} (hc : N.Chain m w q)
    (hs : N.Shape w q) (htakes : q.takesJobs = true) (hf : w.clients[i]? = some f)
    (ha : w.Answered (.client i) f a v) (hn : f.after? a = some g) :
    ∃ q', (v.setProgram g (.client i)).pools = [q'] ∧ N.Chain m (v.setProgram g (.client i)) q' := by
  rcases hc.client with ⟨h1, -⟩ | ⟨h0, -⟩
  · rw [h1] at hf
    obtain ⟨rfl, rfl⟩ := getElem?_singleton_eq_some hf
    cases ha with
    | refused hq ht =>
      obtain ⟨-, rfl⟩ := hs.of_pool hq
      rw [htakes] at ht
      cases ht
    | accepted hq ht =>
      obtain ⟨-, rfl⟩ := hs.of_pool hq
      cases hn
      obtain ⟨x, hv, hcx⟩ := hc.client_offers hs h1
      exact ⟨x, congrArg World.pools hv, (congrArg (N.Chain m · x) hv).mpr hcx⟩
  · rw [h0] at hf
    obtain ⟨rfl, rfl⟩ := getElem?_singleton_eq_some hf
    cases a <;> cases hn

/-- A worker goes on with a job: with the last, since the task that another waits for is not done. -/
theorem Chain.after_worker {h : List (Event ν)} {p i : Nat} {f g : Program ν} {a : Answer ν}
    (hc : N.Chain m w q) (hs : N.Shape w q) (hst : World.Story h w) (htakes : q.takesJobs = true)
    (hl : ∀ d, N.limit d = none) (hf : w.program? (.worker p i) = some f)
    (ha : w.Answered (.worker p i) f a v) (hn : f.after? a = some g) :
    ∃ q', (v.setProgram g (.worker p i)).pools = [q'] ∧
      N.Chain m (v.setProgram g (.worker p i)) q' := by
  rw [World.program?_worker] at hf
  obtain ⟨x, hx, hf⟩ := Option.bind_eq_some_iff.1 hf
  obtain ⟨q₁, hq₁, hi⟩ := World.worker?_eq_some.1 hx
  obtain ⟨rfl, rfl⟩ := hs.of_pool hq₁
  cases hc.link hi with
  | idle => cases hf
  | @wait t ht =>
    exfalso
    cases hf
    rw [wait, Program.join, hl] at ha
    cases ha with
    | received hres =>
      have hget : w.tasks[m + (t + 1)]? = some w.tasks[m + t + 1] := List.getElem?_eq_getElem ht
      obtain ⟨hslot, -⟩ := hc.task (t + 1) _ hget
      rw [← Nat.add_assoc] at hget
      simp only [World.result?, hget, Option.bind_eq_bind, Option.bind_some] at hres
      rw [hslot] at hres
      cases hres
  | @head t d ht hempty hdt =>
    cases hf
    cases ha with
    | refused hq ht =>
      obtain ⟨-, rfl⟩ := hs.of_pool hq
      rw [htakes] at ht
      cases ht
    | accepted hq _ =>
      obtain ⟨-, rfl⟩ := hs.of_pool hq
      cases hn
      obtain ⟨x, hv, hcx⟩ := hc.worker_offers hs hst hi ht hempty hdt
      exact ⟨x, congrArg World.pools hv, (congrArg (N.Chain m · x) hv).mpr hcx⟩

/-- **Every move keeps the chain**, if there are fewer workers than the job is deep. -/
theorem Chain.happens {h : List (Event ν)} (hc : N.Chain m w q) (hs : N.Shape w q)
    (hst : World.Story h w) (hw : w.Harmless) (hl : ∀ d, N.limit d = none) (hn : 1 ≤ N.workers)
    (hd : N.workers < N.depth) (he : w.Happens e v) : ∃ q', N.Shape v q' ∧ N.Chain m v q' := by
  have htakes := hs.takesJobs hw hn
  suffices hchain : ∃ q', v.pools = [q'] ∧ N.Chain m v q' by
    obtain ⟨q', hq', hcq⟩ := hchain
    obtain ⟨x, hsx⟩ := hs.happens hw he
    obtain rfl : x = q' := by simpa [hsx.pools] using hq'
    exact ⟨x, hsx, hcq⟩
  cases he with
  | @did s f a u g hp ha hg =>
    cases s with
    | client i => exact hc.after_client hs htakes hp ha hg
    | worker p i => exact hc.after_worker hs hst htakes hl hp ha hg
  | @took p i q₁ u r task hq hi hr ht =>
    obtain ⟨rfl, rfl⟩ := hs.of_pool hq
    have hv : ∀ x, w.setPool 0 x = { w with pools := [x] } := fun x => by
      rw [World.setPool, hs.pools]; rfl
    have htook := hc.took hs hd hi hr ht
    exact ⟨_, congrArg World.pools (hv _), (congrArg (N.Chain m · _) (hv _)).mpr htook⟩
  | delivered hq hi =>
    obtain ⟨-, rfl⟩ := hs.of_pool hq
    generalize hx : Worker.busy _ _ = x at hi
    cases hc.link hi <;> cases hx
  | counted hq hi =>
    obtain ⟨-, rfl⟩ := hs.of_pool hq
    cases hc.link hi
  | left hq hi hr ha =>
    obtain ⟨-, rfl⟩ := hs.of_pool hq
    rw [hs.accepting] at ha
    cases ha
  | fell hq hi hd => exact absurd hd (hw.not_bringsDown hq hi)
  | lost hq hi => exact absurd hi (hw.not_falling hq)

theorem IsStart.chain_of_run {w₀ : World ν} {h : List (Event ν)} (h₀ : N.IsStart w₀)
    (hj : N.jobs = 1) (hl : ∀ d, N.limit d = none) (hn : 1 ≤ N.workers) (hd : N.workers < N.depth)
    (hr : w₀.Run h w) : ∃ q, N.Shape w q ∧ N.Chain w₀.tasks.length w q := by
  induction hr with
  | refl => exact h₀.chain hj
  | tail hr he ih =>
    obtain ⟨q, hs, hc⟩ := ih
    have hst := hr.story_append h₀.story h₀.harmless
    exact hc.happens hs hst (hr.harmless h₀.harmless) hl hn hd he

/-- **Where nothing can happen, the chain is not done.** -/
theorem Shape.deadlocked (hs : N.Shape w q) (hc : N.Chain m w q) (hstuck : w.IsStuck) :
    w.Deadlocked := by
  refine ⟨hstuck, fun hdone => ?_⟩
  have hlt : m < w.tasks.length := by
    rcases hc.client with ⟨h, -⟩ | ⟨-, h⟩
    · rw [hs.stuck_client hstuck] at h; cases h
    · exact h
  have ht : w.tasks[m + 0]? = some w.tasks[m] := List.getElem?_eq_getElem hlt
  obtain ⟨o, ho⟩ := hdone.2 _ _ ht
  have := (hc.task 0 _ ht).1
  rw [ho] at this
  cases this

end

end Nesting

open Nesting in
/-- **The bound for jobs that wait for jobs of their own pool.** Without limits, no deadlock can be
reached exactly if there are more workers than `k * (d - 1)`; a single job is always done, or always
blocked, according to whether there are `d` workers. With limits there is no deadlock, of any size. -/
theorem self_deadlock_bound (N : Nesting ν) (hn : 1 ≤ N.workers) {w₀ : World ν}
    (h₀ : N.IsStart w₀) :
    ((∀ d, N.limit d = none) →
      ((∀ w, w₀.Reachable w → ¬ w.Deadlocked) ↔ N.jobs * (N.depth - 1) + 1 ≤ N.workers) ∧
      (N.jobs = 1 → N.depth ≤ N.workers → w₀.Inevitably World.Completed) ∧
      (N.jobs = 1 → N.workers < N.depth → w₀.Inevitably World.Deadlocked)) ∧
    ((∀ d, N.limit d ≠ none) → ∀ w, w₀.Reachable w → ¬ w.Deadlocked) := by
  refine ⟨fun hl => ⟨⟨fun hsafe => ?_, fun hlt w hr hdead => ?_⟩, fun hj hd => ?_, fun hj hd => ?_⟩,
    fun hl w hr hdead => ?_⟩
  · by_contra hle
    obtain ⟨w, hr, hdead⟩ := h₀.exists_deadlocked hl hn (by omega)
    exact hsafe w hr hdead
  · obtain ⟨h, hr⟩ := World.reachable_iff_run.1 hr
    exact hdead.2 (h₀.completed_of_lt hlt hr hdead.1)
  · refine h₀.story.inevitably_of_stuck h₀.harmless fun h w hr hstuck => ?_
    exact h₀.completed_of_lt (by rw [hj]; omega) hr hstuck
  · refine h₀.story.inevitably_of_stuck h₀.harmless fun h w hr hstuck => ?_
    obtain ⟨q, hs, hc⟩ := h₀.chain_of_run hj hl hn hd hr
    exact hs.deadlocked hc hstuck
  · obtain ⟨h, hr⟩ := World.reachable_iff_run.1 hr
    exact hdead.2 (h₀.completed_of_limit hn hl hr hdead.1)

/-- A new pool, and the client. -/
def Nesting.world (N : Nesting ν) : World ν where
  pools := [.start ν "pool" N.workers]
  clients := [N.client N.jobs]

theorem Nesting.isStart_world (N : Nesting ν) : N.IsStart N.world where
  pool := ⟨_, rfl, rfl, rfl, rfl⟩
  tasks t task ht := by cases ht
  clients := rfl

/-- One worker, and a job that waits for one other job. -/
def lonelyWorker (limit : Option Duration) : Nesting String where
  workers := 1
  jobs := 1
  depth := 2
  limit _ := limit
  leaf := "done"
  back r := match r with
    | .ok s => s
    | .error _ => "not done"

/-- A single worker is blocked in every schedule, and never with a limit. -/
theorem self_deadlock_bound_lonelyWorker :
    (lonelyWorker none).world.Inevitably World.Deadlocked ∧
      ∀ w, (lonelyWorker (some (.ofMillis 100))).world.Reachable w → ¬ w.Deadlocked := by
  have hforever := self_deadlock_bound (lonelyWorker none) (by decide) (Nesting.isStart_world _)
  have hlimit := self_deadlock_bound (lonelyWorker (some (.ofMillis 100))) (by decide)
    (Nesting.isStart_world _)
  refine ⟨(hforever.1 fun _ => rfl).2.2 rfl (by decide), hlimit.2 fun _ => ?_⟩
  simp [lonelyWorker]

end Handoff.Pool
