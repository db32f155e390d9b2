import Handoff.Proofs.Pool.Answer
import Mathlib.Data.List.Perm.Basic

/-! # Histories

Every move of a world shows as one event: an instruction has been answered, or a worker has taken,
delivered or counted a task, or has left. A run is told by its history, the list of its events.

* `Event`, `World.Happens`: what one move shows, and what it changes, one rule for each kind.
* `step_iff_happens`: nothing else happens in a move.
* `World.Run`, `reachable_iff_run`: what is reachable is what some run leads to.
-/

namespace Handoff.Pool

variable {ν : Type}

/-! ### Lists with one element set -/

theorem modify_eq_set {α : Type} {l : List α} {i : Nat} {a : α} (f : α → α) (h : l[i]? = some a) :
    l.modify i f = l.set i (f a) := by
  refine List.ext_getElem? fun j => ?_
  rw [List.getElem?_modify, List.getElem?_set']
  by_cases hj : i = j
  · subst hj; simp [h]
  · simp [hj]

theorem getElem?_singleton_eq_some {α : Type} {i : Nat} {a b : α} (h : [a][i]? = some b) :
    i = 0 ∧ a = b := by
  rw [List.getElem?_singleton] at h
  split at h
  · next hi => exact ⟨hi, Option.some.inj h⟩
  · cases h

/-- A list with one element set is, up to the order, that element and the same others. -/
theorem perm_set {α : Type} {l : List α} {i : Nat} {a : α} (h : l[i]? = some a) (b : α) :
    (l.set i b).Perm (b :: l.eraseIdx i) := by
  have hi : i < (l.set i b).length := by
    rw [List.length_set]; exact (List.getElem?_eq_some_iff.1 h).1
  have := (List.getElem_cons_eraseIdx_perm hi).symm
  rwa [List.getElem_set_self, List.eraseIdx_set_eq] at this

theorem perm_of_getElem? {α : Type} {l : List α} {i : Nat} {a : α} (h : l[i]? = some a) :
    l.Perm (a :: l.eraseIdx i) := by
  have := perm_set h a
  obtain ⟨hi, rfl⟩ := List.getElem?_eq_some_iff.1 h
  rwa [List.set_getElem_self] at this

theorem countP_set {α : Type} (f : α → Bool) {l : List α} {i : Nat} {a : α} (h : l[i]? = some a)
    (b : α) : (l.set i b).countP f + (f a).toNat = l.countP f + (f b).toNat := by
  rw [(perm_set h b).countP_eq, (perm_of_getElem? h).countP_eq, List.countP_cons, List.countP_cons]
  cases f a <;> cases f b <;> simp

/-! ### Events -/

/-- What a task gets when its job ends. What takes the worker down in any case has no outcome. -/
def Ending.outcome? : Ending ν → Option (Except String ν)
  | panic .bomb => none
  | e => some e.outcome

theorem Ending.outcome_of_outcome? {e : Ending ν} {o : Except String ν} (h : e.outcome? = some o) :
    e.outcome = o := by
  rcases e with v | v | m | _ | _ <;> cases h <;> rfl

/-- **What one move shows.** -/
inductive Event (ν : Type) where
  /-- The next instruction of a thread's program has been answered. -/
  | did (self : Thread) (instruction : Program ν) (answer : Answer ν)
  /-- A worker of a pool has taken a task from the queue. -/
  | took (pool worker task : Nat)
  /-- A worker has delivered what a task's job has ended with. -/
  | delivered (pool worker task : Nat) (outcome : Except String ν)
  /-- A worker has counted a task. -/
  | counted (pool worker task : Nat)
  /-- A worker has left. -/
  | left (pool worker : Nat)
  /-- A worker has begun to go down with a task. -/
  | fell (pool worker task : Nat)
  /-- A worker that goes down has disposed of a task's job. -/
  | lost (pool worker task : Nat)

/-- Whose move an event tells of. -/
def Event.thread : Event ν → Thread
  | did self _ _ => self
  | took p i _ => .worker p i
  | delivered p i _ _ => .worker p i
  | counted p i _ => .worker p i
  | left p i => .worker p i
  | fell p i _ => .worker p i
  | lost p i _ => .worker p i

namespace World

/-- **One move and what it shows.** -/
inductive Happens (w : World ν) : Event ν → World ν → Prop where
  | did {self p a v next} (hp : w.program? self = some p) (h : w.Answered self p a v)
      (ha : p.after? a = some next) : Happens w (.did self p a) (v.setProgram next self)
  | took {p i q t r task} (hq : w.pools[p]? = some q) (hi : q.workers[i]? = some .idle)
      (hr : q.queue = t :: r) (ht : w.tasks[t]? = some task) :
      Happens w (.took p i t) (w.setPool p { q.setWorker i (.busy t task.job) with queue := r })
  | delivered {p i q t e o} (hq : w.pools[p]? = some q)
      (hi : q.workers[i]? = some (.busy t (.finish e))) (ho : e.outcome? = some o)
      (hd : w.bringsDown t e = false) (hr : w.hasRoom t = true) :
      Happens w (.delivered p i t o) ((w.store t e).deliver p i t o)
  | counted {p i q t} (hq : w.pools[p]? = some q) (hi : q.workers[i]? = some (.counting t)) :
      Happens w (.counted p i t)
        (w.setPool p { q.setWorker i .idle with completed := q.completed + 1 })
  | left {p i q} (hq : w.pools[p]? = some q) (hi : q.workers[i]? = some .idle)
      (hr : q.queue = []) (ha : q.accepting = false) :
      Happens w (.left p i) (w.setPool p (q.setWorker i .gone))
  | fell {p i q t e} (hq : w.pools[p]? = some q)
      (hi : q.workers[i]? = some (.busy t (.finish e))) (hd : w.bringsDown t e = true) :
      Happens w (.fell p i t) (w.goDown p i t q)
  | lost {p i q t e others} (hq : w.pools[p]? = some q)
      (hi : q.workers[i]? = some (.falling t (.finish e) others)) :
      Happens w (.lost p i t) (w.lose p i t others)

/-! ### Workers and programs -/

/-- What a worker of a pool is at. -/
def worker? (w : World ν) (p i : Nat) : Option (Worker ν) := do (← w.pools[p]?).workers[i]?

theorem worker?_eq_some {w : World ν} {p i : Nat} {x : Worker ν} :
    w.worker? p i = some x ↔ ∃ q, w.pools[p]? = some q ∧ q.workers[i]? = some x := by
  simp [worker?, Option.bind_eq_some_iff]

theorem program?_worker (w : World ν) (p i : Nat) :
    w.program? (.worker p i) = w.worker? p i >>= Worker.program? := by
  rcases hq : w.pools[p]? with _ | q <;> simp [program?, worker?, hq]

theorem exists_worker {w : World ν} {p i : Nat} {f : Program ν}
    (h : w.program? (.worker p i) = some f) :
    ∃ q x, w.pools[p]? = some q ∧ q.workers[i]? = some x ∧ x.program? = some f := by
  rw [program?_worker] at h
  obtain ⟨x, hx, hf⟩ := Option.bind_eq_some_iff.1 h
  obtain ⟨q, hq, hi⟩ := worker?_eq_some.1 hx
  exact ⟨q, x, hq, hi, hf⟩

theorem setWorker_eq_setPool {w : World ν} {p i : Nat} {q : WorkerPool ν} (x : Worker ν)
    (hq : w.pools[p]? = some q) : w.setWorker p i x = w.setPool p (q.setWorker i x) := by
  rw [setWorker, modify_eq_set _ hq]; rfl

theorem setProgram_eq_setPool {w : World ν} {p i : Nat} {q : WorkerPool ν} {x : Worker ν}
    (next : Program ν) (hq : w.pools[p]? = some q) (hi : q.workers[i]? = some x) :
    w.setProgram next (.worker p i) = w.setPool p (q.setWorker i (x.setProgram next)) := by
  simp only [setProgram]
  rw [modify_eq_set _ hq, modify_eq_set _ hi]; rfl

theorem getElem?_setPool {w : World ν} {p : Nat} {q : WorkerPool ν} (hq : w.pools[p]? = some q)
    (q' : WorkerPool ν) (i : Nat) :
    (w.setPool p q').pools[i]? = if p = i then some q' else w.pools[i]? := by
  rw [setPool, List.getElem?_set, if_pos (List.getElem?_eq_some_iff.1 hq).1]

/-- The workers after one of them has been set to something else. -/
theorem worker?_setPool {w : World ν} {p i : Nat} {q q' : WorkerPool ν} {x y : Worker ν}
    (hq : w.pools[p]? = some q) (hi : q.workers[i]? = some x) (hw : q'.workers = q.workers.set i y)
    (j k : Nat) :
    (w.setPool p q').worker? j k = if p = j ∧ i = k then some y else w.worker? j k := by
  have hl := (List.getElem?_eq_some_iff.1 hi).1
  simp only [worker?, getElem?_setPool hq]
  by_cases hj : p = j
  · subst hj
    by_cases hk : i = k
    · subst hk; simp [hw, hl]
    · simp [hw, hq, List.getElem?_set_ne hk, hk]
  · simp [hj]

/-- The programs after a worker has been set to something else. -/
theorem program?_setPool {w : World ν} {p i : Nat} {q q' : WorkerPool ν} {x y : Worker ν}
    (hq : w.pools[p]? = some q) (hi : q.workers[i]? = some x) (hw : q'.workers = q.workers.set i y)
    (s : Thread) :
    (w.setPool p q').program? s = if s = .worker p i then y.program? else w.program? s := by
  cases s with
  | client j => simp [program?, setPool]
  | worker j k =>
    simp only [program?_worker, worker?_setPool hq hi hw, Thread.worker.injEq, eq_comm (a := p),
      eq_comm (a := i)]
    split <;> rfl

/-- The programs after a thread's program has been changed. -/
theorem program?_setProgram {w : World ν} {self : Thread} {f : Program ν} (g : Program ν)
    (h : w.program? self = some f) (s : Thread) :
    (w.setProgram g self).program? s = if s = self then some g else w.program? s := by
  cases self with
  | client i =>
    have hi := (List.getElem?_eq_some_iff.1 h).1
    cases s with
    | client j =>
      by_cases hj : i = j
      · subst hj; simp [program?, setProgram, hi]
      · simp [program?, setProgram, List.getElem?_set_ne hj, Ne.symm hj]
    | worker p j => rfl
  | worker p i =>
    obtain ⟨q, x, hq, hi, hx⟩ := exists_worker h
    rw [setProgram_eq_setPool g hq hi, program?_setPool hq hi rfl]
    cases x <;> first | rfl | simp [Worker.program?] at hx

/-- The workers after a thread's program has been changed. -/
theorem worker?_setProgram {w : World ν} {self : Thread} {f : Program ν} (g : Program ν)
    (h : w.program? self = some f) (p i : Nat) :
    (w.setProgram g self).worker? p i =
      (w.worker? p i).map fun x => if self = .worker p i then x.setProgram g else x := by
  cases self with
  | client j => simp [worker?, setProgram]
  | worker j k =>
    obtain ⟨q, x, hq, hi, -⟩ := exists_worker h
    rw [setProgram_eq_setPool g hq hi, worker?_setPool hq hi rfl]
    by_cases hj : j = p ∧ k = i
    · obtain ⟨rfl, rfl⟩ := hj
      rw [if_pos ⟨rfl, rfl⟩, worker?_eq_some.2 ⟨q, hq, hi⟩]; simp
    · have hn : Thread.worker j k ≠ .worker p i := by simpa using hj
      simp only [if_neg hj, if_neg hn, Option.map_id']

/-- An instruction leaves the workers as they are. -/
theorem Answered.worker? {w v : World ν} {self : Thread} {f : Program ν} {a : Answer ν}
    (h : w.Answered self f a v) (p i : Nat) : v.worker? p i = w.worker? p i := by
  simp only [World.worker?]
  rcases h.accepted_or_tuned with ⟨j, holds, job, next, x, -, -, hx, -, rfl⟩ | ⟨-, ht⟩
  · rw [getElem?_accept hx]
    split
    · next hj => subst hj; rw [hx]; rfl
    · rfl
  · have hp := ht.pools p
    generalize w.pools[p]? = o, v.pools[p]? = o' at hp ⊢
    cases hp with
    | none => rfl
    | some hp => simp [hp.workers]

/-- An instruction leaves the programs as they are. -/
theorem Answered.program? {w v : World ν} {self : Thread} {f : Program ν} {a : Answer ν}
    (h : w.Answered self f a v) (s : Thread) : v.program? s = w.program? s := by
  cases s with
  | client i =>
    rcases h.accepted_or_tuned with ⟨p, holds, job, next, q, -, -, -, -, rfl⟩ | ⟨-, ht⟩
    · rfl
    · rw [World.program?, World.program?, ht.clients]
  | worker p i => rw [program?_worker, program?_worker, h.worker?]

/-! ### Moves and events -/

/-- What a worker that runs a program does with it. -/
theorem work?_exec {w : World ν} {p i : Nat} {q : WorkerPool ν} {x : Worker ν} {f : Program ν}
    (hq : w.pools[p]? = some q) (hi : q.workers[i]? = some x) (hx : x.program? = some f)
    (hf : ∀ e, f ≠ .finish e) :
    w.work? p i = (w.exec (.worker p i) f).map fun r => r.1.setProgram r.2 (.worker p i) := by
  have hset : ∀ v g, w.exec (.worker p i) f = some (v, g) →
      v.setWorker p i (x.setProgram g) = v.setProgram g (.worker p i) := by
    intro v g hv
    obtain ⟨a, ha, -⟩ := answered_of_exec hv
    obtain ⟨q', hq', hi'⟩ := worker?_eq_some.1
      ((ha.worker? p i).trans (worker?_eq_some.2 ⟨q, hq, hi⟩))
    rw [setWorker_eq_setPool _ hq', setProgram_eq_setPool g hq' hi']
  simp only [work?, hq, hi, Option.bind_eq_bind, Option.bind_some, Option.pure_def]
  split
  · simp [Worker.program?] at hx
  · cases hx; exact absurd rfl (hf _)
  · cases hx
    rcases he : w.exec (.worker p i) f with _ | ⟨v, k⟩
    · rfl
    · exact congrArg some (hset v k he)
  · simp [Worker.program?] at hx
  · cases hx; exact absurd rfl (hf _)
  · cases hx
    rcases he : w.exec (.worker p i) f with _ | ⟨v, k⟩
    · rfl
    · exact congrArg some (hset v k he)
  · simp [Worker.program?] at hx

theorem Answered.ne_finish {w v : World ν} {self : Thread} {f : Program ν} {a : Answer ν}
    (h : w.Answered self f a v) (e : Ending ν) : f ≠ .finish e := by
  rintro rfl; cases h

/-- The answer of an instruction fits it. -/
theorem Answered.exists_after {w v : World ν} {self : Thread} {f : Program ν} {a : Answer ν}
    (h : w.Answered self f a v) : ∃ g, f.after? a = some g := by
  cases h <;> exact ⟨_, rfl⟩

/-- A worker that does not go down with what its job has ended with has something for the task. -/
theorem outcome?_of_bringsDown {w : World ν} {t : Nat} {e : Ending ν} (h : w.bringsDown t e = false) :
    e.outcome? = some e.outcome := by
  rcases e with v | v | m | _ | _
  case panic.bomb => cases h
  all_goals rfl

/-- There is room for what a task gets as long as it has nothing. -/
theorem hasRoom_of_result? {w : World ν} {t : Nat} (h : w.result? t = none) : w.hasRoom t = true := by
  simp [hasRoom, h]

/-- **What a worker does that has run its job to the end**: it goes down with what the job has ended with, or
delivers it if there is room. -/
theorem work?_ended {w : World ν} {p i t : Nat} {q : WorkerPool ν} {e : Ending ν}
    (hq : w.pools[p]? = some q) (hi : q.workers[i]? = some (.busy t (.finish e))) :
    w.work? p i = if w.bringsDown t e then some (w.goDown p i t q)
      else if w.hasRoom t then some ((w.store t e).deliver p i t e.outcome) else none := by
  simp only [work?, hq, hi, Option.bind_eq_bind, Option.bind_some]

theorem happens_of_work {w v : World ν} {p i : Nat} (h : w.work? p i = some v) :
    ∃ e, w.Happens e v ∧ e.thread = .worker p i := by
  rcases hq : w.pools[p]? with _ | q
  · simp [work?, hq] at h
  rcases hi : q.workers[i]? with _ | x
  · simp [work?, hq, hi] at h
  by_cases hf : ∃ f, x.program? = some f ∧ ∀ e, f ≠ .finish e
  · obtain ⟨f, hx, hf⟩ := hf
    rw [work?_exec hq hi hx hf] at h
    obtain ⟨⟨v', g⟩, hg, rfl⟩ := Option.map_eq_some_iff.1 h
    obtain ⟨a, ha, hn⟩ := answered_of_exec hg
    have hp : w.program? (.worker p i) = some f := by
      rw [program?_worker, worker?_eq_some.2 ⟨q, hq, hi⟩]; exact hx
    exact ⟨_, .did hp ha hn, rfl⟩
  cases x with
  | idle =>
    simp only [work?, hq, hi, Option.bind_eq_bind, Option.bind_some, takeTask?] at h
    split at h
    · next t r hr =>
      obtain ⟨task, ht, h⟩ := Option.bind_eq_some_iff.1 h
      cases h; exact ⟨_, .took hq hi hr ht, rfl⟩
    · next hr =>
      split at h
      · simp at h
      · next ha => cases h; exact ⟨_, .left hq hi hr (by simpa using ha), rfl⟩
  | busy t f =>
    obtain ⟨e, rfl⟩ : ∃ e, f = .finish e := by
      by_contra hn; exact hf ⟨f, rfl, fun e he => hn ⟨e, he⟩⟩
    rw [work?_ended hq hi] at h
    split at h
    · next hd => cases h; exact ⟨_, .fell hq hi hd, rfl⟩
    · next hd =>
      have hd : w.bringsDown t e = false := by simpa using hd
      split at h
      · next hr => cases h; exact ⟨_, .delivered hq hi (outcome?_of_bringsDown hd) hd hr, rfl⟩
      · cases h
  | counting t =>
    simp only [work?, hq, hi, Option.bind_eq_bind, Option.bind_some, Option.some.injEq] at h
    subst h; exact ⟨_, .counted hq hi, rfl⟩
  | falling t f others =>
    obtain ⟨e, rfl⟩ : ∃ e, f = .finish e := by
      by_contra hn; exact hf ⟨f, rfl, fun e he => hn ⟨e, he⟩⟩
    simp only [work?, hq, hi, Option.bind_eq_bind, Option.bind_some, Option.some.injEq] at h
    subst h; exact ⟨_, .lost hq hi, rfl⟩
  | gone => simp [work?, hq, hi] at h

/-- A move of another thread leaves a worker as it is. -/
theorem Happens.worker?_of_ne {w v : World ν} {e : Event ν} (he : w.Happens e v) {p i : Nat}
    (hne : e.thread ≠ .worker p i) : v.worker? p i = w.worker? p i := by
  have hp : ∀ {j k : Nat}, Thread.worker j k ≠ .worker p i → ¬ (j = p ∧ k = i) := by
    rintro j k h ⟨rfl, rfl⟩; exact h rfl
  cases he with
  | @did self f a u g hf ha hn =>
    have hne : self ≠ .worker p i := hne
    rw [worker?_setProgram g ((ha.program? self).trans hf), ha.worker?]
    simp only [if_neg hne, Option.map_id']
  | took hq hi => rw [worker?_setPool hq hi rfl, if_neg (hp hne)]
  | counted hq hi => rw [worker?_setPool hq hi rfl, if_neg (hp hne)]
  | left hq hi => rw [worker?_setPool hq hi rfl, if_neg (hp hne)]
  | delivered hq hi =>
    rw [deliver, setWorker_eq_setPool (w := (w.store _ _).setSlot _ _) _ hq,
      worker?_setPool (w := (w.store _ _).setSlot _ _) hq hi rfl, if_neg (hp hne)]
    rfl
  | lost hq hi =>
    rw [lose, setWorker_eq_setPool (w := w.setSlot _ _) _ hq,
      worker?_setPool (w := w.setSlot _ _) hq hi rfl, if_neg (hp hne)]
    rfl
  | @fell j k q t _ hq hi =>
    simp only [goDown]
    split
    · rw [worker?_setPool (w := w.setSlot _ _) hq hi (List.set_set _), if_neg (hp hne)]; rfl
    · rw [worker?_setPool (w := w.setSlot _ _) hq hi rfl, if_neg (hp hne)]; rfl

/-- A move of another thread leaves a thread's program as it is. -/
theorem Happens.program?_of_ne {w v : World ν} {e : Event ν} (he : w.Happens e v) {s : Thread}
    (hne : e.thread ≠ s) : v.program? s = w.program? s := by
  cases s with
  | worker p i => rw [program?_worker, program?_worker, he.worker?_of_ne hne]
  | client i =>
    cases he with
    | @did self f a u g hf ha hn =>
      have hne : Thread.client i ≠ self := Ne.symm hne
      rw [program?_setProgram g ((ha.program? self).trans hf), if_neg hne, ha.program?]
    | fell => simp only [goDown]; split <;> rfl
    | took | delivered | counted | left | lost => rfl

/-- What a move does to the programs of the clients. -/
theorem Happens.clients {w v : World ν} {e : Event ν} (he : w.Happens e v) :
    v.clients = w.clients ∨ ∃ i f a g, e = .did (.client i) f a ∧ w.clients[i]? = some f ∧
      f.after? a = some g ∧ v.clients = w.clients.set i g := by
  cases he with
  | @did s f a u g hf ha hn =>
    have hu : u.clients = w.clients := by
      rcases ha.accepted_or_tuned with ⟨p, holds, job, next, q, -, -, -, -, rfl⟩ | ⟨-, ht⟩
      · rfl
      · exact ht.clients
    cases s with
    | client i => exact Or.inr ⟨i, f, a, g, rfl, hf, hn, by rw [setProgram, hu]⟩
    | worker p i => exact Or.inl hu
  | fell => left; simp only [goDown]; split <;> rfl
  | took | delivered | counted | left | lost => exact Or.inl rfl

/-- What a move in which a job is accepted does to the tasks. -/
theorem Happens.offered {w v : World ν} {s : Thread} {p t : Nat} {holds : List Nat}
    {job : Program ν} {next : Except Failure Nat → Program ν}
    (he : w.Happens (.did s (.submit p holds job next) (.task (.ok t))) v) :
    t = w.tasks.length ∧ v.tasks = w.tasks ++ [⟨p, holds, job, .waiting⟩] := by
  cases he with
  | did hp ha hn =>
    cases ha with
    | accepted hq ht => exact ⟨rfl, by cases s <;> rfl⟩

/-- **How a worker has come to what it is busy with**: it was before, or has just taken the task, or
has gone on with its job. -/
theorem Happens.busy {w v : World ν} {e : Event ν} (he : w.Happens e v) {p i t : Nat}
    {f : Program ν} (hx : v.worker? p i = some (.busy t f)) :
    (e.thread ≠ .worker p i ∧ w.worker? p i = some (.busy t f)) ∨
    (∃ task, e = .took p i t ∧ w.tasks[t]? = some task ∧ f = task.job) ∨
    ∃ g a, e = .did (.worker p i) g a ∧ w.worker? p i = some (.busy t g) ∧ g.after? a = some f := by
  by_cases hne : e.thread = .worker p i
  · right
    cases he with
    | @did self g a u k hg ha hn =>
      obtain rfl : self = .worker p i := hne
      rw [worker?_setProgram k ((ha.program? _).trans hg), ha.worker?] at hx
      obtain ⟨x, hwx, hx⟩ := Option.map_eq_some_iff.1 hx
      rw [program?_worker, hwx] at hg
      rw [if_pos rfl] at hx
      cases x <;> cases hx
      cases hg
      exact Or.inr ⟨_, _, rfl, hwx, hn⟩
    | took hq hi hr ht =>
      cases hne
      rw [worker?_setPool hq hi rfl, if_pos ⟨rfl, rfl⟩] at hx
      cases hx; exact Or.inl ⟨_, rfl, ht, rfl⟩
    | counted hq hi =>
      cases hne
      rw [worker?_setPool hq hi rfl, if_pos ⟨rfl, rfl⟩] at hx; cases hx
    | left hq hi =>
      cases hne
      rw [worker?_setPool hq hi rfl, if_pos ⟨rfl, rfl⟩] at hx; cases hx
    | delivered hq hi =>
      cases hne
      rw [deliver, setWorker_eq_setPool (w := (w.store _ _).setSlot _ _) _ hq,
        worker?_setPool (w := (w.store _ _).setSlot _ _) hq hi rfl, if_pos ⟨rfl, rfl⟩] at hx
      cases hx
    | lost hq hi =>
      cases hne
      rw [lose, setWorker_eq_setPool (w := w.setSlot _ _) _ hq,
        worker?_setPool (w := w.setSlot _ _) hq hi rfl, if_pos ⟨rfl, rfl⟩] at hx
      unfold fallingWith at hx
      split at hx <;> cases hx
    | @fell j k q t _ hq hi =>
      cases hne
      simp only [goDown] at hx
      split at hx
      · rw [worker?_setPool (w := w.setSlot _ _) hq hi (List.set_set _), if_pos ⟨rfl, rfl⟩] at hx
        unfold fallingWith at hx
        split at hx <;> cases hx
      · rw [worker?_setPool (w := w.setSlot _ _) hq hi rfl, if_pos ⟨rfl, rfl⟩] at hx; cases hx
  · exact Or.inl ⟨hne, he.worker?_of_ne hne ▸ hx⟩

/-- **What a thread does that has an instruction to do.** -/
theorem Happens.of_program {w v : World ν} {e : Event ν} (he : w.Happens e v) {s : Thread}
    {f : Program ν} (hs : e.thread = s) (hf : w.program? s = some f) (hne : ∀ x, f ≠ .finish x) :
    ∃ a u g, e = .did s f a ∧ w.Answered s f a u ∧ f.after? a = some g ∧ v = u.setProgram g s := by
  subst hs
  have worker : ∀ {p i q x}, w.pools[p]? = some q → q.workers[i]? = some x →
      w.program? (.worker p i) = x.program? := by
    intro p i q x hq hi
    rw [program?_worker, worker?_eq_some.2 ⟨q, hq, hi⟩]; rfl
  cases he with
  | @did self f' a u g hp ha hn =>
    obtain rfl := Option.some.inj (hp.symm.trans hf)
    exact ⟨a, u, g, rfl, ha, hn, rfl⟩
  | took hq hi | counted hq hi | left hq hi => cases (worker hq hi).symm.trans hf
  | delivered hq hi | fell hq hi | lost hq hi =>
    cases (worker hq hi).symm.trans hf
    exact absurd rfl (hne _)

/-- **A move shows as an event.** -/
theorem happens_of_move {w v : World ν} {m : Move} (h : w.move? m = some v) :
    ∃ e, w.Happens e v ∧ e.thread = m.thread := by
  rcases m with (i | ⟨p, i⟩) | self
  · simp only [move?, Option.bind_eq_bind, Option.bind_eq_some_iff, Option.pure_def] at h
    obtain ⟨f, hf, ⟨u, g⟩, hg, h⟩ := h
    obtain ⟨a, ha, hn⟩ := answered_of_exec hg
    cases h; exact ⟨_, .did hf ha hn, rfl⟩
  · exact happens_of_work h
  · simp only [move?, Option.bind_eq_bind, Option.bind_eq_some_iff, Option.pure_def] at h
    obtain ⟨f, hf, g, hg, h⟩ := h
    obtain ⟨a, ha, hn⟩ := answered_of_expire self hg
    cases h; exact ⟨_, .did hf ha hn, rfl⟩

/-- **What shows as an event is a move.** -/
theorem move_of_happens {w v : World ν} {e : Event ν} (h : w.Happens e v) :
    ∃ m, w.move? m = some v ∧ m.thread = e.thread := by
  cases h with
  | @did self f a u g hp ha hn =>
    rcases exec_or_expire_of_answered ha hn with hx | ⟨hx, rfl⟩
    · refine ⟨.act self, ?_, rfl⟩
      cases self with
      | client i =>
        have hc : w.clients[i]? = some f := hp
        simp [move?, hc, hx]
      | worker p i =>
        obtain ⟨q, x, hq, hi, hf⟩ := exists_worker hp
        rw [move?, work?_exec hq hi hf ha.ne_finish, hx]; rfl
    · exact ⟨.expire self, by simp [move?, hp, hx], rfl⟩
  | @took p i q t r task hq hi hr ht =>
    exact ⟨.act (.worker p i), by simp [move?, work?, hq, hi, takeTask?, hr, ht], rfl⟩
  | @delivered p i q t e o hq hi ho hd hr =>
    refine ⟨.act (.worker p i), ?_, rfl⟩
    rw [move?, work?_ended hq hi, hd, if_neg Bool.false_ne_true, if_pos hr, Ending.outcome_of_outcome? ho]
  | @counted p i q t hq hi => exact ⟨.act (.worker p i), by simp [move?, work?, hq, hi], rfl⟩
  | @left p i q hq hi hr ha =>
    exact ⟨.act (.worker p i), by simp [move?, work?, hq, hi, takeTask?, hr, ha], rfl⟩
  | @fell p i q t e hq hi hd =>
    exact ⟨.act (.worker p i), by rw [move?, work?_ended hq hi, if_pos hd], rfl⟩
  | @lost p i q t e others hq hi =>
    exact ⟨.act (.worker p i), by simp [move?, work?, hq, hi], rfl⟩

/-- **A step is an event that happens.** -/
theorem step_iff_happens {w v : World ν} : Step w v ↔ ∃ e, w.Happens e v := by
  constructor
  · rintro ⟨m, h⟩
    obtain ⟨e, he, -⟩ := happens_of_move h
    exact ⟨e, he⟩
  · rintro ⟨e, h⟩
    obtain ⟨m, hm, -⟩ := move_of_happens h
    exact ⟨m, hm⟩

/-- Nothing can happen in a stuck world. -/
theorem isStuck_iff {w : World ν} : w.IsStuck ↔ ∀ e v, ¬ w.Happens e v := by
  constructor
  · intro h e v he
    obtain ⟨m, hm, -⟩ := move_of_happens he
    rw [h m] at hm; cases hm
  · intro h m
    rcases hm : w.move? m with _ | v
    · rfl
    · obtain ⟨e, he, -⟩ := happens_of_move hm
      exact absurd he (h e v)

/-- Where nothing can happen, no instruction is answered. -/
theorem IsStuck.not_answered {w v : World ν} (hs : w.IsStuck) {self : Thread} {f : Program ν}
    {a : Answer ν} (hf : w.program? self = some f) : ¬ w.Answered self f a v := by
  intro ha
  obtain ⟨g, hg⟩ := ha.exists_after
  exact isStuck_iff.1 hs _ _ (.did hf ha hg)

/-! ### Runs -/

theorem Reachable.trans {w v u : World ν} (hv : Reachable w v) (hu : Reachable v u) :
    Reachable w u := by
  induction hu with
  | refl => exact hv
  | tail _ hs ih => exact .tail ih hs

/-- **A run and its history.** -/
inductive Run (w : World ν) : List (Event ν) → World ν → Prop where
  | refl : Run w [] w
  | tail {h : List (Event ν)} {v u : World ν} {e : Event ν} (hr : Run w h v) (he : v.Happens e u) :
      Run w (h ++ [e]) u

/-- A run that goes on with the next instruction of a thread. -/
theorem Run.does {w v u : World ν} {h : List (Event ν)} (hr : w.Run h v) (s : Thread) {f g : Program ν}
    {a : Answer ν} (hf : v.program? s = some f) (ha : v.Answered s f a u) (hn : f.after? a = some g) :
    w.Run (h ++ [.did s f a]) (u.setProgram g s) :=
  hr.tail (.did hf ha hn)

/-- **What is reachable is what some run leads to.** -/
theorem reachable_iff_run {w v : World ν} : Reachable w v ↔ ∃ h, w.Run h v := by
  constructor
  · intro h
    induction h with
    | refl => exact ⟨[], .refl⟩
    | tail _ hs ih =>
      obtain ⟨h, hr⟩ := ih
      obtain ⟨e, he⟩ := step_iff_happens.1 hs
      exact ⟨h ++ [e], .tail hr he⟩
  · rintro ⟨h, hr⟩
    induction hr with
    | refl => exact .refl
    | tail _ he ih => exact .tail ih (step_iff_happens.2 ⟨_, he⟩)

theorem Run.append {w v u : World ν} {h k : List (Event ν)} (hv : w.Run h v) (hu : v.Run k u) :
    w.Run (h ++ k) u := by
  induction hu with
  | refl => rwa [List.append_nil]
  | tail _ he ih => rw [← List.append_assoc]; exact .tail ih he

/-- A run passes through the world after each part of its history. -/
theorem Run.split {w u : World ν} {h k : List (Event ν)} (hr : w.Run (h ++ k) u) :
    ∃ v, w.Run h v ∧ v.Run k u := by
  generalize hl : h ++ k = l at hr
  induction hr generalizing k with
  | refl =>
    obtain ⟨rfl, rfl⟩ := List.append_eq_nil_iff.1 hl
    exact ⟨w, .refl, .refl⟩
  | @tail l v u e hr he ih =>
    rcases List.eq_nil_or_concat k with rfl | ⟨k', b, rfl⟩
    · rw [List.append_nil] at hl
      subst hl; exact ⟨u, .tail hr he, .refl⟩
    · rw [List.concat_eq_append, ← List.append_assoc] at hl
      obtain ⟨rfl, hb⟩ := List.append_inj' hl rfl
      obtain rfl : b = e := by simpa using hb
      obtain ⟨x, hx, hk⟩ := ih rfl
      exact ⟨x, hx, by rw [List.concat_eq_append]; exact .tail hk he⟩

/-- A run with one more event at its start. -/
theorem Run.cons_iff {w u : World ν} {e : Event ν} {h : List (Event ν)} :
    w.Run (e :: h) u ↔ ∃ v, w.Happens e v ∧ v.Run h u := by
  constructor
  · intro hr
    obtain ⟨v, hv, hu⟩ := hr.split (h := [e])
    generalize hl : [e] = l at hv
    cases hv with
    | refl => cases hl
    | @tail k x _ b hx hb =>
      rcases k with _ | ⟨c, k⟩
      · obtain rfl : e = b := by simpa using hl
        generalize hn : ([] : List (Event ν)) = n at hx
        cases hx with
        | refl => exact ⟨v, hb, hu⟩
        | tail => simp at hn
      · simp at hl
  · rintro ⟨v, he, hu⟩
    exact Run.append (.tail .refl he) hu

/-- What a list of moves leads to, if they are possible one after the other. -/
def follow? (w : World ν) : List Move → Option (World ν)
  | [] => some w
  | m :: ms => w.move? m >>= fun v => v.follow? ms

theorem run_of_follow? {w v : World ν} {ms : List Move} (h : w.follow? ms = some v) :
    ∃ k, w.Run k v := by
  induction ms generalizing w with
  | nil => cases h; exact ⟨[], .refl⟩
  | cons m ms ih =>
    obtain ⟨u, hu, h⟩ := Option.bind_eq_some_iff.1 h
    obtain ⟨e, he, -⟩ := happens_of_move hu
    obtain ⟨k, hk⟩ := ih h
    exact ⟨e :: k, Run.cons_iff.2 ⟨u, he, hk⟩⟩

/-- The move that an event of a history tells of. -/
theorem Run.exists_happens {w u : World ν} {e : Event ν} {h k : List (Event ν)}
    (hr : w.Run (h ++ e :: k) u) : ∃ v v', w.Run h v ∧ v.Happens e v' ∧ v'.Run k u := by
  obtain ⟨v, hv, hu⟩ := hr.split
  obtain ⟨v', he, hu⟩ := Run.cons_iff.1 hu
  exact ⟨v, v', hv, he, hu⟩

end World

end Handoff.Pool
