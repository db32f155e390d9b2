import Handoff.Pool.World
import Mathlib.Data.Option.Basic

/-! # What instructions answer

A move of a thread that runs a program does the next instruction, or gives it up because its limit
is up. Both look the same from the program's side: the instruction gets an answer, and the program
goes on with it. So `World.exec` and `World.expire` are taken apart here into what is answered and
how the program goes on.

* `Answer`, `Program.after?`, `Program.resume?`: a program goes on after one answer, or after several.
* `World.Answered`: what the next instruction can be answered, one rule for each way.
* `answered_of_exec`, `answered_of_expire`, `exec_or_expire_of_answered`: the two functions follow
  these rules.
* `Answered.accepted_or_tuned`: what they change is either that a job is accepted, or nothing about jobs
  and workers.
-/

namespace Handoff.Pool

variable {ν : Type}

/-- What an instruction is answered. -/
inductive Answer (ν : Type) where
  /-- The number of an accepted task, or the refusal. -/
  | task (r : Except Failure Nat)
  /-- What a task has yielded, or why there is nothing. -/
  | result (r : Except Failure ν)
  | flag (b : Bool)
  | phase (f : Phase)
  | count (n : Nat)
  | name (s : Option String)
  /-- That the instruction has been done. -/
  | done

namespace Program

/-- **What is left of a program after its next instruction has been answered**; missing if the
instruction has no such answer. -/
def after? : Program ν → Answer ν → Option (Program ν)
  | submit _ _ _ next, .task r => some (next r)
  | receive _ _ next, .result r => some (next r)
  | discard _ next, .flag b => some (next b)
  | closeIntake _ next, .flag b => some (next b)
  | markShuttingDown _ next, .done => some next
  | mayAwait _ next, .flag b => some (next b)
  | awaitExit _ _ next, .flag b => some (next b)
  | markTerminated _ next, .done => some next
  | readPhase _ next, .phase f => some (next f)
  | awaitCount _ _ _ next, .count n => some (next n)
  | retain _ next, .done => some next
  | release _ next, .flag b => some (next b)
  | openGate _ next, .done => some next
  | awaitGate _ next, .done => some next
  | record _ next, .done => some next
  | threadName next, .name s => some (next s)
  | _, _ => none

/-- What is left of a program after these answers. -/
def resume? (p : Program ν) : List (Answer ν) → Option (Program ν)
  | [] => some p
  | a :: as => p.after? a >>= fun q => q.resume? as

theorem resume?_append {p q : Program ν} {as bs : List (Answer ν)} (h : p.resume? as = some q) :
    p.resume? (as ++ bs) = q.resume? bs := by
  induction as generalizing p with
  | nil => cases h; rfl
  | cons a as ih =>
    obtain ⟨r, hr, h⟩ := Option.bind_eq_some_iff.1 h
    rw [List.cons_append, resume?, hr]
    exact ih h

/-- One more answer. -/
theorem resume?_concat {p q r : Program ν} {as : List (Answer ν)} {a : Answer ν}
    (h : p.resume? as = some q) (ha : q.after? a = some r) : p.resume? (as ++ [a]) = some r := by
  rw [resume?_append h, resume?, ha]
  rfl

end Program

namespace World

/-- **What the next instruction of a thread's program can be answered**, and the world afterwards. -/
inductive Answered (w : World ν) (self : Thread) : Program ν → Answer ν → World ν → Prop where
  | accepted {p holds job next q} (hq : w.pools[p]? = some q) (h : q.takesJobs = true) :
      Answered w self (.submit p holds job next) (.task (.ok w.tasks.length)) (w.accept p q holds job)
  | refused {p holds job next q} (hq : w.pools[p]? = some q) (h : q.takesJobs = false) :
      Answered w self (.submit p holds job next) (.task (.error (.poolShutdown q.name))) w
  | received {t limit next r} (h : w.result? t = some r) :
      Answered w self (.receive t limit next) (.result r) (w.takeOut t)
  | receiveExpired {t d next} (h : w.result? t = none) :
      Answered w self (.receive t (some d) next) (.result (.error (.timeout d))) w
  | discarded {t next} :
      Answered w self (.discard t next) (.flag (!w.fragile.contains t)) (w.giveUp t)
  | closed {p next q} (hq : w.pools[p]? = some q) :
      Answered w self (.closeIntake p next) (.flag q.accepting)
        (w.setPool p { q with accepting := false })
  | shuttingDown {p next q} (hq : w.pools[p]? = some q) :
      Answered w self (.markShuttingDown p next) .done
        (w.setPool p { q with phase := q.phase.shutDown })
  | awaitable {p next q} (hq : w.pools[p]? = some q) :
      Answered w self (.mayAwait p next) (.flag (!q.accepting && !self.worksFor p)) w
  | exited {p limit next q} (hq : w.pools[p]? = some q) (h : q.isDeserted = true) :
      Answered w self (.awaitExit p limit next) (.flag true) w
  | exitExpired {p d next q} (hq : w.pools[p]? = some q) (h : q.isLost = false) :
      Answered w self (.awaitExit p (some d) next) (.flag false) w
  | terminated {p next q} (hq : w.pools[p]? = some q) :
      Answered w self (.markTerminated p next) .done (w.setPool p { q with phase := .terminated })
  | phaseRead {p next q} (hq : w.pools[p]? = some q) :
      Answered w self (.readPhase p next) (.phase q.phase) w
  | countReached {p n limit next q} (hq : w.pools[p]? = some q) (h : n ≤ q.completed) :
      Answered w self (.awaitCount p n limit next) (.count q.completed) w
  | countExpired {p n d next q} (hq : w.pools[p]? = some q) (h : q.completed < n) :
      Answered w self (.awaitCount p n (some d) next) (.count q.completed) w
  | retained {p next q} (hq : w.pools[p]? = some q) :
      Answered w self (.retain p next) .done (w.setPool p { q with shares := q.shares + 1 })
  | released {p next q} (hq : w.pools[p]? = some q) :
      Answered w self (.release p next) (.flag (q.shares == 1))
        (w.setPool p { q with shares := q.shares - 1 })
  | gateOpened {g next} :
      Answered w self (.openGate g next) .done { w with gates := g :: w.gates }
  | gatePassed {g next} (h : w.gates.contains g = true) : Answered w self (.awaitGate g next) .done w
  | recorded {v next} :
      Answered w self (.record v next) .done { w with recorded := w.recorded ++ [v] }
  | nameRead {next} : Answered w self (.threadName next) (.name (w.nameOf self)) w

theorem setPool_self {w : World ν} {p : Nat} {q : WorkerPool ν} (h : w.pools[p]? = some q) :
    w.setPool p q = w := by
  obtain ⟨hp, rfl⟩ := List.getElem?_eq_some_iff.1 h
  rw [setPool, List.set_getElem_self]

/-- A step on one pool, and what it needs. -/
theorem withPool_eq_some_iff {α : Type} {w w' : World ν} {p : Nat}
    {f : WorkerPool ν → Option (WorkerPool ν × α)} {a : α} :
    w.withPool p f = some (w', a) ↔
      ∃ q q', w.pools[p]? = some q ∧ f q = some (q', a) ∧ w' = w.setPool p q' := by
  simp only [withPool, Option.bind_eq_bind, Option.bind_eq_some_iff, Option.pure_def,
    Option.some.injEq, Prod.mk.injEq, Prod.exists]
  constructor
  · rintro ⟨q, hq, q', a', hf, rfl, rfl⟩; exact ⟨q, q', hq, hf, rfl⟩
  · rintro ⟨q, q', hq, hf, rfl⟩; exact ⟨q, hq, q', a, hf, rfl, rfl⟩

/-- **An instruction that is done has been answered.** -/
theorem answered_of_exec {w w' : World ν} {self : Thread} {p q : Program ν}
    (h : w.exec self p = some (w', q)) : ∃ a, w.Answered self p a w' ∧ p.after? a = some q := by
  cases p with
  | finish e => simp [exec] at h
  | submit i holds job next =>
    simp only [exec, Option.bind_eq_bind, Option.bind_eq_some_iff, Option.pure_def] at h
    obtain ⟨x, hx, h⟩ := h
    split at h
    · next ht => cases h; exact ⟨_, .accepted hx ht, rfl⟩
    · next ht => cases h; exact ⟨_, .refused hx (by simpa using ht), rfl⟩
  | receive t limit next =>
    simp only [exec, Option.bind_eq_bind, Option.bind_eq_some_iff, Option.pure_def] at h
    obtain ⟨r, hr, h⟩ := h
    cases h; exact ⟨_, .received hr, rfl⟩
  | discard t next => cases h; exact ⟨_, .discarded, rfl⟩
  | closeIntake i next =>
    obtain ⟨x, x', hx, hf, rfl⟩ := withPool_eq_some_iff.1 h
    cases hf; exact ⟨_, .closed hx, rfl⟩
  | markShuttingDown i next =>
    obtain ⟨x, x', hx, hf, rfl⟩ := withPool_eq_some_iff.1 h
    cases hf; exact ⟨_, .shuttingDown hx, rfl⟩
  | mayAwait i next =>
    obtain ⟨x, x', hx, hf, rfl⟩ := withPool_eq_some_iff.1 h
    cases hf; rw [setPool_self hx]; exact ⟨_, .awaitable hx, rfl⟩
  | awaitExit i limit next =>
    obtain ⟨x, x', hx, hf, rfl⟩ := withPool_eq_some_iff.1 h
    split at hf
    · next hd => cases hf; rw [setPool_self hx]; exact ⟨_, .exited hx hd, rfl⟩
    · simp at hf
  | markTerminated i next =>
    obtain ⟨x, x', hx, hf, rfl⟩ := withPool_eq_some_iff.1 h
    cases hf; exact ⟨_, .terminated hx, rfl⟩
  | readPhase i next =>
    obtain ⟨x, x', hx, hf, rfl⟩ := withPool_eq_some_iff.1 h
    cases hf; rw [setPool_self hx]; exact ⟨_, .phaseRead hx, rfl⟩
  | awaitCount i n limit next =>
    obtain ⟨x, x', hx, hf, rfl⟩ := withPool_eq_some_iff.1 h
    split at hf
    · next hn => cases hf; rw [setPool_self hx]; exact ⟨_, .countReached hx hn, rfl⟩
    · simp at hf
  | retain i next =>
    obtain ⟨x, x', hx, hf, rfl⟩ := withPool_eq_some_iff.1 h
    cases hf; exact ⟨_, .retained hx, rfl⟩
  | release i next =>
    obtain ⟨x, x', hx, hf, rfl⟩ := withPool_eq_some_iff.1 h
    cases hf; exact ⟨_, .released hx, rfl⟩
  | openGate g next => cases h; exact ⟨_, .gateOpened, rfl⟩
  | awaitGate g next =>
    simp only [exec] at h
    split at h
    · next hg => cases h; exact ⟨_, .gatePassed hg, rfl⟩
    · simp at h
  | record v next => cases h; exact ⟨_, .recorded, rfl⟩
  | threadName next => cases h; exact ⟨_, .nameRead, rfl⟩

/-- **An instruction whose limit is up has been answered**, and the world is as before. -/
theorem answered_of_expire {w : World ν} (self : Thread) {p q : Program ν}
    (h : w.expire p = some q) : ∃ a, w.Answered self p a w ∧ p.after? a = some q := by
  unfold expire at h
  split at h
  · next t d next =>
    split at h
    · next hr => cases h; exact ⟨_, .receiveExpired (by simpa using hr), rfl⟩
    · simp at h
  · next i d next =>
    simp only [Option.bind_eq_bind, Option.bind_eq_some_iff, Option.pure_def] at h
    obtain ⟨x, hx, h⟩ := h
    split at h
    · simp at h
    · next hl => cases h; exact ⟨_, .exitExpired hx (by simpa using hl), rfl⟩
  · next i n d next =>
    simp only [Option.bind_eq_bind, Option.bind_eq_some_iff, Option.pure_def] at h
    obtain ⟨x, hx, h⟩ := h
    split at h
    · simp at h
    · next hn => cases h; exact ⟨_, .countExpired hx (by omega), rfl⟩
  · simp at h

/-- **What is answered has been done, or its limit is up.** -/
theorem exec_or_expire_of_answered {w w' : World ν} {self : Thread} {p q : Program ν} {a : Answer ν}
    (h : w.Answered self p a w') (ha : p.after? a = some q) :
    w.exec self p = some (w', q) ∨ w.expire p = some q ∧ w' = w := by
  cases h with
  | accepted hq ht => cases ha; left; simp [exec, hq, ht]
  | refused hq ht => cases ha; left; simp [exec, hq, ht]
  | received hr => cases ha; left; simp [exec, hr]
  | receiveExpired hr => cases ha; right; simp [expire, hr]
  | discarded => cases ha; left; rfl
  | closed hq => cases ha; left; simp [exec, withPool, hq]
  | shuttingDown hq => cases ha; left; simp [exec, withPool, hq]
  | awaitable hq => cases ha; left; simp [exec, withPool, hq, setPool_self]
  | exited hq hd => cases ha; left; simp [exec, withPool, hq, hd, setPool_self]
  | exitExpired hq hl => cases ha; right; simp [expire, hq, hl]
  | terminated hq => cases ha; left; simp [exec, withPool, hq]
  | phaseRead hq => cases ha; left; simp [exec, withPool, hq, setPool_self]
  | countReached hq hn => cases ha; left; simp [exec, withPool, hq, hn, setPool_self]
  | countExpired hq hn => cases ha; right; simp [expire, hq, hn]
  | retained hq => cases ha; left; simp [exec, withPool, hq]
  | released hq => cases ha; left; simp [exec, withPool, hq]
  | gateOpened => cases ha; left; rfl
  | gatePassed hg => cases ha; left; simp only [exec, hg, if_true]
  | recorded => cases ha; left; rfl
  | nameRead => cases ha; left; rfl

end World

/-! ### What instructions change -/

/-- How far a phase is from the start. -/
def Phase.rank : Phase → Nat
  | running => 0
  | shuttingDown => 1
  | terminated => 2

theorem Phase.rank_le_shutDown (f : Phase) : f.rank ≤ f.shutDown.rank := by cases f <;> decide

theorem Phase.rank_le_terminated (f : Phase) : f.rank ≤ Phase.terminated.rank := by
  cases f <;> decide

/-- What an instruction can do to a pool, if it offers it no job: jobs and workers stay, the intake is
not opened again, and the phase does not go back. -/
structure WorkerPool.Tuned (q q' : WorkerPool ν) : Prop where
  name : q'.name = q.name
  queue : q'.queue = q.queue
  completed : q'.completed = q.completed
  workers : q'.workers = q.workers
  accepting : q'.accepting = true → q.accepting = true
  phase : q.phase.rank ≤ q'.phase.rank

theorem WorkerPool.Tuned.refl (q : WorkerPool ν) : q.Tuned q :=
  ⟨rfl, rfl, rfl, rfl, id, Nat.le_refl _⟩

/-- What an instruction can do to a world, if no job is accepted. -/
structure World.Tuned (w v : World ν) : Prop where
  tasks : v.tasks = w.tasks
  clients : v.clients = w.clients
  pools : ∀ p : Nat, Option.Rel WorkerPool.Tuned w.pools[p]? v.pools[p]?

namespace World

theorem tuned_of_pools {w v : World ν} (ht : v.tasks = w.tasks) (hc : v.clients = w.clients)
    (hp : v.pools = w.pools) : w.Tuned v := by
  refine ⟨ht, hc, fun p => ?_⟩
  rw [hp]
  rcases w.pools[p]? with _ | q
  · exact .none
  · exact .some (.refl q)

theorem tuned_setPool {w : World ν} {p : Nat} {q q' : WorkerPool ν} (hq : w.pools[p]? = some q)
    (h : q.Tuned q') : w.Tuned (w.setPool p q') := by
  refine ⟨rfl, rfl, fun i => ?_⟩
  rw [setPool, List.getElem?_set]
  split
  · next hi =>
    subst hi
    rw [hq, if_pos (List.getElem?_eq_some_iff.1 hq).1]
    exact .some h
  · rcases w.pools[i]? with _ | x
    · exact .none
    · exact .some (.refl x)

/-- **An instruction gets a job accepted, or leaves jobs and workers as they are.** -/
theorem Answered.accepted_or_tuned {w v : World ν} {self : Thread} {f : Program ν} {a : Answer ν}
    (h : w.Answered self f a v) :
    (∃ p holds job next q, f = .submit p holds job next ∧ a = .task (.ok w.tasks.length) ∧
      w.pools[p]? = some q ∧ q.takesJobs = true ∧ v = w.accept p q holds job) ∨
    ((∀ t, a ≠ .task (.ok t)) ∧ w.Tuned v) := by
  cases h with
  | accepted hq ht => exact Or.inl ⟨_, _, _, _, _, rfl, rfl, hq, ht, rfl⟩
  | closed hq => exact Or.inr ⟨by simp, tuned_setPool hq ⟨rfl, rfl, rfl, rfl, by simp, Nat.le_refl _⟩⟩
  | shuttingDown hq =>
    exact Or.inr ⟨by simp, tuned_setPool hq ⟨rfl, rfl, rfl, rfl, id, Phase.rank_le_shutDown _⟩⟩
  | terminated hq =>
    exact Or.inr ⟨by simp, tuned_setPool hq ⟨rfl, rfl, rfl, rfl, id, Phase.rank_le_terminated _⟩⟩
  | retained hq => exact Or.inr ⟨by simp, tuned_setPool hq ⟨rfl, rfl, rfl, rfl, id, Nat.le_refl _⟩⟩
  | released hq => exact Or.inr ⟨by simp, tuned_setPool hq ⟨rfl, rfl, rfl, rfl, id, Nat.le_refl _⟩⟩
  | refused | received | receiveExpired | discarded | awaitable | exited | exitExpired | phaseRead
  | countReached | countExpired | gateOpened | gatePassed | recorded | nameRead =>
    exact Or.inr ⟨by simp, tuned_of_pools rfl rfl rfl⟩

theorem getElem?_accept {w : World ν} {p : Nat} {q : WorkerPool ν} {holds : List Nat}
    {job : Program ν} (hq : w.pools[p]? = some q) (i : Nat) :
    (w.accept p q holds job).pools[i]? =
      if p = i then some { q with queue := q.queue ++ [w.tasks.length] } else w.pools[i]? := by
  simp only [accept, setPool, List.getElem?_set]
  rw [if_pos (List.getElem?_eq_some_iff.1 hq).1]

end World

end Handoff.Pool
