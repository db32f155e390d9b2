import Handoff.Proofs.Pool.Traffic

/-! # The diary of a worker

What a worker has done is told by its own events in the history. They are one block for each job that it
has taken: it takes the job, carries it out to its end, delivers what it has ended with and counts it, and
only then takes the next one. So the jobs of one worker never overlap, and a pool with one worker carries
out the accepted jobs one after the other in the order in which they were accepted, up to the first one
that takes the worker down.

* `Goes`, `Happens.goes`: what a worker does in one move.
* `Executes`, `Serial`, `Diary`: a program carried out, jobs performed one after the other, and the diary of
  a worker with the block that it is in.
* `Run.diary`: the own events of every worker are a diary.
* `InOrder`, `jobs_in_order`: the order and the numbers of the jobs of a pool, after every run.
-/

namespace Handoff.Pool

variable {ν : Type}

/-! ### One move of a worker -/

/-- The job of a task. -/
def World.job? (w : World ν) (t : Nat) : Option (Program ν) := w.tasks[t]?.map Entry.job

/-- **What a worker of pool `p` does in one move**: what it shows, and what the worker is at before and
afterwards. -/
inductive Goes (job : Nat → Option (Program ν)) (p i : Nat) : Event ν → Worker ν → Worker ν → Prop where
  | took {t f} (ht : job t = some f) : Goes job p i (.took p i t) .idle (.busy t f)
  | went {t f a g} (hn : f.after? a = some g) :
      Goes job p i (.did (.worker p i) f a) (.busy t f) (.busy t g)
  | delivered {t e o} (ho : e.outcome? = some o) :
      Goes job p i (.delivered p i t o) (.busy t (.finish e)) (.counting t)
  | counted {t} : Goes job p i (.counted p i t) (.counting t) .idle
  | left : Goes job p i (.left p i) .idle .gone
  | fell {t e y} (he : ¬ e.IsDisposable) (hy : y.isLost = true) :
      Goes job p i (.fell p i t) (.busy t (.finish e)) y
  | disposed {t f a g others} (hn : f.after? a = some g) :
      Goes job p i (.did (.worker p i) f a) (.falling t f others) (.falling t g others)
  | lost {t e others y} (hy : y.isLost = true) :
      Goes job p i (.lost p i t) (.falling t (.finish e) others) y

namespace World

theorem isLost_fallingWith (w : World ν) (ts : List Nat) : (w.fallingWith ts).isLost = true := by
  cases ts <;> rfl

/-- **Every move of a worker is one of these.** -/
theorem Happens.goes {w v : World ν} {e : Event ν} (he : w.Happens e v) {p i : Nat}
    (hs : e.thread = .worker p i) :
    ∃ x y, w.worker? p i = some x ∧ v.worker? p i = some y ∧ Goes w.job? p i e x y := by
  have was : ∀ {q : WorkerPool ν} {x}, w.pools[p]? = some q → q.workers[i]? = some x →
      w.worker? p i = some x := fun hq hi => worker?_eq_some.2 ⟨_, hq, hi⟩
  have is : ∀ {u : World ν} {q q' : WorkerPool ν} {x y}, u.pools[p]? = some q →
      q.workers[i]? = some x → q'.workers = q.workers.set i y →
      (u.setPool p q').worker? p i = some y := fun hq hi hy => by
    rw [worker?_setPool hq hi hy, if_pos ⟨rfl, rfl⟩]
  cases he with
  | @did s f a u g hp ha hn =>
    obtain rfl : s = .worker p i := hs
    have hafter := worker?_setProgram g ((ha.program? _).trans hp) p i
    rw [program?_worker] at hp
    obtain ⟨x, hx, hf⟩ := Option.bind_eq_some_iff.1 hp
    rw [ha.worker?, hx, Option.map_some, if_pos rfl] at hafter
    refine ⟨x, _, hx, hafter, ?_⟩
    cases x <;> cases hf
    · exact .went hn
    · exact .disposed hn
  | took hq hi hr ht =>
    cases hs
    exact ⟨_, _, was hq hi, is hq hi rfl, .took (by rw [job?, ht]; rfl)⟩
  | delivered hq hi ho =>
    cases hs
    refine ⟨_, _, was hq hi, ?_, .delivered ho⟩
    rw [deliver, setWorker_eq_setPool (w := (w.store _ _).setSlot _ _) _ hq]
    exact is (u := (w.store _ _).setSlot _ _) hq hi rfl
  | counted hq hi => cases hs; exact ⟨_, _, was hq hi, is hq hi rfl, .counted⟩
  | left hq hi => cases hs; exact ⟨_, _, was hq hi, is hq hi rfl, .left⟩
  | @fell p i q t e hq hi hd =>
    cases hs
    obtain ⟨y, hy, hlost⟩ : ∃ y, (w.goDown p i t q).worker? p i = some y ∧ y.isLost = true := by
      simp only [goDown]
      split
      · exact ⟨_, is (u := w.setSlot _ _) hq hi (List.set_set _), isLost_fallingWith _ _⟩
      · exact ⟨_, is (u := w.setSlot _ _) hq hi rfl, rfl⟩
    have he : ¬ e.IsDisposable := fun he => by rw [he.bringsDown w t] at hd; cases hd
    exact ⟨_, y, was hq hi, hy, .fell he hlost⟩
  | @lost p i q t x others hq hi =>
    cases hs
    refine ⟨_, w.fallingWith others, was hq hi, ?_, .lost (isLost_fallingWith _ _)⟩
    rw [lose, setWorker_eq_setPool (w := w.setSlot _ _) _ hq]
    exact is (u := w.setSlot _ _) hq hi rfl

/-- What a worker goes down with. -/
theorem bringsDown_iff {w : World ν} {t : Nat} {e : Ending ν} :
    w.bringsDown t e = true ↔ e = .panic .bomb ∨ (∃ v, e = .fragile v) ∧ t ∈ w.givenUp := by
  cases e <;> simp [bringsDown]

/-- **Handles are given up one at a time**, by instructions. -/
theorem Happens.givenUp {w v : World ν} {e : Event ν} (he : w.Happens e v) (t : Nat) :
    t ∈ v.givenUp ↔ t ∈ w.givenUp ∨ ∃ s next b, e = .did s (.discard t next) (.flag b) := by
  cases he with
  | @did s f a u g hp ha hn =>
    have hu : (u.setProgram g s).givenUp = u.givenUp := by cases s <;> rfl
    rw [hu]
    cases ha with
    | discarded => simp [giveUp, takeOut, or_comm, eq_comm]
    | _ => simp [accept, World.setPool, takeOut]
  | fell => simp only [goDown]; split <;> simp [World.setPool, World.setSlot]
  | _ => simp [World.setPool, deliver, lose, World.setSlot, setWorker, World.store]

theorem Run.mem_givenUp {w₀ w : World ν} {h : List (Event ν)} (hr : w₀.Run h w) (h₀ : w₀.IsNew) {t : Nat} :
    t ∈ w.givenUp ↔ ∃ s next b, .did s (.discard t next) (.flag b) ∈ h := by
  induction hr with
  | refl => simp [h₀.givenUp]
  | tail hr he ih =>
    simp only [he.givenUp, ih, List.mem_append, List.mem_singleton, exists_or, eq_comm]

/-- A task keeps its job. -/
theorem Happens.job? {w v : World ν} {e : Event ν} (he : w.Happens e v) {t : Nat} {f : Program ν}
    (hf : w.job? t = some f) : v.job? t = some f := by
  obtain ⟨task, ht, rfl⟩ := Option.map_eq_some_iff.1 hf
  obtain ⟨s, hs⟩ := he.task ht
  rw [World.job?, hs]
  rfl

end World

/-! ### Diaries -/

/-- The events of one thread. -/
def own (s : Thread) (h : List (Event ν)) : List (Event ν) := h.filter fun e => e.thread = s

theorem own_concat_self {s : Thread} {h : List (Event ν)} {e : Event ν} (he : e.thread = s) :
    own s (h ++ [e]) = own s h ++ [e] := by
  simp [own, he]

theorem own_concat_of_ne {s : Thread} {h : List (Event ν)} {e : Event ν} (he : e.thread ≠ s) :
    own s (h ++ [e]) = own s h := by
  simp [own, he]

/-- Only a worker that takes a task tells that it was taken. -/
theorem passed_taken_eq_nil {p : Nat} {e : Event ν} (he : ∀ i t, e ≠ .took p i t) :
    passed .taken p [e] = [] := by
  rcases passed_singleton_cases .taken p e with hnone | ⟨t, hleg, -⟩
  · exact hnone
  · unfold Event.leg? at hleg
    split at hleg
    case h_2 =>
      split at hleg
      · next hj => subst hj; exact absurd rfl (he _ _)
      · cases hleg
    all_goals first | cases hleg | (split at hleg <;> cases hleg)

/-- **A thread carries a program out**: these are its events on the way to what is left of it. -/
inductive Executes (s : Thread) (f : Program ν) : List (Event ν) → Program ν → Prop where
  | refl : Executes s f [] f
  | tail {d g k a} (h : Executes s f d g) (hn : g.after? a = some k) :
      Executes s f (d ++ [.did s g a]) k

/-- **Jobs performed one after the other** by a worker: each is taken, carried out to its end, delivered
and counted, before the next one is taken. -/
inductive Serial (job : Nat → Option (Program ν)) (p i : Nat) : List Nat → List (Event ν) → Prop where
  | nil : Serial job p i [] []
  | snoc {ts k t f d e o} (h : Serial job p i ts k) (ht : job t = some f)
      (hd : Executes (.worker p i) f d (.finish e)) (ho : e.outcome? = some o) :
      Serial job p i (ts ++ [t]) (k ++ (.took p i t :: d) ++ [.delivered p i t o] ++ [.counted p i t])

/-- **The diary of a worker**: the tasks that it has taken, what it is at, and what it has done. All jobs
but the last one have been performed. -/
inductive Diary (job : Nat → Option (Program ν)) (p i : Nat) :
    List Nat → Worker ν → List (Event ν) → Prop where
  | idle {ts k} (h : Serial job p i ts k) : Diary job p i ts .idle k
  | busy {ts k t f d g} (h : Serial job p i ts k) (ht : job t = some f)
      (hd : Executes (.worker p i) f d g) :
      Diary job p i (ts ++ [t]) (.busy t g) (k ++ (.took p i t :: d))
  | counting {ts k t f d e o} (h : Serial job p i ts k) (ht : job t = some f)
      (hd : Executes (.worker p i) f d (.finish e)) (ho : e.outcome? = some o) :
      Diary job p i (ts ++ [t]) (.counting t) (k ++ (.took p i t :: d) ++ [.delivered p i t o])
  | left {ts k} (h : Serial job p i ts k) : Diary job p i ts .gone (k ++ [.left p i])
  /-- It goes down with what its last job has ended with. What it does then is not about jobs that it has
  taken. -/
  | down {ts k t f d e x r} (h : Serial job p i ts k) (ht : job t = some f)
      (hd : Executes (.worker p i) f d (.finish e)) (he : ¬ e.IsDisposable) (hx : x.isLost = true)
      (hr : passed .taken p r = []) :
      Diary job p i (ts ++ [t]) x (k ++ (.took p i t :: d) ++ (.fell p i t :: r))

section

variable {job job' : Nat → Option (Program ν)} {p i : Nat} {ts : List Nat} {x y : Worker ν}
  {k : List (Event ν)} {e : Event ν}

theorem Serial.mono (hs : Serial job p i ts k) (hj : ∀ t f, job t = some f → job' t = some f) :
    Serial job' p i ts k := by
  induction hs with
  | nil => exact .nil
  | snoc _ ht hd ho ih => exact .snoc ih (hj _ _ ht) hd ho

theorem Diary.mono (hd : Diary job p i ts x k) (hj : ∀ t f, job t = some f → job' t = some f) :
    Diary job' p i ts x k := by
  cases hd with
  | idle h => exact .idle (h.mono hj)
  | busy h ht hd => exact .busy (h.mono hj) (hj _ _ ht) hd
  | counting h ht hd ho => exact .counting (h.mono hj) (hj _ _ ht) hd ho
  | left h => exact .left (h.mono hj)
  | down h ht hd he hx hr => exact .down (h.mono hj) (hj _ _ ht) hd he hx hr

/-- **Every move of a worker continues its diary.** -/
theorem Diary.goes (hd : Diary job p i ts x k) (hg : Goes job p i e x y) :
    ∃ ts', Diary job p i ts' y (k ++ [e]) := by
  have fallen : ∀ {t : Nat} {f : Program ν} {others : List Nat} {y : Worker ν},
      x = .falling t f others → y.isLost = true → passed .taken p [e] = [] →
      ∃ ts', Diary job p i ts' y (k ++ [e]) := by
    rintro t f others y rfl hy he
    cases hd with
    | @down ts k t f d e' _ r h ht hd hdown hx hr =>
      refine ⟨ts ++ [t], ?_⟩
      rw [List.append_assoc, List.cons_append]
      exact .down h ht hd hdown hy (by rw [passed_append, hr, he]; rfl)
  cases hg with
  | took ht =>
    cases hd with
    | idle h => exact ⟨_, .busy h ht .refl⟩
    | down _ _ _ _ hx => cases hx
  | @went t f a g hn =>
    cases hd with
    | @busy ts _ _ _ _ _ h ht hd =>
      refine ⟨ts ++ [t], ?_⟩
      rw [List.append_assoc, List.cons_append]
      exact .busy h ht (hd.tail hn)
    | down _ _ _ _ hx => cases hx
  | delivered ho =>
    cases hd with
    | busy h ht hd => exact ⟨_, .counting h ht hd ho⟩
    | down _ _ _ _ hx => cases hx
  | counted =>
    cases hd with
    | counting h ht hd ho => exact ⟨_, .idle (h.snoc ht hd ho)⟩
    | down _ _ _ _ hx => cases hx
  | left =>
    cases hd with
    | idle h => exact ⟨_, .left h⟩
    | down _ _ _ _ hx => cases hx
  | fell he hy =>
    cases hd with
    | busy h ht hd => exact ⟨_, .down h ht hd he hy rfl⟩
    | down _ _ _ _ hx => cases hx
  | disposed hn => exact fallen rfl rfl (passed_taken_eq_nil (by simp))
  | lost hy => exact fallen rfl hy (passed_taken_eq_nil (by simp))

/-- Who carries a program out takes no task. -/
theorem Executes.passed_taken {s : Thread} {f g : Program ν} {d : List (Event ν)} (hd : Executes s f d g)
    (p : Nat) : passed .taken p d = [] := by
  induction hd with
  | refl => rfl
  | tail _ _ ih => rw [passed_append, ih, passed_taken_eq_nil (by simp)]; rfl

/-- A job that is carried out was taken once. -/
theorem Executes.taken {s : Thread} {f g : Program ν} {d : List (Event ν)} (hd : Executes s f d g)
    (p i t : Nat) : Handoff.Pool.passed .taken p (.took p i t :: d) = [t] := by
  have htook : (Event.took p i t : Event ν).leg? p = some (.taken, t) := if_pos rfl
  rw [← List.singleton_append, passed_append, hd.passed_taken, passed_singleton htook, if_pos rfl]
  rfl

theorem Serial.taken (hs : Serial job p i ts k) : passed .taken p k = ts := by
  induction hs with
  | nil => rfl
  | snoc _ _ hd _ ih =>
    rw [passed_append, passed_append, passed_append, ih, hd.taken,
      passed_taken_eq_nil (by simp), passed_taken_eq_nil (by simp),
      List.append_nil, List.append_nil]

/-- A diary tells of the tasks that its worker has taken. -/
theorem Diary.taken (hd : Diary job p i ts x k) : passed .taken p k = ts := by
  cases hd with
  | idle h => exact h.taken
  | busy h _ hd => rw [passed_append, h.taken, hd.taken]
  | counting h _ hd _ =>
    rw [passed_append, passed_append, h.taken, hd.taken,
      passed_taken_eq_nil (by simp), List.append_nil]
  | left h => rw [passed_append, h.taken, passed_taken_eq_nil (by simp), List.append_nil]
  | @down _ _ t _ _ _ _ r h _ hd _ _ hr =>
    have hfell : passed .taken p (.fell p i t :: r) = [] := by
      rw [← List.singleton_append, passed_append, hr, passed_taken_eq_nil (by simp)]
      rfl
    rw [passed_append, passed_append, h.taken, hd.taken, hfell, List.append_nil]

end

namespace World

section

variable {w₀ w : World ν} {h : List (Event ν)}

/-- **The own events of every worker are a diary.** -/
theorem Run.diary (hr : w₀.Run h w) (h₀ : w₀.IsNew) {p i : Nat} {x : Worker ν}
    (hx : w.worker? p i = some x) : ∃ ts, Diary w.job? p i ts x (own (.worker p i) h) := by
  induction hr generalizing x with
  | refl =>
    obtain rfl := h₀.worker? hx
    exact ⟨[], .idle .nil⟩
  | @tail k v u e hr he ih =>
    by_cases hs : e.thread = .worker p i
    · obtain ⟨y, y', hy, hy', hg⟩ := he.goes hs
      obtain rfl := Option.some.inj (hx.symm.trans hy')
      obtain ⟨ts, hd⟩ := ih hy
      obtain ⟨ts', hd'⟩ := hd.goes hg
      rw [own_concat_self hs]
      exact ⟨ts', hd'.mono fun t f => he.job?⟩
    · obtain ⟨ts, hd⟩ := ih (he.worker?_of_ne hs ▸ hx)
      rw [own_concat_of_ne hs]
      exact ⟨ts, hd.mono fun t f => he.job?⟩

end

/-! ### The order of the jobs -/

/-- **The order and the numbers of the jobs of pool `p`**, which has `n` workers, is `q` in `w`, and was new
at the start of the history `h`. -/
structure InOrder (p n : Nat) (h : List (Event ν)) (w : World ν) (q : WorkerPool ν) : Prop where
  /-- Each of its tasks is that of a job that it has accepted, once. -/
  accepted : (passed .accepted p h).Nodup ∧
    ∀ t, t ∈ passed .accepted p h ↔ ∃ task, w.tasks[t]? = some task ∧ task.pool = p
  /-- Jobs are taken in the order in which they were accepted. -/
  taken : passed .taken p h <+: passed .accepted p h
  /-- What is left is queued in this order, as long as there is a worker that takes jobs. -/
  queued : q.isLost = false → passed .accepted p h = passed .taken p h ++ q.queue
  /-- No more than `n` jobs are taken and not counted, and only what has ended is counted. -/
  numbers : (passed .taken p h).length ≤ q.completed + n ∧
    q.completed ≤ (passed .delivered p h).length + (passed .fallen p h).length ∧
    (passed .delivered p h).length + (passed .fallen p h).length ≤ (passed .taken p h).length ∧
    (passed .taken p h).length ≤ (passed .accepted p h).length
  /-- The count never goes back. -/
  grows : ∀ k v, w.Run k v → ∃ q', v.pools[p]? = some q' ∧ q.completed ≤ q'.completed
  /-- It tells how many jobs were counted, each once. -/
  completed : q.completed = (passed .counted p h).length ∧ (passed .counted p h).Nodup
  /-- A job that has ended with a value or has panicked is delivered by the next move of its worker; only
  what cannot be disposed of takes the worker down, and a value only if the handle has been given up. -/
  ended : ∀ i t x, w.worker? p i = some (.busy t (.finish x)) → ∀ e v, w.Happens e v →
    e.thread = .worker p i →
      (∃ o, x.outcome? = some o ∧ e = .delivered p i t o) ∨
      e = .fell p i t ∧ (x = .panic .bomb ∨
        (∃ v, x = .fragile v) ∧ ∃ s next b, .did s (.discard t next) (.flag b) ∈ h)
  /-- What has been delivered is counted, or it is by the next move of its worker. -/
  delivered : ∀ t ∈ passed .delivered p h, t ∈ passed .counted p h ∨
    ∃ i, w.worker? p i = some (.counting t) ∧
      ∀ e v, w.Happens e v → e.thread = .worker p i → e = .counted p i t
  /-- What has taken its worker down is not counted. -/
  fallen : ∀ t ∈ passed .fallen p h, t ∉ passed .counted p h
  /-- Every worker performs its jobs one after the other. -/
  diary : ∀ i x, w.worker? p i = some x → ∃ ts, Diary w.job? p i ts x (own (.worker p i) h)
  /-- A single worker does all that workers of the pool do, and it performs the accepted jobs one after the
  other, in the order in which they were accepted. -/
  alone : n = 1 → (∀ e ∈ h, ∀ i, e.thread = .worker p i → i = 0) ∧
    ∃ x, w.worker? p 0 = some x ∧ Diary w.job? p 0 (passed .taken p h) x (own (.worker p 0) h)

end World

end Handoff.Pool
