import Handoff.Proofs.Pool.Slots

/-! # Joined jobs and counted jobs

A worker first delivers what a job has ended with and then counts the job, in two moves. So who joins a job
can be faster than the count: of the joined jobs, at most one for each worker has not been counted, and its
worker counts it with its next move, for which it waits for nobody. Only who is told that a job was dropped
has joined one that never counts.

* `toldOf`, `isOutcome`, `isDropped`: the tasks of which a thread has been told an outcome, or that they
  were dropped.
* `JoinsCounted`, `joins_counted`: how joined jobs and the count of a pool hang together, after every run.
* `joined_before_counted`: a job can be joined before it is counted, and a dropped one is never counted.
-/

namespace Handoff.Pool

variable {ν : Type}

/-- Whether who waits for a task is told what its job has ended with. -/
def isOutcome : Except Failure ν → Bool
  | .ok _ => true
  | .error (.taskFailed _) => true
  | .error _ => false

/-- Whether who waits for a task is told that it was dropped. -/
def isDropped : Except Failure ν → Bool
  | .error .taskDropped => true
  | _ => false

/-- Whether a thread has been told something of task `t`. -/
def Event.tells (of : Except Failure ν → Bool) (t : Nat) : Event ν → Bool
  | did _ (.receive u _ _) (.result r) => u == t && of r
  | _ => false

/-- **The tasks of pool `p` of which a thread has been told** something of a kind. -/
def toldOf (of : Except Failure ν → Bool) (p : Nat) (h : List (Event ν)) : List Nat :=
  (passed .accepted p h).filter fun t => h.any (Event.tells of t)

theorem mem_toldOf {of : Except Failure ν → Bool} {p t : Nat} {h : List (Event ν)}
    (ht : t ∈ toldOf of p h) : t ∈ passed .accepted p h ∧ ∃ s limit next r,
      .did s (.receive t limit next) (.result r) ∈ h ∧ of r = true := by
  obtain ⟨hacc, hany⟩ := List.mem_filter.1 ht
  obtain ⟨e, hm, he⟩ := List.any_eq_true.1 hany
  refine ⟨hacc, ?_⟩
  unfold Event.tells at he
  split at he
  · next s u limit next r =>
    obtain ⟨hu, hr⟩ := Bool.and_eq_true_iff.1 he
    obtain rfl := beq_iff_eq.1 hu
    exact ⟨s, limit, next, r, hm, hr⟩
  · cases he

/-- A slot with what a job has ended with. -/
theorem Slot.of_isOutcome {s : Slot ν} {r : Except Failure ν} (hr : s.result? = some r)
    (ho : isOutcome r = true) : ∃ o, s = .delivered o := by
  cases s with
  | waiting => cases hr
  | delivered o => exact ⟨o, rfl⟩
  | lost => cases hr; cases ho

/-- A slot of a task that was dropped. -/
theorem Slot.of_isDropped {s : Slot ν} {r : Except Failure ν} (hr : s.result? = some r)
    (hd : isDropped r = true) : s = .lost := by
  cases s with
  | waiting => cases hr
  | delivered o => cases hr; cases o <;> cases hd
  | lost => rfl

namespace World

section

variable {w₀ w : World ν} {h : List (Event ν)} {p t : Nat}

/-- What a thread was told of a task, the task still has. -/
theorem Run.slot_of_toldOf (hr : w₀.Run h w) (h₀ : w₀.IsNew) {of : Except Failure ν → Bool}
    (hof : ∀ d, of (.error (.timeout d)) = false) (ht : t ∈ toldOf of p h) :
    ∃ s r, Slot.Told h p t s ∧ s.result? = some r ∧ of r = true := by
  obtain ⟨hacc, s, limit, next, r, hm, ho⟩ := mem_toldOf ht
  obtain ⟨h₁, h₂, u, -, hu, hk, hres | ⟨d, -, rfl, -⟩⟩ := hr.answered hm
  · obtain ⟨task, htask, hslot⟩ := Option.bind_eq_some_iff.1 (hu.result?_stays h₀ hk hres)
    obtain ⟨task', htask', rfl⟩ := (hr.mem_accepted h₀).1 hacc
    obtain rfl := Option.some.inj (htask.symm.trans htask')
    exact ⟨task.slot, r, hr.told h₀ htask, hslot, ho⟩
  · rw [hof] at ho; cases ho

/-- **A joined job has been delivered.** -/
theorem Run.delivered_of_joined (hr : w₀.Run h w) (h₀ : w₀.IsNew) (ht : t ∈ toldOf isOutcome p h) :
    t ∈ passed .delivered p h := by
  obtain ⟨s, r, hs, hslot, ho⟩ := hr.slot_of_toldOf h₀ (fun _ => rfl) ht
  obtain ⟨o, rfl⟩ := Slot.of_isOutcome hslot ho
  obtain ⟨i, hm⟩ := hs
  exact mem_passed.2 ⟨_, hm, if_pos rfl⟩

/-- **A dropped job has been lost with a worker.** -/
theorem Run.lost_of_dropped (hr : w₀.Run h w) (h₀ : w₀.IsNew) (ht : t ∈ toldOf isDropped p h) :
    t ∈ passed .fallen p h ∨ t ∈ passed .disposed p h := by
  obtain ⟨s, r, hs, hslot, hd⟩ := hr.slot_of_toldOf h₀ (fun _ => rfl) ht
  obtain rfl := Slot.of_isDropped hslot hd
  obtain ⟨i, hm | hm⟩ := hs
  · exact .inl (mem_passed.2 ⟨_, hm, if_pos rfl⟩)
  · exact .inr (mem_passed.2 ⟨_, hm, if_pos rfl⟩)

end

/-- **How joined jobs and counted jobs of pool `p` hang together**, which is `q` in `w`, and was new at the
start of the history `h`. -/
structure JoinsCounted (p : Nat) (h : List (Event ν)) (w : World ν) (q : WorkerPool ν) : Prop where
  /-- A job of which a thread has been told what it has ended with is counted, or is by the next move of its
  worker, for which the worker waits for nobody. -/
  joined : ∀ t ∈ toldOf isOutcome p h, t ∈ passed .counted p h ∨
    ∃ i, w.worker? p i = some (.counting t) ∧ (∃ v, w.Happens (.counted p i t) v) ∧
      ∀ e v, w.Happens e v → e.thread = .worker p i → e = .counted p i t
  /-- So there are no more of these than are counted, but for one for each worker that is about to
  count. -/
  number : (toldOf isOutcome p h).length ≤ q.completed + (q.view.places.flatMap Place.counted).length
  /-- The count falls behind by no more than the number of workers. -/
  behind : (q.view.places.flatMap Place.counted).length ≤ q.workers.length
  /-- Where nothing can happen, all of these are counted. -/
  settled : w.IsStuck → (toldOf isOutcome p h).length ≤ q.completed ∧
    ∀ t ∈ toldOf isOutcome p h, t ∈ passed .counted p h
  /-- A job of which a thread has been told that it was dropped never counts. -/
  dropped : ∀ t ∈ toldOf isDropped p h, ∀ k v, w.Run k v → t ∉ passed .counted p (h ++ k)

/-- **Joined jobs are counted, but for one for each worker that is about to count**, whatever the clients and
their jobs and the interleaving. -/
theorem joins_counted {w₀ w : World ν} {h : List (Event ν)} (h₀ : w₀.IsNew) (hr : w₀.Run h w) {p : Nat}
    {q : WorkerPool ν} (hq : w.pools[p]? = some q) : JoinsCounted p h w q := by
  have hs := hr.exists_traffic h₀ hq
  have hlength : (toldOf isOutcome p h).length ≤ (passed .delivered p h).length :=
    (List.subperm_of_subset ((hr.nodup_accepted h₀).filter _)
      fun t ht => hr.delivered_of_joined h₀ ht).length_le
  have hdelivered := hs.delivered.length_eq
  rw [List.length_append, ← hs.completed] at hdelivered
  have hjoined : ∀ t ∈ toldOf isOutcome p h, t ∈ passed .counted p h ∨
      ∃ i : Nat, q.workers[i]? = some (.counting t) := fun t ht =>
    (List.mem_append.1 (hs.delivered.subset (hr.delivered_of_joined h₀ ht))).imp_right mem_counted.1
  refine ⟨fun t ht => (hjoined t ht).imp_right ?_, ?_, ?_, fun hstuck => ?_, fun t ht k v hk => ?_⟩
  · rintro ⟨i, hi⟩
    have hx := worker?_eq_some.2 ⟨q, hq, hi⟩
    refine ⟨i, hx, ⟨_, .counted hq hi⟩, fun e v he hs => ?_⟩
    obtain ⟨y, y', hy, -, hg⟩ := he.goes hs
    obtain rfl := Option.some.inj (hx.symm.trans hy)
    cases hg
    rfl
  · exact Nat.le_trans hlength (Nat.le_of_eq hdelivered)
  · have := length_hands q.view.places
    have := hs.size
    omega
  · have hall := hr.delivered_perm_counted h₀ hstuck hq
    exact ⟨Nat.le_trans hlength (Nat.le_of_eq (hall.length_eq.trans hs.completed.symm)),
      fun t ht => hall.subset (hr.delivered_of_joined h₀ ht)⟩
  · obtain ⟨q', hq'⟩ : ∃ q', v.pools[p]? = some q' := ⟨_, (hk.completed_le hq).choose_spec.1⟩
    have hrk := hr.append hk
    refine (hrk.exists_traffic h₀ hq').not_counted (hrk.nodup_accepted h₀) ?_
    rw [passed_append, passed_append, List.mem_append, List.mem_append]
    exact (hr.lost_of_dropped h₀ ht).imp .inl .inl

/-- A pool with two workers, and a client that joins a job. -/
def oneJoin (e : Ending String) : World String where
  pools := [.start String "pool" 2]
  clients := [.submit 0 [] (.finish e) fun
    | .ok t => .receive t none fun _ => .yield ""
    | .error _ => .yield ""]

theorem isNew_oneJoin (e : Ending String) : (oneJoin e).IsNew := by
  refine ⟨rfl, rfl, rfl, fun p q hq => ?_⟩
  obtain rfl := List.mem_singleton.1 (List.mem_of_getElem? hq)
  exact ⟨2, by decide, "pool", 1, rfl⟩

/-- The job is joined and counted. -/
theorem joins_counted_oneJoin :
    ∃ h w q, (oneJoin (.value "done")).Run h w ∧ w.pools[0]? = some q ∧ JoinsCounted 0 h w q := by
  obtain ⟨w, hw, q, hq⟩ : ∃ w, (oneJoin (.value "done")).follow?
      ([.act (.client 0)] ++ List.replicate 3 (.act (.worker 0 0)) ++ [.act (.client 0)]) = some w ∧
      ∃ q, w.pools[0]? = some q := ⟨_, rfl, _, rfl⟩
  obtain ⟨h, hr⟩ := run_of_follow? hw
  exact ⟨h, w, q, hr, hq, joins_counted (isNew_oneJoin _) hr hq⟩

/-- **A job can be joined before it is counted**: its worker is about to count it. And a job that takes its
worker down is dropped: nothing is left to do, and the count is zero. -/
theorem joined_before_counted :
    (∃ h w q, (oneJoin (.value "done")).Run h w ∧ w.pools[0]? = some q ∧ toldOf isOutcome 0 h = [0] ∧
      q.workers.map Worker.place = [.counting 0, .idle] ∧ q.completed = 0) ∧
    ∃ h w q, (oneJoin (.panic .bomb)).Run h w ∧ w.pools[0]? = some q ∧ toldOf isDropped 0 h = [0] ∧
      q.workers.map Worker.place = [.gone, .idle] ∧ q.completed = 0 := by
  have hoffered : ∀ e, _ := fun e =>
    (Run.refl (w := oneJoin e)).does (.client 0) rfl (.accepted rfl rfl) rfl
  have htook : ∀ e, _ := fun e => (hoffered e).tail (.took (p := 0) (i := 0) rfl rfl rfl rfl)
  constructor
  · have hdelivered := (htook (.value "done")).tail (.delivered (p := 0) (i := 0) rfl rfl rfl rfl rfl)
    exact ⟨_, _, _, hdelivered.does (.client 0) rfl (.received rfl) rfl, rfl, rfl, rfl, rfl⟩
  · have hfell := (htook (.panic .bomb)).tail (.fell (p := 0) (i := 0) rfl rfl rfl)
    exact ⟨_, _, _, hfell.does (.client 0) rfl (.received rfl) rfl, rfl, rfl, rfl, rfl⟩

end World

end Handoff.Pool
