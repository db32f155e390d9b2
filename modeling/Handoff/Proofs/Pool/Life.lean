import Handoff.Proofs.Pool.Turn

/-! # The life of a task

A history tells of each task in stages: its job has been accepted, a worker has taken it, and the
worker has delivered what the job has ended with. The stages that a task has been through tell where
it is now: in the queue of its pool, in the hands of a worker, or done. `Story` is this invariant.
It ties the queues, the workers and the slots of a world to the history that has led to it.

* `Stage`, `life`: the stages of a task in a history.
* `Life`, `PoolStory`, `Story`: what the life of a task says about its slot, the pools and the world.
* `Happens.due`: what has to come first has come first.
* `Run.story`: the invariant holds after every run from a new world.
-/

namespace Handoff.Pool

variable {ν : Type}

/-- A stage in the life of a task. -/
inductive Stage (ν : Type) where
  | accepted (pool : Nat) (job : Program ν)
  | taken (pool worker : Nat)
  | delivered (pool worker : Nat) (outcome : Except String ν)

/-- The stage of task `t` that an event tells of. -/
def Event.stage? (t : Nat) : Event ν → Option (Stage ν)
  | did _ (.submit p _ job _) (.task (.ok i)) => if i = t then some (.accepted p job) else none
  | took p i u => if u = t then some (.taken p i) else none
  | delivered p i u o => if u = t then some (.delivered p i o) else none
  | _ => none

/-- **The life of a task**: its stages in a history. -/
def life (h : List (Event ν)) (t : Nat) : List (Stage ν) := h.filterMap (Event.stage? t)

@[simp] theorem life_nil (t : Nat) : life ([] : List (Event ν)) t = [] := rfl

theorem life_concat (h : List (Event ν)) (e : Event ν) (t : Nat) :
    life (h ++ [e]) t = life h t ++ (e.stage? t).toList := by
  rw [life, List.filterMap_append]
  cases he : e.stage? t <;> simp [life, he]

theorem life_concat_none {h : List (Event ν)} {e : Event ν} {t : Nat} (he : e.stage? t = none) :
    life (h ++ [e]) t = life h t := by
  rw [life_concat, he, Option.toList_none, List.append_nil]

theorem life_concat_some {h : List (Event ν)} {e : Event ν} {t : Nat} {s : Stage ν}
    (he : e.stage? t = some s) : life (h ++ [e]) t = life h t ++ [s] := by
  rw [life_concat, he, Option.toList_some]

theorem life_accepted (h : List (Event ν)) (self : Thread) (p : Nat) (holds : List Nat)
    (job : Program ν) (next : Except Failure Nat → Program ν) (t u : Nat) :
    life (h ++ [.did self (.submit p holds job next) (.task (.ok t))]) u =
      if t = u then life h u ++ [.accepted p job] else life h u := by
  by_cases hu : t = u <;> simp [life_concat, Event.stage?, hu]

theorem life_took (h : List (Event ν)) (p i t u : Nat) :
    life (h ++ [.took p i t]) u = if t = u then life h u ++ [.taken p i] else life h u := by
  by_cases hu : t = u <;> simp [life_concat, Event.stage?, hu]

theorem life_delivered (h : List (Event ν)) (p i t : Nat) (o : Except String ν) (u : Nat) :
    life (h ++ [.delivered p i t o]) u =
      if t = u then life h u ++ [.delivered p i o] else life h u := by
  by_cases hu : t = u <;> simp [life_concat, Event.stage?, hu]

/-- What the life of a task says about its slot. -/
inductive Life (task : Entry ν) : List (Stage ν) → Prop where
  /-- It was done before the history began. -/
  | old {o : Except String ν} (hs : task.slot = .delivered o) : Life task []
  | queued (hs : task.slot = .waiting) : Life task [.accepted task.pool task.job]
  | held {i : Nat} (hs : task.slot = .waiting) :
      Life task [.accepted task.pool task.job, .taken task.pool i]
  | done {i : Nat} {o : Except String ν} (hs : task.slot = .delivered o) :
      Life task [.accepted task.pool task.job, .taken task.pool i, .delivered task.pool i o]

theorem Life.of_accepted {task : Entry ν} {p : Nat} {job : Program ν}
    (h : Life task [.accepted p job]) : task.pool = p ∧ task.job = job ∧ task.slot = .waiting := by
  generalize hk : [Stage.accepted p job] = k at h
  cases h with
  | queued hs => cases hk; exact ⟨rfl, rfl, hs⟩
  | old | held | done => cases hk

theorem Life.of_taken {task : Entry ν} {p q i : Nat} {job : Program ν}
    (h : Life task [.accepted p job, .taken q i]) :
    task.pool = p ∧ q = p ∧ task.job = job ∧ task.slot = .waiting := by
  generalize hk : [Stage.accepted p job, .taken q i] = k at h
  cases h with
  | held hs => cases hk; exact ⟨rfl, rfl, rfl, hs⟩
  | old | queued | done => cases hk

/-- What the life of tasks says about pool `p`: its queue holds, in ascending order, the tasks that it
has accepted and nobody has taken; a worker is busy with a task that it has taken and not
delivered. -/
structure PoolStory (h : List (Event ν)) (p : Nat) (v : View) : Prop where
  queued : ∀ t, t ∈ v.queue ↔ ∃ job, life h t = [.accepted p job]
  held : ∀ i t, v.places[i]? = some (.busy t) ↔ ∃ job, life h t = [.accepted p job, .taken p i]
  sorted : v.queue.Pairwise (· < ·)

/-- **The world is as its history tells.** -/
structure World.Story (h : List (Event ν)) (w : World ν) : Prop where
  unborn : ∀ t, w.tasks.length ≤ t → life h t = []
  born : ∀ (t : Nat) (task : Entry ν), w.tasks[t]? = some task →
    Life task (life h t) ∧ ∃ q, w.pools[task.pool]? = some q
  pool : ∀ (p : Nat) (q : WorkerPool ν), w.pools[p]? = some q → PoolStory h p q.view

/-- A task that has a life is there. -/
theorem World.Story.lt_of_life {h : List (Event ν)} {w : World ν} (hs : World.Story h w) {t : Nat}
    (hl : life h t ≠ []) : t < w.tasks.length := by
  by_contra hlt
  exact hl (hs.unborn t (by omega))

/-- What has to have come before an event: only a new task is accepted, only a queued task is taken, and
only the worker that has taken a task delivers it. -/
def Event.Due (h : List (Event ν)) : Event ν → Prop
  | did _ (.submit _ _ _ _) (.task (.ok t)) => life h t = [] ∧ ∀ u, life h u ≠ [] → u < t
  | took p _ t => ∃ job, life h t = [.accepted p job]
  | delivered p i t _ => ∃ job, life h t = [.accepted p job, .taken p i]
  | _ => True

/-! ### Pools -/

theorem stage?_did {self : Thread} {f : Program ν} {a : Answer ν} (ha : ∀ t, a ≠ .task (.ok t))
    (t : Nat) : (Event.did self f a).stage? t = none := by
  unfold Event.stage?
  split
  · next heq => cases heq; exact absurd rfl (ha _)
  all_goals first | rfl | (next heq => cases heq)

@[simp] theorem View.queue_tuned (p : Nat) (f : Program ν) (v : View) :
    (v.tuned p f).queue = v.queue := by
  unfold View.tuned; split <;> first | rfl | (split <;> rfl)

@[simp] theorem View.places_tuned (p : Nat) (f : Program ν) (v : View) :
    (v.tuned p f).places = v.places := by
  unfold View.tuned; split <;> first | rfl | (split <;> rfl)

/-- An event about one pool does not touch the lives of the tasks of another. -/
theorem life_elsewhere {h : List (Event ν)} {e : Event ν} {i p : Nat} (hd : e.Due h)
    (he : e.pool? = some i) (hi : i ≠ p) (t : Nat) (job : Program ν) (l : List (Stage ν)) :
    life (h ++ [e]) t = .accepted p job :: l ↔ life h t = .accepted p job :: l := by
  rcases hs : e.stage? t with _ | s
  · rw [life_concat_none hs]
  rw [life_concat_some hs]
  unfold Event.stage? at hs
  split at hs
  · next self q holds job' next u =>
    split at hs <;> cases hs
    next hu =>
    subst hu
    cases he
    rw [hd.1]
    simp [hi]
  · next q k u =>
    split at hs <;> cases hs
    next hu =>
    subst hu
    cases he
    obtain ⟨job', hl⟩ := hd
    rw [hl]
    simp [hi]
  · next q k u o =>
    split at hs <;> cases hs
    next hu =>
    subst hu
    cases he
    obtain ⟨job', hl⟩ := hd
    rw [hl]
    simp [hi]
  · cases hs

/-- An event that is no stage of a task keeps the story of a pool whose queue and busy workers stay. -/
theorem PoolStory.keep {h : List (Event ν)} {e : Event ν} {p : Nat} {v v' : View}
    (hs : PoolStory h p v) (he : ∀ t, e.stage? t = none) (hq : v'.queue = v.queue)
    (hp : ∀ (i t : Nat), v'.places[i]? = some (.busy t) ↔ v.places[i]? = some (.busy t)) :
    PoolStory (h ++ [e]) p v' where
  queued t := by rw [hq, life_concat_none (he t)]; exact hs.queued t
  held i t := by rw [hp, life_concat_none (he t)]; exact hs.held i t
  sorted := hq ▸ hs.sorted

/-- A worker that is busy neither before nor after keeps the busy workers. -/
theorem busy_set {l : List Place} {i : Nat} {x y : Place} (hi : l[i]? = some x)
    (hx : ∀ t, x ≠ .busy t) (hy : ∀ t, y ≠ .busy t) (k t : Nat) :
    (l.set i y)[k]? = some (.busy t) ↔ l[k]? = some (.busy t) := by
  rw [List.getElem?_set]
  split
  · next hk =>
    subst hk
    rw [if_pos (List.getElem?_eq_some_iff.1 hi).1, hi]
    simp [hx t, hy t]
  · rfl

theorem PoolStory.accepted {h : List (Event ν)} {self : Thread} {p t : Nat} {holds : List Nat}
    {job : Program ν} {next : Except Failure Nat → Program ν} {v : View} (hs : PoolStory h p v)
    (hl : life h t = []) (hlt : ∀ u, life h u ≠ [] → u < t) :
    PoolStory (h ++ [.did self (.submit p holds job next) (.task (.ok t))]) p
      { v with queue := v.queue ++ [t] } where
  queued u := by
    by_cases hu : t = u
    · subst hu
      rw [life_accepted, if_pos rfl, hl]
      simp
    · rw [life_accepted, if_neg hu, ← hs.queued u]
      simp [Ne.symm hu]
  held i u := by
    by_cases hu : t = u
    · subst hu
      rw [life_accepted, if_pos rfl, hl, hs.held i t, hl]
      simp
    · rw [life_accepted, if_neg hu]
      exact hs.held i u
  sorted := by
    refine List.pairwise_append.2 ⟨hs.sorted, List.pairwise_singleton _ _, fun u hu x hx => ?_⟩
    obtain rfl := List.mem_singleton.1 hx
    obtain ⟨job', hj⟩ := (hs.queued u).1 hu
    exact hlt u (by rw [hj]; simp)

theorem PoolStory.took {h : List (Event ν)} {p i t : Nat} {r : List Nat} {v : View}
    (hs : PoolStory h p v) (hi : v.places[i]? = some .idle) (hr : v.queue = t :: r) :
    PoolStory (h ++ [.took p i t]) p { v with queue := r, places := v.places.set i (.busy t) } := by
  obtain ⟨job, hl⟩ := (hs.queued t).1 (by simp [hr])
  have hlen := (List.getElem?_eq_some_iff.1 hi).1
  have hsort := hs.sorted
  rw [hr, List.pairwise_cons] at hsort
  refine ⟨fun u => ?_, fun k u => ?_, hsort.2⟩
  · by_cases hu : t = u
    · subst hu
      rw [life_took, if_pos rfl, hl]
      simpa using fun ht => Nat.lt_irrefl _ (hsort.1 t ht)
    · rw [life_took, if_neg hu, ← hs.queued u, hr]
      simp [Ne.symm hu]
  · have hidle : ∀ u job, life h u ≠ [.accepted p job, .taken p i] := by
      intro u job hj
      have := (hs.held i u).2 ⟨job, hj⟩
      rw [hi] at this; cases this
    by_cases hu : t = u
    · subst hu
      rw [life_took, if_pos rfl, hl, List.getElem?_set]
      by_cases hk : i = k
      · subst hk; simp [hlen]
      · rw [if_neg hk, hs.held k t, hl]; simp [hk]
    · rw [life_took, if_neg hu, List.getElem?_set]
      by_cases hk : i = k
      · subst hk; simp [hlen, hu, hidle]
      · rw [if_neg hk]; exact hs.held k u

theorem PoolStory.delivered {h : List (Event ν)} {p i t : Nat} {o : Except String ν} {v : View}
    (hs : PoolStory h p v) (hi : v.places[i]? = some (.busy t)) :
    PoolStory (h ++ [.delivered p i t o]) p
      { v with places := v.places.set i (.counting t) } := by
  obtain ⟨job, hl⟩ := (hs.held i t).1 hi
  have hlen := (List.getElem?_eq_some_iff.1 hi).1
  refine ⟨fun u => ?_, fun k u => ?_, hs.sorted⟩
  · by_cases hu : t = u
    · subst hu
      rw [life_delivered, if_pos rfl, hs.queued t, hl]
      simp
    · rw [life_delivered, if_neg hu]; exact hs.queued u
  · by_cases hu : t = u
    · subst hu
      rw [life_delivered, if_pos rfl, hl, List.getElem?_set]
      by_cases hk : i = k
      · subst hk; simp [hlen]
      · rw [if_neg hk, hs.held k t, hl]; simp [hk]
    · rw [life_delivered, if_neg hu, ← hs.held k u, List.getElem?_set]
      by_cases hk : i = k
      · subst hk; rw [if_pos rfl, if_pos hlen, hi]; simp [hu]
      · rw [if_neg hk]

/-- **A turn that is due keeps the story of a pool.** -/
theorem PoolStory.turn {h : List (Event ν)} {e : Event ν} {p : Nat} {v v' : View}
    (hs : PoolStory h p v) (ht : Turn p e v v') (hd : e.Due h) : PoolStory (h ++ [e]) p v' := by
  cases ht with
  | tuned ha =>
    exact hs.keep (stage?_did ha) (View.queue_tuned _ _ _) fun i t => by rw [View.places_tuned]
  | elsewhere he hi =>
    exact ⟨fun t => by simp only [life_elsewhere hd he hi]; exact hs.queued t,
      fun i t => by simp only [life_elsewhere hd he hi]; exact hs.held i t, hs.sorted⟩
  | accepted ha => exact hs.accepted hd.1 hd.2
  | took hi hr => exact hs.took hi hr
  | delivered hi => exact hs.delivered hi
  | counted hi => exact hs.keep (fun _ => rfl) rfl (busy_set hi (by simp) (by simp))
  | left hi hr ha => exact hs.keep (fun _ => rfl) rfl (busy_set hi (by simp) (by simp))

/-! ### The world -/

namespace World

/-- The slots after a delivery. -/
theorem getElem?_deliver (w : World ν) (p i t : Nat) (o : Except String ν) (u : Nat) :
    (w.deliver p i t o).tasks[u]? =
      if t = u then w.tasks[u]?.map fun task => { task with slot := .delivered o }
      else w.tasks[u]? := by
  simp only [deliver, setWorker, setSlot, List.getElem?_modify]
  by_cases hu : t = u <;> simp [hu]

/-- **What has to come first has come first.** -/
theorem Happens.due {h : List (Event ν)} {w v : World ν} {e : Event ν} (he : w.Happens e v)
    (hs : Story h w) : e.Due h := by
  cases he with
  | @did self f a u g hp ha hn =>
    rcases ha.accepted_or_tuned with ⟨p, holds, job, next, q, rfl, rfl, hq, -, -⟩ | ⟨ha', -⟩
    · refine ⟨hs.unborn _ (Nat.le_refl _), fun t ht => ?_⟩
      by_contra hlt
      exact ht (hs.unborn t (by omega))
    · unfold Event.Due
      split
      · next heq => cases heq; exact absurd rfl (ha' _)
      all_goals trivial
  | took hq hi hr ht => exact ((hs.pool _ _ hq).queued _).1 (by simp [WorkerPool.view, hr])
  | delivered hq hi ho => exact ((hs.pool _ _ hq).held _ _).1 (view_places hi)
  | counted | left | fell | lost => trivial

/-- A stage of a task that is due is one of a task that exists. -/
theorem Story.stage?_eq_none {h : List (Event ν)} {w : World ν} {e : Event ν} (hs : Story h w)
    (hd : e.Due h) (hne : ∀ self f a, e ≠ .did self f a) {t : Nat} (ht : w.tasks.length ≤ t) :
    e.stage? t = none := by
  have hl := hs.unborn t ht
  cases e with
  | did self f a => exact absurd rfl (hne _ _ _)
  | took p i u =>
    obtain ⟨job, hu⟩ := hd
    exact if_neg fun hut => by rw [hut, hl] at hu; cases hu
  | delivered p i u o =>
    obtain ⟨job, hu⟩ := hd
    exact if_neg fun hut => by rw [hut, hl] at hu; cases hu
  | counted | left | fell | lost => rfl

theorem Story.pool_happens {h : List (Event ν)} {w v : World ν} {e : Event ν} (hs : Story h w)
    (he : w.Happens e v) (hw : w.Harmless) {p : Nat} {q' : WorkerPool ν}
    (hq' : v.pools[p]? = some q') : PoolStory (h ++ [e]) p q'.view := by
  obtain ⟨q, hq⟩ := he.exists_pool hq'
  obtain ⟨x, hx, hturn⟩ := he.turn hw hq
  obtain rfl := Option.some.inj (hx.symm.trans hq')
  exact (hs.pool p q hq).turn hturn (he.due hs)

theorem Happens.exists_pool_after {w v : World ν} {e : Event ν} (he : w.Happens e v)
    (hw : w.Harmless) {p : Nat} (h : ∃ q, w.pools[p]? = some q) : ∃ q, v.pools[p]? = some q := by
  obtain ⟨q, hq⟩ := h
  obtain ⟨q', hq', -⟩ := he.turn hw hq
  exact ⟨q', hq'⟩

/-- A move that leaves tasks and lives as they are keeps the story. -/
theorem Story.keep {h : List (Event ν)} {w v : World ν} {e : Event ν} (hs : Story h w)
    (he : w.Happens e v) (hw : w.Harmless) (ht : v.tasks = w.tasks)
    (hn : ∀ t, e.stage? t = none) : Story (h ++ [e]) v where
  unborn t hlt := by rw [life_concat_none (hn t)]; exact hs.unborn t (ht ▸ hlt)
  born t task htask := by
    obtain ⟨hl, hq⟩ := hs.born t task (ht ▸ htask)
    rw [life_concat_none (hn t)]
    exact ⟨hl, he.exists_pool_after hw hq⟩
  pool _ _ hq' := hs.pool_happens he hw hq'

@[simp] theorem tasks_setProgram (w : World ν) (g : Program ν) (self : Thread) :
    (w.setProgram g self).tasks = w.tasks := by cases self <;> rfl

/-- A task that comes is queued. -/
theorem Story.accepted {h : List (Event ν)} {w v : World ν} {s : Thread} {p : Nat}
    {holds : List Nat} {job : Program ν} {next : Except Failure Nat → Program ν} (hs : Story h w)
    (he : w.Happens (.did s (.submit p holds job next) (.task (.ok w.tasks.length))) v)
    (hw : w.Harmless) (hq : ∃ q, w.pools[p]? = some q) :
    Story (h ++ [.did s (.submit p holds job next) (.task (.ok w.tasks.length))]) v := by
  obtain ⟨-, hv⟩ := he.offered
  refine ⟨fun t hlt => ?_, fun t task htask => ?_, fun p' q' hq' => hs.pool_happens he hw hq'⟩
  · rw [hv, List.length_append, List.length_singleton] at hlt
    rw [life_accepted, if_neg (by omega)]
    exact hs.unborn t (by omega)
  · rw [hv, List.getElem?_append] at htask
    rw [life_accepted]
    split at htask
    · next hlt =>
      obtain ⟨hl, hq'⟩ := hs.born t task htask
      rw [if_neg (by omega)]
      exact ⟨hl, he.exists_pool_after hw hq'⟩
    · next hlt =>
      obtain ⟨h0, rfl⟩ := getElem?_singleton_eq_some htask
      obtain rfl : t = w.tasks.length := by omega
      rw [if_pos rfl, hs.unborn _ (Nat.le_refl _)]
      exact ⟨.queued rfl, he.exists_pool_after hw hq⟩

/-- A task that is taken was queued. -/
theorem Story.took {h : List (Event ν)} {w v : World ν} {p i t : Nat} (hs : Story h w)
    (he : w.Happens (.took p i t) v) (hw : w.Harmless) : Story (h ++ [.took p i t]) v := by
  have hd := he.due hs
  have hv : v.tasks = w.tasks := by cases he; rfl
  refine ⟨fun u hlt => ?_, fun u task htask => ?_, fun p' q' hq' => hs.pool_happens he hw hq'⟩
  · rw [hv] at hlt
    rw [life_concat_none (hs.stage?_eq_none hd (by simp) hlt)]
    exact hs.unborn u hlt
  · rw [hv] at htask
    obtain ⟨hl, hq'⟩ := hs.born u task htask
    refine ⟨?_, he.exists_pool_after hw hq'⟩
    rw [life_took]
    split
    · next hu =>
      subst hu
      obtain ⟨job, hj⟩ := hd
      rw [hj] at hl ⊢
      obtain ⟨rfl, rfl, hslot⟩ := hl.of_accepted
      exact .held hslot
    · exact hl

/-- A task that is delivered was in the hands of its worker. -/
theorem Story.delivered {h : List (Event ν)} {w v : World ν} {p i t : Nat} {o : Except String ν}
    (hs : Story h w) (he : w.Happens (.delivered p i t o) v) (hw : w.Harmless) :
    Story (h ++ [.delivered p i t o]) v := by
  have hd := he.due hs
  obtain ⟨e, hv⟩ : ∃ e, v = (w.store t e).deliver p i t o := by cases he; exact ⟨_, rfl⟩
  refine ⟨fun u hlt => ?_, fun u task htask => ?_, fun p' q' hq' => hs.pool_happens he hw hq'⟩
  · have hlen : v.tasks.length = w.tasks.length := by
      rw [hv]
      simp [deliver, setWorker, setSlot, store]
    rw [hlen] at hlt
    rw [life_concat_none (hs.stage?_eq_none hd (by simp) hlt)]
    exact hs.unborn u hlt
  · rw [hv, getElem?_deliver (w.store t e) p i t o] at htask
    rw [life_delivered]
    split at htask
    · next hu =>
      subst hu
      obtain ⟨x, hx, rfl⟩ := Option.map_eq_some_iff.1 htask
      obtain ⟨hl, hq'⟩ := hs.born t x hx
      refine ⟨?_, he.exists_pool_after hw hq'⟩
      obtain ⟨job, hj⟩ := hd
      rw [if_pos rfl, hj]
      rw [hj] at hl
      obtain ⟨rfl, -, rfl, -⟩ := hl.of_taken
      exact .done rfl
    · next hu =>
      obtain ⟨hl, hq'⟩ := hs.born u task htask
      rw [if_neg hu]
      exact ⟨hl, he.exists_pool_after hw hq'⟩

/-- **Every move of a harmless world keeps the story.** -/
theorem Happens.story {h : List (Event ν)} {w v : World ν} {e : Event ν} (he : w.Happens e v)
    (hs : Story h w) (hw : w.Harmless) : Story (h ++ [e]) v := by
  cases he with
  | @did self f a u g hp ha hn =>
    rcases ha.accepted_or_tuned with ⟨p, holds, job, next, q, rfl, rfl, hq, -, -⟩ | ⟨ha', hu⟩
    · exact hs.accepted (.did hp ha hn) hw ⟨q, hq⟩
    · exact hs.keep (.did hp ha hn) hw (by rw [tasks_setProgram, hu.tasks]) (stage?_did ha')
  | took hq hi hr ht => exact hs.took (.took hq hi hr ht) hw
  | delivered hq hi ho hd hr => exact hs.delivered (.delivered hq hi ho hd hr) hw
  | counted hq hi => exact hs.keep (.counted hq hi) hw rfl fun _ => rfl
  | left hq hi hr ha => exact hs.keep (.left hq hi hr ha) hw rfl fun _ => rfl
  | fell hq hi hd => exact absurd hd (hw.not_bringsDown hq hi)
  | lost hq hi => exact absurd hi (hw.not_falling hq)

theorem Run.story_append {w₀ w : World ν} {k h : List (Event ν)} (hr : w₀.Run h w)
    (hs : Story k w₀) (hw : w₀.Harmless) : Story (k ++ h) w := by
  induction hr with
  | refl => rwa [List.append_nil]
  | tail hr he ih =>
    rw [← List.append_assoc]
    exact he.story ih (hr.harmless hw)

/-- A queued task has been accepted, and nobody has taken it. -/
theorem Story.queued {h : List (Event ν)} {w : World ν} (hs : Story h w) {p t : Nat}
    {q : WorkerPool ν} (hq : w.pools[p]? = some q) (ht : t ∈ q.queue) :
    ∃ task, w.tasks[t]? = some task ∧ task.pool = p ∧ task.slot = .waiting := by
  obtain ⟨job, hl⟩ := ((hs.pool p q hq).queued t).1 ht
  have hlt : t < w.tasks.length := hs.lt_of_life (by rw [hl]; simp)
  have hlife := (hs.born t _ (List.getElem?_eq_getElem hlt)).1
  rw [hl] at hlife
  obtain ⟨hp, -, hslot⟩ := hlife.of_accepted
  exact ⟨_, List.getElem?_eq_getElem hlt, hp, hslot⟩

/-- A task that is not done is queued, or a worker is busy with it. -/
theorem Story.pending {h : List (Event ν)} {w : World ν} (hs : Story h w) {t : Nat} {task : Entry ν}
    (ht : w.tasks[t]? = some task) (hn : ∀ o, task.slot ≠ .delivered o) :
    (∃ q, w.pools[task.pool]? = some q ∧ t ∈ q.queue) ∨
      ∃ i f, w.worker? task.pool i = some (.busy t f) := by
  obtain ⟨hlife, q, hq⟩ := hs.born t task ht
  have hpool := hs.pool task.pool q hq
  generalize hk : life h t = k at hlife
  cases hlife with
  | old ho | done ho => exact absurd ho (hn _)
  | queued => exact Or.inl ⟨q, hq, (hpool.queued t).2 ⟨_, hk⟩⟩
  | @held i =>
    obtain ⟨f, hi⟩ := busy_of_view_places ((hpool.held i t).2 ⟨_, hk⟩)
    exact Or.inr ⟨i, f, worker?_eq_some.2 ⟨q, hq, hi⟩⟩

/-- A worker is busy with a task that it has taken. -/
theorem Story.busy {h : List (Event ν)} {w : World ν} (hs : Story h w) {p i t : Nat}
    {f : Program ν} (hx : w.worker? p i = some (.busy t f)) :
    ∃ task, w.tasks[t]? = some task ∧ task.pool = p ∧
      life h t = [.accepted p task.job, .taken p i] := by
  obtain ⟨q, hq, hi⟩ := worker?_eq_some.1 hx
  obtain ⟨job, hl⟩ := ((hs.pool p q hq).held i t).1 (view_places hi)
  have hlt : t < w.tasks.length := hs.lt_of_life (by rw [hl]; simp)
  have hlife := (hs.born t _ (List.getElem?_eq_getElem hlt)).1
  rw [hl] at hlife
  obtain ⟨hp, -, rfl, -⟩ := hlife.of_taken
  exact ⟨_, List.getElem?_eq_getElem hlt, hp, hl⟩

/-- A worker that has a task finds room for what its job ends with. -/
theorem Story.hasRoom {h : List (Event ν)} {w : World ν} (hs : Story h w) {p i t : Nat} {f : Program ν}
    (hx : w.worker? p i = some (.busy t f)) : w.hasRoom t = true := by
  obtain ⟨task, ht, -, hl⟩ := hs.busy hx
  obtain ⟨-, -, -, hslot⟩ := (hl ▸ (hs.born t task ht).1).of_taken
  exact hasRoom_of_result? (by simp [result?, ht, hslot, Slot.result?])

/-- No two workers have the same task. -/
theorem Story.busy_inj {h : List (Event ν)} {w : World ν} (hs : Story h w) {p q i j t : Nat}
    {f g : Program ν} (hi : w.worker? p i = some (.busy t f))
    (hj : w.worker? q j = some (.busy t g)) : p = q ∧ i = j := by
  obtain ⟨task, -, -, hl⟩ := hs.busy hi
  obtain ⟨task', -, -, hl'⟩ := hs.busy hj
  have h := hl.symm.trans hl'
  simp only [List.cons.injEq, Stage.taken.injEq, and_true] at h
  exact h.2

/-- **What a move does to the tasks**: one comes, or one is delivered. -/
theorem Happens.tasks {w v : World ν} {e : Event ν} (he : w.Happens e v) (hw : w.Harmless) :
    v.tasks = w.tasks ∨
    (∃ s p holds job next, e = .did s (.submit p holds job next) (.task (.ok w.tasks.length)) ∧
      w.program? s = some (.submit p holds job next) ∧
      v.tasks = w.tasks ++ [⟨p, holds, job, .waiting⟩]) ∨
    ∃ p i t x o, e = .delivered p i t o ∧ w.worker? p i = some (.busy t (.finish x)) ∧
      x.outcome? = some o ∧ v.tasks = (w.setSlot t (.delivered o)).tasks := by
  cases he with
  | @did s f a u g hp ha hn =>
    rw [tasks_setProgram]
    rcases ha.accepted_or_tuned with ⟨p, holds, job, next, q, rfl, rfl, -, -, rfl⟩ | ⟨-, hu⟩
    · exact Or.inr (Or.inl ⟨s, p, holds, job, next, rfl, hp, rfl⟩)
    · exact Or.inl hu.tasks
  | took | counted | left => exact Or.inl rfl
  | @delivered p i q t x o hq hi ho =>
    exact Or.inr (Or.inr ⟨p, i, t, x, o, rfl, worker?_eq_some.2 ⟨q, hq, hi⟩, ho, rfl⟩)
  | fell hq hi hd => exact absurd hd (hw.not_bringsDown hq hi)
  | lost hq hi => exact absurd hi (hw.not_falling hq)

theorem Happens.length_tasks_le {w v : World ν} {e : Event ν} (he : w.Happens e v)
    (hw : w.Harmless) : w.tasks.length ≤ v.tasks.length := by
  rcases he.tasks hw with h | ⟨s, p, holds, job, next, -, -, h⟩ | ⟨p, i, t, x, o, -, -, -, h⟩
  · exact Nat.le_of_eq (by rw [h])
  · rw [h, List.length_append]
    exact Nat.le_add_right _ _
  · exact Nat.le_of_eq (by rw [h, setSlot, List.length_modify])

/-- A task keeps all but its slot. -/
theorem Happens.task {w v : World ν} {e : Event ν} (he : w.Happens e v) {t : Nat} {task : Entry ν}
    (ht : w.tasks[t]? = some task) : ∃ s, v.tasks[t]? = some { task with slot := s } := by
  have hslot : ∀ u s, ∃ s', (w.setSlot u s).tasks[t]? = some { task with slot := s' } := by
    intro u s
    simp only [setSlot, List.getElem?_modify, ht]
    by_cases hu : u = t
    · exact ⟨s, by simp [hu]⟩
    · exact ⟨task.slot, by simp [hu]⟩
  cases he with
  | @did self f a u g hp ha hn =>
    rw [tasks_setProgram]
    rcases ha.accepted_or_tuned with ⟨p, holds, job, next, q, -, -, -, -, rfl⟩ | ⟨-, hu⟩
    · refine ⟨task.slot, ?_⟩
      rw [accept, List.getElem?_append_left (List.getElem?_eq_some_iff.1 ht).1]
      exact ht
    · exact ⟨task.slot, hu.tasks ▸ ht⟩
  | took | counted | left => exact ⟨task.slot, ht⟩
  | delivered | lost => exact hslot _ _
  | fell =>
    simp only [goDown]
    split <;> exact hslot _ _

/-- **How a task has come about**: it was there before, with another slot maybe, or its job has just been
accepted. -/
theorem Happens.of_task {w v : World ν} {e : Event ν} (he : w.Happens e v) {t : Nat}
    {task : Entry ν} (ht : v.tasks[t]? = some task) :
    (∃ s, w.tasks[t]? = some { task with slot := s }) ∨
    ∃ self p holds job next, e = .did self (.submit p holds job next) (.task (.ok t)) ∧
      w.program? self = some (.submit p holds job next) ∧ task = ⟨p, holds, job, .waiting⟩ := by
  rcases hw : w.tasks[t]? with _ | task'
  · right
    have hslot : ∀ u s, (w.setSlot u s).tasks[t]? = none := by
      intro u s
      rw [setSlot, List.getElem?_modify, hw]; rfl
    cases he with
    | @did self f a u g hp ha hn =>
      rw [tasks_setProgram] at ht
      rcases ha.accepted_or_tuned with ⟨p, holds, job, next, q, rfl, rfl, hq, -, rfl⟩ | ⟨-, hu⟩
      · have hlen := List.getElem?_eq_none_iff.1 hw
        rw [accept, List.getElem?_append_right hlen] at ht
        obtain ⟨h0, ht0⟩ := List.getElem?_eq_some_iff.1 ht
        obtain rfl : t = w.tasks.length := by
          rw [List.length_singleton] at h0; omega
        rw [List.getElem_singleton] at ht0
        exact ⟨self, p, holds, job, next, rfl, hp, ht0.symm⟩
      · rw [hu.tasks, hw] at ht; cases ht
    | took | counted | left => rw [show w.tasks[t]? = some task from ht] at hw; cases hw
    | delivered | lost => cases (hslot _ _).symm.trans ht
    | fell =>
      simp only [goDown] at ht
      split at ht <;> cases (hslot _ _).symm.trans ht
  · left
    obtain ⟨s, hs⟩ := he.task hw
    obtain rfl := Option.some.inj (ht.symm.trans hs)
    exact ⟨task'.slot, rfl⟩

/-! ### Runs from a new world -/

end World

/-- A pool that has just been started with `n` workers. -/
def WorkerPool.IsNew (n : Nat) (q : WorkerPool ν) : Prop :=
  ∃ name shares, q = { start ν name n with shares := shares }

/-- A world in which nothing has happened: its pools, each with a worker at least, have just been
started. -/
structure World.IsNew (w : World ν) : Prop where
  tasks : w.tasks = []
  givenUp : w.givenUp = []
  fragile : w.fragile = []
  pools : ∀ (p : Nat) (q : WorkerPool ν), w.pools[p]? = some q → ∃ n, 0 < n ∧ q.IsNew n

namespace World

theorem IsNew.worker? {w : World ν} (h : w.IsNew) {p i : Nat} {x : Worker ν}
    (hx : w.worker? p i = some x) : x = .idle := by
  obtain ⟨q, hq, hi⟩ := worker?_eq_some.1 hx
  obtain ⟨n, -, name, shares, rfl⟩ := h.pools p q hq
  exact List.eq_of_mem_replicate (List.mem_of_getElem? hi)

/-- A new world is harmless if its clients are. -/
theorem IsNew.harmless {w : World ν} (h : w.IsNew) (hc : ∀ f ∈ w.clients, f.Harmless) :
    w.Harmless where
  program s f hs := by
    cases s with
    | client i => exact hc f (List.mem_of_getElem? hs)
    | worker p i =>
      rw [program?_worker] at hs
      obtain ⟨x, hx, hf⟩ := Option.bind_eq_some_iff.1 hs
      rw [h.worker? hx] at hf
      cases hf
  job t task ht := by rw [h.tasks] at ht; cases ht
  up p i x hx := by rw [h.worker? hx]; trivial

theorem IsNew.story {w : World ν} (h : w.IsNew) : Story [] w where
  unborn _ _ := rfl
  born t task ht := by rw [h.tasks] at ht; cases ht
  pool p q hq := by
    obtain ⟨n, -, name, shares, rfl⟩ := h.pools p q hq
    refine ⟨fun t => ?_, fun i t => ?_, List.Pairwise.nil⟩
    · simp [WorkerPool.view, WorkerPool.start]
    · simp [WorkerPool.view, WorkerPool.start, List.getElem?_replicate, Worker.place]

/-- **The world is as its history tells**, after every run from a new world. -/
theorem Run.story {w₀ w : World ν} {h : List (Event ν)} (hr : w₀.Run h w) (h₀ : w₀.IsNew)
    (hw : w₀.Harmless) : Story h w :=
  hr.story_append h₀.story hw

/-- After a run from a new world, every task has a life. -/
theorem Run.life_ne_nil {w₀ w : World ν} {h : List (Event ν)} (hr : w₀.Run h w) (h₀ : w₀.IsNew)
    {t : Nat} {task : Entry ν} (ht : w.tasks[t]? = some task) : life h t ≠ [] := by
  induction hr generalizing task with
  | refl => rw [h₀.tasks] at ht; cases ht
  | tail _ he ih =>
    rcases he.of_task ht with ⟨s, hs⟩ | ⟨s, p, holds, job, next, rfl, -⟩
    · rw [life_concat]
      exact fun hnil => ih hs (List.append_eq_nil_iff.1 hnil).1
    · rw [life_accepted, if_pos rfl]
      simp

end World

end Handoff.Pool
