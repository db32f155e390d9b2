import Handoff.Proofs.Pool.Life

/-! # The ledger of a pool

A job that a pool has accepted is queued, or in the hands of a worker, or counted, and never two of
these, so the numbers add up after every run. Whatever else a pool keeps is told here as well: how many
workers it has, and that none of them is gone before the intake is closed and the queue is empty.

* `Event.isAcceptedBy`, `Place.hasTask`: what is counted.
* `Ledger`: what a pool keeps, `Ledger.turn`: every turn keeps it.
* `Run.ledger`: every pool of a harmless world keeps it, whatever the interleaving.
-/

namespace Handoff.Pool

variable {ν : Type}

/-- Whether pool `p` has accepted a job in an event. -/
def Event.isAcceptedBy (p : Nat) : Event ν → Bool
  | did _ (.submit i _ _ _) (.task (.ok _)) => i == p
  | _ => false

/-- Whether a worker has a task that it has not counted. -/
def Place.hasTask : Place → Bool
  | busy _ => true
  | counting _ => true
  | falling _ _ => true
  | _ => false

/-- **What a pool with `n` workers keeps.** -/
structure Ledger (n : Nat) (h : List (Event ν)) (p : Nat) (v : View) : Prop where
  size : v.places.length = n
  /-- Every accepted job is queued, in the hands of a worker, or counted. -/
  accepted : h.countP (Event.isAcceptedBy p) =
    v.queue.length + v.places.countP Place.hasTask + v.completed
  /-- No worker leaves while a job can come. -/
  gone : .gone ∈ v.places → v.accepting = false ∧ v.queue = []
  /-- No worker goes down. -/
  up : ∀ t others, .falling t others ∉ v.places
  /-- An intake is closed by a thread. -/
  closed : v.accepting = false → ∃ self next a, .did self (.closeIntake p next) a ∈ h

/-- An event that is no job accepted by pool `p` is not counted. -/
theorem isAcceptedBy_of_ne {e : Event ν} {p : Nat} (h : e.pool? ≠ some p) :
    e.isAcceptedBy p = false := by
  unfold Event.isAcceptedBy
  split
  · exact beq_eq_false_iff_ne.2 fun hi => h (by rw [hi]; rfl)
  · rfl

theorem pool?_did {self : Thread} {f : Program ν} {a : Answer ν} (ha : ∀ t, a ≠ .task (.ok t)) :
    (Event.did self f a).pool? = none := by
  unfold Event.pool?
  split <;> rename_i heq <;> cases heq
  · exact absurd rfl (ha _)
  · rfl

theorem countP_concat (h : List (Event ν)) (e : Event ν) (p : Nat) :
    (h ++ [e]).countP (Event.isAcceptedBy p) =
      h.countP (Event.isAcceptedBy p) + (e.isAcceptedBy p).toNat := by
  rw [List.countP_append, List.countP_singleton]
  cases e.isAcceptedBy p <;> rfl

/-- An intake that is closed after an instruction was closed before, or by it. -/
theorem View.accepting_tuned {p : Nat} {f : Program ν} {v : View}
    (h : (v.tuned p f).accepting = false) :
    v.accepting = false ∨ ∃ next, f = .closeIntake p next := by
  unfold View.tuned at h
  split at h
  · split at h
    · next hi => exact Or.inr ⟨_, by rw [hi]⟩
    · exact Or.inl h
  · split at h <;> exact Or.inl h
  · split at h <;> exact Or.inl h
  · exact Or.inl h

/-- What is set to something else than gone or falling leaves no more of these. -/
theorem mem_of_mem_set {l : List Place} {i : Nat} {x y : Place} (h : x ∈ l.set i y) (hxy : x ≠ y) :
    x ∈ l := by
  rcases List.mem_or_eq_of_mem_set h with h | h
  · exact h
  · exact absurd h hxy

/-- A pool stays open until a thread closes its intake. -/
theorem Turn.open {p : Nat} {e : Event ν} {v v' : View} (ht : Turn p e v v')
    (ha : v.accepting = true) (he : ∀ s next a, e ≠ .did s (.closeIntake p next) a) :
    v'.accepting = true := by
  cases ht with
  | @tuned s f a _ hf =>
    by_contra hc
    rcases View.accepting_tuned (by simpa using hc) with hv | ⟨next, rfl⟩
    · rw [ha] at hv; cases hv
    · exact he _ _ _ rfl
  | _ => exact ha

/-- The workers of a pool that is open stay. -/
theorem Turn.of_open {p : Nat} {e : Event ν} {v v' : View} (ht : Turn p e v v')
    (ha : v.accepting = true) (hg : .gone ∉ v.places) :
    v'.places.length = v.places.length ∧ .gone ∉ v'.places := by
  have stays : ∀ {i y}, y ≠ .gone → (v.places.set i y).length = v.places.length ∧
      .gone ∉ v.places.set i y :=
    fun hy => ⟨List.length_set .., fun hm => hg (mem_of_mem_set hm hy.symm)⟩
  cases ht with
  | tuned => rw [View.places_tuned]; exact ⟨rfl, hg⟩
  | elsewhere | accepted => exact ⟨rfl, hg⟩
  | took hi => exact stays (by simp)
  | delivered hi => exact stays (by simp)
  | counted hi => exact stays (by simp)
  | left hi hr hc => rw [ha] at hc; cases hc

/-- What is queued after a turn was queued before, or has just been accepted. -/
theorem Turn.mem_queue {p : Nat} {e : Event ν} {v v' : View} (ht : Turn p e v v') {t : Nat}
    (hm : t ∈ v'.queue) : t ∈ v.queue ∨
      ∃ s holds job next, e = .did s (.submit p holds job next) (.task (.ok t)) := by
  cases ht with
  | tuned => rw [View.queue_tuned] at hm; exact Or.inl hm
  | accepted =>
    rcases List.mem_append.1 hm with hm | hm
    · exact Or.inl hm
    · obtain rfl := List.mem_singleton.1 hm
      exact Or.inr ⟨_, _, _, _, rfl⟩
  | took hi hr => rw [hr]; exact Or.inl (List.mem_cons_of_mem _ hm)
  | elsewhere | delivered | counted | left => exact Or.inl hm

/-- A worker that is neither gone nor falling afterwards keeps the ledger, if the numbers do. -/
theorem Ledger.set {n p i : Nat} {h : List (Event ν)} {e : Event ν} {v v' : View} {x y : Place}
    (hl : Ledger n h p v) (hi : v.places[i]? = some x) (hp : v'.places = v.places.set i y)
    (hy : y ≠ .gone) (hf : ∀ t others, y ≠ .falling t others) (ha : v'.accepting = v.accepting)
    (hr : v'.queue ⊆ v.queue)
    (hn : (e.isAcceptedBy p).toNat + v.queue.length + x.hasTask.toNat + v.completed =
      v'.queue.length + y.hasTask.toNat + v'.completed) : Ledger n (h ++ [e]) p v' where
  size := by rw [hp, List.length_set, hl.size]
  accepted := by
    have hc := countP_set Place.hasTask hi y
    rw [countP_concat, hl.accepted, hp]
    omega
  gone hg := by
    obtain ⟨hacc, hq⟩ := hl.gone (mem_of_mem_set (hp ▸ hg) hy.symm)
    exact ⟨ha ▸ hacc, List.subset_nil.1 (hq ▸ hr)⟩
  up t others ht := hl.up t others (mem_of_mem_set (hp ▸ ht) (hf t others).symm)
  closed hc := by
    obtain ⟨self, next, a, hm⟩ := hl.closed (ha ▸ hc)
    exact ⟨self, next, a, List.mem_append_left _ hm⟩

/-- **Every turn keeps the ledger.** -/
theorem Ledger.turn {n p : Nat} {h : List (Event ν)} {e : Event ν} {v v' : View}
    (hl : Ledger n h p v) (ht : Turn p e v v') : Ledger n (h ++ [e]) p v' := by
  have old : v.accepting = false → ∃ self next a, .did self (.closeIntake p next) a ∈ h ++ [e] := by
    intro hc
    obtain ⟨self, next, a, hm⟩ := hl.closed hc
    exact ⟨self, next, a, List.mem_append_left _ hm⟩
  cases ht with
  | @tuned self f a _ ha =>
    have hcompleted : (v.tuned p f).completed = v.completed := by
      unfold View.tuned; split <;> first | rfl | (split <;> rfl)
    have hacc : v.accepting = false → (v.tuned p f).accepting = false := by
      intro hv; unfold View.tuned; split <;> first | exact hv | (split <;> first | exact hv | rfl)
    refine ⟨?_, ?_, fun hg => ?_, ?_, fun hc => ?_⟩
    · rw [View.places_tuned, hl.size]
    · rw [countP_concat, isAcceptedBy_of_ne (by rw [pool?_did ha]; simp), hl.accepted,
        View.places_tuned, View.queue_tuned, hcompleted]
      rfl
    · rw [View.places_tuned] at hg
      rw [View.queue_tuned]
      exact ⟨hacc (hl.gone hg).1, (hl.gone hg).2⟩
    · rw [View.places_tuned]; exact hl.up
    · rcases View.accepting_tuned hc with hv | ⟨next, rfl⟩
      · exact old hv
      · exact ⟨self, next, a, by simp⟩
  | elsewhere he hi =>
    refine ⟨hl.size, ?_, hl.gone, hl.up, old⟩
    rw [countP_concat, isAcceptedBy_of_ne (by rw [he]; simpa using hi), hl.accepted]
    rfl
  | accepted ha =>
    refine ⟨hl.size, ?_, fun hg => ?_, hl.up, fun hc => old hc⟩
    · rw [countP_concat, hl.accepted]
      simp [Event.isAcceptedBy]; omega
    · rw [(hl.gone hg).1] at ha; cases ha
  | took hi hr =>
    refine hl.set hi rfl (by simp) (by simp) rfl (by simp [hr]) ?_
    simp [Event.isAcceptedBy, Place.hasTask, hr]
  | delivered hi =>
    refine hl.set hi rfl (by simp) (by simp) rfl (List.Subset.refl _) ?_
    simp [Event.isAcceptedBy, Place.hasTask]
  | counted hi =>
    refine hl.set hi rfl (by simp) (by simp) rfl (List.Subset.refl _) ?_
    simp [Event.isAcceptedBy, Place.hasTask]; omega
  | @left i _ hi hr ha =>
    have hc := countP_set Place.hasTask hi .gone
    refine ⟨by rw [List.length_set, hl.size], ?_, fun _ => ⟨ha, hr⟩, fun t others hm => ?_, old⟩
    · rw [countP_concat, hl.accepted]
      simp only [Event.isAcceptedBy, Place.hasTask, Bool.toNat_false] at hc ⊢
      omega
    · exact hl.up t others (mem_of_mem_set hm (by simp))

/-- A pool keeps its name. -/
theorem Turn.name {p : Nat} {e : Event ν} {v v' : View} (ht : Turn p e v v') : v'.name = v.name := by
  cases ht with
  | tuned ha => unfold View.tuned; split <;> first | rfl | (split <;> rfl)
  | _ => rfl

/-- A worker that takes no more jobs has left, and not before no job could come. -/
theorem Ledger.of_isLost {n p : Nat} {h : List (Event ν)} {q : WorkerPool ν}
    (hl : Ledger n h p q.view) {x : Worker ν} (hx : x ∈ q.workers) (hlost : x.isLost = true) :
    x = .gone ∧ q.accepting = false ∧ q.queue = [] := by
  have hp : x.place ∈ q.view.places := List.mem_map_of_mem hx
  cases x with
  | gone => exact ⟨rfl, hl.gone hp⟩
  | falling t f others => exact absurd hp (hl.up t others)
  | idle | busy | counting => cases hlost

/-- A pool takes jobs as long as its intake is open. -/
theorem Ledger.takesJobs {n p : Nat} {h : List (Event ν)} {q : WorkerPool ν}
    (hl : Ledger n h p q.view) (hn : 0 < n) : q.takesJobs = q.accepting := by
  rcases ha : q.accepting with _ | _
  · rw [WorkerPool.takesJobs, ha, Bool.false_and]
  · rw [WorkerPool.takesJobs, ha, Bool.true_and, Bool.not_eq_true', WorkerPool.isLost,
      List.all_eq_false]
    have hsize : q.workers.length = n := by simpa [WorkerPool.view] using hl.size
    refine ⟨q.workers[0], List.getElem_mem (by omega), fun hlost => ?_⟩
    rw [(hl.of_isLost (List.getElem_mem _) hlost).2.1] at ha
    cases ha

namespace World

/-- **Every pool keeps its ledger**, after every run of a harmless world. -/
theorem Run.ledger {w₀ w : World ν} {h : List (Event ν)} (hr : w₀.Run h w) (hw : w₀.Harmless)
    {p n : Nat} {q₀ : WorkerPool ν} (hq₀ : w₀.pools[p]? = some q₀) (hn : q₀.IsNew n) :
    ∃ q, w.pools[p]? = some q ∧ q.name = q₀.name ∧ Ledger n h p q.view := by
  refine hr.view_induction hw hq₀ (P := fun h v => v.name = q₀.name ∧ Ledger n h p v) ⟨rfl, ?_⟩
    fun k e x y hl ht => ⟨ht.name.trans hl.1, hl.2.turn ht⟩
  obtain ⟨name, shares, rfl⟩ := hn
  exact ⟨by simp [WorkerPool.view, WorkerPool.start],
    by simp [WorkerPool.view, WorkerPool.start, Worker.place, List.countP_replicate, Place.hasTask],
    by simp [WorkerPool.view, WorkerPool.start, Worker.place],
    by simp [WorkerPool.view, WorkerPool.start, Worker.place],
    by simp [WorkerPool.view, WorkerPool.start]⟩

/-- The pools of a world that a run from a new world leads to. -/
theorem Run.pool {w₀ w : World ν} {h : List (Event ν)} (hr : w₀.Run h w) (h₀ : w₀.IsNew)
    (hw : w₀.Harmless) {p : Nat} {q : WorkerPool ν} (hq : w.pools[p]? = some q) :
    ∃ q₀ n, w₀.pools[p]? = some q₀ ∧ q₀.workers.length = n ∧ 0 < n ∧ q.name = q₀.name ∧
      Ledger n h p q.view := by
  obtain ⟨q₀, hq₀⟩ := hr.exists_pool hq
  obtain ⟨n, hn, hnew⟩ := h₀.pools p q₀ hq₀
  obtain ⟨q', hq', hname, hl⟩ := hr.ledger hw hq₀ hnew
  obtain rfl := Option.some.inj (hq'.symm.trans hq)
  refine ⟨q₀, n, hq₀, ?_, hn, hname, hl⟩
  obtain ⟨name, shares, rfl⟩ := hnew
  simp [WorkerPool.start]

end World

end Handoff.Pool
