import Handoff.Proofs.Pool.Fall
import Handoff.Proofs.Pool.Ledger

/-! # The way of jobs through a pool

A job that a pool has accepted is queued, then taken by a worker; when it has ended, its worker delivers
what it has ended with and counts it, or goes down with it. The tasks that have passed each of these legs
are told by the history. What has passed one leg and not the next is in the queue or in the hands of a
worker, and the queue keeps the order, so jobs are taken in the order in which they were accepted, and the
numbers on the way differ by no more than there are workers. No job is left out here, be it one that takes
its worker down.

* `Leg`, `passed`: the legs, and the tasks that have passed one.
* `Traffic`: how the legs of a pool hang together; `Traffic.turn`, `Traffic.fall`: every move keeps it.
* `Run.traffic`: every pool keeps it, whatever the clients and the interleaving.
* `Run.mem_accepted`, `Run.sorted_accepted`: the accepted tasks are those of the pool, in the order of their
  numbers.
-/

namespace Handoff.Pool

variable {ν : Type}

/-! ### Legs -/

/-- A leg of a job's way through a pool. -/
inductive Leg where
  | accepted
  /-- A worker has taken it from the queue. -/
  | taken
  /-- Its worker has delivered what it has ended with. -/
  | delivered
  /-- Its worker has gone down with it. -/
  | fallen
  /-- Its worker has counted it. -/
  | counted
  /-- A worker that goes down has disposed of it unrun. -/
  | disposed
deriving DecidableEq, Repr

/-- The leg of a way through pool `p` that an event tells of, and the task. -/
def Event.leg? (p : Nat) : Event ν → Option (Leg × Nat)
  | did _ (.submit i _ _ _) (.task (.ok t)) => if i = p then some (.accepted, t) else none
  | took i _ t => if i = p then some (.taken, t) else none
  | delivered i _ t _ => if i = p then some (.delivered, t) else none
  | fell i _ t => if i = p then some (.fallen, t) else none
  | counted i _ t => if i = p then some (.counted, t) else none
  | lost i _ t => if i = p then some (.disposed, t) else none
  | _ => none

/-- **The tasks that have passed a leg of their way through pool `p`**, in the order in which they have. -/
def passed (l : Leg) (p : Nat) (h : List (Event ν)) : List Nat :=
  h.filterMap fun e => (e.leg? p).bind fun x => if x.1 = l then some x.2 else none

section

variable {h : List (Event ν)} {e : Event ν} {l m : Leg} {p t : Nat}

theorem passed_append (h k : List (Event ν)) (l : Leg) (p : Nat) :
    passed l p (h ++ k) = passed l p h ++ passed l p k := List.filterMap_append ..

theorem passed_singleton (he : e.leg? p = some (m, t)) :
    passed l p [e] = if m = l then [t] else [] := by
  by_cases hm : m = l <;> simp [passed, he, hm]

theorem passed_singleton_of_none (he : e.leg? p = none) : passed l p [e] = [] := by
  simp [passed, he]

/-- One event tells of a leg of one task at most. -/
theorem passed_singleton_cases (l : Leg) (p : Nat) (e : Event ν) :
    passed l p [e] = [] ∨ ∃ t, e.leg? p = some (l, t) ∧ passed l p [e] = [t] := by
  rcases he : e.leg? p with _ | ⟨m, t⟩
  · exact .inl (passed_singleton_of_none he)
  · rw [passed_singleton he]
    by_cases hm : m = l
    · subst hm; exact .inr ⟨t, rfl, if_pos rfl⟩
    · exact .inl (if_neg hm)

theorem leg?_of_pool_ne (he : e.pool? ≠ some p) : e.leg? p = none := by
  unfold Event.leg?
  split
  all_goals first | exact if_neg fun hi => he (by rw [hi]; rfl) | rfl

/-- A task that has passed a leg has done so in one event. -/
theorem mem_passed : t ∈ passed l p h ↔ ∃ e ∈ h, e.leg? p = some (l, t) := by
  simp only [passed, List.mem_filterMap]
  refine exists_congr fun e => and_congr_right fun _ => ?_
  rcases e.leg? p with _ | ⟨m, u⟩
  · simp
  · by_cases hm : m = l <;> simp [hm]

end

/-! ### Hands -/

/-- The task that a worker runs. -/
def Place.running : Place → List Nat
  | busy t => [t]
  | _ => []

/-- The task that a worker is about to count. -/
def Place.counted : Place → List Nat
  | counting t => [t]
  | _ => []

/-- The tasks that a worker still has to dispose of. -/
def Place.burden : Place → List Nat
  | falling t others => t :: others
  | _ => []

@[simp] theorem Place.running_disposing (ts : List Nat) : (disposing ts).running = [] := by
  cases ts <;> rfl

@[simp] theorem Place.counted_disposing (ts : List Nat) : (disposing ts).counted = [] := by
  cases ts <;> rfl

@[simp] theorem Place.burden_disposing (ts : List Nat) : (disposing ts).burden = ts := by
  cases ts <;> rfl

theorem count_flatMap_set {α : Type} (f : α → List Nat) {l : List α} {i : Nat} {x : α}
    (h : l[i]? = some x) (y : α) (t : Nat) :
    ((l.set i y).flatMap f).count t + (f x).count t = (l.flatMap f).count t + (f y).count t := by
  rw [((perm_set h y).flatMap_right f).count_eq, ((perm_of_getElem? h).flatMap_right f).count_eq,
    List.flatMap_cons, List.flatMap_cons, List.count_append, List.count_append]
  omega

/-- A worker runs a task, or counts one, or is lost, or none of this. -/
theorem length_hands (l : List Place) :
    (l.flatMap Place.running).length + (l.flatMap Place.counted).length +
      l.countP Place.isLost ≤ l.length := by
  induction l with
  | nil => exact Nat.le_refl _
  | cons x l ih =>
    cases x <;>
      simp only [List.flatMap_cons, List.length_append, List.countP_cons, Place.running, Place.counted,
        Place.isLost, List.length_cons, List.length_nil, if_true, Bool.false_eq_true, if_false] <;> omega

/-- Who is about to count a task is a worker. -/
theorem mem_counted {q : WorkerPool ν} {t : Nat} :
    t ∈ q.view.places.flatMap Place.counted ↔ ∃ i : Nat, q.workers[i]? = some (.counting t) := by
  simp only [List.mem_flatMap]
  constructor
  · rintro ⟨x, hx, ht⟩
    obtain ⟨y, hy, rfl⟩ := List.mem_map.1 hx
    obtain ⟨i, hi⟩ := List.getElem?_of_mem hy
    cases y <;> simp only [Worker.place, Place.counted, List.not_mem_nil, List.mem_singleton] at ht
    subst ht
    exact ⟨i, hi⟩
  · rintro ⟨i, hi⟩
    exact ⟨_, List.mem_of_getElem? (World.view_places hi), List.mem_singleton_self _⟩

/-! ### The traffic -/

/-- **The way of jobs through pool `p`, which has `n` workers.** -/
structure Traffic (n : Nat) (h : List (Event ν)) (p : Nat) (v : View) : Prop where
  size : v.places.length = n
  /-- What was accepted was taken, or is queued, in this order. In between, there is what the last worker
  that went down has taken along to dispose of. -/
  accepted : ∃ along, passed .accepted p h = passed .taken p h ++ along ++ v.queue ∧
    along.Perm (passed .disposed p h ++ v.places.flatMap Place.burden) ∧ (along ≠ [] → v.IsLost)
  /-- What was taken has been delivered, or has taken its worker down, or is run. -/
  taken : (passed .taken p h).Perm
    (passed .delivered p h ++ passed .fallen p h ++ v.places.flatMap Place.running)
  /-- What was delivered has been counted, or is about to be. -/
  delivered : (passed .delivered p h).Perm
    (passed .counted p h ++ v.places.flatMap Place.counted)
  completed : v.completed = (passed .counted p h).length
  /-- Every job that has taken its worker down has cost one worker. -/
  fallen : (passed .fallen p h).length ≤ v.places.countP Place.isLost

section

variable {n p : Nat} {h : List (Event ν)} {e : Event ν} {v v' : View}

/-- What tells of no leg and changes neither the queue nor the workers keeps the traffic. -/
theorem Traffic.keep (hs : Traffic n h p v) (he : e.leg? p = none) (hq : v'.queue = v.queue)
    (hp : v'.places = v.places) (hc : v'.completed = v.completed) : Traffic n (h ++ [e]) p v' := by
  have hsame : ∀ l, passed l p (h ++ [e]) = passed l p h := fun l => by
    rw [passed_append, passed_singleton_of_none he, List.append_nil]
  refine ⟨hp ▸ hs.size, ?_, ?_, ?_, ?_, ?_⟩
  · obtain ⟨along, ha, hperm, hl⟩ := hs.accepted
    refine ⟨along, by rw [hsame, hsame, hq, ha], by rw [hsame, hp]; exact hperm, fun hne x hx => ?_⟩
    exact hl hne x (hp ▸ hx)
  · rw [hsame, hsame, hsame, hp]; exact hs.taken
  · rw [hsame, hsame, hp]; exact hs.delivered
  · rw [hsame, hc, hs.completed]
  · rw [hsame, hp]; exact hs.fallen

/-- As long as a worker still takes jobs, nothing has been taken along. -/
theorem nothing_along {i : Nat} {x : Place} {along : List Nat} (hi : v.places[i]? = some x)
    (hx : x.isLost = false) (hl : along ≠ [] → v.IsLost) : along = [] := by
  by_contra hne
  have hlost := hl hne x (List.mem_of_getElem? hi)
  rw [hx] at hlost
  cases hlost

/-- **A worker that is set to something else keeps the traffic**, if what it hands on balances. It may take
jobs from the queue along. -/
theorem Traffic.set {i : Nat} {x y : Place} (more : List Nat) (hs : Traffic n h p v)
    (hi : v.places[i]? = some x) (hp : v'.places = v.places.set i y)
    (haccepted : ∀ along, (x.isLost = false → along = []) →
      passed .accepted p h = passed .taken p h ++ along ++ v.queue →
      passed .accepted p (h ++ [e]) = passed .taken p (h ++ [e]) ++ (along ++ more) ++ v'.queue)
    (hmore : more ≠ [] → v'.IsLost)
    (hburden : ∀ t, (passed .disposed p [e]).count t + y.burden.count t =
      x.burden.count t + more.count t)
    (htaken : ∀ t, (passed .taken p [e]).count t + x.running.count t =
      (passed .delivered p [e]).count t + (passed .fallen p [e]).count t + y.running.count t)
    (hdelivered : ∀ t, (passed .delivered p [e]).count t + x.counted.count t =
      (passed .counted p [e]).count t + y.counted.count t)
    (hcompleted : v'.completed = v.completed + (passed .counted p [e]).length)
    (hfallen : (passed .fallen p [e]).length + x.isLost.toNat ≤ y.isLost.toNat) :
    Traffic n (h ++ [e]) p v' where
  size := by rw [hp, List.length_set, hs.size]
  accepted := by
    obtain ⟨along, ha, hperm, hl⟩ := hs.accepted
    refine ⟨along ++ more, haccepted along (fun hx => nothing_along hi hx hl) ha,
      List.perm_iff_count.2 fun t => ?_, fun hne => ?_⟩
    · have hold := hperm.count_eq t
      have hset := count_flatMap_set Place.burden hi y t
      have hnew := hburden t
      simp only [passed_append, List.count_append, hp] at hold ⊢
      omega
    · by_cases hm : more = []
      · have hne : along ≠ [] := by simpa [hm] using hne
        intro z hz
        rw [hp] at hz
        rcases List.mem_or_eq_of_mem_set hz with hz | rfl
        · exact hl hne z hz
        · have hx := hl hne x (List.mem_of_getElem? hi)
          rw [hx] at hfallen
          cases hy : z.isLost
          · rw [hy, Bool.toNat_true, Bool.toNat_false] at hfallen; omega
          · rfl
      · exact hmore hm
  taken := by
    refine List.perm_iff_count.2 fun t => ?_
    have hold := hs.taken.count_eq t
    have hset := count_flatMap_set Place.running hi y t
    have hnew := htaken t
    simp only [passed_append, List.count_append, hp] at hold ⊢
    omega
  delivered := by
    refine List.perm_iff_count.2 fun t => ?_
    have hold := hs.delivered.count_eq t
    have hset := count_flatMap_set Place.counted hi y t
    have hnew := hdelivered t
    simp only [passed_append, List.count_append, hp] at hold ⊢
    omega
  completed := by rw [passed_append, List.length_append, hcompleted, hs.completed]
  fallen := by
    have hold := hs.fallen
    have hset := countP_set Place.isLost hi y
    rw [passed_append, List.length_append, hp]
    omega

/-- As long as a worker still takes jobs, what was accepted and not taken is queued. -/
theorem Traffic.queued (hs : Traffic n h p v) {i : Nat} {x : Place} (hi : v.places[i]? = some x)
    (hx : x.isLost = false) : passed .accepted p h = passed .taken p h ++ v.queue := by
  obtain ⟨along, ha, -, hl⟩ := hs.accepted
  rw [ha, nothing_along hi hx hl, List.append_nil]

/-- **Every turn keeps the traffic.** -/
theorem Traffic.turn (hs : Traffic n h p v) (ht : Turn p e v v') : Traffic n (h ++ [e]) p v' := by
  cases ht with
  | @tuned self f a _ hf =>
    refine hs.keep (leg?_of_pool_ne ?_) (View.queue_tuned _ _ _) (View.places_tuned _ _ _) ?_
    · rw [pool?_did hf]; simp
    · unfold View.tuned; split <;> first | rfl | (split <;> rfl)
  | elsewhere he hi => exact hs.keep (leg?_of_pool_ne (by rw [he]; simpa using hi)) rfl rfl rfl
  | @accepted self holds job next t _ hacc =>
    have hleg : ∀ l, passed l p [Event.did self (.submit p holds job next) (.task (.ok t))] =
        if .accepted = l then [t] else [] := fun l => passed_singleton (if_pos rfl)
    obtain ⟨along, ha, hperm, hl⟩ := hs.accepted
    refine ⟨hs.size, ⟨along, ?_, ?_, hl⟩, ?_, ?_, ?_, ?_⟩
    · simp [passed_append, hleg, ha]
    · simpa [passed_append, hleg] using hperm
    · simpa [passed_append, hleg] using hs.taken
    · simpa [passed_append, hleg] using hs.delivered
    · simpa [passed_append, hleg] using hs.completed
    · simpa [passed_append, hleg] using hs.fallen
  | @took i t r _ hi hr =>
    have hleg : ∀ l, passed l p [(Event.took p i t : Event ν)] = if .taken = l then [t] else [] :=
      fun l => passed_singleton (if_pos rfl)
    refine hs.set [] hi rfl (fun along hup ha => ?_) (by simp) ?_ ?_ ?_ ?_ ?_
    · obtain rfl := hup rfl
      simp [passed_append, hleg, ha, hr]
    all_goals simp [hleg, Place.running, Place.counted, Place.burden, Place.isLost]
  | @delivered i t o _ hi =>
    have hleg : ∀ l, passed l p [Event.delivered p i t o] = if .delivered = l then [t] else [] :=
      fun l => passed_singleton (if_pos rfl)
    refine hs.set [] hi rfl (fun along hup ha => ?_) (by simp) ?_ ?_ ?_ ?_ ?_
    · simp [passed_append, hleg, ha]
    all_goals simp [hleg, Place.running, Place.counted, Place.burden, Place.isLost]
  | @counted i t _ hi =>
    have hleg : ∀ l, passed l p [(Event.counted p i t : Event ν)] = if .counted = l then [t] else [] :=
      fun l => passed_singleton (if_pos rfl)
    refine hs.set [] hi rfl (fun along hup ha => ?_) (by simp) ?_ ?_ ?_ ?_ ?_
    · simp [passed_append, hleg, ha]
    all_goals simp [hleg, Place.running, Place.counted, Place.burden, Place.isLost]
  | @left i _ hi hr hacc =>
    have hleg : ∀ l, passed l p [(Event.left p i : Event ν)] = [] :=
      fun l => passed_singleton_of_none rfl
    refine hs.set [] hi rfl (fun along hup ha => ?_) (by simp) ?_ ?_ ?_ ?_ ?_
    · simp [passed_append, hleg, ha]
    all_goals simp [hleg, Place.running, Place.counted, Place.burden, Place.isLost]

/-- **The fall of a worker keeps the traffic.** -/
theorem Traffic.fall (hs : Traffic n h p v) (hf : Fall p e v v') : Traffic n (h ++ [e]) p v' := by
  have hfell : ∀ i t l, passed l p [(Event.fell p i t : Event ν)] = if .fallen = l then [t] else [] :=
    fun i t l => passed_singleton (if_pos rfl)
  cases hf with
  | @fell i t _ hi =>
    refine hs.set [] hi rfl (fun along hup ha => ?_) (by simp) ?_ ?_ ?_ ?_ ?_
    · simp [passed_append, hfell, ha]
    all_goals simp [hfell, Place.running, Place.counted, Place.burden, Place.isLost]
  | @last i t _ hi hl =>
    refine hs.set v.queue hi rfl (fun along hup ha => ?_) (fun _ x hx => ?_) ?_ ?_ ?_ ?_ ?_
    · simp [passed_append, hfell, ha]
    · have hset : x ∈ (v.places.set i .gone).set i (.disposing v.queue) := by rwa [List.set_set]
      rcases List.mem_or_eq_of_mem_set hset with hx | rfl
      · exact hl x hx
      · exact Place.isLost_disposing _
    all_goals simp [hfell, show (Place.busy t).running = [t] from rfl,
      show (Place.busy t).counted = [] from rfl, show (Place.busy t).burden = [] from rfl,
      show (Place.busy t).isLost = false from rfl]
  | @lost i t others _ hi =>
    have hleg : ∀ l, passed l p [(Event.lost p i t : Event ν)] = if .disposed = l then [t] else [] :=
      fun l => passed_singleton (if_pos rfl)
    refine hs.set [] hi rfl (fun along hup ha => ?_) (by simp) (fun u => ?_) ?_ ?_ ?_ ?_
    · simp [passed_append, hleg, ha]
    · simp [hleg, show (Place.falling t others).burden = t :: others from rfl, List.count_cons,
        Nat.add_comm]
    all_goals simp [hleg, show (Place.falling t others).running = [] from rfl,
      show (Place.falling t others).counted = [] from rfl, Bool.toNat_le]

/-- What has been taken was accepted, in this order. -/
theorem Traffic.taken_prefix (hs : Traffic n h p v) : passed .taken p h <+: passed .accepted p h := by
  obtain ⟨along, ha, -⟩ := hs.accepted
  rw [ha, List.append_assoc]
  exact List.prefix_append _ _

/-- **Where the accepted tasks are.** -/
theorem Traffic.account (hs : Traffic n h p v) : (passed .accepted p h).Perm
    (passed .delivered p h ++ passed .fallen p h ++ v.places.flatMap Place.running ++
      (passed .disposed p h ++ v.places.flatMap Place.burden) ++ v.queue) := by
  obtain ⟨along, ha, hperm, -⟩ := hs.accepted
  rw [ha]
  exact (hs.taken.append hperm).append_right _

/-- Only accepted tasks pass a leg. -/
theorem Traffic.mem_accepted (hs : Traffic n h p v) {l : Leg} {t : Nat} (ht : t ∈ passed l p h) :
    t ∈ passed .accepted p h := by
  have hdelivered : t ∈ passed .delivered p h → t ∈ passed .accepted p h := fun ht =>
    hs.account.symm.subset (by simp [ht])
  cases l with
  | accepted => exact ht
  | taken => exact hs.taken_prefix.subset ht
  | delivered => exact hdelivered ht
  | fallen => exact hs.account.symm.subset (by simp [ht])
  | counted => exact hdelivered (hs.delivered.symm.subset (List.mem_append_left _ ht))
  | disposed => exact hs.account.symm.subset (by simp [ht])

/-- No task passes a leg twice, if none is accepted twice. -/
theorem Traffic.nodup (hs : Traffic n h p v) (hn : (passed .accepted p h).Nodup) (l : Leg) :
    (passed l p h).Nodup := by
  have hall := hs.account.nodup_iff.1 hn
  simp only [List.nodup_append] at hall
  obtain ⟨⟨⟨⟨hdelivered, hfallen, -⟩, -, -⟩, ⟨hdisposed, -, -⟩, -⟩, -, -⟩ := hall
  cases l with
  | accepted => exact hn
  | taken => exact hn.sublist hs.taken_prefix.sublist
  | delivered => exact hdelivered
  | fallen => exact hfallen
  | counted => exact (List.nodup_append.1 (hs.delivered.nodup_iff.1 hdelivered)).1
  | disposed => exact hdisposed

/-- What is run or to be disposed of has not ended. -/
theorem Traffic.not_ended (hs : Traffic n h p v) (hn : (passed .accepted p h).Nodup) {t : Nat}
    (ht : t ∈ v.places.flatMap Place.running ∨ t ∈ v.places.flatMap Place.burden) :
    t ∈ passed .accepted p h ∧ t ∉ passed .delivered p h ∧ t ∉ passed .fallen p h ∧
      t ∉ passed .disposed p h := by
  have hall := hs.account.nodup_iff.1 hn
  refine ⟨hs.account.symm.subset (by simp only [List.mem_append]; tauto), ?_⟩
  simp only [List.nodup_append, List.mem_append] at hall
  refine ⟨fun hd => ?_, fun hf => ?_, fun hd => ?_⟩ <;> rcases ht with ht | ht <;> grind

/-- A task that has been lost with its worker, or on the way down of another, is not counted. -/
theorem Traffic.not_counted (hs : Traffic n h p v) (hn : (passed .accepted p h).Nodup) {t : Nat}
    (ht : t ∈ passed .fallen p h ∨ t ∈ passed .disposed p h) : t ∉ passed .counted p h := by
  intro hc
  have hd : t ∈ passed .delivered p h := hs.delivered.symm.subset (List.mem_append_left _ hc)
  have hall := hs.account.nodup_iff.1 hn
  simp only [List.nodup_append, List.mem_append] at hall
  rcases ht with ht | ht <;> grind

end

/-! ### Every run -/

theorem Turn.completed_le {p : Nat} {e : Event ν} {v v' : View} (ht : Turn p e v v') :
    v.completed ≤ v'.completed := by
  cases ht with
  | tuned => unfold View.tuned; split <;> first | exact Nat.le_refl _ | (split <;> exact Nat.le_refl _)
  | counted => exact Nat.le_succ _
  | elsewhere | accepted | took | delivered | left => exact Nat.le_refl _

theorem Fall.completed_eq {p : Nat} {e : Event ν} {v v' : View} (hf : Fall p e v v') :
    v'.completed = v.completed := by
  cases hf <;> rfl

namespace World

section

variable {w₀ w v : World ν} {h : List (Event ν)} {p : Nat}

/-- **What has been counted stays counted.** -/
theorem Run.completed_le (hr : w.Run h v) {q : WorkerPool ν} (hq : w.pools[p]? = some q) :
    ∃ q', v.pools[p]? = some q' ∧ q.completed ≤ q'.completed :=
  hr.view_induction_of_falls hq (P := fun _ x => q.completed ≤ x.completed) (Nat.le_refl _)
    (fun _ _ _ _ hx ht => Nat.le_trans hx ht.completed_le)
    (fun _ _ _ _ hx hf => hf.completed_eq ▸ hx)

/-- **Every pool keeps its traffic**, after every run from a new world. -/
theorem Run.traffic (hr : w₀.Run h w) (h₀ : w₀.IsNew) {q₀ : WorkerPool ν}
    (hq₀ : w₀.pools[p]? = some q₀) :
    ∃ q, w.pools[p]? = some q ∧ Traffic q₀.workers.length h p q.view := by
  refine hr.view_induction_of_falls hq₀ (P := fun h v => Traffic q₀.workers.length h p v) ?_
    (fun k e x y hs ht => hs.turn ht) (fun k e x y hs hf => hs.fall hf)
  obtain ⟨n, -, name, shares, rfl⟩ := h₀.pools p q₀ hq₀
  have hidle : ∀ {f : Place → List Nat}, f .idle = [] → (List.replicate n Place.idle).flatMap f = [] :=
    fun {f} hf => List.flatMap_eq_nil_iff.2 fun x hx => by rw [List.eq_of_mem_replicate hx, hf]
  refine ⟨by simp [WorkerPool.view], ⟨[], rfl, ?_, fun hne => absurd rfl hne⟩, ?_, ?_, rfl, Nat.zero_le _⟩ <;>
    simp only [passed, WorkerPool.view, WorkerPool.start, List.map_replicate, Worker.place,
      hidle (show Place.running .idle = [] from rfl), hidle (show Place.counted .idle = [] from rfl),
      hidle (show Place.burden .idle = [] from rfl)] <;>
    exact .nil

/-- A task whose job has just been accepted is the newest one. -/
theorem Happens.newest {e : Event ν} (he : w.Happens e v) {t : Nat}
    (hleg : e.leg? p = some (.accepted, t)) :
    t = w.tasks.length ∧ ∃ holds job, v.tasks[t]? = some ⟨p, holds, job, .waiting⟩ := by
  unfold Event.leg? at hleg
  split at hleg
  · next self i holds job next u =>
    split at hleg <;> cases hleg
    next hi =>
    subst hi
    obtain ⟨rfl, hv⟩ := he.offered
    exact ⟨rfl, holds, job, by rw [hv, List.getElem?_concat_length]⟩
  all_goals first | cases hleg | (split at hleg <;> cases hleg)

/-- The tasks whose jobs pool `p` has accepted are its tasks. -/
theorem Run.mem_accepted (hr : w₀.Run h w) (h₀ : w₀.IsNew) {t : Nat} :
    t ∈ passed .accepted p h ↔ ∃ task, w.tasks[t]? = some task ∧ task.pool = p := by
  induction hr with
  | refl => simp [passed, h₀.tasks]
  | @tail k u v e hr he ih =>
    rw [passed_append, List.mem_append, ih]
    constructor
    · rintro (⟨task, ht, rfl⟩ | hm)
      · obtain ⟨s, hs⟩ := he.task ht
        exact ⟨_, hs, rfl⟩
      · obtain ⟨e', he', hleg⟩ := mem_passed.1 hm
        obtain rfl := List.mem_singleton.1 he'
        obtain ⟨-, holds, job, ht⟩ := he.newest hleg
        exact ⟨_, ht, rfl⟩
    · rintro ⟨task, ht, rfl⟩
      rcases he.of_task ht with ⟨s, hs⟩ | ⟨s, p, holds, job, next, rfl, -, rfl⟩
      · exact .inl ⟨_, hs, rfl⟩
      · exact .inr (mem_passed.2 ⟨_, List.mem_singleton_self _, if_pos rfl⟩)

/-- They have been accepted in the order of their numbers. -/
theorem Run.sorted_accepted (hr : w₀.Run h w) (h₀ : w₀.IsNew) :
    (passed .accepted p h).Pairwise (· < ·) := by
  induction hr with
  | refl => exact .nil
  | @tail k u v e hr he ih =>
    rw [passed_append]
    rcases passed_singleton_cases .accepted p e with hnone | ⟨t, hleg, hone⟩
    · rwa [hnone, List.append_nil]
    · rw [hone]
      refine List.pairwise_append.2 ⟨ih, List.pairwise_singleton _ _, fun u hu t' ht' => ?_⟩
      obtain rfl := List.mem_singleton.1 ht'
      obtain ⟨task, htask, -⟩ := (hr.mem_accepted h₀).1 hu
      rw [(he.newest hleg).1]
      exact (List.getElem?_eq_some_iff.1 htask).1

theorem Run.nodup_accepted (hr : w₀.Run h w) (h₀ : w₀.IsNew) : (passed .accepted p h).Nodup :=
  (hr.sorted_accepted h₀).imp Nat.ne_of_lt

end

end World

end Handoff.Pool
