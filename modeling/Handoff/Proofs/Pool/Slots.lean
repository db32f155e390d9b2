import Handoff.Proofs.Pool.Diary

/-! # What becomes of a task is settled once

The slot of a task is written by the worker that delivers what its job has ended with, or that goes down
with it, or that disposes of it unrun on the way down. By then nobody else has the task in hand, so a slot
that has been written stays as it is, and who waits for a task gets the same whenever it asks.

* `Event.Ends`, `Event.writes`, `Happens.slot`: the events with which a task ends, and what they write into
  its slot.
* `Slot.Told`, `Run.told`: what the history tells of a slot.
* `Run.result?_stays`: what a task has for who waits for it stays.
* `Run.answered`: what who waits for a task has been told is what the task has, or that the limit is up.
-/

namespace Handoff.Pool

variable {ν : Type}

/-! ### The end of a task -/

/-- The slot of task `t` after an event. -/
def Event.writes (t : Nat) (s : Slot ν) : Event ν → Slot ν
  | delivered _ _ u o => if u = t then .delivered o else s
  | fell _ _ u => if u = t then .lost else s
  | lost _ _ u => if u = t then .lost else s
  | _ => s

/-- **A task ends** with a worker that has it in hand. -/
inductive Event.Ends (p i t : Nat) : Event ν → Prop where
  | delivered {o} : Ends p i t (.delivered p i t o)
  | fell : Ends p i t (.fell p i t)
  | lost : Ends p i t (.lost p i t)

/-- A task that does not end with an event keeps its slot. -/
theorem Event.writes_of_not_ends {e : Event ν} {t : Nat} (hn : ∀ p i, ¬ e.Ends p i t) (s : Slot ν) :
    e.writes t s = s := by
  cases e with
  | delivered p i u o => exact if_neg (by rintro rfl; exact hn p i .delivered)
  | fell p i u => exact if_neg (by rintro rfl; exact hn p i .fell)
  | lost p i u => exact if_neg (by rintro rfl; exact hn p i .lost)
  | did | took | counted | left => rfl

/-- A task that has ended has passed one of the last legs. -/
theorem Event.Ends.mem_passed {h : List (Event ν)} {e : Event ν} {p i t : Nat} (hend : e.Ends p i t)
    (hm : e ∈ h) :
    t ∈ passed .delivered p h ∨ t ∈ passed .fallen p h ∨ t ∈ passed .disposed p h := by
  cases hend with
  | delivered => exact .inl (Handoff.Pool.mem_passed.2 ⟨_, hm, if_pos rfl⟩)
  | fell => exact .inr (.inl (Handoff.Pool.mem_passed.2 ⟨_, hm, if_pos rfl⟩))
  | lost => exact .inr (.inr (Handoff.Pool.mem_passed.2 ⟨_, hm, if_pos rfl⟩))

/-- **What the history tells of the slot of task `t`** of pool `p`. -/
def Slot.Told (h : List (Event ν)) (p t : Nat) : Slot ν → Prop
  | waiting => ∀ e ∈ h, ∀ i, ¬ e.Ends p i t
  | delivered o => ∃ i, .delivered p i t o ∈ h
  | lost => ∃ i, .fell p i t ∈ h ∨ .lost p i t ∈ h

section

variable {h : List (Event ν)} {e : Event ν} {p t : Nat} {s : Slot ν}

/-- What is told stays told, as long as the task does not end. -/
theorem Slot.Told.concat (hs : s.Told h p t) (he : ∀ i, ¬ e.Ends p i t) : s.Told (h ++ [e]) p t := by
  cases s with
  | waiting =>
    intro e' hm i
    rcases List.mem_append.1 hm with hm | hm
    · exact hs e' hm i
    · obtain rfl := List.mem_singleton.1 hm
      exact he i
  | delivered o =>
    obtain ⟨i, hm⟩ := hs
    exact ⟨i, List.mem_append_left _ hm⟩
  | lost =>
    obtain ⟨i, hm⟩ := hs
    exact ⟨i, hm.imp (List.mem_append_left _) (List.mem_append_left _)⟩

/-- What an event writes into the slot of a task is told, if it is one of its pool. -/
theorem Slot.Told.writes (hs : s.Told h p t) (hp : ∀ j i, e.Ends j i t → j = p) :
    (e.writes t s).Told (h ++ [e]) p t := by
  by_cases hends : ∃ j i, e.Ends j i t
  · obtain ⟨j, i, hend⟩ := hends
    obtain rfl := hp j i hend
    have hlast : e ∈ h ++ [e] := List.mem_append_right _ (List.mem_singleton_self e)
    cases hend <;> rw [Event.writes, if_pos rfl]
    · exact ⟨i, hlast⟩
    · exact ⟨i, .inl hlast⟩
    · exact ⟨i, .inr hlast⟩
  · rw [e.writes_of_not_ends fun j i hend => hends ⟨j, i, hend⟩]
    exact hs.concat fun i hend => hends ⟨p, i, hend⟩

/-- A slot in which there is something is that of a task that has ended. -/
theorem Slot.Told.ended (hs : s.Told h p t) {r : Except Failure ν} (hr : s.result? = some r) :
    ∃ e ∈ h, ∃ i, e.Ends p i t := by
  cases s with
  | waiting => cases hr
  | delivered o =>
    obtain ⟨i, hm⟩ := hs
    exact ⟨_, hm, i, .delivered⟩
  | lost =>
    obtain ⟨i, hm | hm⟩ := hs
    · exact ⟨_, hm, i, .fell⟩
    · exact ⟨_, hm, i, .lost⟩

end

namespace World

/-- **What a move does to the slot of a task.** -/
theorem Happens.slot {w v : World ν} {e : Event ν} (he : w.Happens e v) {t : Nat} {task : Entry ν}
    (ht : w.tasks[t]? = some task) :
    v.tasks[t]? = some { task with slot := e.writes t task.slot } := by
  have hslot : ∀ u s, (w.setSlot u s).tasks[t]? =
      some { task with slot := if u = t then s else task.slot } := by
    intro u s
    simp only [setSlot, List.getElem?_modify, ht]
    by_cases hu : u = t <;> simp [hu]
  cases he with
  | @did self f a u g hp ha hn =>
    rw [tasks_setProgram]
    rcases ha.accepted_or_tuned with ⟨p, holds, job, next, q, -, -, -, -, rfl⟩ | ⟨-, hu⟩
    · rw [accept, List.getElem?_append_left (List.getElem?_eq_some_iff.1 ht).1]
      exact ht
    · exact hu.tasks ▸ ht
  | took | counted | left => exact ht
  | delivered | lost => exact hslot _ _
  | fell =>
    simp only [goDown]
    split <;> exact hslot _ _

section

variable {w₀ w v : World ν} {h k : List (Event ν)}

/-- The traffic of a pool that is there. -/
theorem Run.exists_traffic (hr : w₀.Run h w) (h₀ : w₀.IsNew) {p : Nat} {q : WorkerPool ν}
    (hq : w.pools[p]? = some q) : Traffic q.workers.length h p q.view := by
  obtain ⟨q₀, hq₀⟩ := hr.exists_pool hq
  obtain ⟨q', hq', hs⟩ := hr.traffic h₀ hq₀
  obtain rfl := Option.some.inj (hq.symm.trans hq')
  have hsize : q.workers.length = q₀.workers.length := by simpa [WorkerPool.view] using hs.size
  exact hsize ▸ hs

/-- **Where nothing can happen, what has been delivered has been counted.** -/
theorem Run.delivered_perm_counted (hr : w₀.Run h w) (h₀ : w₀.IsNew) (hs : w.IsStuck) {p : Nat}
    {q : WorkerPool ν} (hq : w.pools[p]? = some q) :
    (passed .delivered p h).Perm (passed .counted p h) := by
  have hnil : q.view.places.flatMap Place.counted = [] := List.eq_nil_iff_forall_not_mem.2 fun t ht => by
    obtain ⟨i, hi⟩ := mem_counted.1 ht
    exact isStuck_iff.1 hs _ _ (.counted hq hi)
  have := (hr.exists_traffic h₀ hq).delivered
  rwa [hnil, List.append_nil] at this

/-- A task in the hands of a worker is one of the worker's pool, and has not ended. -/
theorem Run.not_ended_of_hand (hr : w₀.Run h w) (h₀ : w₀.IsNew) {p i t : Nat} {x : Worker ν}
    (hx : w.worker? p i = some x) (hhand : t ∈ x.place.running ∨ t ∈ x.place.burden) :
    (∃ task, w.tasks[t]? = some task ∧ task.pool = p) ∧ ∀ e ∈ h, ∀ j, ¬ e.Ends p j t := by
  obtain ⟨q, hq, hi⟩ := worker?_eq_some.1 hx
  have hm := List.mem_of_getElem? (view_places hi)
  have hnot := (hr.exists_traffic h₀ hq).not_ended (hr.nodup_accepted h₀)
    (hhand.imp (fun ht => List.mem_flatMap.2 ⟨_, hm, ht⟩) fun ht => List.mem_flatMap.2 ⟨_, hm, ht⟩)
  refine ⟨(hr.mem_accepted h₀).1 hnot.1, fun e hm' j hend => ?_⟩
  rcases hend.mem_passed hm' with hd | hf | hl
  · exact hnot.2.1 hd
  · exact hnot.2.2.1 hf
  · exact hnot.2.2.2 hl

/-- **A task that ends has been in the hands of a worker of its pool**, and has not ended before. -/
theorem Run.not_ended (hr : w₀.Run h w) (h₀ : w₀.IsNew) {e : Event ν} (he : w.Happens e v) {p i t : Nat}
    (hend : e.Ends p i t) : (∃ task, w.tasks[t]? = some task ∧ task.pool = p) ∧
      ∀ e' ∈ h, ∀ j, ¬ e'.Ends p j t := by
  have hs : e.thread = .worker p i := by cases hend <;> rfl
  obtain ⟨x, y, hx, -, hg⟩ := he.goes hs
  refine hr.not_ended_of_hand h₀ hx ?_
  cases hend <;> cases hg
  · exact .inl (List.mem_singleton_self _)
  · exact .inl (List.mem_singleton_self _)
  · exact .inr (List.mem_cons_self ..)

/-- **What the history tells of the slots is so**, after every run from a new world. -/
theorem Run.told (hr : w₀.Run h w) (h₀ : w₀.IsNew) {t : Nat} {task : Entry ν}
    (ht : w.tasks[t]? = some task) : task.slot.Told h task.pool t := by
  induction hr generalizing task with
  | refl => rw [h₀.tasks] at ht; cases ht
  | @tail k v u e hr he ih =>
    rcases he.of_task ht with ⟨s, hs⟩ | ⟨s, p, holds, job, next, rfl, hp, rfl⟩
    · have hslot : task.slot = e.writes t s :=
        congrArg Entry.slot (Option.some.inj (ht.symm.trans (he.slot hs)))
      rw [hslot]
      refine (ih hs).writes fun j i hend => ?_
      obtain ⟨⟨task', ht', rfl⟩, -⟩ := hr.not_ended h₀ he hend
      rw [Option.some.inj (ht'.symm.trans hs)]
    · obtain ⟨q, hq⟩ : ∃ q, v.pools[p]? = some q := by
        cases he with | did _ ha => cases ha with | accepted hq => exact ⟨_, hq⟩
      obtain ⟨rfl, -⟩ := he.offered
      have hnew : ∀ l, v.tasks.length ∉ passed l p k := fun l hm => by
        have hacc := (hr.exists_traffic h₀ hq).mem_accepted hm
        obtain ⟨task, ht, -⟩ := (hr.mem_accepted h₀).1 hacc
        exact absurd (List.getElem?_eq_some_iff.1 ht).1 (Nat.lt_irrefl _)
      refine Slot.Told.concat (s := .waiting) (fun e' hm i hend => ?_) fun i hend => by cases hend
      rcases hend.mem_passed hm with hd | hf | hl
      · exact hnew _ hd
      · exact hnew _ hf
      · exact hnew _ hl

/-- A task that a worker runs has nothing for who waits for it. -/
theorem Run.result?_of_busy (hr : w₀.Run h w) (h₀ : w₀.IsNew) {p i t : Nat} {f : Program ν}
    (hx : w.worker? p i = some (.busy t f)) : w.result? t = none := by
  obtain ⟨⟨task, ht, rfl⟩, hnot⟩ := hr.not_ended_of_hand h₀ (t := t) hx (.inl (List.mem_singleton_self _))
  by_contra hres
  obtain ⟨r, hr'⟩ := Option.ne_none_iff_exists'.1 hres
  rw [World.result?, ht] at hr'
  obtain ⟨e, hm, j, hend⟩ := (hr.told h₀ ht).ended hr'
  exact hnot e hm j hend

/-- **What a task has for who waits for it stays.** -/
theorem Run.result?_stays (hr : w₀.Run h w) (h₀ : w₀.IsNew) (hk : w.Run k v) {t : Nat}
    {r : Except Failure ν} (ht : w.result? t = some r) : v.result? t = some r := by
  induction hk with
  | refl => exact ht
  | @tail k u v e hk he ih =>
    obtain ⟨task, htask, hslot⟩ := Option.bind_eq_some_iff.1 ih
    have hku := hr.append hk
    have hsame : e.writes t task.slot = task.slot := by
      refine e.writes_of_not_ends (fun p i hend => ?_) _
      obtain ⟨⟨task', ht', rfl⟩, hnot⟩ := hku.not_ended h₀ he hend
      obtain rfl := Option.some.inj (ht'.symm.trans htask)
      obtain ⟨e', hm, j, hend'⟩ := (hku.told h₀ htask).ended hslot
      exact hnot e' hm j hend'
    rw [World.result?, he.slot htask, hsame]
    exact hslot

/-- A task that has ended has something for who waits for it. -/
theorem Run.result?_of_ends (hr : w₀.Run h w) (h₀ : w₀.IsNew) {e : Event ν} (hm : e ∈ h) {p i t : Nat}
    (hend : e.Ends p i t) : ∃ r, w.result? t = some r := by
  obtain ⟨h₁, h₂, rfl⟩ := List.append_of_mem hm
  obtain ⟨u, u', hu, he, hk⟩ := hr.exists_happens
  obtain ⟨⟨task, ht, -⟩, -⟩ := hu.not_ended h₀ he hend
  have hres : u'.result? t = (e.writes t task.slot).result? := by rw [World.result?, he.slot ht]; rfl
  obtain ⟨r, hw⟩ : ∃ r, (e.writes t task.slot).result? = some r := by
    cases hend <;> rw [Event.writes, if_pos rfl] <;> exact ⟨_, rfl⟩
  exact ⟨r, (hu.tail he).result?_stays h₀ hk (hres.trans hw)⟩

/-- **What who waits for a task has been told** is what the task has, or that the limit is up. -/
theorem Run.answered (hr : w₀.Run h w) {s : Thread} {t : Nat} {limit : Option Duration}
    {next : Except Failure ν → Program ν} {r : Except Failure ν}
    (hm : .did s (.receive t limit next) (.result r) ∈ h) :
    ∃ h₁ h₂ u, h = h₁ ++ h₂ ∧ w₀.Run h₁ u ∧ u.Run h₂ w ∧
      (u.result? t = some r ∨ ∃ d, limit = some d ∧ r = .error (.timeout d) ∧ u.result? t = none) := by
  obtain ⟨h₁, h₂, rfl⟩ := List.append_of_mem hm
  obtain ⟨u, u', hu, he, hk⟩ := hr.exists_happens
  refine ⟨h₁, _, u, rfl, hu, Run.cons_iff.2 ⟨u', he, hk⟩, ?_⟩
  cases he with
  | did hp ha hn =>
    cases ha with
    | received hres => exact .inl hres
    | receiveExpired hres => exact .inr ⟨_, rfl, rfl, hres⟩

end

end World

end Handoff.Pool
