import Handoff.Proofs.Pool.Calls
import Handoff.Proofs.Pool.ExactlyOnce

/-! # The life of a pool only goes forward

The intake of a pool, its phase and its workers change in separate moves, and several threads can be in
the midst of a call at once. Still the phase never goes back, a pool that is shut down takes no more
jobs, and who sees a pool terminated, or is told that its end has come, finds every worker gone and every
accepted job run and counted. What ties the three together is that a pool is moved on to terminated only
after its end was seen, and that an end stays.

* `Deserted`, `Drained`: a pool whose workers are gone, and what is true of such a pool.
* `Guarded`: whoever is about to mark a pool as terminated has seen its end, `Happens.guarded`.
* `ForwardOnly`: the statement about one pool in one run.
* `lifecycle_safe`: it holds for programs that use pools by calls, whatever the interleaving.
-/

namespace Handoff.Pool

variable {ν : Type}

/-! ### What turns do to the intake and the phase -/

theorem Turn.phase_le {p : Nat} {e : Event ν} {v v' : View} (ht : Turn p e v v') :
    v.phase.rank ≤ v'.phase.rank := by
  cases ht with
  | tuned ha =>
    unfold View.tuned
    split
    · split <;> exact Nat.le_refl _
    · split
      · exact Phase.rank_le_shutDown _
      · exact Nat.le_refl _
    · split
      · exact Phase.rank_le_terminated _
      · exact Nat.le_refl _
    · exact Nat.le_refl _
  | _ => exact Nat.le_refl _

theorem Turn.accepting {p : Nat} {e : Event ν} {v v' : View} (ht : Turn p e v v')
    (hv : v.accepting = false) : v'.accepting = false := by
  cases ht with
  | tuned ha => unfold View.tuned; split <;> first | exact hv | (split <;> first | exact hv | rfl)
  | _ => exact hv

theorem Turn.closes {p : Nat} {s : Thread} {next : Bool → Program ν} {a : Answer ν} {v v' : View}
    (ht : Turn p (.did s (.closeIntake p next) a) v v') : v'.accepting = false := by
  cases ht with
  | tuned ha => simp [View.tuned]
  | elsewhere he => cases he

/-- Only an instruction that says so moves a pool on to terminated. -/
theorem Turn.terminated {p : Nat} {e : Event ν} {v v' : View} (ht : Turn p e v v')
    (hv : v'.phase = .terminated) :
    v.phase = .terminated ∨ ∃ s next a, e = .did s (.markTerminated p next) a := by
  cases ht with
  | tuned ha =>
    unfold View.tuned at hv
    split at hv
    · split at hv <;> exact Or.inl hv
    · split at hv
      · left
        generalize v.phase = f at hv
        cases f <;> first | rfl | cases hv
      · exact Or.inl hv
    · split at hv
      · next hi => subst hi; exact Or.inr ⟨_, _, _, rfl⟩
      · exact Or.inl hv
    · exact Or.inl hv
  | _ => exact Or.inl hv

/-- Workers that are gone stay gone. -/
theorem Turn.places_of_gone {p : Nat} {e : Event ν} {v v' : View} (ht : Turn p e v v')
    (hv : ∀ x ∈ v.places, x = .gone) : v'.places = v.places := by
  cases ht with
  | tuned ha => exact View.places_tuned _ _ _
  | elsewhere | accepted => rfl
  | took hi | delivered hi | counted hi | left hi => cases hv _ (List.mem_of_getElem? hi)

theorem isDeserted_iff {q : WorkerPool ν} :
    q.isDeserted = true ↔ ∀ x ∈ q.view.places, x = .gone := by
  rw [WorkerPool.isDeserted, List.all_eq_true, WorkerPool.view, List.forall_mem_map]
  refine forall₂_congr fun x _ => ?_
  cases x <;> simp [Worker.isGone, Worker.place]

namespace World

/-! ### The end of a pool -/

/-- A pool whose workers are all gone. -/
def Deserted (w : World ν) (p : Nat) : Prop := ∃ q, w.pools[p]? = some q ∧ q.isDeserted = true

/-- **A pool with `n` workers that has come to its end**: they are gone, no job is queued or can come,
and every accepted job has been run and counted. -/
def Drained (w : World ν) (p n : Nat) : Prop :=
  ∃ q, w.pools[p]? = some q ∧ q.workers = List.replicate n .gone ∧ q.accepting = false ∧
    q.queue = [] ∧
    (∀ (t : Nat) (task : Entry ν), w.tasks[t]? = some task → task.pool = p →
      ∃ o, task.slot = .delivered o) ∧
    q.completed = (w.tasks.map Entry.pool).count p

/-- An end stays. -/
theorem Happens.deserted {w v : World ν} {e : Event ν} (he : w.Happens e v) (hw : w.Harmless)
    {p : Nat} (hd : w.Deserted p) : v.Deserted p := by
  obtain ⟨q, hq, hgone⟩ := hd
  obtain ⟨q', hq', ht⟩ := he.turn hw hq
  refine ⟨q', hq', ?_⟩
  rw [isDeserted_iff] at hgone ⊢
  rw [ht.places_of_gone hgone]
  exact hgone

theorem Run.deserted {w v : World ν} {h : List (Event ν)} (hr : w.Run h v) (hw : w.Harmless)
    {p : Nat} (hd : w.Deserted p) : v.Deserted p := by
  induction hr with
  | refl => exact hd
  | tail hr he ih => exact he.deserted (hr.harmless hw) ih

/-- The tasks of a pool are as many as the jobs that it has accepted. -/
theorem Run.count_tasks {w₀ w : World ν} {h : List (Event ν)} (hr : w₀.Run h w) (h₀ : w₀.IsNew)
    (hw : w₀.Harmless) (p : Nat) :
    h.countP (Event.isAcceptedBy p) = (w.tasks.map Entry.pool).count p := by
  induction hr with
  | refl => rw [h₀.tasks]; rfl
  | @tail k v u e hr he ih =>
    have hslot : ∀ t s, (v.setSlot t s).tasks.map Entry.pool = v.tasks.map Entry.pool := by
      intro t s
      refine List.ext_getElem? fun i => ?_
      rw [setSlot, List.getElem?_map, List.getElem?_map, List.getElem?_modify]
      by_cases hi : t = i <;> cases v.tasks[i]? <;> simp [hi]
    rw [countP_concat, ih]
    cases he with
    | @did self f a u g hp ha hn =>
      rw [tasks_setProgram]
      rcases ha.accepted_or_tuned with ⟨i, holds, job, next, q, rfl, rfl, hq, -, rfl⟩ | ⟨ha', hu⟩
      · rw [accept, List.map_append, List.count_append, List.map_singleton, List.count_singleton,
          Event.isAcceptedBy]
        cases i == p <;> rfl
      · rw [isAcceptedBy_of_ne (by rw [pool?_did ha']; simp), hu.tasks]; rfl
    | took | counted | left => rfl
    | delivered => exact congrArg (List.count p) (hslot _ _).symm
    | fell hq hi hd => exact absurd hd ((hr.harmless hw).not_bringsDown hq hi)
    | lost hq hi => exact absurd hi ((hr.harmless hw).not_falling hq)

/-- **A pool whose workers are gone has come to its end.** -/
theorem Run.drained {w₀ w : World ν} {h : List (Event ν)} (hr : w₀.Run h w) (h₀ : w₀.IsNew)
    (hw : w₀.Harmless) {p : Nat} {q₀ : WorkerPool ν} (hq₀ : w₀.pools[p]? = some q₀)
    (hd : w.Deserted p) : w.Drained p q₀.workers.length := by
  obtain ⟨q, hq, hgone⟩ := hd
  obtain ⟨q₀', n, hq₀', hsize, hn, -, hl⟩ := hr.pool h₀ hw hq
  obtain rfl := Option.some.inj (hq₀.symm.trans hq₀')
  rw [hsize]
  have hlen : q.workers.length = n := by simpa [WorkerPool.view] using hl.size
  have hall : ∀ x ∈ q.workers, x = .gone := fun x hx =>
    (hl.of_isLost hx (by
      have := List.all_eq_true.1 hgone x hx
      cases x <;> first | rfl | cases this)).1
  have hends := hl.gone (by
    have := List.getElem_mem (l := q.workers) (n := 0) (by omega)
    rw [WorkerPool.view, List.mem_map]
    exact ⟨_, this, by rw [hall _ this]; rfl⟩)
  refine ⟨q, hq, List.eq_replicate_iff.2 ⟨hlen, hall⟩, hends.1, hends.2, fun t task ht hp => ?_, ?_⟩
  · cases hr.whereabouts h₀ hw ht with
    | done _ hs => exact ⟨_, hs⟩
    | queued _ hq' hm =>
      rw [hp, hq] at hq'
      obtain rfl := Option.some.inj hq'
      rw [show q.queue = [] from hends.2] at hm
      cases hm
    | running _ hx =>
      rw [hp] at hx
      obtain ⟨q', hq', hi⟩ := worker?_eq_some.1 hx
      obtain rfl := Option.some.inj (hq.symm.trans hq')
      cases hall _ (List.mem_of_getElem? hi)
  · have hnone : q.view.places.countP Place.hasTask = 0 :=
      List.countP_eq_zero.2 fun x hx => by rw [isDeserted_iff.1 hgone x hx]; simp [Place.hasTask]
    have := hl.accepted
    rw [hr.count_tasks h₀ hw, hnone, show q.view.queue = [] from hends.2] at this
    simpa [WorkerPool.view] using this.symm

/-! ### Who marks a pool as terminated has seen its end -/

/-- A world in which every program is careful, whoever is about to mark a pool as terminated has seen its
end, and so has whoever has done it. -/
structure Guarded (w : World ν) : Prop where
  program : ∀ s f, w.program? s = some f →
    f.Careful none ∨ ∃ p, f.Careful (some p) ∧ w.Deserted p
  job : ∀ (t : Nat) (task : Entry ν), w.tasks[t]? = some task → task.job.Careful none
  terminated : ∀ (p : Nat) (q : WorkerPool ν), w.pools[p]? = some q → q.phase = .terminated →
    w.Deserted p

/-- A thread that marks a pool as terminated has seen its end. -/
theorem Guarded.deserted {w : World ν} (hg : w.Guarded) {s : Thread} {p : Nat} {next : Program ν}
    (hf : w.program? s = some (.markTerminated p next)) : w.Deserted p := by
  rcases hg.program s _ hf with h | ⟨i, h, hd⟩
  · cases h.1
  · cases h.1; exact hd

theorem Guarded.after {w u : World ν} {s : Thread} {g f : Program ν} {a : Answer ν} (hg : w.Guarded)
    (hp : w.program? s = some g) (ha : w.Answered s g a u) (hn : g.after? a = some f) :
    f.Careful none ∨ ∃ p, f.Careful (some p) ∧ w.Deserted p := by
  obtain ⟨seen, hc⟩ : ∃ seen, g.Careful seen := by
    rcases hg.program s g hp with h | ⟨p, h, -⟩
    · exact ⟨_, h⟩
    · exact ⟨_, h⟩
  rcases hc.after hn with h | ⟨p, limit, next, rfl, rfl, h⟩
  · exact Or.inl h
  · cases ha with
    | exited hq hd => exact Or.inr ⟨p, h, _, hq, hd⟩

/-- **Every move keeps a world guarded.** -/
theorem Happens.guarded {w v : World ν} {e : Event ν} (he : w.Happens e v) (hw : w.Harmless)
    (hg : w.Guarded) : v.Guarded where
  program s f hf := by
    have stays : (f.Careful none ∨ ∃ p, f.Careful (some p) ∧ w.Deserted p) →
        f.Careful none ∨ ∃ p, f.Careful (some p) ∧ v.Deserted p := by
      rintro (h | ⟨p, h, hd⟩)
      · exact Or.inl h
      · exact Or.inr ⟨p, h, he.deserted hw hd⟩
    rcases he.program hw hf with ⟨-, h⟩ | ⟨p, i, t, task, -, -, ht, rfl⟩ |
      ⟨g, a, u, -, hp, ha, hn, -⟩
    · exact stays (hg.program s f h)
    · exact Or.inl (hg.job t task ht)
    · exact stays (hg.after hp ha hn)
  job t task ht := by
    rcases he.of_task ht with ⟨slot, ht⟩ | ⟨s, p, holds, job, next, -, hp, rfl⟩
    · have := hg.job t _ ht
      exact this
    · rcases hg.program s _ hp with h | ⟨i, h, -⟩
      · exact h.1
      · exact h.1
  terminated p q' hq' hphase := by
    obtain ⟨q, hq⟩ := he.exists_pool hq'
    obtain ⟨x, hx, ht⟩ := he.turn hw hq
    obtain rfl := Option.some.inj (hx.symm.trans hq')
    rcases ht.terminated hphase with h | ⟨s, next, a, rfl⟩
    · exact he.deserted hw (hg.terminated p q hq h)
    · cases he with
      | did hp ha hn => exact Happens.deserted (.did hp ha hn) hw (hg.deserted hp)

theorem Run.guarded {w₀ w : World ν} {h : List (Event ν)} (hr : w₀.Run h w) (hw : w₀.Harmless)
    (hg : w₀.Guarded) : w.Guarded := by
  induction hr with
  | refl => exact hg
  | tail hr he ih => exact he.guarded (hr.harmless hw) ih

/-- A new world is guarded if its clients use pools by calls. -/
theorem IsNew.guarded {w : World ν} (h₀ : w.IsNew) (hc : ∀ f ∈ w.clients, f.Calls) : w.Guarded where
  program s f hf := by
    cases s with
    | client i => exact Or.inl (hc f (List.mem_of_getElem? hf)).careful
    | worker p i =>
      rw [program?_worker] at hf
      obtain ⟨x, hx, hf⟩ := Option.bind_eq_some_iff.1 hf
      rw [h₀.worker? hx] at hf
      cases hf
  job t task ht := by rw [h₀.tasks] at ht; cases ht
  terminated p q hq hphase := by
    obtain ⟨n, -, name, shares, rfl⟩ := h₀.pools p q hq
    cases hphase

/-! ### One pool in one run -/

/-- **The life of pool `p` only goes forward** in a run with history `h` from `w₀` to `w`. The pool was
`q₀` at the start. -/
structure ForwardOnly (p : Nat) (q₀ : WorkerPool ν) (h : List (Event ν)) (w : World ν) :
    Prop where
  /-- Its phase does not go back. -/
  phase : ∀ k v q, w.Run k v → w.pools[p]? = some q →
    ∃ q', v.pools[p]? = some q' ∧ q.phase.rank ≤ q'.phase.rank
  /-- Who asks for its phase later is not told an earlier one. -/
  observed : ∀ h₁ h₂ s s' next next' f f',
    h = h₁ ++ .did s (.readPhase p next) (.phase f) :: h₂ →
    .did s' (.readPhase p next') (.phase f') ∈ h₂ → f.rank ≤ f'.rank
  /-- Once its intake has been closed, with which a shutdown begins, every job is refused. -/
  refused : ∀ h₁ h₂ s next a, h = h₁ ++ .did s (.closeIntake p next) a :: h₂ →
    ∀ s' holds job next' r, .did s' (.submit p holds job next') (.task r) ∈ h₂ →
      r = .error (.poolShutdown q₀.name)
  /-- When it is terminated, it has come to its end. -/
  terminated : ∀ q, w.pools[p]? = some q → q.phase = .terminated → w.Drained p q₀.workers.length
  /-- When anybody who has waited for its end was told that it has come, it has. -/
  awaited : ∀ s limit next, .did s (.awaitExit p limit next) (.flag true) ∈ h →
    w.Drained p q₀.workers.length
  /-- When anybody has marked it as terminated, with which such a wait ends, it has come to its
  end. -/
  marked : ∀ s next a, .did s (.markTerminated p next) a ∈ h → w.Drained p q₀.workers.length
  /-- Who waits for its end before it was shut down, or as one of its workers, is told that it has not
  come, and this changes nothing else. -/
  declined : ∀ s limit next q, w.program? s = some (.awaitTermination p limit next) →
    w.pools[p]? = some q → (q.accepting = true ∨ s.worksFor p = true) →
      (∃ e, e.thread = s ∧ w.Happens e (w.setProgram (next false) s)) ∧
      ∀ e v, w.Happens e v → e.thread = s → v = w.setProgram (next false) s

section

variable {w₀ w : World ν} {h : List (Event ν)}

/-- What a run does to the phase, the intake and the name of a pool. -/
theorem Run.forward (hr : w₀.Run h w) (hw : w₀.Harmless) {p : Nat} {q : WorkerPool ν}
    (hq : w₀.pools[p]? = some q) :
    ∃ q', w.pools[p]? = some q' ∧ q.phase.rank ≤ q'.phase.rank ∧
      (q.accepting = false → q'.accepting = false) ∧ q'.name = q.name := by
  refine hr.view_induction hw hq
    (P := fun _ v => q.phase.rank ≤ v.phase.rank ∧ (q.accepting = false → v.accepting = false) ∧
      v.name = q.name)
    ⟨Nat.le_refl _, id, rfl⟩ fun k e x y hx ht => ?_
  exact ⟨hx.1.trans ht.phase_le, fun ha => ht.accepting (hx.2.1 ha), ht.name.trans hx.2.2⟩

theorem Run.observed (hr : w₀.Run h w) (hw : w₀.Harmless) {p : Nat} {h₁ h₂ : List (Event ν)}
    {s s' : Thread} {next next' : Phase → Program ν} {f f' : Phase}
    (hh : h = h₁ ++ .did s (.readPhase p next) (.phase f) :: h₂)
    (hm : .did s' (.readPhase p next') (.phase f') ∈ h₂) : f.rank ≤ f'.rank := by
  obtain ⟨k₁, k₂, rfl⟩ := List.append_of_mem hm
  obtain ⟨v, v', hv, he, hr'⟩ := (hh ▸ hr).exists_happens
  obtain ⟨u, u', hu, he', -⟩ := hr'.exists_happens
  have hwv := hv.harmless hw
  cases he with
  | did hp ha hn =>
    cases ha with
    | phaseRead hq =>
      obtain ⟨q', hq', hle, -⟩ := ((Run.refl.tail (.did hp (.phaseRead hq) hn)).append hu).forward hwv hq
      cases he' with
      | did hp' ha' hn' =>
        cases ha' with
        | phaseRead hx =>
          obtain rfl := Option.some.inj (hq'.symm.trans hx)
          exact hle

theorem Run.refused_of_closed (hr : w₀.Run h w) (hw : w₀.Harmless) {p : Nat}
    {q₀ : WorkerPool ν} (hq₀ : w₀.pools[p]? = some q₀) {h₁ h₂ : List (Event ν)} {s s' : Thread}
    {next : Bool → Program ν} {a : Answer ν} {holds : List Nat} {job : Program ν}
    {next' : Except Failure Nat → Program ν} {r : Except Failure Nat}
    (hh : h = h₁ ++ .did s (.closeIntake p next) a :: h₂)
    (hm : .did s' (.submit p holds job next') (.task r) ∈ h₂) :
    r = .error (.poolShutdown q₀.name) := by
  obtain ⟨k₁, k₂, rfl⟩ := List.append_of_mem hm
  obtain ⟨v, v', hv, he, hr'⟩ := (hh ▸ hr).exists_happens
  obtain ⟨u, u', hu, he', -⟩ := hr'.exists_happens
  have hwv := hv.harmless hw
  obtain ⟨q, hq, -, -, hname⟩ := hv.forward hw hq₀
  obtain ⟨q', hq', ht⟩ := he.turn hwv hq
  obtain ⟨x, hx, -, hclosed, hname'⟩ := hu.forward (he.harmless hwv) hq'
  have hacc : x.accepting = false := hclosed ht.closes
  cases he' with
  | did hp ha hn =>
    cases ha with
    | accepted hy hyt =>
      obtain rfl := Option.some.inj (hx.symm.trans hy)
      rw [WorkerPool.takesJobs, hacc] at hyt
      cases hyt
    | refused hy =>
      obtain rfl := Option.some.inj (hx.symm.trans hy)
      rw [hname', show q'.name = q.name from ht.name, hname]

/-- Who is about to wait for the end of a pool in vain. -/
theorem Happens.declined {v : World ν} {e : Event ν} (he : w.Happens e v) {s : Thread} {p : Nat}
    {limit : Option Duration} {next : Bool → Program ν} {q : WorkerPool ν} (hs : e.thread = s)
    (hf : w.program? s = some (.awaitTermination p limit next)) (hq : w.pools[p]? = some q)
    (hno : q.accepting = true ∨ s.worksFor p = true) : v = w.setProgram (next false) s := by
  obtain ⟨a, u, g, -, ha, hn, rfl⟩ := he.of_program hs hf fun _ hx => by cases hx
  cases ha with
  | awaitable hx =>
    obtain rfl := Option.some.inj (hq.symm.trans hx)
    have hfalse : (!q.accepting && !s.worksFor p) = false := by
      rcases hno with h | h <;> simp [h]
    rw [hfalse] at hn
    obtain rfl := Option.some.inj hn
    rfl

end

/-- **The life of every pool only goes forward**, if clients and jobs use pools by calls, whatever the
interleaving. -/
theorem lifecycle_safe {w₀ : World ν} (h₀ : w₀.IsNew) (hc : ∀ f ∈ w₀.clients, f.Calls) {p : Nat}
    {q₀ : WorkerPool ν} (hq₀ : w₀.pools[p]? = some q₀) {h : List (Event ν)} {w : World ν}
    (hr : w₀.Run h w) : ForwardOnly p q₀ h w := by
  have hw := h₀.harmless fun f hf => (hc f hf).harmless
  have hguarded : ∀ {k v}, w₀.Run k v → v.Guarded := fun hv => hv.guarded hw (h₀.guarded hc)
  have drained : w.Deserted p → w.Drained p q₀.workers.length := hr.drained h₀ hw hq₀
  have later : ∀ {e}, e ∈ h → ∃ k v v', w₀.Run k v ∧ v.Happens e v' ∧
      (v.Deserted p → w.Deserted p) := by
    intro e hm
    obtain ⟨h₁, h₂, hh⟩ := List.append_of_mem hm
    obtain ⟨v, v', hv, he, hr'⟩ := (hh ▸ hr).exists_happens
    have hwv := hv.harmless hw
    exact ⟨h₁, v, v', hv, he, fun hd => hr'.deserted (he.harmless hwv) (he.deserted hwv hd)⟩
  refine ⟨fun k v q hv hq => ?_, fun h₁ h₂ s s' next next' f f' => hr.observed hw,
    fun h₁ h₂ s next a hh s' holds job next' r => hr.refused_of_closed hw hq₀ hh,
    fun q hq hphase => drained ((hguarded hr).terminated p q hq hphase),
    fun s limit next hm => ?_, fun s next a hm => ?_, fun s limit next q hf hq hno => ⟨?_, ?_⟩⟩
  · obtain ⟨q', hq', hle, -⟩ := hv.forward (hr.harmless hw) hq
    exact ⟨q', hq', hle⟩
  · obtain ⟨k, v, v', -, he, hd⟩ := later hm
    cases he with
    | did hp ha hn =>
      cases ha with
      | exited hq hgone => exact drained (hd ⟨_, hq, hgone⟩)
  · obtain ⟨k, v, v', hv, he, hd⟩ := later hm
    cases he with
    | did hp ha hn => exact drained (hd ((hguarded hv).deserted hp))
  · have he := Happens.did hf (.awaitable hq) rfl
    exact ⟨_, rfl, he.declined rfl hf hq hno ▸ he⟩
  · exact fun e v he hs => he.declined hs hf hq hno

/-- Two clients that shut one pool down at the same time, and wait for its end with a job in it. -/
def twoWaiters : World Bool where
  pools := [.start Bool "pool" 1]
  clients := [.submit 0 [] (.shutdownAndWait 0 .yield) fun _ => .shutdownAndWait 0 .yield,
    .shutdownAndWait 0 .yield]

/-- A run of the two clients in which one has waited and the other is about to mark the pool as shutting
down. -/
theorem lifecycle_safe_twoWaiters :
    ∃ h w, twoWaiters.Run h w ∧ w.ending? 0 = some (.value true) ∧ w.ending? 1 = none ∧
      ForwardOnly 0 (.start Bool "pool" 1) h w := by
  obtain ⟨w, hw, h0, h1⟩ : ∃ w, twoWaiters.follow?
      ([.act (.client 0), .act (.client 1), .act (.client 0), .act (.client 0)] ++
        List.replicate 6 (.act (.worker 0 0)) ++
        [.act (.client 0), .act (.client 0)]) = some w ∧
      w.ending? 0 = some (.value true) ∧ w.ending? 1 = none := ⟨_, rfl, rfl, rfl⟩
  obtain ⟨h, hr⟩ := run_of_follow? hw
  refine ⟨h, w, hr, h0, h1, lifecycle_safe ⟨rfl, rfl, rfl, fun p q hq => ?_⟩ ?_ rfl hr⟩
  · obtain rfl := List.mem_singleton.1 (List.mem_of_getElem? hq)
    exact ⟨1, by decide, "pool", 1, rfl⟩
  · have hwait : (Program.shutdownAndWait 0 .yield : Program Bool).Calls :=
      .shutdownAndWait Program.calls_yield
    simp only [twoWaiters, List.forall_mem_cons]
    exact ⟨.submit hwait fun _ => hwait, hwait, by simp⟩

end World

end Handoff.Pool
