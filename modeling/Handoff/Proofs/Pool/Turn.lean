import Handoff.Proofs.Pool.History

/-! # One pool during a run

What one pool goes through in a move is known from the event alone, without what its workers run and
without the rest of the world, as long as all that jobs end with can be disposed of.

* `Ending.IsDisposable`: what can be disposed of. No worker goes down with it.
* `Program.Harmless`, `World.Harmless`: no program ends with anything else.
* `View`: what is seen of a pool. Of a worker, that is its place.
* `Turn`: what an event does to the view of a pool, and what it needs.
* `Happens.turn_of_up`, `Happens.turn`: every move in which no worker goes down is such a turn of each
  pool, and so is every move of a harmless world.
* `Run.view_induction`: what turns keep holds of a pool after every run.
-/

namespace Handoff.Pool

variable {ν : Type}

/-! ### Harmless programs -/

/-- What can be disposed of: a value or a payload that does not break off who disposes of it. -/
def Ending.IsDisposable : Ending ν → Prop
  | value _ => True
  | fragile _ => False
  | panic payload => payload ≠ .bomb

theorem Ending.IsDisposable.isFragile {e : Ending ν} (h : e.IsDisposable) : e.isFragile = false := by
  cases e with
  | value | panic => rfl
  | fragile => exact h.elim

/-- **No worker goes down with what can be disposed of.** -/
theorem Ending.IsDisposable.bringsDown {e : Ending ν} (h : e.IsDisposable) (w : World ν) (t : Nat) :
    w.bringsDown t e = false := by
  cases e with
  | value => rfl
  | fragile => exact h.elim
  | panic payload => exact beq_false_of_ne h

/-- A program that ends, whatever it is answered, with what can be disposed of, and offers only such programs as
jobs. -/
def Program.Harmless : Program ν → Prop
  | finish e => e.IsDisposable
  | submit _ _ job next => job.Harmless ∧ ∀ r, (next r).Harmless
  | receive _ _ next => ∀ r, (next r).Harmless
  | discard _ next => ∀ b, (next b).Harmless
  | closeIntake _ next => ∀ b, (next b).Harmless
  | markShuttingDown _ next => next.Harmless
  | mayAwait _ next => ∀ b, (next b).Harmless
  | awaitExit _ _ next => ∀ b, (next b).Harmless
  | markTerminated _ next => next.Harmless
  | readPhase _ next => ∀ f, (next f).Harmless
  | awaitCount _ _ _ next => ∀ n, (next n).Harmless
  | retain _ next => next.Harmless
  | release _ next => ∀ b, (next b).Harmless
  | openGate _ next => next.Harmless
  | awaitGate _ next => next.Harmless
  | record _ next => next.Harmless
  | threadName next => ∀ s, (next s).Harmless

/-- What is left of a harmless program is harmless. -/
theorem Program.Harmless.after {f g : Program ν} {a : Answer ν} (h : f.Harmless)
    (ha : f.after? a = some g) : g.Harmless := by
  cases f <;> cases a <;> simp only [Program.after?, reduceCtorEq, Option.some.injEq] at ha <;>
    subst ha <;> simp only [Program.Harmless] at h
  case submit => exact h.2 _
  all_goals first | exact h _ | exact h

theorem Program.harmless_yield (v : ν) : (yield v).Harmless := trivial

theorem Program.Harmless.forget {t : Nat} {next : Program ν} (h : next.Harmless) :
    (Program.forget t next).Harmless := by
  rintro (_ | _)
  · exact Payload.noConfusion
  · exact h

theorem Program.Harmless.join {t : Nat} {limit : Option Duration} {next : Except Failure ν → Program ν}
    (h : ∀ r, (next r).Harmless) : (Program.join t limit next).Harmless := by
  intro r
  dsimp only
  split
  · exact .forget (h _)
  · exact h r

theorem Program.Harmless.shutdown {p : Nat} {next : Program ν} (h : next.Harmless) :
    (Program.shutdown p next).Harmless := by
  intro b
  cases b <;> exact h

theorem Program.Harmless.awaitTermination {p : Nat} {limit : Option Duration}
    {next : Bool → Program ν} (h : ∀ b, (next b).Harmless) :
    (Program.awaitTermination p limit next).Harmless := by
  rintro (_ | _)
  · exact h false
  · rintro (_ | _)
    · exact h false
    · exact h true

theorem Program.Harmless.shutdownAndWait {p : Nat} {next : Bool → Program ν}
    (h : ∀ b, (next b).Harmless) : (Program.shutdownAndWait p next).Harmless :=
  .shutdown (.awaitTermination h)

theorem Program.Harmless.letGo {p : Nat} {next : Program ν} (h : next.Harmless) :
    (Program.letGo p next).Harmless := by
  rintro (_ | _)
  · exact h
  · rintro (_ | _ | _)
    · exact .shutdownAndWait fun _ => h
    · exact .shutdownAndWait fun _ => h
    · exact h

/-- A worker that does not go down. -/
def Worker.IsUp : Worker ν → Prop
  | .falling _ _ _ => False
  | _ => True

/-- A world in which every program ends with what can be disposed of, and no worker goes down. -/
structure World.Harmless (w : World ν) : Prop where
  program : ∀ self f, w.program? self = some f → f.Harmless
  job : ∀ (t : Nat) (task : Entry ν), w.tasks[t]? = some task → task.job.Harmless
  up : ∀ p i x, w.worker? p i = some x → x.IsUp

/-! ### What is seen of a pool -/

/-- What a worker is at, without what it runs. -/
inductive Place where
  | idle
  | busy (task : Nat)
  | counting (task : Nat)
  | falling (task : Nat) (others : List Nat)
  | gone
deriving DecidableEq, Repr

/-- The place of a worker. -/
def Worker.place : Worker ν → Place
  | idle => .idle
  | busy t _ => .busy t
  | counting t => .counting t
  | falling t _ others => .falling t others
  | gone => .gone

@[simp] theorem Worker.place_setProgram (f : Program ν) (x : Worker ν) :
    (x.setProgram f).place = x.place := by cases x <;> rfl

/-- **What is seen of a pool**: all but what its workers run, and the shares. -/
structure View where
  name : String
  accepting : Bool
  queue : List Nat
  phase : Phase
  completed : Nat
  places : List Place

/-- The view of a pool. -/
def WorkerPool.view (q : WorkerPool ν) : View where
  name := q.name
  accepting := q.accepting
  queue := q.queue
  phase := q.phase
  completed := q.completed
  places := q.workers.map Worker.place

/-- The view of pool `p` after an instruction by which no job is accepted. -/
def View.tuned (p : Nat) : Program ν → View → View
  | .closeIntake i _, v => if i = p then { v with accepting := false } else v
  | .markShuttingDown i _, v => if i = p then { v with phase := v.phase.shutDown } else v
  | .markTerminated i _, v => if i = p then { v with phase := .terminated } else v
  | _, v => v

/-- The pool whose jobs an event is about. -/
def Event.pool? : Event ν → Option Nat
  | did _ (.submit p _ _ _) (.task (.ok _)) => some p
  | did _ _ _ => none
  | took p _ _ => some p
  | delivered p _ _ _ => some p
  | counted p _ _ => some p
  | left p _ => some p
  | fell p _ _ => some p
  | lost p _ _ => some p

/-- **What an event does to the view of pool `p`**, and what it needs. -/
inductive Turn (p : Nat) : Event ν → View → View → Prop where
  | tuned {self f a v} (ha : ∀ t, a ≠ .task (.ok t)) : Turn p (.did self f a) v (v.tuned p f)
  | elsewhere {e v i} (he : e.pool? = some i) (hi : i ≠ p) : Turn p e v v
  | accepted {self holds job next t v} (ha : v.accepting = true) :
      Turn p (.did self (.submit p holds job next) (.task (.ok t))) v
        { v with queue := v.queue ++ [t] }
  | took {i t r v} (hi : v.places[i]? = some .idle) (hr : v.queue = t :: r) :
      Turn p (.took p i t) v { v with queue := r, places := v.places.set i (.busy t) }
  | delivered {i t o v} (hi : v.places[i]? = some (.busy t)) :
      Turn p (.delivered p i t o) v { v with places := v.places.set i (.counting t) }
  | counted {i t v} (hi : v.places[i]? = some (.counting t)) :
      Turn p (.counted p i t) v
        { v with completed := v.completed + 1, places := v.places.set i .idle }
  | left {i v} (hi : v.places[i]? = some .idle) (hr : v.queue = []) (ha : v.accepting = false) :
      Turn p (.left p i) v { v with places := v.places.set i .gone }

theorem Turn.of_tuned {p : Nat} {self : Thread} {f : Program ν} {a : Answer ν} {v v' : View}
    (ha : ∀ t, a ≠ .task (.ok t)) (hv : v' = v.tuned p f) : Turn p (.did self f a) v v' :=
  hv ▸ .tuned ha

namespace World

/-! ### Harmless worlds stay harmless -/

theorem Harmless.setPool {w : World ν} (h : w.Harmless) {p i : Nat} {q q' : WorkerPool ν}
    {x y : Worker ν} (hq : w.pools[p]? = some q) (hi : q.workers[i]? = some x)
    (hw : q'.workers = q.workers.set i y) (hy : y.IsUp)
    (hf : ∀ f, y.program? = some f → f.Harmless) : (w.setPool p q').Harmless where
  program s f hs := by
    rw [program?_setPool hq hi hw] at hs
    split at hs
    · exact hf f hs
    · exact h.program s f hs
  job := h.job
  up j k z hz := by
    rw [worker?_setPool hq hi hw] at hz
    split at hz
    · cases hz; exact hy
    · exact h.up j k z hz

theorem Harmless.answered {w v : World ν} (h : w.Harmless) {self : Thread} {f : Program ν}
    {a : Answer ν} (hf : f.Harmless) (ha : w.Answered self f a v) : v.Harmless where
  program s g hs := h.program s g (ha.program? s ▸ hs)
  up p i x hx := h.up p i x (ha.worker? p i ▸ hx)
  job t task ht := by
    rcases ha.accepted_or_tuned with ⟨p, holds, job, next, q, rfl, -, -, -, rfl⟩ | ⟨-, hv⟩
    · rw [accept, List.getElem?_append] at ht
      split at ht
      · exact h.job t task ht
      · obtain rfl := List.mem_singleton.1 (List.mem_of_getElem? ht)
        exact hf.1
    · exact h.job t task (hv.tasks ▸ ht)

theorem Harmless.setProgram {w : World ν} (h : w.Harmless) {self : Thread} {f g : Program ν}
    (hf : w.program? self = some f) (hg : g.Harmless) : (w.setProgram g self).Harmless where
  program s k hk := by
    rw [program?_setProgram g hf] at hk
    split at hk
    · cases hk; exact hg
    · exact h.program s k hk
  job t task ht := h.job t task (by cases self <;> exact ht)
  up p i x hx := by
    rw [worker?_setProgram g hf] at hx
    obtain ⟨y, hy, rfl⟩ := Option.map_eq_some_iff.1 hx
    have := h.up p i y hy
    split
    · cases y <;> exact this
    · exact this

theorem Harmless.store {w : World ν} (h : w.Harmless) (t : Nat) (e : Ending ν) : (w.store t e).Harmless where
  program := h.program
  up := h.up
  job := h.job

theorem Harmless.setSlot {w : World ν} (h : w.Harmless) (t : Nat) (s : Slot ν) :
    (w.setSlot t s).Harmless where
  program := h.program
  up := h.up
  job i task hi := by
    rw [World.setSlot, List.getElem?_modify] at hi
    obtain ⟨e, he, rfl⟩ := Option.map_eq_some_iff.1 hi
    have := h.job i e he
    split <;> exact this

/-- What a job has ended with in a harmless world. -/
theorem Harmless.isDisposable {w : World ν} (h : w.Harmless) {p i t : Nat} {q : WorkerPool ν} {e : Ending ν}
    (hq : w.pools[p]? = some q) (hi : q.workers[i]? = some (.busy t (.finish e))) : e.IsDisposable := by
  refine h.program (.worker p i) (.finish e) ?_
  rw [program?_worker, worker?_eq_some.2 ⟨q, hq, hi⟩]
  rfl

/-- In a harmless world no worker goes down. -/
theorem Harmless.not_bringsDown {w : World ν} (h : w.Harmless) {p i t : Nat} {q : WorkerPool ν} {e : Ending ν}
    (hq : w.pools[p]? = some q) (hi : q.workers[i]? = some (.busy t (.finish e))) :
    w.bringsDown t e ≠ true := by
  rw [(h.isDisposable hq hi).bringsDown]
  exact Bool.false_ne_true

theorem Harmless.not_falling {w : World ν} (h : w.Harmless) {p i t : Nat} {q : WorkerPool ν}
    {f : Program ν} {others : List Nat} (hq : w.pools[p]? = some q) :
    q.workers[i]? ≠ some (.falling t f others) :=
  fun hi => h.up p i _ (worker?_eq_some.2 ⟨q, hq, hi⟩)

/-- **A harmless world stays harmless.** -/
theorem Happens.harmless {w v : World ν} {e : Event ν} (he : w.Happens e v) (h : w.Harmless) :
    v.Harmless := by
  cases he with
  | @did self f a u g hp ha hn =>
    have hf := h.program self f hp
    exact (h.answered hf ha).setProgram ((ha.program? self).trans hp) (hf.after hn)
  | took hq hi hr ht =>
    exact h.setPool hq hi rfl trivial fun f hf => by cases hf; exact h.job _ _ ht
  | delivered hq hi ho =>
    rw [deliver, setWorker_eq_setPool (w := (w.store _ _).setSlot _ _) _ hq]
    exact ((h.store _ _).setSlot _ _).setPool hq hi rfl trivial fun f hf => by cases hf
  | counted hq hi => exact h.setPool hq hi rfl trivial fun f hf => by cases hf
  | left hq hi => exact h.setPool hq hi rfl trivial fun f hf => by cases hf
  | fell hq hi hd => exact absurd hd (h.not_bringsDown hq hi)
  | lost hq hi => exact absurd hi (h.not_falling hq)

theorem Run.harmless {w v : World ν} {k : List (Event ν)} (hr : w.Run k v) (h : w.Harmless) :
    v.Harmless := by
  induction hr with
  | refl => exact h
  | tail _ he ih => exact he.harmless ih

/-- An instruction leaves no handle with a value that cannot be disposed of, if there was none. -/
theorem Answered.fragile {w v : World ν} {self : Thread} {f : Program ν} {a : Answer ν}
    (h : w.Answered self f a v) (hw : w.fragile = []) : v.fragile = [] := by
  cases h with
  | received | discarded => simp only [giveUp, takeOut, hw, List.filter_nil]
  | accepted | refused | receiveExpired | closed | shuttingDown | awaitable | exited | exitExpired | terminated
  | phaseRead | countReached | countExpired | retained | released | gateOpened | gatePassed | recorded
  | nameRead => exact hw

/-- **No handle receives what cannot be disposed of** in a harmless world. -/
theorem Happens.fragile {w v : World ν} {e : Event ν} (he : w.Happens e v) (h : w.Harmless)
    (hw : w.fragile = []) : v.fragile = [] := by
  cases he with
  | @did self f a u g hp ha hn => cases self <;> exact ha.fragile hw
  | delivered hq hi =>
    have hf := (h.isDisposable hq hi).isFragile
    simp only [deliver, World.store, setWorker, World.setSlot, hf, hw]
    rfl
  | fell hq hi hd => exact absurd hd (h.not_bringsDown hq hi)
  | took | counted | left | lost => exact hw

theorem Run.fragile {w v : World ν} {k : List (Event ν)} (hr : w.Run k v) (h : w.Harmless)
    (hw : w.fragile = []) : v.fragile = [] := by
  induction hr with
  | refl => exact hw
  | tail hr he ih => exact he.fragile (hr.harmless h) ih

/-- Who drops a handle goes on, if no handle has received what cannot be disposed of. -/
theorem Happens.after_forget {w v : World ν} {s : Thread} {t : Nat} {next g : Program ν} {a : Answer ν}
    (he : w.Happens (.did s (.forget t next) a) v) (hw : w.fragile = [])
    (hn : (Program.forget t next).after? a = some g) : g = next := by
  cases he with
  | did hp ha =>
    cases ha with
    | discarded =>
      rw [hw] at hn
      exact (Option.some.inj hn).symm

/-- **How a thread has come to its program**: it had it before, or is a worker that has just taken a
task, or has gone on with its program. -/
theorem Happens.program {w v : World ν} {e : Event ν} (he : w.Happens e v) (hw : w.Harmless)
    {s : Thread} {f : Program ν} (hf : v.program? s = some f) :
    (e.thread ≠ s ∧ w.program? s = some f) ∨
    (∃ p i t task, s = .worker p i ∧ e = .took p i t ∧ w.tasks[t]? = some task ∧ f = task.job) ∨
    ∃ g a u, e = .did s g a ∧ w.program? s = some g ∧ w.Answered s g a u ∧ g.after? a = some f ∧
      v = u.setProgram f s := by
  by_cases hne : e.thread = s
  · cases s with
    | client i =>
      cases he with
      | @did self g a u k hg ha hn =>
        obtain rfl : self = .client i := hne
        rw [program?_setProgram k ((ha.program? _).trans hg), if_pos rfl] at hf
        obtain rfl := Option.some.inj hf
        exact Or.inr (Or.inr ⟨g, a, u, rfl, hg, ha, hn, rfl⟩)
      | took | delivered | counted | left | fell | lost => cases hne
    | worker p i =>
      rw [program?_worker] at hf
      obtain ⟨x, hx, hf⟩ := Option.bind_eq_some_iff.1 hf
      cases x with
      | idle | counting | gone => cases hf
      | falling t g others => exact ((he.harmless hw).up p i _ hx).elim
      | busy t g =>
        cases hf
        rcases he.busy hx with ⟨h, -⟩ | ⟨task, rfl, ht, rfl⟩ | ⟨g, a, rfl, hwx, hg⟩
        · exact absurd hne h
        · exact Or.inr (Or.inl ⟨p, i, t, task, rfl, rfl, ht, rfl⟩)
        · cases he with
          | did hp ha hn =>
            obtain rfl := Option.some.inj (hg.symm.trans hn)
            exact Or.inr (Or.inr ⟨_, _, _, rfl, hp, ha, hn, rfl⟩)
  · exact Or.inl ⟨hne, he.program?_of_ne hne ▸ hf⟩

/-! ### Every move is a turn of each pool -/

theorem view_setProgram (w : World ν) (g : Program ν) (self : Thread) (p : Nat) :
    (w.setProgram g self).pools[p]?.map WorkerPool.view = w.pools[p]?.map WorkerPool.view := by
  cases self with
  | client i => rfl
  | worker j i =>
    simp only [World.setProgram, List.getElem?_modify, Option.map_eq_map, Option.map_map]
    congr 1
    funext q
    simp only [Function.comp_apply]
    split
    · simp only [WorkerPool.view, View.mk.injEq, true_and]
      refine List.ext_getElem? fun k => ?_
      simp only [List.getElem?_map, List.getElem?_modify]
      rcases q.workers[k]? with _ | x
      · rfl
      · by_cases hk : i = k <;> simp [hk]
    · rfl

/-- What an instruction does to one pool. -/
theorem Answered.turn {w v : World ν} {self : Thread} {f : Program ν} {a : Answer ν}
    (h : w.Answered self f a v) {p : Nat} {q : WorkerPool ν} (hq : w.pools[p]? = some q) :
    ∃ q', v.pools[p]? = some q' ∧ Turn p (.did self f a) q.view q'.view := by
  have changed : ∀ {i : Nat} {x x' : WorkerPool ν}, w.pools[i]? = some x →
      (∀ t, a ≠ .task (.ok t)) → (i = p → x'.view = x.view.tuned p f) →
      (i ≠ p → q.view = q.view.tuned p f) →
      ∃ q', (w.setPool i x').pools[p]? = some q' ∧ Turn p (.did self f a) q.view q'.view := by
    intro i x x' hx ha h1 h2
    rw [getElem?_setPool hx]
    split
    · next hi =>
      subst hi
      obtain rfl := Option.some.inj (hx.symm.trans hq)
      exact ⟨x', rfl, .of_tuned ha (h1 rfl)⟩
    · next hi => exact ⟨q, hq, .of_tuned ha (h2 hi)⟩
  cases h with
  | @accepted i holds job next x hx ht =>
    rw [getElem?_accept hx]
    split
    · next hi =>
      subst hi
      obtain rfl := Option.some.inj (hx.symm.trans hq)
      have hacc : x.accepting = true := by simp [WorkerPool.takesJobs] at ht; exact ht.1
      exact ⟨_, rfl, .accepted hacc⟩
    · next hi => exact ⟨q, hq, .elsewhere rfl hi⟩
  | closed hx =>
    exact changed hx (by simp) (fun hi => by simp [View.tuned, WorkerPool.view, hi])
      fun hi => by simp [View.tuned, hi]
  | shuttingDown hx =>
    exact changed hx (by simp) (fun hi => by simp [View.tuned, WorkerPool.view, hi])
      fun hi => by simp [View.tuned, hi]
  | terminated hx =>
    exact changed hx (by simp) (fun hi => by simp [View.tuned, WorkerPool.view, hi])
      fun hi => by simp [View.tuned, hi]
  | retained hx => exact changed hx (by simp) (fun _ => rfl) fun _ => rfl
  | released hx => exact changed hx (by simp) (fun _ => rfl) fun _ => rfl
  | refused | received | receiveExpired | discarded | awaitable | exited | exitExpired | phaseRead
  | countReached | countExpired | gateOpened | gatePassed | recorded | nameRead =>
    exact ⟨q, hq, .of_tuned (by simp) rfl⟩

/-- What a move of a worker that sets it to something else does to one pool. -/
theorem turn_setPool {w : World ν} {p i : Nat} {e : Event ν} {x x' q : WorkerPool ν}
    (hx : w.pools[i]? = some x) (he : e.pool? = some i) (ht : Turn i e x.view x'.view)
    (hq : w.pools[p]? = some q) :
    ∃ q', (w.setPool i x').pools[p]? = some q' ∧ Turn p e q.view q'.view := by
  rw [getElem?_setPool hx]
  split
  · next hi =>
    subst hi
    obtain rfl := Option.some.inj (hx.symm.trans hq)
    exact ⟨x', rfl, ht⟩
  · next hi => exact ⟨q, hq, .elsewhere he hi⟩

theorem view_places {q : WorkerPool ν} {i : Nat} {x : Worker ν} (hi : q.workers[i]? = some x) :
    q.view.places[i]? = some x.place := by
  simp [WorkerPool.view, hi]

theorem busy_of_view_places {q : WorkerPool ν} {i t : Nat}
    (hi : q.view.places[i]? = some (.busy t)) : ∃ f, q.workers[i]? = some (.busy t f) := by
  rw [WorkerPool.view, List.getElem?_map] at hi
  obtain ⟨x, hx, hp⟩ := Option.map_eq_some_iff.1 hi
  cases x <;> cases hp
  exact ⟨_, hx⟩

theorem view_setWorker (q : WorkerPool ν) (i : Nat) (x : Worker ν) :
    (q.setWorker i x).view = { q.view with places := q.view.places.set i x.place } := by
  simp [WorkerPool.view, WorkerPool.setWorker, List.map_set]

/-- **Every move in which no worker goes down is a turn of each pool.** -/
theorem Happens.turn_of_up {w v : World ν} {e : Event ν} (he : w.Happens e v)
    (hf : ∀ p i t, e ≠ .fell p i t) (hl : ∀ p i t, e ≠ .lost p i t) {p : Nat} {q : WorkerPool ν}
    (hq : w.pools[p]? = some q) : ∃ q', v.pools[p]? = some q' ∧ Turn p e q.view q'.view := by
  cases he with
  | @did self f a u g hp ha hn =>
    obtain ⟨q', hq', ht⟩ := ha.turn hq
    have hv := view_setProgram u g self p
    rw [hq'] at hv
    obtain ⟨r, hr, hrq⟩ := Option.map_eq_some_iff.1 hv
    exact ⟨r, hr, hrq ▸ ht⟩
  | @took i k x t r task hx hi hr ht =>
    refine turn_setPool hx rfl ?_ hq
    have := Turn.took (ν := ν) (p := i) (v := x.view) (view_places hi) hr
    simpa [WorkerPool.view, WorkerPool.setWorker, List.map_set, Worker.place] using this
  | delivered hx hi ho =>
    rw [deliver, setWorker_eq_setPool (w := (w.store _ _).setSlot _ _) _ hx]
    refine turn_setPool (w := (w.store _ _).setSlot _ _) hx rfl ?_ hq
    rw [view_setWorker]
    exact .delivered (view_places hi)
  | @counted i k x t hx hi =>
    refine turn_setPool hx rfl ?_ hq
    have := Turn.counted (ν := ν) (p := i) (v := x.view) (view_places hi)
    simpa [WorkerPool.view, WorkerPool.setWorker, List.map_set, Worker.place] using this
  | left hx hi hr ha =>
    refine turn_setPool hx rfl ?_ hq
    rw [view_setWorker]
    exact .left (view_places hi) hr ha
  | fell hx hi => exact absurd rfl (hf _ _ _)
  | lost hx hi => exact absurd rfl (hl _ _ _)

/-- **Every move of a harmless world is a turn of each of its pools.** -/
theorem Happens.turn {w v : World ν} {e : Event ν} (he : w.Happens e v) (h : w.Harmless) {p : Nat}
    {q : WorkerPool ν} (hq : w.pools[p]? = some q) :
    ∃ q', v.pools[p]? = some q' ∧ Turn p e q.view q'.view := by
  refine he.turn_of_up ?_ ?_ hq
  · rintro j i t rfl
    cases he with | fell hx hi hd => exact h.not_bringsDown hx hi hd
  · rintro j i t rfl
    cases he with | lost hx hi => exact h.not_falling hx hi

theorem Answered.length_pools {w v : World ν} {self : Thread} {f : Program ν} {a : Answer ν}
    (h : w.Answered self f a v) : v.pools.length = w.pools.length := by
  cases h <;> first | rfl | simp [accept, World.setPool]

/-- No pool comes or goes. -/
theorem Happens.length_pools {w v : World ν} {e : Event ν} (he : w.Happens e v) :
    v.pools.length = w.pools.length := by
  cases he with
  | @did self f a u g hp ha hn =>
    rw [← ha.length_pools]
    cases self <;> simp [World.setProgram]
  | fell hq hi =>
    simp only [goDown]
    split <;> simp [World.setPool, World.setSlot]
  | took | delivered | counted | left | lost =>
    simp [World.setPool, deliver, lose, World.setSlot, setWorker, World.store]

theorem Happens.exists_pool {w v : World ν} {e : Event ν} (he : w.Happens e v) {p : Nat}
    {q' : WorkerPool ν} (hq' : v.pools[p]? = some q') : ∃ q, w.pools[p]? = some q := by
  have hp := (List.getElem?_eq_some_iff.1 hq').1
  rw [he.length_pools] at hp
  exact ⟨_, List.getElem?_eq_getElem hp⟩

theorem Run.exists_pool {w v : World ν} {h : List (Event ν)} (hr : w.Run h v) {p : Nat}
    {q' : WorkerPool ν} (hq' : v.pools[p]? = some q') : ∃ q, w.pools[p]? = some q := by
  induction hr generalizing q' with
  | refl => exact ⟨q', hq'⟩
  | tail _ he ih =>
    obtain ⟨q, hq⟩ := he.exists_pool hq'
    exact ih hq

/-- **What turns keep holds of a pool after every run.** -/
theorem Run.view_induction {w v : World ν} {h : List (Event ν)} (hr : w.Run h v)
    (hw : w.Harmless) {p : Nat} {q₀ : WorkerPool ν} (hq₀ : w.pools[p]? = some q₀)
    {P : List (Event ν) → View → Prop} (start : P [] q₀.view)
    (turn : ∀ k e x y, P k x → Turn p e x y → P (k ++ [e]) y) :
    ∃ q, v.pools[p]? = some q ∧ P h q.view := by
  induction hr with
  | refl => exact ⟨q₀, hq₀, start⟩
  | tail hr he ih =>
    obtain ⟨q, hq, hP⟩ := ih
    obtain ⟨q', hq', ht⟩ := he.turn (hr.harmless hw) hq
    exact ⟨q', hq', turn _ _ _ _ hP ht⟩

end World

end Handoff.Pool
