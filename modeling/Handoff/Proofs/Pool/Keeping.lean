import Handoff.Proofs.Pool.Slots

/-! # The same run with handles kept

A handle is given up when it is dropped, or when who waits with it has waited long enough. What the world
does then is compared with what it does in the same run with the handles of some tasks kept: the programs
do not give them up, and go on as they do where the limit is up. A worker sends what its job has ended with
to the handle in the one run, and disposes of it in the other. If it can, every other move is the same, with
the same answers, and in between the two worlds differ in what is left of the programs and in which handles
are given up only.

* `Program.keep`, `World.keep`: the programs and the world with the handles of some tasks kept.
* `Event.kept?`: what an event is in the run with these handles kept, if it is there.
* `Keepable`: what has to be so in a world, so that a move with handles kept is the same. The jobs of these
  tasks have not ended with a value that cannot be disposed of.
* `Happens.keep`: one move in both runs.
* `Run.keep`: a run in which these handles are given up, and the same run with them kept.
* `IsStuck.keep`: where nothing can happen, nothing can happen with these handles kept.
-/

namespace Handoff.Pool

variable {ν : Type}

/-- What commutes with a change of one member commutes with the change. -/
theorem map_modify {α : Type} (f : α → α) {g k : α → α} (h : ∀ a, f (g a) = k (f a)) (l : List α) (i : Nat) :
    (l.modify i g).map f = (l.map f).modify i k := by
  refine List.ext_getElem? fun j => ?_
  by_cases hj : i = j <;> simp [hj, Function.comp_def, h]

/-! ### Programs -/

/-- Whether the next instruction gives up the handle of a task in `T`, or waits with it for a span. -/
def Program.gives (T : Nat → Bool) : Program ν → Bool
  | discard t _ => T t
  | receive t (some _) _ => T t
  | _ => false

/-- **The program with the handles of the tasks in `T` kept.** Where it waits with one of them for a span, it
goes on as if the limit were up. -/
def Program.keep (T : Nat → Bool) : Program ν → Program ν
  | finish e => finish e
  | submit p holds job next => submit p holds (job.keep T) fun r => (next r).keep T
  | receive t none next => receive t none fun r => (next r).keep T
  | receive t (some d) next =>
    if T t then (next (.error (.timeout d))).keep T else receive t (some d) fun r => (next r).keep T
  | discard t next => if T t then (next true).keep T else discard t fun b => (next b).keep T
  | closeIntake p next => closeIntake p fun b => (next b).keep T
  | markShuttingDown p next => markShuttingDown p (next.keep T)
  | mayAwait p next => mayAwait p fun b => (next b).keep T
  | awaitExit p limit next => awaitExit p limit fun b => (next b).keep T
  | markTerminated p next => markTerminated p (next.keep T)
  | readPhase p next => readPhase p fun f => (next f).keep T
  | awaitCount p n limit next => awaitCount p n limit fun n => (next n).keep T
  | retain p next => retain p (next.keep T)
  | release p next => release p fun b => (next b).keep T
  | openGate g next => openGate g (next.keep T)
  | awaitGate g next => awaitGate g (next.keep T)
  | record v next => record v (next.keep T)
  | threadName next => threadName fun s => (next s).keep T

section

variable {T : Nat → Bool} {f g : Program ν} {a : Answer ν} {t : Nat}

/-- Where the handle is none of these, the wait stays. -/
theorem Program.keep_receive {d : Duration} {next : Except Failure ν → Program ν} (ht : T t = false) :
    (receive t (some d) next).keep T = receive t (some d) fun r => (next r).keep T := by
  rw [keep, if_neg (by simp [ht])]

theorem Program.keep_discard {next : Bool → Program ν} (ht : T t = false) :
    (discard t next).keep T = discard t fun b => (next b).keep T := by
  rw [keep, if_neg (by simp [ht])]

/-- What is left of a program that gives nothing up is kept. -/
theorem Program.after?_keep (hf : f.gives T = false) (hn : f.after? a = some g) :
    (f.keep T).after? a = some (g.keep T) := by
  cases f <;> cases a <;> simp only [after?, reduceCtorEq, Option.some.injEq] at hn <;> subst hn
  case receive.result t limit next r =>
    cases limit with
    | none => rfl
    | some d => rw [keep_receive hf]; rfl
  case discard.flag t next b => rw [keep_discard hf]; rfl
  all_goals rfl

end

/-- A program that has come to its end with handles kept has come to its end, or gives one up next. -/
theorem Program.eq_finish_or_gives {T : Nat → Bool} {f : Program ν} {e : Ending ν}
    (hf : f.keep T = .finish e) : f = .finish e ∨ f.gives T = true := by
  cases f with
  | finish => exact .inl hf
  | discard t next =>
    rw [keep] at hf
    split at hf
    · next ht => exact .inr ht
    · cases hf
  | receive t limit next =>
    cases limit with
    | none => cases hf
    | some d =>
      rw [keep] at hf
      split at hf
      · next ht => exact .inr ht
      · cases hf
  | _ => cases hf

/-! The calls give no handle up. -/

theorem Program.keep_shutdown (T : Nat → Bool) (p : Nat) (next : Program ν) :
    (shutdown p next).keep T = shutdown p (next.keep T) :=
  congrArg (closeIntake p) (funext fun wasOpen => by cases wasOpen <;> rfl)

theorem Program.keep_awaitTermination (T : Nat → Bool) (p : Nat) (limit : Option Duration)
    (next : Bool → Program ν) :
    (awaitTermination p limit next).keep T = awaitTermination p limit fun b => (next b).keep T := by
  refine congrArg (mayAwait p) (funext fun may => ?_)
  cases may
  · rfl
  · exact congrArg (awaitExit p limit) (funext fun gone => by cases gone <;> rfl)

theorem Program.keep_letGo (T : Nat → Bool) (p : Nat) (next : Program ν) :
    (letGo p next).keep T = letGo p (next.keep T) := by
  refine congrArg (release p) (funext fun last => ?_)
  cases last
  · rfl
  · refine congrArg (readPhase p) (funext fun phase => ?_)
    cases phase
    case terminated => rfl
    all_goals exact (keep_shutdown T p _).trans (congrArg _ (keep_awaitTermination T p none _))

theorem Program.keep_dispose (T : Nat → Bool) (holds : List Nat) :
    (dispose holds : Program ν).keep T = dispose holds := by
  induction holds with
  | nil => rfl
  | cons p holds ih => exact (keep_letGo T p _).trans (congrArg (letGo p) ih)

/-! ### Worlds -/

def Worker.keep (T : Nat → Bool) : Worker ν → Worker ν
  | busy t f => busy t (f.keep T)
  | falling t f others => falling t (f.keep T) others
  | x => x

def WorkerPool.keep (T : Nat → Bool) (q : WorkerPool ν) : WorkerPool ν :=
  { q with workers := q.workers.map (Worker.keep T) }

def Entry.keep (T : Nat → Bool) (task : Entry ν) : Entry ν := { task with job := task.job.keep T }

/-- **The world with the handles of the tasks in `T` kept** by all programs that run, are queued or were
offered. -/
def World.keep (T : Nat → Bool) (w : World ν) : World ν where
  pools := w.pools.map (WorkerPool.keep T)
  tasks := w.tasks.map (Entry.keep T)
  clients := w.clients.map (Program.keep T)
  gates := w.gates
  recorded := w.recorded
  givenUp := w.givenUp.filter fun t => !T t
  fragile := w.fragile

section

variable {T : Nat → Bool}

@[simp] theorem Worker.isLost_keep (x : Worker ν) : (x.keep T).isLost = x.isLost := by cases x <;> rfl

@[simp] theorem Worker.isGone_keep (x : Worker ν) : (x.keep T).isGone = x.isGone := by cases x <;> rfl

@[simp] theorem Worker.place_keep (x : Worker ν) : (x.keep T).place = x.place := by cases x <;> rfl

theorem Worker.program?_keep (x : Worker ν) :
    (x.keep T).program? = x.program?.map (Program.keep T) := by cases x <;> rfl

theorem Worker.keep_setProgram (f : Program ν) (x : Worker ν) :
    (x.setProgram f).keep T = (x.keep T).setProgram (f.keep T) := by cases x <;> rfl

@[simp] theorem WorkerPool.isLost_keep (q : WorkerPool ν) : (q.keep T).isLost = q.isLost := by
  simp [WorkerPool.isLost, WorkerPool.keep, List.all_map, Function.comp_def]

@[simp] theorem WorkerPool.isDeserted_keep (q : WorkerPool ν) :
    (q.keep T).isDeserted = q.isDeserted := by
  simp [WorkerPool.isDeserted, WorkerPool.keep, List.all_map, Function.comp_def]

@[simp] theorem WorkerPool.takesJobs_keep (q : WorkerPool ν) : (q.keep T).takesJobs = q.takesJobs := by
  rw [WorkerPool.takesJobs, WorkerPool.isLost_keep]; rfl

/-- **Nothing is seen of a pool that is not seen with handles kept.** -/
@[simp] theorem WorkerPool.view_keep (q : WorkerPool ν) : (q.keep T).view = q.view := by
  simp [WorkerPool.view, WorkerPool.keep, Function.comp_def]

theorem WorkerPool.keep_setWorker (q : WorkerPool ν) (i : Nat) (x : Worker ν) :
    (q.setWorker i x).keep T = (q.keep T).setWorker i (x.keep T) := by
  simp [WorkerPool.keep, WorkerPool.setWorker, List.map_set]

theorem WorkerPool.workers_keep (q : WorkerPool ν) (i : Nat) :
    (q.keep T).workers[i]? = q.workers[i]?.map (Worker.keep T) := List.getElem?_map ..

theorem WorkerPool.worker_keep {q : WorkerPool ν} {i : Nat} {x : Worker ν} (hi : q.workers[i]? = some x) :
    (q.keep T).workers[i]? = some (x.keep T) := by rw [workers_keep, hi]; rfl

namespace World

variable {w v : World ν}

theorem pools_keep (w : World ν) (p : Nat) :
    (w.keep T).pools[p]? = w.pools[p]?.map (WorkerPool.keep T) := List.getElem?_map ..

theorem pool_keep {p : Nat} {q : WorkerPool ν} (hq : w.pools[p]? = some q) :
    (w.keep T).pools[p]? = some (q.keep T) := by rw [pools_keep, hq]; rfl

theorem tasks_keep (w : World ν) (t : Nat) :
    (w.keep T).tasks[t]? = w.tasks[t]?.map (Entry.keep T) := List.getElem?_map ..

theorem keep_setPool (w : World ν) (p : Nat) (q : WorkerPool ν) :
    (w.setPool p q).keep T = (w.keep T).setPool p (q.keep T) := by
  simp [World.keep, setPool, List.map_set]

theorem keep_setSlot (w : World ν) (t : Nat) (s : Slot ν) :
    (w.setSlot t s).keep T = (w.keep T).setSlot t s := by
  simp only [World.keep, setSlot, World.mk.injEq, true_and, and_true]
  refine map_modify _ (fun task => ?_) _ _
  rfl

theorem keep_store (w : World ν) (t : Nat) (e : Ending ν) : (w.store t e).keep T = (w.keep T).store t e := rfl

theorem keep_takeOut (w : World ν) (t : Nat) : (w.takeOut t).keep T = (w.keep T).takeOut t := rfl

theorem keep_giveUp {t : Nat} (ht : T t = false) : (w.giveUp t).keep T = (w.keep T).giveUp t := by
  simp [World.keep, giveUp, takeOut, ht]

/-- An empty handle stays as it is. -/
theorem takeOut_of_not_mem {t : Nat} (ht : t ∉ w.fragile) : w.takeOut t = w := by
  have hfilter : w.fragile.filter (· != t) = w.fragile :=
    List.filter_eq_self.2 fun u hu => bne_iff_ne.2 fun hut => ht (hut ▸ hu)
  rw [takeOut, hfilter]

/-- An empty handle that is kept is not given up. -/
theorem keep_giveUp_of_kept {t : Nat} (ht : T t = true) (hw : t ∉ w.fragile) :
    (w.giveUp t).keep T = w.keep T := by
  rw [giveUp, takeOut_of_not_mem hw]
  simp [World.keep, ht]

theorem mem_givenUp_keep {t : Nat} : t ∈ (w.keep T).givenUp ↔ t ∈ w.givenUp ∧ T t = false := by
  simp [World.keep]

/-- A task has the same for who waits for it. -/
@[simp] theorem result?_keep (w : World ν) (t : Nat) : (w.keep T).result? t = w.result? t := by
  rw [result?, result?, tasks_keep]
  rcases w.tasks[t]? with _ | task <;> rfl

theorem nameOf_keep (w : World ν) (s : Thread) : (w.keep T).nameOf s = w.nameOf s := by
  cases s with
  | client i => rfl
  | worker p i =>
    rw [nameOf, nameOf, pools_keep]
    rcases w.pools[p]? with _ | q <;> rfl

theorem keep_accept (w : World ν) (p : Nat) (q : WorkerPool ν) (holds : List Nat) (job : Program ν) :
    (w.accept p q holds job).keep T = (w.keep T).accept p (q.keep T) holds (job.keep T) := by
  simp [World.keep, accept, setPool, List.map_set, WorkerPool.keep, Entry.keep]

theorem keep_fallingWith (w : World ν) (ts : List Nat) :
    (w.fallingWith ts).keep T = (w.keep T).fallingWith ts := by
  cases ts with
  | nil => rfl
  | cons t others =>
    have hholds : (w.keep T).holds t = w.holds t := by
      rw [holds, holds, tasks_keep]
      rcases w.tasks[t]? with _ | task <;> rfl
    rw [fallingWith, fallingWith, Worker.keep, Program.keep_dispose, hholds]

theorem program?_keep (w : World ν) (s : Thread) :
    (w.keep T).program? s = (w.program? s).map (Program.keep T) := by
  cases s with
  | client i => exact List.getElem?_map ..
  | worker p i =>
    simp only [program?, pools_keep]
    rcases w.pools[p]? with _ | q
    · rfl
    · simp only [Option.map_some, Option.bind_eq_bind, Option.bind_some, WorkerPool.workers_keep]
      rcases q.workers[i]? with _ | x
      · rfl
      · exact Worker.program?_keep x

theorem keep_setProgram (w : World ν) (g : Program ν) (s : Thread) :
    (w.setProgram g s).keep T = (w.keep T).setProgram (g.keep T) s := by
  cases s with
  | client i => simp [World.keep, World.setProgram, List.map_set]
  | worker p i =>
    simp only [World.keep, World.setProgram, World.mk.injEq, and_true]
    refine map_modify _ (fun q => ?_) _ _
    simp only [WorkerPool.keep, WorkerPool.mk.injEq, true_and]
    exact map_modify _ (Worker.keep_setProgram g) _ _

/-- A thread that goes on with the program that it has goes on as before. -/
theorem setProgram_self {f : Program ν} {s : Thread} (hf : w.program? s = some f) :
    w.setProgram f s = w := by
  cases s with
  | client i =>
    obtain ⟨hi, rfl⟩ := List.getElem?_eq_some_iff.1 hf
    rw [World.setProgram, List.set_getElem_self]
  | worker p i =>
    obtain ⟨q, x, hq, hi, hx⟩ := exists_worker hf
    have hself : x.setProgram f = x := by cases x <;> cases hx <;> rfl
    rw [setProgram_eq_setPool f hq hi, hself]
    obtain ⟨hlt, rfl⟩ := List.getElem?_eq_some_iff.1 hi
    rw [WorkerPool.setWorker, List.set_getElem_self, setPool_self hq]

theorem keep_setWorker (w : World ν) (p i : Nat) (x : Worker ν) :
    (w.setWorker p i x).keep T = (w.keep T).setWorker p i (x.keep T) := by
  simp only [World.keep, setWorker, World.mk.injEq, and_true]
  exact map_modify _ (fun q => q.keep_setWorker i x) _ _

theorem keep_deliver (w : World ν) (p i t : Nat) (o : Except String ν) :
    (w.deliver p i t o).keep T = (w.keep T).deliver p i t o := by
  rw [deliver, keep_setWorker, keep_setSlot]; rfl

theorem keep_lose (w : World ν) (p i t : Nat) (others : List Nat) :
    (w.lose p i t others).keep T = (w.keep T).lose p i t others := by
  rw [lose, keep_setWorker, keep_setSlot, keep_fallingWith]; rfl

theorem keep_goDown (w : World ν) (p i t : Nat) (q : WorkerPool ν) :
    (w.goDown p i t q).keep T = (w.keep T).goDown p i t (q.keep T) := by
  have hgone : (q.keep T).setWorker i .gone = (q.setWorker i .gone).keep T :=
    (q.keep_setWorker i .gone).symm
  simp only [goDown, hgone, WorkerPool.isLost_keep]
  split
  · rw [keep_setPool, keep_setSlot]
    congr 1
    rw [← keep_setSlot, show ((q.setWorker i .gone).keep T).queue = (q.setWorker i .gone).queue from rfl,
      ← keep_fallingWith, ← WorkerPool.keep_setWorker]
    rfl
  · rw [keep_setPool, keep_setSlot]

/-- **What has to be so in a world**, so that a move with the handles of the tasks in `T` kept is the same. -/
structure Keepable (T : Nat → Bool) (w : World ν) : Prop where
  /-- None of these handles has received a value that cannot be disposed of. -/
  received : ∀ t, T t = true → t ∉ w.fragile
  /-- None of these jobs has ended with one. -/
  ended : ∀ p i t x, w.worker? p i = some (.busy t (.finish (.fragile x))) → T t = false
  /-- A task that a worker runs has nothing for who waits for it. -/
  running : ∀ p i t f, w.worker? p i = some (.busy t f) → w.result? t = none

/-- **A worker goes down with what its job has ended with in both worlds**, or in none. -/
theorem Keepable.bringsDown_keep (hw : w.Keepable T) {p i t : Nat} {e : Ending ν}
    (hx : w.worker? p i = some (.busy t (.finish e))) :
    (w.keep T).bringsDown t e = w.bringsDown t e := by
  rw [Bool.eq_iff_iff, bringsDown_iff, bringsDown_iff, mem_givenUp_keep]
  refine or_congr_right (and_congr_right ?_)
  rintro ⟨x, rfl⟩
  exact and_iff_left (hw.ended p i t x hx)

/-! ### One move in both runs -/

/-- **An instruction that gives nothing up is answered the same.** -/
theorem Answered.keep {s : Thread} {f : Program ν} {a : Answer ν} (h : w.Answered s f a v)
    (hf : f.gives T = false) : (w.keep T).Answered s (f.keep T) a (v.keep T) := by
  cases h with
  | @accepted p holds job next q hq ht =>
    have hlength : w.tasks.length = (w.keep T).tasks.length := by simp [World.keep]
    rw [keep_accept, hlength]
    exact .accepted (pool_keep hq) (by simpa using ht)
  | @refused p holds job next q hq ht => exact .refused (q := q.keep T) (pool_keep hq) (by simpa using ht)
  | @received t limit next r hr =>
    have hr' : (w.keep T).result? t = some r := by simpa using hr
    rw [keep_takeOut]
    cases limit with
    | none => exact .received hr'
    | some d => rw [Program.keep_receive hf]; exact .received hr'
  | @receiveExpired t d next hr =>
    rw [Program.keep_receive hf]
    exact .receiveExpired (by simpa using hr)
  | @discarded t next =>
    rw [Program.keep_discard hf, keep_giveUp hf]
    exact .discarded
  | closed hq => rw [keep_setPool]; exact .closed (pool_keep hq)
  | shuttingDown hq => rw [keep_setPool]; exact .shuttingDown (pool_keep hq)
  | @awaitable p next q hq => exact .awaitable (q := q.keep T) (pool_keep hq)
  | exited hq hd => exact .exited (pool_keep hq) (by simpa using hd)
  | exitExpired hq hl => exact .exitExpired (pool_keep hq) (by simpa using hl)
  | terminated hq => rw [keep_setPool]; exact .terminated (pool_keep hq)
  | @phaseRead p next q hq => exact .phaseRead (q := q.keep T) (pool_keep hq)
  | @countReached p n limit next q hq hn => exact .countReached (q := q.keep T) (pool_keep hq) hn
  | @countExpired p n d next q hq hn => exact .countExpired (q := q.keep T) (pool_keep hq) hn
  | retained hq => rw [keep_setPool]; exact .retained (pool_keep hq)
  | released hq => rw [keep_setPool]; exact .released (pool_keep hq)
  | gateOpened => exact .gateOpened
  | gatePassed hg => exact .gatePassed hg
  | recorded => exact .recorded
  | nameRead =>
    rw [← nameOf_keep (T := T)]
    exact .nameRead

end World

/-- **What an event is in the run with the handles of the tasks in `T` kept.** A handle that is kept is not
given up. -/
def Event.kept? (T : Nat → Bool) : Event ν → Option (Event ν)
  | did s f a => if f.gives T then none else some (.did s (f.keep T) a)
  | e => some e

/-- Whether a wait with the handle of a task in `T` that ends with an event ends because its limit is up. -/
def Event.GivesUp (T : Nat → Bool) (e : Event ν) : Prop :=
  ∀ s t d next r, e = .did s (.receive t (some d) next) (.result r) → T t = true →
    r = .error (.timeout d)

namespace World

variable {w v : World ν} {e : Event ν}

/-- **What gives a handle up changes nothing that is there with the handle kept**, but the program of its
thread: there was nothing to dispose of, or it could be. -/
theorem Answered.keep_of_gives {s : Thread} {f g : Program ν} {a : Answer ν} (ha : w.Answered s f a v)
    (hn : f.after? a = some g) (hT : Event.GivesUp T (.did s f a)) (hf : f.gives T = true)
    (hw : w.Keepable T) : v.keep T = w.keep T ∧ f.keep T = g.keep T := by
  unfold Program.gives at hf
  split at hf
  · next t next =>
    have hempty := hw.received t hf
    cases ha with
    | discarded =>
      rw [show w.fragile.contains t = false by simpa using hempty] at hn
      cases hn
      exact ⟨keep_giveUp_of_kept hf hempty, by rw [Program.keep, if_pos hf]; rfl⟩
  · next t d next =>
    have hkeep : (Program.receive t (some d) next).keep T = (next (.error (.timeout d))).keep T := by
      rw [Program.keep, if_pos hf]
    cases ha with
    | received hr =>
      cases hn
      obtain rfl := hT s t d next _ rfl hf
      exact ⟨by rw [takeOut_of_not_mem (hw.received t hf)], hkeep⟩
    | receiveExpired hr =>
      cases hn
      exact ⟨rfl, hkeep⟩
  · cases hf

theorem Happens.keep_of_gives {s : Thread} {f : Program ν} {a : Answer ν}
    (he : w.Happens (.did s f a) v) (hT : Event.GivesUp T (.did s f a)) (hf : f.gives T = true)
    (hw : w.Keepable T) : v.keep T = w.keep T := by
  cases he with
  | did hp ha hn =>
    obtain ⟨hu, hg⟩ := ha.keep_of_gives hn hT hf hw
    rw [keep_setProgram, hu, ← hg]
    exact setProgram_self (by rw [program?_keep, hp]; rfl)

/-- **One move in both runs**: it gives up one of the handles, and is missing where they are kept, or it is
the same. -/
theorem Happens.keep (he : w.Happens e v) (hT : e.GivesUp T) (hw : w.Keepable T) :
    (e.kept? T = none ∧ v.keep T = w.keep T) ∨
      ∃ e', e.kept? T = some e' ∧ (w.keep T).Happens e' (v.keep T) := by
  cases he with
  | @did s f a u g hp ha hn =>
    rcases hf : f.gives T with _ | _
    · right
      refine ⟨_, by rw [Event.kept?, hf]; rfl, ?_⟩
      rw [keep_setProgram]
      exact .did (by rw [program?_keep, hp]; rfl) (ha.keep hf) (Program.after?_keep hf hn)
    · exact .inl ⟨by rw [Event.kept?, hf]; rfl, Happens.keep_of_gives (.did hp ha hn) hT hf hw⟩
  | @took p i q t r task hq hi hr ht =>
    refine .inr ⟨_, rfl, ?_⟩
    have ht' : (w.keep T).tasks[t]? = some (task.keep T) := by rw [tasks_keep, ht]; rfl
    have := Happens.took (pool_keep hq) (WorkerPool.worker_keep hi) (show (q.keep T).queue = t :: r from hr) ht'
    rw [keep_setPool]
    convert this using 2
    simp [WorkerPool.keep, WorkerPool.setWorker, List.map_set, Worker.keep, Entry.keep]
  | delivered hq hi ho hd =>
    have hx := worker?_eq_some.2 ⟨_, hq, hi⟩
    refine .inr ⟨_, rfl, ?_⟩
    rw [keep_deliver, keep_store]
    exact .delivered (pool_keep hq) (WorkerPool.worker_keep hi) ho ((hw.bringsDown_keep hx).trans hd)
      (hasRoom_of_result? ((w.result?_keep _).trans (hw.running _ _ _ _ hx)))
  | counted hq hi =>
    refine .inr ⟨_, rfl, ?_⟩
    rw [keep_setPool]
    have := Happens.counted (pool_keep (T := T) hq) (WorkerPool.worker_keep hi)
    convert this using 2
    simp [WorkerPool.keep, WorkerPool.setWorker, List.map_set, Worker.keep]
  | left hq hi hr ha =>
    refine .inr ⟨_, rfl, ?_⟩
    rw [keep_setPool, WorkerPool.keep_setWorker]
    exact .left (pool_keep hq) (WorkerPool.worker_keep hi) hr ha
  | fell hq hi hd =>
    have hx := worker?_eq_some.2 ⟨_, hq, hi⟩
    refine .inr ⟨_, rfl, ?_⟩
    rw [keep_goDown]
    exact .fell (pool_keep hq) (WorkerPool.worker_keep hi) ((hw.bringsDown_keep hx).trans hd)
  | lost hq hi =>
    refine .inr ⟨_, rfl, ?_⟩
    rw [keep_lose]
    exact .lost (pool_keep hq) (WorkerPool.worker_keep hi)

/-- **No job of a task in `T` ends with a value that cannot be disposed of**, in a run with history `h` from
`w₀`. -/
def NeverFragile (T : Nat → Bool) (w₀ : World ν) (h : List (Event ν)) : Prop :=
  ∀ k k' v, h = k ++ k' → w₀.Run k v → ∀ p i t x,
    v.worker? p i = some (.busy t (.finish (.fragile x))) → T t = false

theorem NeverFragile.of_append {w₀ : World ν} {h k : List (Event ν)} (hf : NeverFragile T w₀ (h ++ k)) :
    NeverFragile T w₀ h := by
  rintro k₁ k₂ v rfl
  exact hf k₁ (k₂ ++ k) v (List.append_assoc ..)

/-- In a run of a harmless world no job ends with a value that cannot be disposed of. -/
theorem Harmless.neverFragile {w₀ : World ν} (hw : w₀.Harmless) (T : Nat → Bool) (h : List (Event ν)) :
    NeverFragile T w₀ h := by
  rintro k k' v - hr p i t x hx
  obtain ⟨q, hq, hi⟩ := worker?_eq_some.1 hx
  exact ((hr.harmless hw).isDisposable hq hi).elim

/-- What a handle has received that cannot be disposed of, a job has ended with. -/
theorem Happens.mem_fragile (he : w.Happens e v) {t : Nat} (ht : t ∈ v.fragile) :
    t ∈ w.fragile ∨ ∃ p i x, w.worker? p i = some (.busy t (.finish (.fragile x))) := by
  cases he with
  | @did s f a u g hp ha hn =>
    have hu : t ∈ u.fragile := by cases s <;> exact ht
    left
    cases ha with
    | received | discarded => exact (List.mem_filter.1 hu).1
    | _ => exact hu
  | @delivered p i q t' x o hq hi =>
    cases x with
    | value | panic => exact .inl ht
    | fragile x =>
      rcases List.mem_cons.1 ht with rfl | ht
      · exact .inr ⟨p, i, x, worker?_eq_some.2 ⟨q, hq, hi⟩⟩
      · exact .inl ht
  | fell =>
    simp only [goDown] at ht
    split at ht <;> exact .inl ht
  | took | counted | left | lost => exact .inl ht

/-- **Every world of such a run can be kept.** -/
theorem Run.keepable {w₀ : World ν} {h : List (Event ν)} (hr : w₀.Run h w) (h₀ : w₀.IsNew)
    (hf : NeverFragile T w₀ h) : w.Keepable T := by
  refine ⟨fun t ht hm => ?_, hf h [] w (List.append_nil h).symm hr, fun p i t f => hr.result?_of_busy h₀⟩
  induction hr with
  | refl => rw [h₀.fragile] at hm; cases hm
  | @tail k v u e hr he ih =>
    rcases he.mem_fragile hm with hm | ⟨p, i, x, hx⟩
    · exact ih hf.of_append hm
    · rw [hf k [e] v rfl hr p i t x hx] at ht
      cases ht

/-- **A run in which the handles of the tasks in `T` are given up is the same run with these handles kept**,
but for the moves that give them up. -/
theorem Run.keep {w₀ : World ν} {h : List (Event ν)} (hr : w₀.Run h w) (h₀ : w₀.IsNew)
    (hT : ∀ e ∈ h, e.GivesUp T) (hf : NeverFragile T w₀ h) :
    (w₀.keep T).Run (h.filterMap (Event.kept? T)) (w.keep T) := by
  induction hr with
  | refl => exact .refl
  | @tail k u x e hr he ih =>
    have ih := ih (fun e he => hT e (List.mem_append_left _ he)) hf.of_append
    rw [List.filterMap_append]
    rcases he.keep (hT e (by simp)) (hr.keepable h₀ hf.of_append) with ⟨hnone, hsame⟩ | ⟨e', hsome, he'⟩
    · rw [hsame]
      simpa [hnone] using ih
    · simpa [hsome] using ih.tail he'

/-! ### Where nothing can happen -/

theorem exists_pool_keep {p : Nat} {q' : WorkerPool ν} (hq : (w.keep T).pools[p]? = some q') :
    ∃ q, w.pools[p]? = some q ∧ q' = q.keep T := by
  rw [pools_keep] at hq
  obtain ⟨q, hw, rfl⟩ := Option.map_eq_some_iff.1 hq
  exact ⟨q, hw, rfl⟩

/-- **What can be answered with handles kept can be answered.** -/
theorem Answered.exists_of_keep {s : Thread} {f : Program ν} {a : Answer ν}
    (h : (w.keep T).Answered s (f.keep T) a v) : ∃ a v, w.Answered s f a v := by
  cases f with
  | finish e => cases h
  | submit p holds job next =>
    obtain ⟨q, hq⟩ : ∃ q, w.pools[p]? = some q := by
      cases h with
      | accepted hq | refused hq =>
        obtain ⟨q, hq, -⟩ := exists_pool_keep hq
        exact ⟨q, hq⟩
    rcases ht : q.takesJobs with _ | _
    · exact ⟨_, _, .refused hq ht⟩
    · exact ⟨_, _, .accepted hq ht⟩
  | receive t limit next =>
    cases limit with
    | none => cases h with | received hr => exact ⟨_, _, .received (by simpa using hr)⟩
    | some d =>
      rcases hr : w.result? t with _ | r
      · exact ⟨_, _, .receiveExpired hr⟩
      · exact ⟨_, _, .received hr⟩
  | discard t next => exact ⟨_, _, .discarded⟩
  | closeIntake p next =>
    cases h with
    | closed hq =>
      obtain ⟨q, hq, -⟩ := exists_pool_keep hq
      exact ⟨_, _, .closed hq⟩
  | markShuttingDown p next =>
    cases h with
    | shuttingDown hq =>
      obtain ⟨q, hq, -⟩ := exists_pool_keep hq
      exact ⟨_, _, .shuttingDown hq⟩
  | mayAwait p next =>
    cases h with
    | awaitable hq =>
      obtain ⟨q, hq, -⟩ := exists_pool_keep hq
      exact ⟨_, _, .awaitable hq⟩
  | awaitExit p limit next =>
    cases h with
    | exited hq hd =>
      obtain ⟨q, hw, rfl⟩ := exists_pool_keep hq
      exact ⟨_, _, .exited hw (by simpa using hd)⟩
    | exitExpired hq hl =>
      obtain ⟨q, hw, rfl⟩ := exists_pool_keep hq
      exact ⟨_, _, .exitExpired hw (by simpa using hl)⟩
  | markTerminated p next =>
    cases h with
    | terminated hq =>
      obtain ⟨q, hq, -⟩ := exists_pool_keep hq
      exact ⟨_, _, .terminated hq⟩
  | readPhase p next =>
    cases h with
    | phaseRead hq =>
      obtain ⟨q, hq, -⟩ := exists_pool_keep hq
      exact ⟨_, _, .phaseRead hq⟩
  | awaitCount p n limit next =>
    cases h with
    | countReached hq hn =>
      obtain ⟨q, hw, rfl⟩ := exists_pool_keep hq
      exact ⟨_, _, .countReached hw hn⟩
    | countExpired hq hn =>
      obtain ⟨q, hw, rfl⟩ := exists_pool_keep hq
      exact ⟨_, _, .countExpired hw hn⟩
  | retain p next =>
    cases h with
    | retained hq =>
      obtain ⟨q, hq, -⟩ := exists_pool_keep hq
      exact ⟨_, _, .retained hq⟩
  | release p next =>
    cases h with
    | released hq =>
      obtain ⟨q, hq, -⟩ := exists_pool_keep hq
      exact ⟨_, _, .released hq⟩
  | openGate g next => exact ⟨_, _, .gateOpened⟩
  | awaitGate g next => cases h with | gatePassed hg => exact ⟨_, _, .gatePassed hg⟩
  | record v next => exact ⟨_, _, .recorded⟩
  | threadName next => exact ⟨_, _, .nameRead⟩

/-- Who can give a handle up never waits. -/
theorem exists_answered_of_gives {f : Program ν} (hf : f.gives T = true) (w : World ν) (s : Thread) :
    ∃ a v, w.Answered s f a v := by
  unfold Program.gives at hf
  split at hf
  · exact ⟨_, _, .discarded⟩
  · next t d next =>
    rcases hr : w.result? t with _ | r
    · exact ⟨_, _, .receiveExpired hr⟩
    · exact ⟨_, _, .received hr⟩
  · cases hf

theorem exists_worker_keep {p i : Nat} {q' : WorkerPool ν} {x' : Worker ν}
    (hq : (w.keep T).pools[p]? = some q') (hi : q'.workers[i]? = some x') :
    ∃ q x, w.pools[p]? = some q ∧ q' = q.keep T ∧ q.workers[i]? = some x ∧ x.keep T = x' := by
  obtain ⟨q, hw, rfl⟩ := exists_pool_keep hq
  rw [WorkerPool.workers_keep] at hi
  obtain ⟨x, hx, rfl⟩ := Option.map_eq_some_iff.1 hi
  exact ⟨q, x, hw, rfl, hx, rfl⟩

/-- **Where nothing can happen, who has come to the end with handles kept has come to the end**: who could
still give a handle up would do so. -/
theorem IsStuck.eq_finish_of_keep (hs : w.IsStuck) {s : Thread} {f : Program ν} {e : Ending ν}
    (hp : w.program? s = some f) (hf : f.keep T = .finish e) : f = .finish e := by
  rcases Program.eq_finish_or_gives hf with h | h
  · exact h
  · obtain ⟨a, v, ha⟩ := exists_answered_of_gives h w s
    exact absurd ha (hs.not_answered hp)

/-- A worker that has come to the end of a job with handles kept has come to its end. -/
theorem IsStuck.busy_of_keep (hs : w.IsStuck) {p i t : Nat} {q : WorkerPool ν} {x : Worker ν} {e : Ending ν}
    (hq : w.pools[p]? = some q) (hi : q.workers[i]? = some x) (hx : x.keep T = .busy t (.finish e)) :
    x = .busy t (.finish e) := by
  cases x with
  | busy u f =>
    obtain ⟨rfl, hf⟩ := Worker.busy.inj hx
    have hp : w.program? (.worker p i) = some f := by
      rw [program?_worker, worker?_eq_some.2 ⟨q, hq, hi⟩]
      rfl
    rw [hs.eq_finish_of_keep hp hf]
  | _ => cases hx

/-- **Where nothing can happen, nothing can happen with these handles kept.** -/
theorem IsStuck.keep (hs : w.IsStuck) (hw : w.Keepable T) : (w.keep T).IsStuck := by
  have hnot := isStuck_iff.1 hs
  refine isStuck_iff.2 fun e v he => ?_
  cases he with
  | did hp ha hn =>
    rw [program?_keep] at hp
    obtain ⟨f, hf, rfl⟩ := Option.map_eq_some_iff.1 hp
    obtain ⟨a, u, ha⟩ := ha.exists_of_keep
    exact hs.not_answered hf ha
  | took hq hi hr ht =>
    obtain ⟨q, x, hwq, rfl, hx, hkeep⟩ := exists_worker_keep hq hi
    rw [tasks_keep] at ht
    obtain ⟨task, htask, -⟩ := Option.map_eq_some_iff.1 ht
    cases x <;> cases hkeep
    exact hnot _ _ (.took hwq hx hr htask)
  | delivered hq hi ho hd =>
    obtain ⟨q, x, hwq, rfl, hx, hkeep⟩ := exists_worker_keep hq hi
    obtain rfl := hs.busy_of_keep hwq hx hkeep
    have hbusy := worker?_eq_some.2 ⟨q, hwq, hx⟩
    exact hnot _ _ (.delivered hwq hx ho ((hw.bringsDown_keep hbusy).symm.trans hd)
      (hasRoom_of_result? (hw.running _ _ _ _ hbusy)))
  | counted hq hi =>
    obtain ⟨q, x, hwq, rfl, hx, hkeep⟩ := exists_worker_keep hq hi
    cases x <;> cases hkeep
    exact hnot _ _ (.counted hwq hx)
  | left hq hi hr ha =>
    obtain ⟨q, x, hwq, rfl, hx, hkeep⟩ := exists_worker_keep hq hi
    cases x <;> cases hkeep
    exact hnot _ _ (.left hwq hx hr ha)
  | fell hq hi hd =>
    obtain ⟨q, x, hwq, rfl, hx, hkeep⟩ := exists_worker_keep hq hi
    obtain rfl := hs.busy_of_keep hwq hx hkeep
    have hbusy := worker?_eq_some.2 ⟨q, hwq, hx⟩
    exact hnot _ _ (.fell hwq hx ((hw.bringsDown_keep hbusy).symm.trans hd))
  | lost hq hi =>
    obtain ⟨q, x, hwq, rfl, hx, hkeep⟩ := exists_worker_keep hq hi
    cases x <;> simp only [Worker.keep, reduceCtorEq, Worker.falling.injEq] at hkeep
    obtain ⟨rfl, hf, rfl⟩ := hkeep
    have hfalling := worker?_eq_some.2 ⟨q, hwq, hx⟩
    obtain rfl := hs.eq_finish_of_keep (by rw [program?_worker, hfalling]; rfl) hf
    exact hnot _ _ (.lost hwq hx)

end World

end

end Handoff.Pool
