import Handoff.Proofs.Pool.Shutdown
import Handoff.Proofs.Pool.Slots

/-! # Who gives up the last share in a pool

A thread that gives up the last share in a pool shuts the pool down and waits for its end. If it is one of
the pool's own workers, it does not wait: the question whether it may is answered with no, and its job goes
on. So the end of the pool does not depend on where the last share is given up, and no job is lost on the
way. Clients and jobs are any programs that use pools by calls.

* `Program.Amid`, `World.ByCalls`: where a thread can be that uses pools by calls. A worker never waits for
  the end of its own pool.
* `Dropping`, `Detaching`: where a thread can be after it has given up the last share, from outside and on an
  own worker.
* `Run.until`: a thread that is in a call is in it until it returns.
* `Blocked`, `IsStuck.blocked`: only a job that waits for something else holds up the end of its pool.
* `DropSafe`, `drop_safe`: the statement about one pool, and that it holds in every run.
* `TakenAlong`: what becomes of a queued job if a worker cannot dispose of what its job has ended with.
-/

namespace Handoff.Pool

variable {ν : Type}

/-! ### Amid calls -/

/-- **Where a thread can be that uses pools by calls.** Only a thread that is no worker of a pool waits for
its end, and only if its intake is closed. -/
inductive Program.Amid (w : World ν) (s : Thread) : Program ν → Prop where
  | calls {f : Program ν} (h : f.Calls) : Amid w s f
  | marking {p : Nat} {next : Program ν} (hn : next.Calls) : Amid w s (.markShuttingDown p next)
  | waiting {p : Nat} {limit : Option Duration} {next : Bool → Program ν}
      (hs : s.worksFor p = false) (hp : w.Closed p) (hn : ∀ b, (next b).Calls) :
      Amid w s (.awaitExit p limit fun gone => if gone then .markTerminated p (next true) else next false)
  | ending {p : Nat} {next : Program ν} (hn : next.Calls) : Amid w s (.markTerminated p next)

theorem Program.Amid.mono {w v : World ν} {s : Thread} {f : Program ν} (h : f.Amid w s)
    (hv : ∀ p, w.Closed p → v.Closed p) : f.Amid v s := by
  cases h with
  | calls h => exact .calls h
  | marking hn => exact .marking hn
  | waiting hs hp hn => exact .waiting hs (hv _ hp) hn
  | ending hn => exact .ending hn

/-- A thread that uses pools by calls goes on to do so. -/
theorem Program.Amid.after {w u : World ν} {s : Thread} {f g : Program ν} {a : Answer ν} (h : f.Amid w s)
    (ha : w.Answered s f a u) (hn : f.after? a = some g) : g.Amid w s := by
  cases h with
  | calls h =>
    cases h with
    | finish => cases a <;> cases hn
    | submit _ hnext | receive hnext | discard hnext | readPhase hnext | awaitCount hnext | threadName hnext =>
      cases a <;> cases hn
      exact .calls (hnext _)
    | retain hnext | openGate hnext | awaitGate hnext | record hnext =>
      cases a <;> cases hn
      exact .calls hnext
    | shutdown hnext =>
      cases a <;> cases hn
      rename_i wasOpen
      cases wasOpen
      · exact .calls hnext
      · exact .marking hnext
    | @awaitTermination p limit next hnext =>
      cases ha with
      | @awaitable _ _ q hq =>
        cases hn
        rcases hs : s.worksFor p with _ | _
        · rcases hacc : q.accepting with _ | _
          · exact .waiting hs ⟨q, hq, hacc⟩ hnext
          · exact .calls (hnext false)
        · rw [Bool.not_true, Bool.and_false]
          exact .calls (hnext false)
    | letGo hnext =>
      cases a <;> cases hn
      rename_i last
      cases last
      · exact .calls hnext
      · refine .calls (.readPhase fun phase => ?_)
        split
        · exact hnext
        · exact .shutdownAndWait fun _ => hnext
  | marking hnext | ending hnext =>
    cases a <;> cases hn
    exact .calls hnext
  | waiting _ _ hnext =>
    cases a <;> cases hn
    rename_i gone
    cases gone
    · exact .calls (hnext false)
    · exact .ending (hnext true)

/-- A thread that uses pools by calls waits for the end of closed pools only, and not of its own. -/
theorem Program.Amid.awaitExit {w : World ν} {s : Thread} {p : Nat} {limit : Option Duration}
    {next : Bool → Program ν} (h : (Program.awaitExit p limit next).Amid w s) :
    s.worksFor p = false ∧ w.Closed p := by
  cases h with
  | calls h => cases h
  | waiting hs hp => exact ⟨hs, hp⟩

namespace World

/-- A world whose threads use pools by calls, and whose jobs do. -/
structure ByCalls (w : World ν) : Prop where
  program : ∀ s f, w.program? s = some f → f.Amid w s
  job : ∀ (t : Nat) (task : Entry ν), w.tasks[t]? = some task → task.job.Calls

theorem Happens.byCalls {w v : World ν} {e : Event ν} (he : w.Happens e v) (hw : w.Harmless)
    (h : w.ByCalls) : v.ByCalls where
  program s f hf := by
    refine Program.Amid.mono ?_ fun p => he.closed hw (p := p)
    rcases he.program hw hf with ⟨-, hf⟩ | ⟨p, i, t, task, -, -, ht, rfl⟩ | ⟨g, a, u, -, hg, ha, hn, -⟩
    · exact h.program s f hf
    · exact .calls (h.job t task ht)
    · exact (h.program s g hg).after ha hn
  job t task ht := by
    rcases he.of_task ht with ⟨slot, ht⟩ | ⟨s, p, holds, job, next, -, hp, rfl⟩
    · exact h.job t ⟨_, _, _, slot⟩ ht
    · cases h.program s _ hp with
      | calls hcalls => cases hcalls with | submit hj => exact hj

theorem Run.byCalls {w v : World ν} {h : List (Event ν)} (hr : w.Run h v) (hw : w.Harmless)
    (hc : w.ByCalls) : v.ByCalls := by
  induction hr with
  | refl => exact hc
  | tail hr he ih => exact he.byCalls (hr.harmless hw) ih

theorem IsNew.byCalls {w : World ν} (h₀ : w.IsNew) (hc : ∀ f ∈ w.clients, f.Calls) : w.ByCalls where
  program s f hf := by
    cases s with
    | client i => exact .calls (hc f (List.mem_of_getElem? hf))
    | worker p i =>
      rw [program?_worker] at hf
      obtain ⟨x, hx, hf⟩ := Option.bind_eq_some_iff.1 hf
      rw [h₀.worker? hx] at hf
      cases hf
  job t task ht := by rw [h₀.tasks] at ht; cases ht

/-! ### What holds up a pool -/

/-- A worker of a pool that waits within its job for something else than its own pool: **a job that
blocks**. -/
def Blocked (w : World ν) (p : Nat) : Prop :=
  ∃ i t f, w.worker? p i = some (.busy t f) ∧ (∀ e, f ≠ .finish e) ∧ ¬ f.Tends p

/-- **Where nothing can happen, whoever tends a pool waits for its end.** -/
theorem IsStuck.awaitExit_of_tends {w : World ν} (hstuck : w.IsStuck) {s : Thread} {f : Program ν}
    (hf : w.program? s = some f) {p : Nat} {q : WorkerPool ν} (hq : w.pools[p]? = some q)
    (ht : f.Tends p) : ∃ limit next, f = .awaitExit p limit next := by
  have never : ∀ {a u}, ¬ w.Answered s f a u := hstuck.not_answered hf
  unfold Program.Tends at ht
  split at ht <;> try subst ht
  · exact absurd (.closed hq) never
  · exact absurd (.shuttingDown hq) never
  · exact absurd (.awaitable hq) never
  · exact ⟨_, _, rfl⟩
  · exact absurd (.terminated hq) never
  · exact absurd (.released hq) never
  · exact absurd (.phaseRead hq) never
  · exact ht.elim

/-- **Where nothing can happen, a job that is held up is one that blocks**: no worker is held up by its own
pool. -/
theorem IsStuck.blocked {w : World ν} (hstuck : w.IsStuck) (hc : w.ByCalls) {p : Nat}
    (h : w.Held p) : w.Blocked p := by
  obtain ⟨i, t, f, hx, hf⟩ := h
  refine ⟨i, t, f, hx, hf, fun htends => ?_⟩
  obtain ⟨q, hq, -⟩ := worker?_eq_some.1 hx
  have hprogram : w.program? (.worker p i) = some f := by rw [program?_worker, hx]; rfl
  obtain ⟨limit, next, rfl⟩ := hstuck.awaitExit_of_tends hprogram hq htends
  simpa [Thread.worksFor] using (hc.program _ _ hprogram).awaitExit.1

/-- Where nothing can happen and no job blocks, nobody tends a pool: its end has come for who has waited for
it. -/
theorem IsStuck.not_tends {w : World ν} {h : List (Event ν)} (hstuck : w.IsStuck) (hst : Story h w)
    (hw : w.Harmless) (hc : w.ByCalls) {p : Nat} {q : WorkerPool ν} (hq : w.pools[p]? = some q)
    (hb : ¬ w.Blocked p) {s : Thread} {f : Program ν} (hf : w.program? s = some f) : ¬ f.Tends p := by
  intro htends
  obtain ⟨limit, next, rfl⟩ := hstuck.awaitExit_of_tends hf hq htends
  obtain ⟨q', hq', hacc⟩ := (hc.program s _ hf).awaitExit.2
  obtain rfl := Option.some.inj (hq.symm.trans hq')
  rcases hd : q.isDeserted with _ | _
  · exact hb (hstuck.blocked hc (hstuck.held_of_closed hst hw hq hacc hd))
  · exact hstuck.not_answered hf (.exited hq hd)

end World

/-! ### Within a drop -/

/-- **Where a thread can be after it has given up the last share in pool `p`** from outside, before it goes
on with `next`. -/
inductive Dropping (w : World ν) (p : Nat) (next : Program ν) : Program ν → Prop where
  | ask : Dropping w p next (.readPhase p fun phase =>
      if phase = .terminated then next else .shutdownAndWait p fun _ => next)
  | close {f : Program ν} (h : Closing w p (fun _ => next) f) : Dropping w p next f

/-- **Where a worker of pool `p` can be after it has given up the last share in it**, before it goes on with
`next`, and how many moves it takes at most until then. -/
inductive Detaching (w : World ν) (p : Nat) (next : Program ν) : Nat → Program ν → Prop where
  | ask : Detaching w p next 4 (.readPhase p fun phase =>
      if phase = .terminated then next else .shutdownAndWait p fun _ => next)
  | close : Detaching w p next 3 (.shutdownAndWait p fun _ => next)
  | mark (h : w.Closed p) :
      Detaching w p next 2 (.markShuttingDown p (.awaitTermination p none fun _ => next))
  | decline (h : w.Closed p) : Detaching w p next 1 (.awaitTermination p none fun _ => next)

section

variable {w v : World ν} {p n : Nat} {next f g : Program ν} {s : Thread} {a : Answer ν}

theorem Program.Tends.ne_finish (h : f.Tends p) (e : Ending ν) : f ≠ .finish e := by
  rintro rfl; exact h

theorem Dropping.mono (h : Dropping w p next f) (hv : w.Closed p → v.Closed p) :
    Dropping v p next f := by
  cases h with
  | ask => exact .ask
  | close h => exact .close (h.mono hv)

theorem Dropping.tends (h : Dropping w p next f) : f.Tends p := by
  cases h with
  | ask => rfl
  | close h => exact h.tends

/-- **A thread that gives up the last share from outside returns when the pool has come to its end.** -/
theorem Dropping.after (h : Dropping w p next f) (he : w.Happens (.did s f a) v) (hw : w.Harmless)
    (hs : s.worksFor p = false) (hn : f.after? a = some g) :
    Dropping v p next g ∨ (g = next ∧ v.Ended p) := by
  cases h with
  | ask =>
    have hv := he.ended hw (p := p)
    cases he with
    | did hp ha hn' =>
      cases ha with
      | @phaseRead _ _ q hq =>
        cases hn
        dsimp only
        split
        · next hphase => exact .inr ⟨rfl, hv ⟨q, hq, hphase⟩⟩
        · exact .inl (.close .close)
  | close h =>
    rcases h.after he hw hs hn with h | ⟨rfl, hv⟩
    · exact .inl (.close h)
    · exact .inr ⟨rfl, hv⟩

theorem Detaching.mono (h : Detaching w p next n f) (hv : w.Closed p → v.Closed p) :
    Detaching v p next n f := by
  cases h with
  | ask => exact .ask
  | close => exact .close
  | mark h => exact .mark (hv h)
  | decline h => exact .decline (hv h)

theorem Detaching.tends (h : Detaching w p next n f) : f.Tends p := by
  cases h <;> rfl

/-- A worker that gives up the last share in its own pool never has to wait. -/
theorem Detaching.answered (h : Detaching w p next n f) {q : WorkerPool ν}
    (hq : w.pools[p]? = some q) (s : Thread) : ∃ a u, w.Answered s f a u := by
  cases h with
  | ask => exact ⟨_, _, .phaseRead hq⟩
  | close => exact ⟨_, _, .closed hq⟩
  | mark => exact ⟨_, _, .shuttingDown hq⟩
  | decline => exact ⟨_, _, .awaitable hq⟩

/-- **A worker that gives up the last share in its own pool comes closer to its return with each move**, and
leaves the pool closed. -/
theorem Detaching.after (h : Detaching w p next n f) (he : w.Happens (.did s f a) v) (hw : w.Harmless)
    (hended : v.Ended p → v.Closed p) (hs : s.worksFor p = true) (hn : f.after? a = some g) :
    (∃ m, m < n ∧ Detaching v p next m g) ∨ (g = next ∧ v.Closed p) := by
  have hclosed := he.closed hw (p := p)
  cases h with
  | ask =>
    have hv := he.ended hw (p := p)
    cases he with
    | did hp ha hn' =>
      cases ha with
      | @phaseRead _ _ q hq =>
        cases hn
        dsimp only
        split
        · next hphase => exact .inr ⟨rfl, hended (hv ⟨q, hq, hphase⟩)⟩
        · exact .inl ⟨3, by omega, .close⟩
  | close =>
    have hc := World.Happens.closed_of_close he hw
    cases a <;> cases hn
    rename_i wasOpen
    cases wasOpen
    · exact .inl ⟨1, by omega, .decline hc⟩
    · exact .inl ⟨2, by omega, .mark hc⟩
  | mark h =>
    cases a <;> cases hn
    exact .inl ⟨1, by omega, .decline (hclosed h)⟩
  | decline h =>
    right
    cases he with
    | did hp ha hn' =>
      cases ha with
      | awaitable hq =>
        rw [hs, Bool.not_true, Bool.and_false] at hn
        cases hn
        exact ⟨rfl, hclosed h⟩

end

namespace World

/-! ### Runs of one call -/

/-- **A thread that is in a call is in it until it returns.** `I` tells where it can be in the call after a
part of the history, and `R` what is so when it returns. -/
theorem Run.until {w₀ u w : World ν} {h k : List (Event ν)} {s : Thread} (hr : w₀.Run h u)
    (hk : u.Run k w) {I : List (Event ν) → World ν → Program ν → Prop}
    {R : List (Event ν) → World ν → Prop} (start : ∃ f, u.program? s = some f ∧ I [] u f)
    (running : ∀ k v f, I k v f → ∀ e, f ≠ .finish e)
    (other : ∀ k v e v' f, w₀.Run (h ++ k) v → v.Happens e v' → e.thread ≠ s → I k v f →
      I (k ++ [e]) v' f)
    (step : ∀ k v a v' f g, w₀.Run (h ++ k) v → v.Happens (.did s f a) v' → f.after? a = some g →
      v'.program? s = some g → I k v f → I (k ++ [.did s f a]) v' g ∨ R (k ++ [.did s f a]) v') :
    (∃ f, w.program? s = some f ∧ I k w f) ∨
      ∃ k₁ k₂ v, k = k₁ ++ k₂ ∧ u.Run k₁ v ∧ v.Run k₂ w ∧ R k₁ v := by
  induction hk with
  | refl => exact .inl start
  | @tail k v v' e hk he ih =>
    rcases ih with ⟨f, hf, hI⟩ | ⟨k₁, k₂, x, rfl, hx, hv, hR⟩
    · by_cases hs : e.thread = s
      · obtain ⟨a, y, g, rfl, ha, hn, rfl⟩ := he.of_program hs hf (running k v f hI)
        have hg : (y.setProgram g s).program? s = some g := by
          rw [program?_setProgram g ((ha.program? s).trans hf), if_pos rfl]
        rcases step k v a _ f g (hr.append hk) he hn hg hI with hI | hR
        · exact .inl ⟨g, hg, hI⟩
        · exact .inr ⟨_, [], _, (List.append_nil _).symm, .tail hk he, .refl, hR⟩
      · exact .inl ⟨f, (he.program?_of_ne hs).trans hf,
          other k v e v' f (hr.append hk) he hs hI⟩
    · exact .inr ⟨k₁, k₂ ++ [e], x, by rw [List.append_assoc], hx, .tail hv he, hR⟩

/-! ### The last share in a run -/

/-- **Giving up the last share in pool `p` is safe** in a run with history `h` from `w₀` to `w`. The pool has
`n` workers. -/
structure DropSafe (p n : Nat) (w₀ : World ν) (h : List (Event ν)) (w : World ν) : Prop where
  /-- Every accepted job is run once and answered for once. -/
  once : ExactlyOnce w₀ h w
  /-- Who waits for a task that is done gets its outcome, whatever becomes of the pool. -/
  handle : ∀ (t : Nat) (task : Entry ν) o, w.tasks[t]? = some task → task.slot = .delivered o →
    ∀ k v, w.Run k v → v.result? t = some (o.mapError .taskFailed)
  /-- A thread that has given up the last share, and is no worker of the pool, is in the call until all
  workers are gone, and then returns. -/
  outside : ∀ h₁ k s next, h = h₁ ++ .did s (.letGo p next) (.flag true) :: k → s.worksFor p = false →
    (∃ f, w.program? s = some f ∧ Dropping w p next f) ∨
    ∃ k₁ k₂ v, k = k₁ ++ k₂ ∧ w₀.Run (h₁ ++ .did s (.letGo p next) (.flag true) :: k₁) v ∧
      v.program? s = some next ∧ v.Drained p n
  /-- A worker of the pool that has given up the last share returns after four more moves of its own at most,
  and can do each of them at once. -/
  inside : ∀ h₁ k s next, h = h₁ ++ .did s (.letGo p next) (.flag true) :: k → s.worksFor p = true →
    (∃ f m, w.program? s = some f ∧ Detaching w p next m f ∧ (own s k).length + m ≤ 4 ∧
      ∃ a v, w.Happens (.did s f a) v) ∨
    ∃ k₁ k₂ v, k = k₁ ++ k₂ ∧ (own s k₁).length ≤ 4 ∧
      w₀.Run (h₁ ++ .did s (.letGo p next) (.flag true) :: k₁) v ∧ v.program? s = some next
  /-- Where nothing can happen and no job of the pool blocks, all its jobs have been run, nobody is held up by
  the pool or one of its tasks, and it has come to its end if the last share in it has been given up. -/
  settled : w.IsStuck → ¬ w.Blocked p →
    (∀ (t : Nat) (task : Entry ν), w.tasks[t]? = some task → task.pool = p →
      ∃ o, task.slot = .delivered o) ∧
    (∀ s f, w.program? s = some f → ¬ f.Tends p) ∧
    (∀ s t limit next task, w.program? s = some (.receive t limit next) → w.tasks[t]? = some task →
      task.pool ≠ p) ∧
    ((∃ s next, .did s (.letGo p next) (.flag true) ∈ h) → w.Drained p n)

section

variable {w₀ u w : World ν} {h k : List (Event ν)} {p : Nat} {s : Thread} {next : Program ν}

/-- A thread that has given up the last share in a pool asks for its phase. -/
theorem Happens.program_of_release {v : World ν} (he : u.Happens (.did s (.letGo p next) (.flag true)) v) :
    v.program? s = some (.readPhase p fun phase =>
      if phase = .terminated then next else .shutdownAndWait p fun _ => next) := by
  cases he with
  | did hp ha hn =>
    rw [program?_setProgram _ ((ha.program? s).trans hp), if_pos rfl]
    exact hn.symm

/-- **From outside**: a thread that has given up the last share is in the call until all workers are gone. -/
theorem Run.dropping (h₀ : w₀.IsNew) (hc : ∀ f ∈ w₀.clients, f.Calls) (hr : w₀.Run h u) (hk : u.Run k w)
    (hu : u.program? s = some (.readPhase p fun phase =>
      if phase = .terminated then next else .shutdownAndWait p fun _ => next))
    (hs : s.worksFor p = false) :
    (∃ f, w.program? s = some f ∧ Dropping w p next f) ∨ ∃ k₁ k₂ v, k = k₁ ++ k₂ ∧ u.Run k₁ v ∧
      v.Run k₂ w ∧ v.program? s = some next ∧ v.Deserted p := by
  have hw := h₀.harmless fun f hf => (hc f hf).harmless
  refine hr.until hk (I := fun _ v f => Dropping v p next f)
    (R := fun _ v => v.program? s = some next ∧ v.Deserted p) ⟨_, hu, .ask⟩ (fun k v f hI => ?_)
    (fun k v e v' f hv he _ hI => ?_) fun k v a v' f g hv he hn hg hI => ?_
  · exact hI.tends.ne_finish
  · exact hI.mono (he.closed (hv.harmless hw))
  · refine (hI.after he (hv.harmless hw) hs hn).imp_right ?_
    rintro ⟨rfl, q, hq, hphase⟩
    exact ⟨hg, ((hv.tail he).guarded hw (h₀.guarded hc)).terminated p q hq hphase⟩

/-- **On an own worker**: it returns after four more moves of its own at most. -/
theorem Run.detaching (h₀ : w₀.IsNew) (hc : ∀ f ∈ w₀.clients, f.Calls) (hr : w₀.Run h u) (hk : u.Run k w)
    (hu : u.program? s = some (.readPhase p fun phase =>
      if phase = .terminated then next else .shutdownAndWait p fun _ => next))
    (hs : s.worksFor p = true) {q₀ : WorkerPool ν} (hq₀ : w₀.pools[p]? = some q₀) :
    (∃ f, w.program? s = some f ∧ ∃ m, Detaching w p next m f ∧ (own s k).length + m ≤ 4) ∨
    ∃ k₁ k₂ v, k = k₁ ++ k₂ ∧ u.Run k₁ v ∧ v.Run k₂ w ∧ v.program? s = some next ∧ v.Closed p ∧
      (own s k₁).length ≤ 4 := by
  have hw := h₀.harmless fun f hf => (hc f hf).harmless
  refine hr.until hk (I := fun k v f => ∃ m, Detaching v p next m f ∧ (own s k).length + m ≤ 4)
    (R := fun k v => v.program? s = some next ∧ v.Closed p ∧ (own s k).length ≤ 4)
    ⟨_, hu, 4, .ask, Nat.le_refl _⟩ (fun k v f ⟨m, hI, _⟩ => ?_)
    (fun k v e v' f hv he hne ⟨m, hI, hm⟩ => ?_) fun k v a v' f g hv he hn hg ⟨m, hI, hm⟩ => ?_
  · exact hI.tends.ne_finish
  · exact ⟨m, hI.mono (he.closed (hv.harmless hw)), by rwa [own_concat_of_ne hne]⟩
  · have hended : v'.Ended p → v'.Closed p := fun hend => by
      obtain ⟨q, hq, -, hacc, -⟩ := (hv.tail he).drained_of_ended h₀ hc hq₀ hend
      exact ⟨q, hq, hacc⟩
    have hown : (own s (k ++ [.did s f a])).length = (own s k).length + 1 := by
      rw [own_concat_self (s := s) (e := .did s f a) rfl, List.length_append, List.length_singleton]
    rw [hown]
    rcases hI.after he (hv.harmless hw) hended hs hn with ⟨m', hlt, hI'⟩ | ⟨rfl, hclosed⟩
    · exact .inl ⟨m', hI', by omega⟩
    · have : 0 < m := by cases hI <;> omega
      exact .inr ⟨hg, hclosed, by omega⟩

/-- A pool that is closed has come to its end where nothing can happen and no job of it blocks. -/
theorem IsStuck.deserted (hstuck : w.IsStuck) (hst : Story h w) (hw : w.Harmless) (hc : w.ByCalls)
    (hb : ¬ w.Blocked p) (hclosed : w.Closed p) : w.Deserted p := by
  obtain ⟨q, hq, hacc⟩ := hclosed
  rcases hd : q.isDeserted with _ | _
  · exact absurd (hstuck.blocked hc (hstuck.held_of_closed hst hw hq hacc hd)) hb
  · exact ⟨q, hq, hd⟩

theorem Run.closed (hk : u.Run k w) (hw : u.Harmless) (hclosed : u.Closed p) : w.Closed p := by
  obtain ⟨q, hq, hacc⟩ := hclosed
  obtain ⟨q', hq', -, hstays, -⟩ := hk.forward hw hq
  exact ⟨q', hq', hstays hacc⟩

/-- **The end of a pool of which the last share has been given up**, where nothing can happen and no job of
it blocks. -/
theorem Run.drained_of_released (h₀ : w₀.IsNew) (hc : ∀ f ∈ w₀.clients, f.Calls) (hr : w₀.Run h w)
    {q₀ : WorkerPool ν} (hq₀ : w₀.pools[p]? = some q₀) (hstuck : w.IsStuck) (hb : ¬ w.Blocked p)
    (hm : .did s (.letGo p next) (.flag true) ∈ h) : w.Drained p q₀.workers.length := by
  have hw := h₀.harmless fun f hf => (hc f hf).harmless
  have hst := hr.story h₀ hw
  have hwc := hr.byCalls hw (h₀.byCalls hc)
  obtain ⟨q, hq, -⟩ := hr.forward hw hq₀
  refine hr.drained h₀ hw hq₀ ?_
  obtain ⟨h₁, k, rfl⟩ := List.append_of_mem hm
  obtain ⟨x, u, hx, he, hk⟩ := hr.exists_happens
  have hu := hx.tail he
  have hprogram := he.program_of_release
  rcases hs : s.worksFor p with _ | _
  · rcases hu.dropping h₀ hc hk hprogram hs with ⟨f, hf, hI⟩ | ⟨k₁, k₂, v, rfl, hv, hk₂, -, hd⟩
    · exact absurd hI.tends (hstuck.not_tends hst (hr.harmless hw) hwc hq hb hf)
    · exact hk₂.deserted ((hu.append hv).harmless hw) hd
  · rcases hu.detaching h₀ hc hk hprogram hs hq₀ with
      ⟨f, hf, m, hI, -⟩ | ⟨k₁, k₂, v, rfl, hv, hk₂, -, hclosed, -⟩
    · exact absurd hI.tends (hstuck.not_tends hst (hr.harmless hw) hwc hq hb hf)
    · exact hstuck.deserted hst (hr.harmless hw) hwc hb
        (hk₂.closed ((hu.append hv).harmless hw) hclosed)

end

/-- **Giving up the last share in a pool is safe**, wherever it is done, and whatever the clients and the
interleaving; and every run ends. -/
theorem drop_safe {w₀ : World ν} (h₀ : w₀.IsNew) (hc : ∀ f ∈ w₀.clients, f.Calls) {p : Nat}
    {q₀ : WorkerPool ν} (hq₀ : w₀.pools[p]? = some q₀) :
    (∀ h w, w₀.Run h w → DropSafe p q₀.workers.length w₀ h w) ∧ w₀.Inevitably IsStuck := by
  have hw := h₀.harmless fun f hf => (hc f hf).harmless
  refine ⟨fun h w hr => ⟨?_, fun t task o ht ho k v hk => ?_, ?_, ?_, fun hstuck hb => ?_⟩, ?_⟩
  · exact hr.exactlyOnce h₀ hw
  · exact hr.result?_stays h₀ hk (by rw [World.result?, ht]; simp [ho, Slot.result?])
  · rintro h₁ k s next rfl hs
    obtain ⟨x, u, hx, he, hk⟩ := hr.exists_happens
    refine ((hx.tail he).dropping h₀ hc hk he.program_of_release hs).imp_right ?_
    rintro ⟨k₁, k₂, v, rfl, hv, -, hnext, hd⟩
    have hrun := (hx.tail he).append hv
    rw [List.append_assoc, List.singleton_append] at hrun
    exact ⟨k₁, k₂, v, rfl, hrun, hnext, hrun.drained h₀ hw hq₀ hd⟩
  · rintro h₁ k s next rfl hs
    obtain ⟨x, u, hx, he, hk⟩ := hr.exists_happens
    rcases (hx.tail he).detaching h₀ hc hk he.program_of_release hs hq₀ with
      ⟨f, hf, m, hI, hm⟩ | ⟨k₁, k₂, v, rfl, hv, -, hnext, -, hm⟩
    · obtain ⟨q, hq, -⟩ := hr.forward hw hq₀
      obtain ⟨a, y, ha⟩ := hI.answered hq s
      obtain ⟨g, hg⟩ := ha.exists_after
      exact .inl ⟨f, m, hf, hI, hm, a, _, .did hf ha hg⟩
    · have hrun := (hx.tail he).append hv
      rw [List.append_assoc, List.singleton_append] at hrun
      exact .inr ⟨k₁, k₂, v, rfl, hm, hrun, hnext⟩
  · obtain ⟨q, hq, -⟩ := hr.forward hw hq₀
    have hst := hr.story h₀ hw
    have hwc := hr.byCalls hw (h₀.byCalls hc)
    have free : ∀ {t : Nat} {task : Entry ν}, w.tasks[t]? = some task → task.pool = p →
        ∃ o, task.slot = .delivered o := fun {t task} ht hp => by
      by_contra hn
      have hheld := hstuck.held_of_pending hr h₀ hw ht fun o ho => hn ⟨o, ho⟩
      exact hb (hstuck.blocked hwc (hp ▸ hheld))
    refine ⟨fun t task => free, fun s f => hstuck.not_tends hst (hr.harmless hw) hwc hq hb,
      fun s t limit next task hf ht hp => ?_, ?_⟩
    · exact hb (hstuck.blocked hwc (hp ▸ hstuck.held_of_receive hr h₀ hw hf ht))
    · rintro ⟨s, next, hm⟩
      exact hr.drained_of_released h₀ hc hq₀ hstuck hb hm
  · exact h₀.story.inevitably_of_stuck hw fun h w hr hs => hs

/-- A client that leaves the last share in a pool with one worker to a job of this pool. -/
def selfOwned : World String where
  pools := [.start String "pool" 1]
  clients := [.retain 0 (.submit 0 [0] (.awaitGate "go" (.letGo 0 (.yield "dropped"))) fun
    | .ok t => .letGo 0 (.openGate "go" (.receive t none fun r =>
        .yield (match r with | .ok v => v | .error _ => "")))
    | .error _ => .yield "")]

/-- The job gives the last share up, and its client gets what it has ended with. -/
theorem drop_safe_selfOwned :
    (∃ h w, selfOwned.Run h w ∧ w.ending? 0 = some (.value "dropped") ∧
      (∃ next, .did (.worker 0 0) (.letGo 0 next) (.flag true) ∈ h) ∧ DropSafe 0 1 selfOwned h w) ∧
    selfOwned.Inevitably IsStuck := by
  have hnew : selfOwned.IsNew := by
    refine ⟨rfl, rfl, rfl, fun p q hq => ?_⟩
    obtain rfl := List.mem_singleton.1 (List.mem_of_getElem? hq)
    exact ⟨1, by decide, "pool", 1, rfl⟩
  have hc : ∀ f ∈ selfOwned.clients, f.Calls := by
    intro f hf
    obtain rfl := List.mem_singleton.1 hf
    refine .retain (.submit (.awaitGate (.letGo (Program.calls_yield _))) fun r => ?_)
    rcases r with e | t
    · exact Program.calls_yield _
    · exact .letGo (.openGate (.receive fun _ => Program.calls_yield _))
  -- the client keeps a share for the job and gives its own up, then opens the gate
  have hoffered := ((Run.refl (w := selfOwned)).does (.client 0) rfl (.retained rfl) rfl).does
    (.client 0) rfl (.accepted rfl rfl) rfl
  have hopened := (hoffered.does (.client 0) rfl (.released rfl) rfl).does
    (.client 0) rfl .gateOpened rfl
  have htook := (hopened.tail (.took (p := 0) (i := 0) rfl rfl rfl rfl)).does
    (.worker 0 0) rfl (.gatePassed rfl) rfl
  -- the worker gives the last share up, does not wait, and ends its job
  have hreleased := htook.does (.worker 0 0) rfl (.released rfl) rfl
  have hclosed := ((hreleased.does (.worker 0 0) rfl (.phaseRead rfl) rfl).does
    (.worker 0 0) rfl (.closed rfl) rfl).does (.worker 0 0) rfl (.shuttingDown rfl) rfl
  have hdelivered := (hclosed.does (.worker 0 0) rfl (.awaitable rfl) rfl).tail
    (.delivered (p := 0) (i := 0) rfl rfl rfl rfl rfl)
  have hjoined := hdelivered.does (.client 0) rfl (.received rfl) rfl
  have hsafe := drop_safe hnew hc (p := 0) rfl
  refine ⟨⟨_, _, hjoined, rfl, ⟨.yield "dropped", ?_⟩, hsafe.1 _ _ hjoined⟩, hsafe.2⟩
  iterate 6 refine List.mem_append_left _ ?_
  exact List.mem_append_right _ (List.mem_singleton.2 rfl)

/-- Gives the last share in the pool up, and waits for a task. -/
def dropAndJoin (t : Nat) : Program String :=
  .letGo 0 (.join t none fun r => .yield (match r with | .error .taskDropped => "dropped" | _ => ""))

/-- A client that offers two jobs to a pool with one worker, does something with the handle of the first, gives
the last share in the pool up, and waits for the second. -/
def twoOffers (e : Ending String) (first : Nat → Program String → Program String) : World String where
  pools := [.start String "pool" 1]
  clients := [.submit 0 [] (.awaitGate "go" (.finish e)) fun
    | .ok t => first t (.submit 0 [] (.yield "done") fun
      | .ok u => .openGate "go" (dropAndJoin u)
      | .error _ => .yield "")
    | .error _ => .yield ""]

/-- The second job is taken along by the worker that goes down with the first: it was accepted, nobody takes
it, and its client is told that it was dropped. -/
def TakenAlong (w₀ : World String) : Prop :=
  ∃ h w, w₀.Run h w ∧ passed .accepted 0 h = [0, 1] ∧ passed .taken 0 h = [0] ∧ w.Deserted 0 ∧
    w.ending? 0 = some (.value "dropped")

/-- Both jobs are offered, and the gate is open. -/
def bothOffered (e : Ending String) (givenUp : List Nat) : World String where
  pools := [{ WorkerPool.start String "pool" 1 with queue := [0, 1] }]
  tasks := [⟨0, [], .awaitGate "go" (.finish e), .waiting⟩, ⟨0, [], .yield "done", .waiting⟩]
  clients := [dropAndJoin 1]
  gates := ["go"]
  givenUp

/-- From there on it goes the same way, if the worker goes down with what the first job ends with. -/
theorem takenAlong_of_bothOffered {w₀ : World String} {h : List (Event String)} {e : Ending String}
    (givenUp : List Nat) (hr : w₀.Run h (bothOffered e givenUp))
    (hd : (bothOffered e givenUp).bringsDown 0 e = true) (haccepted : passed .accepted 0 h = [0, 1])
    (htaken : passed .taken 0 h = []) : TakenAlong w₀ := by
  have hclosed := (((hr.does (.client 0) rfl (.released rfl) rfl).does
    (.client 0) rfl (.phaseRead rfl) rfl).does (.client 0) rfl (.closed rfl) rfl).does
    (.client 0) rfl (.shuttingDown rfl) rfl
  -- the worker goes down with the first job, and disposes of the second
  have hlost := ((((hclosed.does (.client 0) rfl (.awaitable rfl) rfl).tail
    (.took (p := 0) (i := 0) rfl rfl rfl rfl)).does (.worker 0 0) rfl (.gatePassed rfl) rfl).tail
    (.fell (p := 0) (i := 0) rfl rfl hd)).tail (.lost (p := 0) (i := 0) rfl rfl)
  have hreturned := ((hlost.does (.client 0) rfl (.exited rfl rfl) rfl).does
    (.client 0) rfl (.terminated rfl) rfl).does (.client 0) rfl (.received rfl) rfl
  refine ⟨_, _, hreturned, ?_, ?_, ⟨_, rfl, rfl⟩, rfl⟩
  · simp only [passed_append, haccepted]
    rfl
  · simp only [passed_append, htaken]
    rfl

/-- **A worker that goes down can take accepted jobs along**, be it that it cannot dispose of the payload of a
job that has panicked, or of a value whose handle has been dropped. -/
theorem job_taken_along :
    TakenAlong (twoOffers (.panic .bomb) fun _ next => next) ∧
    TakenAlong (twoOffers (.fragile "kept") Program.forget) := by
  constructor
  · have hoffered := (((Run.refl (w := twoOffers (.panic .bomb) fun _ next => next)).does (.client 0) rfl
      (.accepted rfl rfl) rfl).does (.client 0) rfl (.accepted rfl rfl) rfl).does (.client 0) rfl .gateOpened rfl
    exact takenAlong_of_bothOffered [] hoffered rfl rfl rfl
  · have hoffered := ((((Run.refl (w := twoOffers (.fragile "kept") Program.forget)).does (.client 0) rfl
      (.accepted rfl rfl) rfl).does (.client 0) rfl .discarded rfl).does (.client 0) rfl
      (.accepted rfl rfl) rfl).does (.client 0) rfl .gateOpened rfl
    exact takenAlong_of_bothOffered [0] hoffered rfl rfl rfl

end World

end Handoff.Pool
