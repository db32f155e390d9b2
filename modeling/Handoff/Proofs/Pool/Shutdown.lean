import Handoff.Proofs.Pool.Lifecycle
import Handoff.Proofs.Pool.Termination

/-! # Threads that shut a pool down

A call of `Program.shutdownAndWait` takes five instructions, and one of `Program.letGo` up to seven, with
moves of other threads in between. Wherever a thread is within such a call, it comes to the end of the
call, and the pool to its own; it can only be held up by a worker of the pool that waits within its job.

* `Open`, `Closed`, `Ended`: what is known of the intake and the phase of a pool.
* `Closing`, `Leaving`: where a thread can be within the two calls.
* `IsStuck.held_of_pending`, `Closing.held`, `Leaving.held`: what holds a thread up where nothing can
  happen.
-/

namespace Handoff.Pool

variable {ν : Type}

namespace World

/-- A pool whose intake is open. -/
def Open (w : World ν) (p : Nat) : Prop := ∃ q, w.pools[p]? = some q ∧ q.accepting = true

/-- A pool whose intake is closed. -/
def Closed (w : World ν) (p : Nat) : Prop := ∃ q, w.pools[p]? = some q ∧ q.accepting = false

/-- A pool that is marked as terminated. -/
def Ended (w : World ν) (p : Nat) : Prop := ∃ q, w.pools[p]? = some q ∧ q.phase = .terminated

section

variable {w v : World ν} {e : Event ν} {p : Nat}

theorem Happens.closed (he : w.Happens e v) (hw : w.Harmless) (h : w.Closed p) : v.Closed p := by
  obtain ⟨q, hq, ha⟩ := h
  obtain ⟨q', hq', ht⟩ := he.turn hw hq
  exact ⟨q', hq', ht.accepting ha⟩

theorem Happens.ended (he : w.Happens e v) (hw : w.Harmless) (h : w.Ended p) : v.Ended p := by
  obtain ⟨q, hq, ha⟩ := h
  obtain ⟨q', hq', ht⟩ := he.turn hw hq
  have hle : Phase.terminated.rank ≤ q'.phase.rank := ha ▸ ht.phase_le
  refine ⟨q', hq', ?_⟩
  cases hphase : q'.phase with
  | terminated => rfl
  | running | shuttingDown => rw [hphase] at hle; exact absurd hle (by decide)

/-- A pool stays open unless a thread closes its intake. -/
theorem Happens.open (he : w.Happens e v) (hw : w.Harmless) (h : w.Open p)
    (hne : ∀ s next a, e ≠ .did s (.closeIntake p next) a) : v.Open p := by
  obtain ⟨q, hq, ha⟩ := h
  obtain ⟨q', hq', ht⟩ := he.turn hw hq
  exact ⟨q', hq', ht.open ha fun s next a => hne s next a⟩

/-- Who has closed the intake of a pool, finds it closed. -/
theorem Happens.closed_of_close {s : Thread} {next : Bool → Program ν} {a : Answer ν}
    (he : w.Happens (.did s (.closeIntake p next) a) v) (hw : w.Harmless) : v.Closed p := by
  obtain ⟨q, hq⟩ : ∃ q, w.pools[p]? = some q := by
    cases he with
    | did hp ha => cases ha with | closed hq => exact ⟨_, hq⟩
  obtain ⟨q', hq', ht⟩ := he.turn hw hq
  exact ⟨q', hq', ht.closes⟩

/-- Who has marked a pool as terminated, finds it so. -/
theorem Happens.ended_of_mark {s : Thread} {next : Program ν} {a : Answer ν}
    (he : w.Happens (.did s (.markTerminated p next) a) v) (hw : w.Harmless) : v.Ended p := by
  obtain ⟨q, hq⟩ : ∃ q, w.pools[p]? = some q := by
    cases he with
    | did hp ha => cases ha with | terminated hq => exact ⟨_, hq⟩
  obtain ⟨q', hq', ht⟩ := he.turn hw hq
  refine ⟨q', hq', ?_⟩
  show q'.view.phase = .terminated
  generalize q'.view = y at ht
  cases ht with
  | tuned => simp [View.tuned]
  | elsewhere he => cases he

end

section

variable {w₀ w : World ν} {h : List (Event ν)} {p : Nat}

/-- An open pool takes every job. -/
theorem Run.takesJobs (hr : w₀.Run h w) (h₀ : w₀.IsNew) (hw : w₀.Harmless) (ho : w.Open p)
    {q : WorkerPool ν} (hq : w.pools[p]? = some q) : q.takesJobs = true := by
  obtain ⟨q', hq', ha⟩ := ho
  obtain rfl := Option.some.inj (hq.symm.trans hq')
  obtain ⟨q₀, n, -, -, hn, -, hl⟩ := hr.pool h₀ hw hq
  rw [hl.takesJobs hn, ha]

/-- **A terminated pool has come to its end.** -/
theorem Run.drained_of_ended (hr : w₀.Run h w) (h₀ : w₀.IsNew) (hc : ∀ f ∈ w₀.clients, f.Calls)
    {q₀ : WorkerPool ν} (hq₀ : w₀.pools[p]? = some q₀) (he : w.Ended p) :
    w.Drained p q₀.workers.length := by
  have hw := h₀.harmless fun f hf => (hc f hf).harmless
  obtain ⟨q, hq, hphase⟩ := he
  exact hr.drained h₀ hw hq₀ ((hr.guarded hw (h₀.guarded hc)).terminated p q hq hphase)

end

end World

/-! ### Within a call -/

/-- **Where a thread can be that shuts pool `p` down and waits for its end**, and then goes on with
`next`. -/
inductive Closing (w : World ν) (p : Nat) (next : Bool → Program ν) : Program ν → Prop where
  | close : Closing w p next (.shutdownAndWait p next)
  | mark (h : w.Closed p) : Closing w p next (.markShuttingDown p (.awaitTermination p none next))
  | ask (h : w.Closed p) : Closing w p next (.awaitTermination p none next)
  | wait (h : w.Closed p) : Closing w p next
      (.awaitExit p none fun gone => if gone then .markTerminated p (next true) else next false)
  | last : Closing w p next (.markTerminated p (next true))

/-- **Where a thread can be that gives up a share in pool `p`**, and then goes on with `next`. -/
inductive Leaving (w : World ν) (p : Nat) (next : Program ν) : Program ν → Prop where
  | release : Leaving w p next (.letGo p next)
  | ask : Leaving w p next (.readPhase p fun phase =>
      if phase = .terminated then next else .shutdownAndWait p fun _ => next)
  | close {f : Program ν} (h : Closing w p (fun _ => next) f) : Leaving w p next f

section

variable {w v : World ν} {e : Event ν} {p : Nat} {f g : Program ν} {s : Thread} {a : Answer ν}

theorem Closing.mono {next : Bool → Program ν} (h : Closing w p next f)
    (hv : w.Closed p → v.Closed p) : Closing v p next f := by
  cases h with
  | close => exact .close
  | mark h => exact .mark (hv h)
  | ask h => exact .ask (hv h)
  | wait h => exact .wait (hv h)
  | last => exact .last

theorem Leaving.mono {next : Program ν} (h : Leaving w p next f) (hv : w.Closed p → v.Closed p) :
    Leaving v p next f := by
  cases h with
  | release => exact .release
  | ask => exact .ask
  | close h => exact .close (h.mono hv)

/-- **A thread that shuts a pool down comes to the end of the call**, and then the pool is terminated. -/
theorem Closing.after {next : Bool → Program ν} (h : Closing w p next f)
    (he : w.Happens (.did s f a) v) (hw : w.Harmless) (hs : s.worksFor p = false)
    (hn : f.after? a = some g) : Closing v p next g ∨ (g = next true ∧ v.Ended p) := by
  have hclosed := he.closed hw (p := p)
  cases h with
  | close =>
    left
    have hc := World.Happens.closed_of_close he hw
    cases a <;> cases hn
    rename_i wasOpen
    cases wasOpen
    · exact .ask hc
    · exact .mark hc
  | mark h =>
    cases a <;> cases hn
    exact Or.inl (.ask (hclosed h))
  | ask h =>
    left
    obtain ⟨q, hq, hacc⟩ := h
    cases he with
    | did hp ha hn' =>
      cases ha with
      | awaitable hq' =>
        obtain rfl := Option.some.inj (hq.symm.trans hq')
        rw [hacc, hs] at hn
        cases hn
        exact .wait (hclosed ⟨_, hq, hacc⟩)
  | wait h =>
    left
    cases he with
    | did hp ha hn' =>
      cases ha with
      | exited hq hd => cases hn; exact .last
  | last =>
    right
    have hended := World.Happens.ended_of_mark he hw
    cases a <;> cases hn
    exact ⟨rfl, hended⟩

theorem Leaving.after {next : Program ν} (h : Leaving w p next f) (he : w.Happens (.did s f a) v)
    (hw : w.Harmless) (hs : s.worksFor p = false) (hn : f.after? a = some g) :
    Leaving v p next g ∨ g = next := by
  cases h with
  | release =>
    cases a <;> cases hn
    rename_i last
    cases last
    · exact Or.inr rfl
    · exact Or.inl .ask
  | ask =>
    cases a <;> cases hn
    rename_i phase
    cases phase
    · exact Or.inl (.close .close)
    · exact Or.inl (.close .close)
    · exact Or.inr rfl
  | close h =>
    rcases h.after he hw hs hn with h | ⟨rfl, -⟩
    · exact Or.inl (.close h)
    · exact Or.inr rfl

/-- Whether the next instruction is one on the intake, the phase or the end of pool `p`. -/
def Program.Tends (p : Nat) : Program ν → Prop
  | closeIntake i _ => i = p
  | markShuttingDown i _ => i = p
  | mayAwait i _ => i = p
  | awaitExit i _ _ => i = p
  | markTerminated i _ => i = p
  | release i _ => i = p
  | readPhase i _ => i = p
  | _ => False

theorem Closing.tends {next : Bool → Program ν} (h : Closing w p next f) : f.Tends p := by
  cases h <;> rfl

theorem Leaving.tends {next : Program ν} (h : Leaving w p next f) : f.Tends p := by
  cases h with
  | release | ask => rfl
  | close h => exact h.tends

end

/-! ### Who is held up -/

namespace World

variable {w₀ w : World ν} {h : List (Event ν)}

/-- A worker of a pool that waits within its job. -/
def Held (w : World ν) (p : Nat) : Prop :=
  ∃ i t f, w.worker? p i = some (.busy t f) ∧ ∀ e, f ≠ .finish e

/-- **Where nothing can happen, a task that is not done is held up by a worker of its pool.** -/
theorem IsStuck.held_of_pending (hstuck : w.IsStuck) (hr : w₀.Run h w) (h₀ : w₀.IsNew)
    (hw : w₀.Harmless) {t : Nat} {task : Entry ν} (ht : w.tasks[t]? = some task)
    (hn : ∀ o, task.slot ≠ .delivered o) : w.Held task.pool := by
  have hst := hr.story h₀ hw
  have hwh := hr.harmless hw
  rcases hst.pending ht hn with ⟨q, hq, hm⟩ | ⟨i, f, hx⟩
  · obtain ⟨q₀, n, -, -, hpos, -, hl⟩ := hr.pool h₀ hw hq
    have hsize : q.workers.length = n := by simpa [WorkerPool.view] using hl.size
    obtain ⟨x, hi⟩ : ∃ x, q.workers[0]? = some x := ⟨_, List.getElem?_eq_getElem (by omega)⟩
    have hne : q.queue ≠ [] := List.ne_nil_of_mem hm
    rcases hstuck.worker hst hwh hq hi with hgone | ⟨-, hempty, -⟩ | ⟨u, f, hb, hf⟩
    · have hlost := hl.of_isLost (List.mem_of_getElem? hi) (by rw [hgone]; rfl)
      exact absurd hlost.2.2 hne
    · exact absurd hempty hne
    · exact ⟨0, u, f, worker?_eq_some.2 ⟨q, hq, hb ▸ hi⟩, hf⟩
  · obtain ⟨q, hq, hi⟩ := worker?_eq_some.1 hx
    rcases hstuck.worker hst hwh hq hi with hb | ⟨hb, -⟩ | ⟨u, g, hb, hf⟩
    · cases hb
    · cases hb
    · cases hb
      exact ⟨i, t, f, hx, hf⟩

/-- Where nothing can happen, who waits for a task is held up by a worker of its pool. -/
theorem IsStuck.held_of_receive (hstuck : w.IsStuck) (hr : w₀.Run h w) (h₀ : w₀.IsNew)
    (hw : w₀.Harmless) {s : Thread} {t : Nat} {limit : Option Duration}
    {next : Except Failure ν → Program ν} (hf : w.program? s = some (.receive t limit next))
    {task : Entry ν} (ht : w.tasks[t]? = some task) : w.Held task.pool := by
  have hres : w.result? t = none := by
    by_contra hne
    obtain ⟨r, hres⟩ := Option.ne_none_iff_exists'.1 hne
    exact hstuck.not_answered hf (.received hres)
  refine hstuck.held_of_pending hr h₀ hw ht fun o ho => ?_
  rw [World.result?, ht] at hres
  simp [ho, Slot.result?] at hres

/-- **Where nothing can happen, the end of a closed pool is held up by one of its workers.** -/
theorem IsStuck.held_of_closed (hstuck : w.IsStuck) (hst : Story h w) (hw : w.Harmless) {p : Nat}
    {q : WorkerPool ν} (hq : w.pools[p]? = some q) (ha : q.accepting = false)
    (hd : q.isDeserted = false) : w.Held p := by
  rw [WorkerPool.isDeserted, List.all_eq_false] at hd
  obtain ⟨x, hx, hgone⟩ := hd
  obtain ⟨i, hi⟩ := List.getElem?_of_mem hx
  rcases hstuck.worker hst hw hq hi with rfl | ⟨-, -, hopen⟩ | ⟨t, f, rfl, hf⟩
  · exact absurd rfl hgone
  · rw [ha] at hopen; cases hopen
  · exact ⟨i, t, f, worker?_eq_some.2 ⟨q, hq, hi⟩, hf⟩

end World

section

variable {w : World ν} {h : List (Event ν)} {p : Nat} {f : Program ν} {s : Thread}

/-- **Where nothing can happen, who shuts a pool down is held up by one of its workers.** -/
theorem Closing.held {next : Bool → Program ν} (hc : Closing w p next f)
    (hf : w.program? s = some f) (hstuck : w.IsStuck) (hst : World.Story h w) (hw : w.Harmless)
    {q : WorkerPool ν} (hq : w.pools[p]? = some q) : w.Held p := by
  cases hc with
  | close => exact absurd (.closed hq) (hstuck.not_answered hf)
  | mark => exact absurd (.shuttingDown hq) (hstuck.not_answered hf)
  | ask => exact absurd (.awaitable hq) (hstuck.not_answered hf)
  | last => exact absurd (.terminated hq) (hstuck.not_answered hf)
  | wait hclosed =>
    obtain ⟨q', hq', ha⟩ := hclosed
    obtain rfl := Option.some.inj (hq.symm.trans hq')
    refine hstuck.held_of_closed hst hw hq ha ?_
    by_contra hd
    exact hstuck.not_answered hf (.exited hq (by simpa using hd))

theorem Leaving.held {next : Program ν} (hc : Leaving w p next f) (hf : w.program? s = some f)
    (hstuck : w.IsStuck) (hst : World.Story h w) (hw : w.Harmless) {q : WorkerPool ν}
    (hq : w.pools[p]? = some q) : w.Held p := by
  cases hc with
  | release => exact absurd (.released hq) (hstuck.not_answered hf)
  | ask => exact absurd (.phaseRead hq) (hstuck.not_answered hf)
  | close hc => exact hc.held hf hstuck hst hw hq

end

end Handoff.Pool
