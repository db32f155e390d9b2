import Handoff.Proofs.Pool.Ledger
import Handoff.Proofs.Pool.Termination

/-! # Every accepted job is run once and answered for once

Clients and jobs are any programs, as long as no job ends with what takes its worker down. Whatever the
interleaving, a job that a pool has accepted is in the queue of the pool until one worker takes it, and
in the hands of this worker until the worker delivers what the job has ended with. Who waits for a task
gets what its own job has ended with. No job is lost, none that was refused is run, and no worker goes
before the intake is closed.

* `heard`: what a thread has been answered since it last took a task. A worker's job has come as far as
  these answers lead.
* `Whereabouts`: where a task can be, and what its history is there.
* `ExactlyOnce`: the statement about one run.
* `Settled`: what has become of the accepted jobs where nothing can happen.
* `exactly_once`: every run is like this, and every run ends in a settled world.
-/

namespace Handoff.Pool

variable {ν : Type}

/-! ### What a job has been answered -/

/-- What a thread has been answered since it last took a task, after one more event. -/
def Event.hear (self : Thread) (as : List (Answer ν)) : Event ν → List (Answer ν)
  | did s _ a => if s = self then as ++ [a] else as
  | took p i _ => if Thread.worker p i = self then [] else as
  | _ => as

/-- **What a thread has been answered** since it last took a task. -/
def heard (self : Thread) (h : List (Event ν)) : List (Answer ν) := h.foldl (Event.hear self) []

theorem heard_concat (self : Thread) (h : List (Event ν)) (e : Event ν) :
    heard self (h ++ [e]) = e.hear self (heard self h) := by
  rw [heard, heard, List.foldl_append]; rfl

theorem heard_concat_of_ne {self : Thread} (h : List (Event ν)) {e : Event ν}
    (hne : e.thread ≠ self) : heard self (h ++ [e]) = heard self h := by
  rw [heard_concat]
  cases e <;> first | rfl | exact if_neg hne

namespace World

/-- Every busy worker has come in its task's job as far as what it has been answered leads. -/
def Resumed (h : List (Event ν)) (w : World ν) : Prop :=
  ∀ p i t f, w.worker? p i = some (.busy t f) →
    ∃ task, w.tasks[t]? = some task ∧ task.job.resume? (heard (.worker p i) h) = some f

/-- **Every move keeps how far the jobs have come.** -/
theorem Happens.resumed {h : List (Event ν)} {w v : World ν} {e : Event ν} (he : w.Happens e v)
    (hr : Resumed h w) : Resumed (h ++ [e]) v := by
  intro p i t f hx
  rcases he.busy hx with ⟨hne, hwx⟩ | ⟨task, rfl, ht, rfl⟩ | ⟨g, a, rfl, hwx, hg⟩
  · obtain ⟨task, ht, hf⟩ := hr p i t f hwx
    obtain ⟨s, hs⟩ := he.task ht
    exact ⟨_, hs, by rw [heard_concat_of_ne h hne]; exact hf⟩
  · obtain ⟨s, hs⟩ := he.task ht
    exact ⟨_, hs, by rw [heard_concat, Event.hear, if_pos rfl]; rfl⟩
  · obtain ⟨task, ht, hf⟩ := hr p i t g hwx
    obtain ⟨s, hs⟩ := he.task ht
    refine ⟨_, hs, ?_⟩
    rw [heard_concat, Event.hear, if_pos rfl]
    exact Program.resume?_concat hf hg

theorem Run.resumed {w₀ w : World ν} {h : List (Event ν)} (hr : w₀.Run h w) (h₀ : w₀.IsNew) :
    Resumed h w := by
  induction hr with
  | refl => intro p i t f hx; cases h₀.worker? hx
  | tail _ he ih => exact he.resumed ih

/-! ### One run -/

/-- **Where a task can be**, and what its history is there. -/
inductive Whereabouts (h : List (Event ν)) (w : World ν) (t : Nat) (task : Entry ν) : Prop where
  /-- It waits in the queue of its pool. -/
  | queued {q : WorkerPool ν} (hl : life h t = [.accepted task.pool task.job])
      (hq : w.pools[task.pool]? = some q) (ht : t ∈ q.queue) (hs : task.slot = .waiting)
  /-- The one worker that has taken it runs its job. -/
  | running {i : Nat} {f : Program ν}
      (hl : life h t = [.accepted task.pool task.job, .taken task.pool i])
      (hx : w.worker? task.pool i = some (.busy t f)) (hs : task.slot = .waiting)
  /-- The one worker that has taken it has delivered what its job has ended with. -/
  | done {i : Nat} {o : Except String ν}
      (hl : life h t =
        [.accepted task.pool task.job, .taken task.pool i, .delivered task.pool i o])
      (hs : task.slot = .delivered o)

/-- **Accepted jobs are run once and answered for once** in a run with history `h` from `w₀` to `w`. -/
structure ExactlyOnce (w₀ : World ν) (h : List (Event ν)) (w : World ν) : Prop where
  /-- Every task is accounted for, and it is that of a job that has been accepted. -/
  task : ∀ (t : Nat) (task : Entry ν), w.tasks[t]? = some task → Whereabouts h w t task
  /-- Every accepted job has its own task. -/
  accepted : ∀ t p job, .accepted p job ∈ life h t →
    ∃ task, w.tasks[t]? = some task ∧ task.pool = p ∧ task.job = job
  /-- Only the task of an accepted job is taken, and only if it has not been taken before. -/
  taken : ∀ h₁ h₂ p i t, h = h₁ ++ .took p i t :: h₂ → ∃ job, life h₁ t = [.accepted p job]
  /-- A worker runs the job of the task that it has taken. -/
  run : ∀ p i t f, w.worker? p i = some (.busy t f) →
    ∃ job, life h t = [.accepted p job, .taken p i] ∧
      job.resume? (heard (.worker p i) h) = some f
  /-- What is delivered for a task is what its own job has ended with. -/
  delivered : ∀ h₁ h₂ p i t o, h = h₁ ++ .delivered p i t o :: h₂ →
    ∃ job e, life h₁ t = [.accepted p job, .taken p i] ∧
      job.resume? (heard (.worker p i) h₁) = some (.finish e) ∧ e.outcome? = some o
  /-- Who waits for a task gets what has been delivered for it, or its limit is up before that. -/
  received : ∀ h₁ h₂ self t limit next r,
    h = h₁ ++ .did self (.receive t limit next) (.result r) :: h₂ →
      (∃ p i job o, life h₁ t = [.accepted p job, .taken p i, .delivered p i o] ∧
        r = o.mapError .taskFailed) ∨
      ∃ d, limit = some d ∧ r = .error (.timeout d) ∧ ∀ p i o, .delivered p i o ∉ life h₁ t
  /-- Nobody is told that a job was lost. -/
  kept : ∀ self t limit next, .did self (.receive t limit next) (.result (.error .taskDropped)) ∉ h
  /-- A job is refused only once a thread has closed the intake of the pool. -/
  refused : ∀ h₁ h₂ self p holds job next r,
    h = h₁ ++ .did self (.submit p holds job next) (.task (.error r)) :: h₂ →
      (∃ q : WorkerPool ν, w₀.pools[p]? = some q ∧ r = .poolShutdown q.name) ∧
      ∃ s k a, .did s (.closeIntake p k) a ∈ h₁
  /-- All workers stay as long as the intake is open, and leave only when the queue is empty. -/
  workers : ∀ (p : Nat) (q₀ : WorkerPool ν), w₀.pools[p]? = some q₀ →
    ∃ q, w.pools[p]? = some q ∧ q.workers.length = q₀.workers.length ∧
      ∀ x ∈ q.workers, x.isLost = true → q.accepting = false ∧ q.queue = []

/-- **What has become of the accepted jobs where nothing can happen**: each has been run to its end,
unless its worker waits within it, or all workers of the pool wait within other jobs. -/
def Settled (w : World ν) : Prop :=
  ∀ (t : Nat) (task : Entry ν), w.tasks[t]? = some task →
    (∃ o, task.slot = .delivered o) ∨
    (∃ i f, w.worker? task.pool i = some (.busy t f) ∧ ∀ e, f ≠ .finish e) ∨
    ∃ q, w.pools[task.pool]? = some q ∧ t ∈ q.queue ∧ q.workers ≠ [] ∧
      ∀ x ∈ q.workers, ∃ u f, x = .busy u f ∧ ∀ e, f ≠ .finish e

section

variable {w₀ w : World ν} {h : List (Event ν)}

theorem Run.whereabouts (hr : w₀.Run h w) (h₀ : w₀.IsNew) (hw : w₀.Harmless) {t : Nat}
    {task : Entry ν} (ht : w.tasks[t]? = some task) : Whereabouts h w t task := by
  have hs := hr.story h₀ hw
  obtain ⟨hlife, q, hq⟩ := hs.born t task ht
  have hpool := hs.pool task.pool q hq
  generalize hk : life h t = k at hlife
  cases hlife with
  | old => exact absurd hk (hr.life_ne_nil h₀ ht)
  | queued hslot => exact .queued hk hq ((hpool.queued t).2 ⟨_, hk⟩) hslot
  | @held i hslot =>
    obtain ⟨f, hi⟩ := busy_of_view_places ((hpool.held i t).2 ⟨_, hk⟩)
    exact .running hk (worker?_eq_some.2 ⟨q, hq, hi⟩) hslot
  | done hslot => exact .done hk hslot

theorem Run.accepted (hr : w₀.Run h w) (h₀ : w₀.IsNew) (hw : w₀.Harmless) {t p : Nat}
    {job : Program ν} (ha : .accepted p job ∈ life h t) :
    ∃ task, w.tasks[t]? = some task ∧ task.pool = p ∧ task.job = job := by
  have hs := hr.story h₀ hw
  have hlt : t < w.tasks.length := hs.lt_of_life (List.ne_nil_of_mem ha)
  refine ⟨_, List.getElem?_eq_getElem hlt, ?_⟩
  have hlife := (hs.born t _ (List.getElem?_eq_getElem hlt)).1
  generalize life h t = k at hlife ha
  cases hlife with
  | old => cases ha
  | queued | held | done => simp at ha; exact ⟨ha.1.symm, ha.2.symm⟩

/-- What a worker runs is the job of a task that it has taken, as far as it has come. -/
theorem Run.busy (hr : w₀.Run h w) (h₀ : w₀.IsNew) (hw : w₀.Harmless) {p i t : Nat}
    {f : Program ν} (hx : w.worker? p i = some (.busy t f)) :
    ∃ job, life h t = [.accepted p job, .taken p i] ∧
      job.resume? (heard (.worker p i) h) = some f := by
  obtain ⟨task, ht, -, hl⟩ := (hr.story h₀ hw).busy hx
  obtain ⟨task', ht', hf⟩ := hr.resumed h₀ p i t f hx
  obtain rfl := Option.some.inj (ht.symm.trans ht')
  exact ⟨task.job, hl, hf⟩

/-- A task has something for who waits for it once it has been delivered, and then its own outcome. -/
theorem Run.result? (hr : w₀.Run h w) (h₀ : w₀.IsNew) (hw : w₀.Harmless) (t : Nat) :
    (∃ p i job o, life h t = [.accepted p job, .taken p i, .delivered p i o] ∧
      w.result? t = some (o.mapError .taskFailed)) ∨
    (w.result? t = none ∧ ∀ p i o, .delivered p i o ∉ life h t) := by
  rcases ht : w.tasks[t]? with _ | task
  · right
    rw [(hr.story h₀ hw).unborn t (List.getElem?_eq_none_iff.1 ht)]
    exact ⟨by simp [World.result?, ht], by simp⟩
  · cases hr.whereabouts h₀ hw ht with
    | queued hl hq hm hs => right; simp [World.result?, ht, hs, hl, Slot.result?]
    | running hl hx hs => right; simp [World.result?, ht, hs, hl, Slot.result?]
    | done hl hs =>
      exact Or.inl ⟨_, _, _, _, hl, by simp [World.result?, ht, hs, Slot.result?]⟩

theorem Run.received (hr : w₀.Run h w) (h₀ : w₀.IsNew) (hw : w₀.Harmless)
    {h₁ h₂ : List (Event ν)} {self : Thread} {t : Nat} {limit : Option Duration}
    {next : Except Failure ν → Program ν} {r : Except Failure ν}
    (hh : h = h₁ ++ .did self (.receive t limit next) (.result r) :: h₂) :
    (∃ p i job o, life h₁ t = [.accepted p job, .taken p i, .delivered p i o] ∧
      r = o.mapError .taskFailed) ∨
    ∃ d, limit = some d ∧ r = .error (.timeout d) ∧ ∀ p i o, .delivered p i o ∉ life h₁ t := by
  obtain ⟨v, v', hv, he, -⟩ := (hh ▸ hr).exists_happens
  cases he with
  | did hp ha hn =>
    cases ha with
    | received hres =>
      rcases hv.result? h₀ hw t with ⟨p, i, job, o, hl, ho⟩ | ⟨hnone, -⟩
      · exact Or.inl ⟨p, i, job, o, hl, Option.some.inj (hres.symm.trans ho)⟩
      · rw [hres] at hnone; cases hnone
    | receiveExpired hres =>
      rcases hv.result? h₀ hw t with ⟨p, i, job, o, hl, ho⟩ | ⟨-, hd⟩
      · rw [ho] at hres; cases hres
      · exact Or.inr ⟨_, rfl, rfl, hd⟩

theorem Run.taken (hr : w₀.Run h w) (h₀ : w₀.IsNew) (hw : w₀.Harmless) {h₁ h₂ : List (Event ν)}
    {p i t : Nat} (hh : h = h₁ ++ .took p i t :: h₂) : ∃ job, life h₁ t = [.accepted p job] := by
  obtain ⟨v, v', hv, he, -⟩ := (hh ▸ hr).exists_happens
  exact he.due (hv.story h₀ hw)

theorem Run.delivered (hr : w₀.Run h w) (h₀ : w₀.IsNew) (hw : w₀.Harmless)
    {h₁ h₂ : List (Event ν)} {p i t : Nat} {o : Except String ν}
    (hh : h = h₁ ++ .delivered p i t o :: h₂) :
    ∃ job e, life h₁ t = [.accepted p job, .taken p i] ∧
      job.resume? (heard (.worker p i) h₁) = some (.finish e) ∧ e.outcome? = some o := by
  obtain ⟨v, v', hv, he, -⟩ := (hh ▸ hr).exists_happens
  cases he with
  | delivered hq hi ho =>
    obtain ⟨job, hl, hf⟩ := hv.busy h₀ hw (worker?_eq_some.2 ⟨_, hq, hi⟩)
    exact ⟨job, _, hl, hf, ho⟩

theorem Run.refused (hr : w₀.Run h w) (h₀ : w₀.IsNew) (hw : w₀.Harmless)
    {h₁ h₂ : List (Event ν)} {self : Thread} {p : Nat} {holds : List Nat} {job : Program ν}
    {next : Except Failure Nat → Program ν} {r : Failure}
    (hh : h = h₁ ++ .did self (.submit p holds job next) (.task (.error r)) :: h₂) :
    (∃ q : WorkerPool ν, w₀.pools[p]? = some q ∧ r = .poolShutdown q.name) ∧
      ∃ s k a, .did s (.closeIntake p k) a ∈ h₁ := by
  obtain ⟨v, v', hv, he, -⟩ := (hh ▸ hr).exists_happens
  cases he with
  | did hp ha hn =>
    cases ha with
    | refused hq ht =>
      obtain ⟨q₀, n, hq₀, -, hn, hname, hl⟩ := hv.pool h₀ hw hq
      rw [hl.takesJobs hn] at ht
      exact ⟨⟨q₀, hq₀, by rw [hname]⟩, hl.closed ht⟩

theorem Run.workers (hr : w₀.Run h w) (h₀ : w₀.IsNew) (hw : w₀.Harmless) {p : Nat}
    {q₀ : WorkerPool ν} (hq₀ : w₀.pools[p]? = some q₀) :
    ∃ q, w.pools[p]? = some q ∧ q.workers.length = q₀.workers.length ∧
      ∀ x ∈ q.workers, x.isLost = true → q.accepting = false ∧ q.queue = [] := by
  obtain ⟨n, -, hnew⟩ := h₀.pools p q₀ hq₀
  obtain ⟨q, hq, -, hl⟩ := hr.ledger hw hq₀ hnew
  refine ⟨q, hq, ?_, fun x hx hlost => (hl.of_isLost hx hlost).2⟩
  obtain ⟨name, shares, rfl⟩ := hnew
  simpa [WorkerPool.view, WorkerPool.start] using hl.size

/-- **Where nothing can happen, the accepted jobs are settled.** -/
theorem Run.settled (hr : w₀.Run h w) (h₀ : w₀.IsNew) (hw : w₀.Harmless) (hs : w.IsStuck) :
    w.Settled := by
  intro t task ht
  have hst := hr.story h₀ hw
  have hwv := hr.harmless hw
  cases hr.whereabouts h₀ hw ht with
  | done _ hslot => exact Or.inl ⟨_, hslot⟩
  | running _ hx =>
    obtain ⟨q, hq, hi⟩ := worker?_eq_some.1 hx
    obtain hg | ⟨hg, -⟩ | ⟨u, f, hg, hf⟩ := hs.worker hst hwv hq hi <;> cases hg
    exact Or.inr (Or.inl ⟨_, _, hx, hf⟩)
  | @queued q _ hq hm =>
    obtain ⟨q₀, n, -, -, hn, -, hl⟩ := hr.pool h₀ hw hq
    refine Or.inr (Or.inr ⟨q, hq, hm, ?_, fun x hx => ?_⟩)
    · intro hnil
      have := hl.size
      rw [WorkerPool.view, hnil] at this
      exact absurd this (by simpa using hn.ne)
    · obtain ⟨i, hi⟩ := List.getElem?_of_mem hx
      obtain rfl | ⟨-, hnil, -⟩ | hb := hs.worker hst hwv hq hi
      · rw [(hl.of_isLost hx rfl).2.2] at hm; cases hm
      · rw [hnil] at hm; cases hm
      · exact hb

/-- **Accepted jobs are run once and answered for once** in every run. -/
theorem Run.exactlyOnce (hr : w₀.Run h w) (h₀ : w₀.IsNew) (hw : w₀.Harmless) :
    ExactlyOnce w₀ h w := by
  refine ⟨fun t task => hr.whereabouts h₀ hw, fun t p job => hr.accepted h₀ hw,
    fun h₁ h₂ p i t => hr.taken h₀ hw, fun p i t f => hr.busy h₀ hw,
    fun h₁ h₂ p i t o => hr.delivered h₀ hw,
    fun h₁ h₂ self t limit next r => hr.received h₀ hw, fun self t limit next hm => ?_,
    fun h₁ h₂ self p holds job next r => hr.refused h₀ hw, fun p q₀ => hr.workers h₀ hw⟩
  obtain ⟨h₁, h₂, hh⟩ := List.append_of_mem hm
  rcases hr.received h₀ hw hh with ⟨p, i, job, o, -, ho⟩ | ⟨d, -, hd, -⟩
  · cases o <;> cases ho
  · cases hd

/-- Every run ends where the accepted jobs are settled. -/
theorem IsNew.inevitably_settled (h₀ : w₀.IsNew) (hw : w₀.Harmless) :
    w₀.Inevitably fun w => w.IsStuck ∧ w.Settled :=
  h₀.story.inevitably_of_stuck hw fun _ _ hr hs => ⟨hs, hr.settled h₀ hw hs⟩

end

/-- **Accepted jobs are run once and answered for once**, whatever the clients and the interleaving,
and every run ends where the accepted jobs are settled. -/
theorem exactly_once {w₀ : World ν} (h₀ : w₀.IsNew) (hc : ∀ f ∈ w₀.clients, f.Harmless) :
    (∀ h w, w₀.Run h w → ExactlyOnce w₀ h w) ∧
      w₀.Inevitably fun w => w.IsStuck ∧ w.Settled := by
  have hw := h₀.harmless hc
  exact ⟨fun h w hr => hr.exactlyOnce h₀ hw, h₀.inevitably_settled hw⟩

/-- A client that waits for a job that breaks off, shuts the pool down, and tells what it has been
told. -/
def brokenOff : World String where
  pools := [.start String "pool" 2]
  clients := [.submit 0 [] (.finish (.panic (.text "out of paper"))) fun
    | .ok t => .receive t none fun r => .shutdownAndWait 0 fun _ =>
        .yield (match r with | .error (.taskFailed m) => m | _ => "")
    | .error _ => .yield ""]

theorem exactly_once_brokenOff :
    (∃ h w, brokenOff.Run h w ∧ w.ending? 0 = some (.value "out of paper") ∧
      ExactlyOnce brokenOff h w) ∧
    brokenOff.Inevitably fun w => w.IsStuck ∧ w.Settled := by
  have hnew : brokenOff.IsNew := by
    refine ⟨rfl, rfl, rfl, fun p q hq => ?_⟩
    obtain rfl := List.mem_singleton.1 (List.mem_of_getElem? hq)
    exact ⟨2, by decide, "pool", 1, rfl⟩
  have hc : ∀ f ∈ brokenOff.clients, f.Harmless := by
    intro f hf
    obtain rfl := List.mem_singleton.1 hf
    refine ⟨Payload.noConfusion, fun r => ?_⟩
    rcases r with e | t
    · exact Program.harmless_yield _
    · exact fun _ => .shutdownAndWait fun _ => Program.harmless_yield _
  obtain ⟨w, hw, hend⟩ : ∃ w, brokenOff.follow?
      ([.act (.client 0)] ++ List.replicate 3 (.act (.worker 0 1)) ++
        List.replicate 4 (.act (.client 0)) ++ [.act (.worker 0 0), .act (.worker 0 1)] ++
        List.replicate 2 (.act (.client 0))) = some w ∧
      w.ending? 0 = some (.value "out of paper") := ⟨_, rfl, rfl⟩
  obtain ⟨h, hr⟩ := run_of_follow? hw
  exact ⟨⟨h, w, hr, hend, (exactly_once hnew hc).1 h w hr⟩, (exactly_once hnew hc).2⟩

end World

end Handoff.Pool
