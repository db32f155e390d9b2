import Handoff.Pool.Greeting
import Handoff.Proofs.Pool.Shutdown

/-! # Where a nested greeting can be

The outer job waits for the inner one, the caller for the outer one, and either wait can be given up when
its limit is up. Then the caller shuts down first the outer pool and then the inner one, and waits for
their ends. The outer pool comes to its end only with the outer job, and the outer job ends only after it
has offered the inner one; so nobody closes the inner pool before it has taken the inner job, and no
offer is ever refused.

* `Greeting.Timely`: what a wait with a limit can lead to.
* `Greeting.Caller`, `Greeting.Outer`, `Greeting.Tasks`: where the caller, the outer job and the tasks
  can be.
* `Greeting.Shape`: the whole world, `Shape.happens`: every move keeps it.
-/

namespace Handoff.Pool

namespace Greeting

/-- What a wait with a limit leads to: a value, or that the limit was up. -/
def Timely {α : Type} (limit : Option Duration) (x : α) (r : Except Failure α) : Prop :=
  r = .ok x ∨ ∃ d, limit = some d ∧ r = .error (.timeout d)

/-- The texts of the inner and the outer job. -/
def texts : String × String := ("hello", "hello master thesis")

/-- What the caller returns if both waits have an answer. -/
def success : NestedGreeting := ⟨texts.1, texts.2, true⟩

/-- What the caller does once it has heard of the outer job. -/
def close (r : Except Failure Part) : Program Part :=
  .shutdownAndWait outerPool fun _ => .shutdownAndWait innerPool fun _ => report r

/-- What the caller does once it knows the phases of the outer and the inner pool. -/
def ask (a b : Phase) : Program Part :=
  leave (.ok ⟨texts.1, texts.2, a = .terminated && b = .terminated⟩)

section

variable {limit : Option Duration} {w v : World Part} {e : Event Part} {f g : Program Part}

/-! ### Where things can be -/

/-- **The tasks**: none, the outer one, or both, and what they yield. -/
inductive Tasks (limit : Option Duration) : List (Entry Part) → Prop where
  | none : Tasks limit []
  | outer : Tasks limit [⟨outerPool, [innerPool], outerJob limit, .waiting⟩]
  | both {s s' : Slot Part}
      (hs : s = .waiting ∨ ∃ r, Timely limit texts r ∧ s = .delivered (.ok (.nested r)))
      (hs' : s' = .waiting ∨ s' = .delivered (.ok (.word "hello"))) :
      Tasks limit [⟨outerPool, [innerPool], outerJob limit, s⟩, ⟨innerPool, [], innerJob, s'⟩]

/-- What the caller has heard of the outer job. -/
def Heard (limit : Option Duration) (r : Except Failure Part) : Prop :=
  Timely limit texts (r >>= fun part => extend (.ok part))

/-- **Where the caller can be once both pools are at their end.** -/
inductive Over (limit : Option Duration) (w : World Part) : Program Part → Prop where
  | readOuter : Over limit w (.readPhase outerPool fun a => .readPhase innerPool fun b => ask a b)
  | readInner : Over limit w (.readPhase innerPool fun b => ask .terminated b)
  | leaveInner {f : Program Part} {r : Except Failure NestedGreeting} (hr : Timely limit success r)
      (hf : Leaving w innerPool (.letGo outerPool (.yield (.whole r))) f) : Over limit w f
  | leaveOuter {f : Program Part} {r : Except Failure NestedGreeting} (hr : Timely limit success r)
      (hf : Leaving w outerPool (.yield (.whole r)) f) : Over limit w f
  | done {r : Except Failure NestedGreeting} (hr : Timely limit success r) :
      Over limit w (.yield (.whole r))

/-- **Where the caller can be.** -/
inductive Caller (limit : Option Duration) (w : World Part) : Program Part → Prop where
  | retain (h : w.tasks.length = 0) : Caller limit w (caller limit)
  | submit {next : Except Failure Nat → Program Part} (h : w.tasks.length = 0)
      (hn : ∀ t, next (.ok t) = .join t limit close) :
      Caller limit w (.submit outerPool [innerPool] (outerJob limit) next)
  | join (h : 0 < w.tasks.length) : Caller limit w (.join 0 limit close)
  | forget {r : Except Failure Part} (h : 0 < w.tasks.length) (hr : Heard limit r) :
      Caller limit w (.forget 0 (close r))
  | closeOuter {f : Program Part} {r : Except Failure Part} (h : 0 < w.tasks.length)
      (hr : Heard limit r)
      (hf : Closing w outerPool (fun _ => .shutdownAndWait innerPool fun _ => report r) f) :
      Caller limit w f
  | closeInner {f : Program Part} {r : Except Failure Part} (h : 2 ≤ w.tasks.length)
      (h₀ : w.Ended outerPool) (hr : Heard limit r) (hf : Closing w innerPool (fun _ => report r) f) :
      Caller limit w f
  | ending {f : Program Part} (h : 2 ≤ w.tasks.length) (h₀ : w.Ended outerPool)
      (h₁ : w.Ended innerPool) (hf : Over limit w f) : Caller limit w f

/-- **Where the outer job can be.** -/
inductive Outer (limit : Option Duration) (w : World Part) : Program Part → Prop where
  | start (h : w.tasks.length = 1) : Outer limit w (outerJob limit)
  | join (h : 2 ≤ w.tasks.length) : Outer limit w (.join 1 limit fun r =>
      .letGo innerPool (.yield (.nested (extend r))))
  | forget {r : Except Failure (String × String)} (h : 2 ≤ w.tasks.length) (hr : Timely limit texts r) :
      Outer limit w (.forget 1 (.letGo innerPool (.yield (.nested r))))
  | leave {f : Program Part} {r : Except Failure (String × String)} (h : 2 ≤ w.tasks.length)
      (hr : Timely limit texts r) (hf : Leaving w innerPool (.yield (.nested r)) f) : Outer limit w f
  | done {r : Except Failure (String × String)} (h : 2 ≤ w.tasks.length) (hr : Timely limit texts r) :
      Outer limit w (.yield (.nested r))

/-- **The world during a greeting**, with its history. The outer pool is open until it has a task, and the
inner one until the outer job has offered the inner one. -/
structure Shape (limit : Option Duration) (h : List (Event Part)) (w : World Part) : Prop where
  pools : w.pools.length = 2
  tasks : Tasks limit w.tasks
  taken : 2 ≤ w.tasks.length → ∃ i, .taken outerPool i ∈ life h 0
  openOuter : w.tasks.length = 0 → w.Open outerPool
  openInner : w.tasks.length < 2 → w.Open innerPool
  caller : ∃ f, w.clients = [f] ∧ Caller limit w f
  outer : ∀ i t f, w.worker? outerPool i = some (.busy t f) → Outer limit w f
  inner : ∀ i t f, w.worker? innerPool i = some (.busy t f) → f = innerJob

/-! ### Who runs what -/

theorem Tasks.eq_outer {l : List (Entry Part)} (h : Tasks limit l) (hl : l.length = 1) :
    l = [⟨outerPool, [innerPool], outerJob limit, .waiting⟩] := by
  cases h with
  | outer => rfl
  | none | both => simp at hl

/-- A task is the outer one or the inner one, and what is heard of it is timely. -/
theorem Tasks.getElem? {l : List (Entry Part)} (h : Tasks limit l) {t : Nat} {task : Entry Part}
    (ht : l[t]? = some task) :
    (t = 0 ∧ task.pool = outerPool ∧ task.job = outerJob limit ∧ ∀ r, task.slot.result? = some r →
      2 ≤ l.length ∧ ∃ r', Timely limit texts r' ∧ r = .ok (.nested r')) ∨
    (t = 1 ∧ task.pool = innerPool ∧ task.job = innerJob ∧
      ∀ r, task.slot.result? = some r → r = .ok (.word "hello")) := by
  cases h with
  | none => cases ht
  | outer =>
    obtain ⟨rfl, rfl⟩ := getElem?_singleton_eq_some ht
    exact Or.inl ⟨rfl, rfl, rfl, fun r hr => by cases hr⟩
  | both hs hs' =>
    match t with
    | 0 =>
      obtain rfl := Option.some.inj ht
      refine Or.inl ⟨rfl, rfl, rfl, fun r hr => ⟨Nat.le_refl _, ?_⟩⟩
      rcases hs with rfl | ⟨r', hr', rfl⟩
      · cases hr
      · cases hr
        exact ⟨r', hr', rfl⟩
    | 1 =>
      obtain rfl := Option.some.inj ht
      refine Or.inr ⟨rfl, rfl, rfl, fun r hr => ?_⟩
      rcases hs' with rfl | rfl
      · cases hr
      · cases hr
        rfl
    | t + 2 => cases ht

theorem Caller.closes {p : Nat} {next : Bool → Program Part}
    (hf : Caller limit w (.closeIntake p next)) :
    0 < w.tasks.length ∧ (p = innerPool → 2 ≤ w.tasks.length) := by
  generalize hc : Program.closeIntake p next = f at hf
  cases hf with
  | retain | submit | join | forget => cases hc
  | closeOuter h _ hf =>
    subst hc
    obtain rfl : p = outerPool := hf.tends
    exact ⟨h, fun hp => by cases hp⟩
  | closeInner h | ending h => exact ⟨by omega, fun _ => h⟩

theorem Outer.closes {p : Nat} {next : Bool → Program Part}
    (hf : Outer limit w (.closeIntake p next)) : 2 ≤ w.tasks.length := by
  generalize hc : Program.closeIntake p next = f at hf
  cases hf with
  | start | join | forget => cases hc
  | leave h => exact h
  | done h => exact h

variable {h : List (Event Part)} {s : Thread}

/-- **Who runs a program.** -/
theorem Shape.program (hs : Shape limit h w) (hw : w.Harmless) (hf : w.program? s = some f) :
    (s = .client 0 ∧ Caller limit w f) ∨
    (∃ i t, s = .worker outerPool i ∧ w.worker? outerPool i = some (.busy t f) ∧ Outer limit w f) ∨
    ∃ i, s = .worker innerPool i ∧ f = innerJob := by
  cases s with
  | client i =>
    obtain ⟨g, hg, hc⟩ := hs.caller
    have hf : w.clients[i]? = some f := hf
    rw [hg] at hf
    obtain ⟨rfl, rfl⟩ := getElem?_singleton_eq_some hf
    exact Or.inl ⟨rfl, hc⟩
  | worker p i =>
    right
    rw [World.program?_worker] at hf
    obtain ⟨x, hx, hf⟩ := Option.bind_eq_some_iff.1 hf
    obtain ⟨q, hq, -⟩ := World.worker?_eq_some.1 hx
    have hlt := (List.getElem?_eq_some_iff.1 hq).1
    rw [hs.pools] at hlt
    cases x with
    | idle | counting | gone => cases hf
    | falling => exact (hw.up _ _ _ hx).elim
    | busy t g =>
      cases hf
      match p, hlt with
      | 0, _ => exact Or.inl ⟨i, t, rfl, hx, hs.outer i t f hx⟩
      | 1, _ => exact Or.inr ⟨i, rfl, hs.inner i t f hx⟩

/-- **Who offers a job**: the caller the outer one, before there are tasks, and the outer job the inner
one. -/
theorem Shape.submits (hs : Shape limit h w) (hw : w.Harmless) {p : Nat} {holds : List Nat}
    {job : Program Part} {next : Except Failure Nat → Program Part}
    (hf : w.program? s = some (.submit p holds job next)) :
    (s = .client 0 ∧ w.tasks.length = 0 ∧ p = outerPool ∧ holds = [innerPool] ∧
      job = outerJob limit) ∨
    ∃ i t, s = .worker outerPool i ∧ w.worker? outerPool i = some (.busy t (outerJob limit)) ∧
      w.tasks.length = 1 ∧ p = innerPool ∧ holds = [] ∧ job = innerJob := by
  rcases hs.program hw hf with ⟨rfl, hc⟩ | ⟨i, t, rfl, hx, ho⟩ | ⟨i, -, hi⟩
  · left
    generalize hg : Program.submit p holds job next = g at hc
    cases hc with
    | submit h => cases hg; exact ⟨rfl, h, rfl, rfl, rfl⟩
    | retain | join | forget => cases hg
    | closeOuter _ _ hc => subst hg; exact hc.tends.elim
    | closeInner _ _ _ hc => subst hg; exact hc.tends.elim
    | ending _ _ _ ho =>
      cases ho with
      | leaveInner _ hl => subst hg; exact hl.tends.elim
      | leaveOuter _ hl => subst hg; exact hl.tends.elim
      | readOuter | readInner | done => cases hg
  · right
    generalize hg : Program.submit p holds job next = g at ho hx
    cases ho with
    | start h => cases hg; exact ⟨i, t, rfl, hx, h, rfl, rfl, rfl⟩
    | join | forget | done => cases hg
    | leave _ _ hl => subst hg; exact hl.tends.elim
  · cases hi

/-- **Who closes an intake** does so only when there is an outer task, and the inner pool's only when
there is an inner one. -/
theorem Shape.closes (hs : Shape limit h w) (hw : w.Harmless) (he : w.Happens e v) {p : Nat}
    {next : Bool → Program Part} {a : Answer Part} (hc : e = .did s (.closeIntake p next) a) :
    0 < w.tasks.length ∧ (p = innerPool → 2 ≤ w.tasks.length) := by
  subst hc
  cases he with
  | did hf =>
    rcases hs.program hw hf with ⟨-, hc⟩ | ⟨i, t, -, -, ho⟩ | ⟨i, -, hi⟩
    · exact hc.closes
    · exact ⟨by have := ho.closes; omega, fun _ => ho.closes⟩
    · cases hi

/-- There are as many tasks as before, unless a job is offered. -/
theorem Shape.length_tasks (hs : Shape limit h w) (hw : w.Harmless) (he : w.Happens e v) :
    v.tasks.length = w.tasks.length ∨
    ∃ s p holds job next, e = .did s (.submit p holds job next) (.task (.ok w.tasks.length)) ∧
      v.tasks.length = w.tasks.length + 1 ∧
      ((s = .client 0 ∧ w.tasks.length = 0) ∨
        ∃ i t, s = .worker outerPool i ∧ w.worker? outerPool i = some (.busy t (outerJob limit)) ∧
          w.tasks.length = 1) := by
  rcases he.tasks hw with ht | ⟨s, p, holds, job, next, rfl, hf, ht⟩ | ⟨p, i, t, x, o, -, -, -, ht⟩
  · exact Or.inl (by rw [ht])
  · refine Or.inr ⟨s, p, holds, job, next, rfl, by rw [ht, List.length_append]; rfl, ?_⟩
    rcases hs.submits hw hf with ⟨rfl, h0, -⟩ | ⟨i, t, rfl, hx, h1, -⟩
    · exact Or.inl ⟨rfl, h0⟩
    · exact Or.inr ⟨i, t, rfl, hx, h1⟩
  · exact Or.inl (by rw [ht, World.setSlot, List.length_modify])

/-- **Every move keeps the tasks.** -/
theorem Shape.happens_tasks (hs : Shape limit h w) (hst : World.Story h w) (hw : w.Harmless)
    (he : w.Happens e v) : Tasks limit v.tasks := by
  have htasks := hs.tasks
  rcases he.tasks hw with ht | ⟨s, p, holds, job, next, rfl, hf, ht⟩ |
    ⟨p, i, t, x, o, rfl, hx, ho, ht⟩
  · rw [ht]; exact htasks
  · rcases hs.submits hw hf with ⟨-, h0, rfl, rfl, rfl⟩ | ⟨i, t, -, -, h1, rfl, rfl, rfl⟩
    · rw [ht, List.length_eq_zero_iff.1 h0]
      exact .outer
    · rw [ht, htasks.eq_outer h1]
      exact .both (Or.inl rfl) (Or.inl rfl)
  · -- the outer job ends after it has offered the inner one
    obtain ⟨task, htask, hpool, -⟩ := hst.busy hx
    rw [ht, World.setSlot]
    rcases htasks.getElem? htask with ⟨rfl, hp, -⟩ | ⟨rfl, hp, -⟩
    · obtain rfl : p = outerPool := hpool.symm.trans hp
      generalize hg : Program.finish x = f at hx
      have hout := hs.outer i 0 f hx
      cases hout with
      | start | join | forget => cases hg
      | leave _ _ hl => subst hg; exact hl.tends.elim
      | @done r h2 hr =>
        cases hg
        cases ho
        generalize w.tasks = l at htasks h2
        cases htasks with
        | none | outer => simp at h2
        | both hs hs' => exact .both (Or.inr ⟨r, hr, rfl⟩) hs'
    · obtain rfl : p = innerPool := hpool.symm.trans hp
      have hin := hs.inner i 1 _ hx
      cases hin
      cases ho
      generalize w.tasks = l at htasks htask
      cases htasks with
      | none | outer => simp at htask
      | both hs hs' => exact .both hs (Or.inr rfl)

/-! ### Every move keeps the shape -/

/-- The job of a task that is taken has not been run before. -/
theorem taken_first (hst : World.Story h w) {p i t : Nat} (he : w.Happens (.took p i t) v) :
    ∃ task, w.tasks[t]? = some task ∧ task.pool = p ∧ ∃ j, life h t = [.accepted p j] := by
  cases he with
  | took hq _ hr _ =>
    have hm := hr ▸ List.mem_cons_self ..
    obtain ⟨task, ht, hp, -⟩ := hst.queued hq hm
    exact ⟨task, ht, hp, ((hst.pool _ _ hq).queued _).1 hm⟩

theorem Shape.happens_taken (hs : Shape limit h w) (hst : World.Story h w) (hw : w.Harmless)
    (he : w.Happens e v) (h2 : 2 ≤ v.tasks.length) : ∃ i, .taken outerPool i ∈ life (h ++ [e]) 0 := by
  have old : ∀ {i}, .taken outerPool i ∈ life h 0 → .taken outerPool i ∈ life (h ++ [e]) 0 := by
    intro i hi
    rw [life_concat]
    exact List.mem_append_left _ hi
  rcases hs.length_tasks hw he with hl | ⟨s, p, holds, job, next, -, hl, ⟨-, h0⟩ | ⟨i, t, -, hx, h1⟩⟩
  · obtain ⟨i, hi⟩ := hs.taken (hl ▸ h2)
    exact ⟨i, old hi⟩
  · omega
  · obtain ⟨task, ht, -, hlife⟩ := hst.busy hx
    have hlt := (List.getElem?_eq_some_iff.1 ht).1
    obtain rfl : t = 0 := by omega
    refine ⟨i, old ?_⟩
    rw [hlife]
    simp

theorem Shape.happens_inner (hs : Shape limit h w) (hst : World.Story h w) (he : w.Happens e v)
    {i t : Nat} (hx : v.worker? innerPool i = some (.busy t f)) : f = innerJob := by
  rcases he.busy hx with ⟨-, hwx⟩ | ⟨task, rfl, htask, rfl⟩ | ⟨g, a, rfl, hwx, hn⟩
  · exact hs.inner i t f hwx
  · obtain ⟨task', htask', hp, -⟩ := taken_first hst he
    obtain rfl := Option.some.inj (htask.symm.trans htask')
    rcases hs.tasks.getElem? htask with ⟨-, hp', -⟩ | ⟨-, -, hj, -⟩
    · rw [hp] at hp'; cases hp'
    · exact hj
  · rw [hs.inner i t g hwx] at hn
    cases a <;> cases hn

/-- What is heard of the inner job. -/
theorem Shape.result_inner (hs : Shape limit h w) {r : Except Failure Part}
    (hr : w.result? 1 = some r) : r = .ok (.word "hello") := by
  obtain ⟨task, ht, hres⟩ := Option.bind_eq_some_iff.1 hr
  rcases hs.tasks.getElem? ht with ⟨h0, -⟩ | ⟨-, -, -, hword⟩
  · cases h0
  · exact hword r hres

/-- What is heard of the outer job. -/
theorem Shape.result_outer (hs : Shape limit h w) {r : Except Failure Part}
    (hr : w.result? 0 = some r) : ∃ r', Timely limit texts r' ∧ r = .ok (.nested r') := by
  obtain ⟨task, ht, hres⟩ := Option.bind_eq_some_iff.1 hr
  rcases hs.tasks.getElem? ht with ⟨-, -, -, hnested⟩ | ⟨h1, -⟩
  · exact (hnested r hres).2
  · cases h1

end

section

variable {limit : Option Duration} {w₀ w v : World Part} {e : Event Part} {f g : Program Part}
  {h : List (Event Part)} {a : Answer Part}

/-- Where the outer job goes on. -/
theorem Outer.after {i : Nat} (ho : Outer limit w f) (hs : Shape limit h w) (hr : w₀.Run h w)
    (h₀ : w₀.IsNew) (hw₀ : w₀.Harmless) (he : w.Happens (.did (.worker outerPool i) f a) v)
    (hn : f.after? a = some g) : Outer limit v g := by
  have hw := hr.harmless hw₀
  have hle := he.length_tasks_le hw
  cases ho with
  | start h1 =>
    cases a <;> cases hn
    rename_i r
    cases r with
    | error r =>
      -- the inner pool is still open
      exfalso
      have hopen := hs.openInner (by omega)
      cases he with
      | did hp ha hn =>
        cases ha with
        | refused hq ht => rw [hr.takesJobs h₀ hw₀ hopen hq] at ht; cases ht
    | ok t =>
      obtain ⟨ht, hv⟩ := World.Happens.offered he
      obtain rfl : t = 1 := ht.trans h1
      refine .join ?_
      rw [hv, List.length_append, h1, List.length_singleton]
  | join h2 =>
    cases he with
    | did hp ha hn' =>
      generalize hl : limit = l at ha
      cases ha with
      | received hres =>
        rw [hs.result_inner hres] at hn
        cases hn
        exact .leave (h2.trans hle) (Or.inl rfl) .release
      | receiveExpired => cases hn; exact .forget (h2.trans hle) (Or.inr ⟨_, rfl, rfl⟩)
  | forget h2 hr' =>
    rw [he.after_forget (hr.fragile hw₀ h₀.fragile) hn]
    exact .leave (h2.trans hle) hr' .release
  | leave h2 hr' hf =>
    rcases hf.after he hw rfl hn with hf | rfl
    · exact .leave (h2.trans hle) hr' hf
    · exact .done (h2.trans hle) hr'
  | done => cases a <;> cases hn

theorem Shape.happens_outer (hs : Shape limit h w) (hr : w₀.Run h w) (h₀ : w₀.IsNew)
    (hw₀ : w₀.Harmless) (he : w.Happens e v) {i t : Nat}
    (hx : v.worker? outerPool i = some (.busy t f)) : Outer limit v f := by
  have hw := hr.harmless hw₀
  have hst := hr.story h₀ hw₀
  have hle := he.length_tasks_le hw
  rcases he.busy hx with ⟨hne, hwx⟩ | ⟨task, rfl, htask, rfl⟩ | ⟨g, a, rfl, hwx, hn⟩
  · have ho := hs.outer i t f hwx
    cases ho with
    | start h1 =>
      refine .start ?_
      rcases hs.length_tasks hw he with hl | ⟨s, p, holds, job, next, rfl, -, ⟨-, h0⟩ | ⟨j, u, rfl, hy, -⟩⟩
      · exact hl.trans h1
      · omega
      · -- no other worker has the outer task
        obtain ⟨task, ht, -⟩ := hst.busy hwx
        obtain ⟨task', hu, -⟩ := hst.busy hy
        have hlt := (List.getElem?_eq_some_iff.1 ht).1
        have hlt' := (List.getElem?_eq_some_iff.1 hu).1
        obtain rfl : t = u := by omega
        obtain ⟨-, rfl⟩ := hst.busy_inj hwx hy
        exact absurd rfl hne
    | join h2 => exact .join (h2.trans hle)
    | forget h2 hr' => exact .forget (h2.trans hle) hr'
    | leave h2 hr' hf => exact .leave (h2.trans hle) hr' (hf.mono (he.closed hw))
    | done h2 hr' => exact .done (h2.trans hle) hr'
  · obtain ⟨task', htask', hp, j, hlife⟩ := taken_first hst he
    obtain rfl := Option.some.inj (htask.symm.trans htask')
    rcases hs.tasks.getElem? htask with ⟨rfl, -, hj, -⟩ | ⟨-, hp', -⟩
    · have hpos := (List.getElem?_eq_some_iff.1 htask).1
      have hnot : ¬ 2 ≤ w.tasks.length := by
        intro h2
        obtain ⟨k, hk⟩ := hs.taken h2
        rw [hlife] at hk
        simp at hk
      have hlen : v.tasks = w.tasks := by cases he; rfl
      rw [hj]
      exact .start (by rw [hlen]; omega)
    · rw [hp] at hp'; cases hp'
  · exact (hs.outer i t g hwx).after hs hr h₀ hw₀ he hn

/-- Once the outer pool is terminated, the inner job has been offered. -/
theorem two_le_of_ended (htasks : Tasks limit w.tasks) (hpos : 0 < w.tasks.length)
    (hr : w₀.Run h w) (h₀ : w₀.IsNew) (hc : ∀ f ∈ w₀.clients, f.Calls) (he : w.Ended outerPool) :
    2 ≤ w.tasks.length := by
  obtain ⟨q, hq, -⟩ := id he
  obtain ⟨q₀, hq₀⟩ := hr.exists_pool hq
  obtain ⟨-, -, -, -, -, hdone, -⟩ := hr.drained_of_ended h₀ hc hq₀ he
  have ht : w.tasks[0]? = some w.tasks[0] := List.getElem?_eq_getElem hpos
  rcases htasks.getElem? ht with ⟨-, hp, -, hnested⟩ | ⟨h1, -⟩
  · obtain ⟨o, ho⟩ := hdone 0 _ ht hp
    exact (hnested _ (by rw [ho]; rfl)).1
  · cases h1

theorem Over.mono (ho : Over limit w f) (hv : ∀ p, w.Closed p → v.Closed p) : Over limit v f := by
  cases ho with
  | readOuter => exact .readOuter
  | readInner => exact .readInner
  | leaveInner hr hf => exact .leaveInner hr (hf.mono (hv _))
  | leaveOuter hr hf => exact .leaveOuter hr (hf.mono (hv _))
  | done hr => exact .done hr

theorem Over.after (ho : Over limit w f) (h₀ : w.Ended outerPool) (h₁ : w.Ended innerPool)
    (hw : w.Harmless) (he : w.Happens (.did (.client 0) f a) v) (hn : f.after? a = some g) :
    Over limit v g := by
  have phase : ∀ {p next}, w.Ended p → f = .readPhase p next → g = next .terminated := by
    rintro p next ⟨q, hq, hphase⟩ rfl
    cases he with
    | did hp ha =>
      cases ha with
      | phaseRead hq' =>
        obtain rfl := Option.some.inj (hq.symm.trans hq')
        rw [hphase] at hn
        exact (Option.some.inj hn).symm
  cases ho with
  | readOuter => rw [phase h₀ rfl]; exact .readInner
  | readInner => rw [phase h₁ rfl]; exact .leaveInner (Or.inl rfl) .release
  | leaveInner hr hf =>
    rcases hf.after he hw rfl hn with hf | rfl
    · exact .leaveInner hr hf
    · exact .leaveOuter hr .release
  | leaveOuter hr hf =>
    rcases hf.after he hw rfl hn with hf | rfl
    · exact .leaveOuter hr hf
    · exact .done hr
  | done => cases a <;> cases hn

/-- What the caller does after both waits. -/
theorem Heard.ends {r : Except Failure Part} (hr : Heard limit r) : Over limit w (report r) := by
  rcases hr with hok | ⟨d, hl, herr⟩
  · have hrep : report r =
        .readPhase outerPool fun a => .readPhase innerPool fun b => ask a b := by
      rw [report, hok]; rfl
    rw [hrep]
    exact .readOuter
  · have hrep : report r = leave (.error (.timeout d)) := by rw [report, herr]
    rw [hrep]
    exact .leaveInner (Or.inr ⟨d, hl, rfl⟩) .release

/-- Where the caller stays while others move. -/
theorem Caller.mono (hc : Caller limit w f) (hs : Shape limit h w) (hw : w.Harmless)
    (he : w.Happens e v) (hne : e.thread ≠ .client 0) : Caller limit v f := by
  have hle := he.length_tasks_le hw
  have hzero : w.tasks.length = 0 → v.tasks.length = 0 := by
    intro h0
    rcases hs.length_tasks hw he with hl | ⟨s, p, holds, job, next, rfl, -, ⟨rfl, -⟩ | ⟨i, t, -, -, h1⟩⟩
    · exact hl.trans h0
    · exact absurd rfl hne
    · omega
  cases hc with
  | retain h0 => exact .retain (hzero h0)
  | submit h0 hn => exact .submit (hzero h0) hn
  | join hpos => exact .join (hpos.trans_le hle)
  | forget hpos hr => exact .forget (hpos.trans_le hle) hr
  | closeOuter hpos hr hf => exact .closeOuter (hpos.trans_le hle) hr (hf.mono (he.closed hw))
  | closeInner h2 h₀ hr hf =>
    exact .closeInner (h2.trans hle) (he.ended hw h₀) hr (hf.mono (he.closed hw))
  | ending h2 h₀ h₁ hf =>
    exact .ending (h2.trans hle) (he.ended hw h₀) (he.ended hw h₁) (hf.mono fun _ => he.closed hw)

/-- Where the caller goes on. -/
theorem Caller.after (hc : Caller limit w f) (hs : Shape limit h w) (hr : w₀.Run h w)
    (h₀ : w₀.IsNew) (hcalls : ∀ f ∈ w₀.clients, f.Calls)
    (he : w.Happens (.did (.client 0) f a) v) (hn : f.after? a = some g) : Caller limit v g := by
  have hw₀ := h₀.harmless fun f hf => (hcalls f hf).harmless
  have hw := hr.harmless hw₀
  have hle := he.length_tasks_le hw
  cases hc with
  | retain h0 =>
    have hlen : v.tasks.length = 0 := by
      rcases hs.length_tasks hw he with hl | ⟨s, p, holds, job, next, hx, -⟩
      · exact hl.trans h0
      · cases hx
    cases a <;> cases hn
    exact .submit hlen fun _ => rfl
  | submit h0 hnext =>
    cases a <;> cases hn
    rename_i r
    cases r with
    | error r =>
      -- the outer pool is still open
      exfalso
      have hopen := hs.openOuter h0
      cases he with
      | did hp ha hn =>
        cases ha with
        | refused hq ht => rw [hr.takesJobs h₀ hw₀ hopen hq] at ht; cases ht
    | ok t =>
      obtain ⟨ht, hv⟩ := World.Happens.offered he
      obtain rfl : t = 0 := ht.trans h0
      rw [hnext]
      refine .join ?_
      rw [hv, List.length_append, List.length_singleton]
      omega
  | join hpos =>
    have hpos' := hpos.trans_le hle
    cases he with
    | did hp ha hn' =>
      generalize hl : limit = l at ha
      cases ha with
      | received hres =>
        obtain ⟨r', hr', rfl⟩ := hs.result_outer hres
        cases hn
        exact .closeOuter hpos' (hl ▸ hr') .close
      | receiveExpired => cases hn; exact .forget hpos' (Or.inr ⟨_, rfl, rfl⟩)
  | forget hpos hheard =>
    rw [he.after_forget (hr.fragile hw₀ h₀.fragile) hn]
    exact .closeOuter (hpos.trans_le hle) hheard .close
  | closeOuter hpos hheard hf =>
    have hpos' := hpos.trans_le hle
    rcases hf.after he hw rfl hn with hf | ⟨rfl, hended⟩
    · exact .closeOuter hpos' hheard hf
    · have htasks := hs.happens_tasks (hr.story h₀ hw₀) hw he
      exact .closeInner (two_le_of_ended htasks hpos' (hr.tail he) h₀ hcalls hended) hended hheard
        .close
  | closeInner h2 hended hheard hf =>
    rcases hf.after he hw rfl hn with hf | ⟨rfl, hended'⟩
    · exact .closeInner (h2.trans hle) (he.ended hw hended) hheard hf
    · exact .ending (h2.trans hle) (he.ended hw hended) hended' hheard.ends
  | ending h2 hended hended' hf =>
    exact .ending (h2.trans hle) (he.ended hw hended) (he.ended hw hended')
      (hf.after hended hended' hw he hn)

theorem Shape.happens_caller (hs : Shape limit h w) (hr : w₀.Run h w) (h₀ : w₀.IsNew)
    (hcalls : ∀ f ∈ w₀.clients, f.Calls) (he : w.Happens e v) :
    ∃ f, v.clients = [f] ∧ Caller limit v f := by
  have hw := hr.harmless (h₀.harmless fun f hf => (hcalls f hf).harmless)
  obtain ⟨f, hf, hc⟩ := hs.caller
  have hlen : v.clients.length = 1 := by
    rcases he.clients with hv | ⟨i, f', a, g, -, -, -, hv⟩
    · rw [hv, hf]; rfl
    · rw [hv, List.length_set, hf]; rfl
  obtain ⟨g, hg⟩ := List.length_eq_one_iff.1 hlen
  have hprogram : w.program? (.client 0) = some f := by rw [World.program?, hf]; rfl
  have hprogram' : v.program? (.client 0) = some g := by rw [World.program?, hg]; rfl
  refine ⟨g, hg, ?_⟩
  rcases he.program hw hprogram' with ⟨hne, hsame⟩ | ⟨p, i, t, task, hx, -⟩ |
    ⟨f', a, u, rfl, hf', -, hn, -⟩
  · obtain rfl := Option.some.inj (hprogram.symm.trans hsame)
    exact hc.mono hs hw he hne
  · cases hx
  · obtain rfl := Option.some.inj (hprogram.symm.trans hf')
    exact hc.after hs hr h₀ hcalls he hn

/-- **Every move keeps the shape.** -/
theorem Shape.happens (hs : Shape limit h w) (hr : w₀.Run h w) (h₀ : w₀.IsNew)
    (hcalls : ∀ f ∈ w₀.clients, f.Calls) (he : w.Happens e v) : Shape limit (h ++ [e]) v := by
  have hw₀ := h₀.harmless fun f hf => (hcalls f hf).harmless
  have hw := hr.harmless hw₀
  have hst := hr.story h₀ hw₀
  have hle := he.length_tasks_le hw
  refine ⟨he.length_pools.trans hs.pools, hs.happens_tasks hst hw he, hs.happens_taken hst hw he,
    fun h0 => ?_, fun h1 => ?_, hs.happens_caller hr h₀ hcalls he,
    fun i t f => hs.happens_outer hr h₀ hw₀ he, fun i t f => hs.happens_inner hst he⟩
  · refine he.open hw (hs.openOuter (by omega)) fun s next a hc => ?_
    have := (hs.closes hw he hc).1
    omega
  · refine he.open hw (hs.openInner (by omega)) fun s next a hc => ?_
    have := (hs.closes hw he hc).2 rfl
    omega

end

end Greeting

end Handoff.Pool
