import Handoff.Proofs.Pool.GreetingShape
import Handoff.Proofs.Pool.LastShare

/-! # The nested greeting, whatever the interleaving

Nobody is ever held up for good: the caller only by the outer job, and the outer job only by the inner
one, which waits for nothing. So where nothing can happen the caller has returned, with what it has heard
in time, and each pool was at its end before. A caller that gets no inner pool has nothing to wait for but
the end of the outer one, of which it gives up the only share.

* `Shape.not_held_inner`, `Shape.not_held_outer`, `Shape.ended_of_stuck`: who is held up where nothing can
  happen.
* `Greeting.Returned`: what is left when the caller has returned.
* `Greeting.Abandoned`: the world of a caller without an inner pool, `Abandoned.happens`: every move keeps
  it. `Greeting.Refused`: what is left when this caller has returned.
* `nestedGreeting_settles`: the statement.
-/

namespace Handoff.Pool

namespace Greeting

section

variable {limit : Option Duration} {w₀ w : World Part} {h : List (Event Part)}

/-! ### Where nothing can happen -/

theorem Shape.exists_pool (hs : Shape limit h w) {p : Nat} (hp : p < 2) :
    ∃ q, w.pools[p]? = some q := by
  have hlt : p < w.pools.length := by rw [hs.pools]; exact hp
  exact ⟨_, List.getElem?_eq_getElem hlt⟩

/-- The inner job waits for nothing. -/
theorem Shape.not_held_inner (hs : Shape limit h w) : ¬ w.Held innerPool := by
  rintro ⟨i, t, f, hx, hf⟩
  exact hf _ (hs.inner i t f hx)

/-- **The outer job is not held up where nothing can happen.** -/
theorem Shape.not_held_outer (hs : Shape limit h w) (hr : w₀.Run h w) (h₀ : w₀.IsNew)
    (hw₀ : w₀.Harmless) (hstuck : w.IsStuck) : ¬ w.Held outerPool := by
  rintro ⟨i, t, f, hx, hf⟩
  have hst := hr.story h₀ hw₀
  have hw := hr.harmless hw₀
  have hp : w.program? (.worker outerPool i) = some f := by rw [World.program?_worker, hx]; rfl
  obtain ⟨q, hq⟩ := hs.exists_pool (p := innerPool) (by decide)
  have ho := hs.outer i t f hx
  cases ho with
  | start => exact hstuck.not_submit hq hp
  | join h2 =>
    have ht : w.tasks[1]? = some w.tasks[1] := List.getElem?_eq_getElem h2
    have hheld := hstuck.held_of_receive hr h₀ hw₀ hp ht
    rcases hs.tasks.getElem? ht with ⟨h0, -⟩ | ⟨-, hpool, -⟩
    · cases h0
    · rw [hpool] at hheld
      exact hs.not_held_inner hheld
  | forget => exact hstuck.not_answered hp .discarded
  | leave _ _ hl => exact hs.not_held_inner (hl.held hp hstuck hst hw hq)
  | done => exact hf _ rfl

/-- **Where nothing can happen, the caller has returned.** -/
theorem Shape.ended_of_stuck (hs : Shape limit h w) (hr : w₀.Run h w) (h₀ : w₀.IsNew)
    (hw₀ : w₀.Harmless) (hstuck : w.IsStuck) : ∃ e, w.ending? 0 = some e := by
  have hst := hr.story h₀ hw₀
  have hw := hr.harmless hw₀
  have houter := hs.not_held_outer hr h₀ hw₀ hstuck
  have hinner := hs.not_held_inner
  obtain ⟨f, hf, hc⟩ := hs.caller
  have hp : w.program? (.client 0) = some f := by rw [World.program?, hf]; rfl
  obtain ⟨q, hq⟩ := hs.exists_pool (p := outerPool) (by decide)
  obtain ⟨q', hq'⟩ := hs.exists_pool (p := innerPool) (by decide)
  cases hc with
  | retain => exact absurd (.retained hq') (hstuck.not_answered hp)
  | submit => exact absurd hp (hstuck.not_submit hq)
  | forget => exact absurd .discarded (hstuck.not_answered hp)
  | join hpos =>
    exfalso
    have ht : w.tasks[0]? = some w.tasks[0] := List.getElem?_eq_getElem hpos
    have hheld := hstuck.held_of_receive hr h₀ hw₀ hp ht
    rcases hs.tasks.getElem? ht with ⟨-, hpool, -⟩ | ⟨h1, -⟩
    · rw [hpool] at hheld
      exact houter hheld
    · cases h1
  | closeOuter _ _ hc => exact absurd (hc.held hp hstuck hst hw hq) houter
  | closeInner _ _ _ hc => exact absurd (hc.held hp hstuck hst hw hq') hinner
  | ending _ _ _ hover =>
    cases hover with
    | readOuter => exact absurd (.phaseRead hq) (hstuck.not_answered hp)
    | readInner => exact absurd (.phaseRead hq') (hstuck.not_answered hp)
    | leaveInner _ hl => exact absurd (hl.held hp hstuck hst hw hq') hinner
    | leaveOuter _ hl => exact absurd (hl.held hp hstuck hst hw hq) houter
    | @done r => exact ⟨.value (.whole r), by rw [World.ending?, hf]; rfl⟩

/-! ### What the caller returns -/

/-- **The caller has returned** `r`. Both pools are at their end, and both jobs have been run. -/
structure Returned (outerWorkers innerWorkers : Nat) (limit : Option Duration) (w : World Part)
    (r : Except Failure NestedGreeting) : Prop where
  ending : w.ending? 0 = some (.value (.whole r))
  result : r = .ok ⟨"hello", "hello master thesis", true⟩ ∨
    ∃ d, limit = some d ∧ r = .error (.timeout d)
  outerEnded : w.Ended outerPool
  outerDrained : w.Drained outerPool outerWorkers
  innerEnded : w.Ended innerPool
  innerDrained : w.Drained innerPool innerWorkers
  tasks : ∃ r', w.tasks =
    [⟨outerPool, [innerPool], outerJob limit, .delivered (.ok (.nested r'))⟩,
      ⟨innerPool, [], innerJob, .delivered (.ok (.word "hello"))⟩]

/-- A program that has come to its end has nothing left. -/
theorem eq_finish_of_ending? {f : Program Part} {x : Ending Part} (hf : w.clients = [f])
    (hx : w.ending? 0 = some x) : f = .finish x := by
  rw [World.ending?, hf] at hx
  cases f <;> cases hx
  rfl

theorem Shape.ended (hs : Shape limit h w) {x : Ending Part} (hx : w.ending? 0 = some x) :
    ∃ r, x = .value (.whole r) ∧ Timely limit success r ∧
      w.Ended outerPool ∧ w.Ended innerPool ∧ 2 ≤ w.tasks.length := by
  obtain ⟨f, hf, hc⟩ := hs.caller
  obtain rfl := eq_finish_of_ending? hf hx
  generalize hg : Program.finish x = f at hc
  cases hc with
  | retain | submit | join | forget => cases hg
  | closeOuter _ _ hc => subst hg; exact hc.tends.elim
  | closeInner _ _ _ hc => subst hg; exact hc.tends.elim
  | ending h2 h₀ h₁ ho =>
    cases ho with
    | readOuter | readInner => cases hg
    | leaveInner _ hl => subst hg; exact hl.tends.elim
    | leaveOuter _ hl => subst hg; exact hl.tends.elim
    | @done r hr => cases hg; exact ⟨r, rfl, hr, h₀, h₁, h2⟩

/-- Where both jobs have been run, they have been run in full. -/
theorem Tasks.delivered {l : List (Entry Part)} (htasks : Tasks limit l) (h2 : 2 ≤ l.length)
    (hdone : ∀ (t : Nat) (task : Entry Part), l[t]? = some task → ∃ o, task.slot = .delivered o) :
    ∃ r, l = [⟨outerPool, [innerPool], outerJob limit, .delivered (.ok (.nested r))⟩,
      ⟨innerPool, [], innerJob, .delivered (.ok (.word "hello"))⟩] := by
  cases htasks with
  | none | outer => simp at h2
  | both hs hs' =>
    rcases hs with rfl | ⟨r, -, rfl⟩
    · obtain ⟨o, ho⟩ := hdone 0 _ rfl
      cases ho
    · rcases hs' with rfl | rfl
      · obtain ⟨o, ho⟩ := hdone 1 _ rfl
        cases ho
      · exact ⟨r, rfl⟩

end

/-! ### The start -/

/-- The two pools and the caller, before anything has happened. -/
def world (outerWorkers innerWorkers : Nat) (limit : Option Duration) : World Part where
  pools := [.start Part "outer" outerWorkers, .start Part "inner" innerWorkers]
  clients := [caller limit]

theorem calls_leave (r : Except Failure NestedGreeting) : (leave r).Calls :=
  .letGo (.letGo (Program.calls_yield _))

theorem calls_report (r : Except Failure Part) : (report r).Calls := by
  unfold report
  split
  · exact calls_leave _
  · exact .readPhase fun a => .readPhase fun b => calls_leave _

theorem calls_outerJob (limit : Option Duration) : (outerJob limit).Calls := by
  refine .submit (Program.calls_yield _) fun r => ?_
  cases r with
  | error e => exact .letGo (Program.calls_yield _)
  | ok t => exact .join fun r => .letGo (Program.calls_yield _)

theorem calls_caller (limit : Option Duration) : (caller limit).Calls := by
  refine .retain (.submit (calls_outerJob limit) fun r => ?_)
  cases r with
  | error e => exact .letGo (calls_leave _)
  | ok t =>
    exact .join fun r => Program.Calls.shutdownAndWait fun _ =>
      Program.Calls.shutdownAndWait fun _ => calls_report r

section

variable {outerWorkers innerWorkers : Nat} {limit : Option Duration}

theorem isNew_world (ho : outerWorkers ≠ 0) (hi : innerWorkers ≠ 0) :
    (world outerWorkers innerWorkers limit).IsNew where
  tasks := rfl
  givenUp := rfl
  fragile := rfl
  pools p q hq := by
    match p, hq with
    | 0, hq => cases hq; exact ⟨outerWorkers, by omega, "outer", 1, rfl⟩
    | 1, hq => cases hq; exact ⟨innerWorkers, by omega, "inner", 1, rfl⟩

theorem calls_world : ∀ f ∈ (world outerWorkers innerWorkers limit).clients, f.Calls := by
  intro f hf
  rw [List.mem_singleton.1 hf]
  exact calls_caller limit

theorem shape_world (ho : outerWorkers ≠ 0) (hi : innerWorkers ≠ 0) :
    Shape limit [] (world outerWorkers innerWorkers limit) where
  pools := rfl
  tasks := .none
  taken h := absurd h (Nat.not_succ_le_zero 1)
  openOuter _ := ⟨_, rfl, rfl⟩
  openInner _ := ⟨_, rfl, rfl⟩
  caller := ⟨_, rfl, .retain rfl⟩
  outer i t f hx := by cases (isNew_world ho hi).worker? hx
  inner i t f hx := by cases (isNew_world ho hi).worker? hx

/-- **The world keeps its shape in every run.** -/
theorem shape_of_run (ho : outerWorkers ≠ 0) (hi : innerWorkers ≠ 0) {h : List (Event Part)}
    {w : World Part} (hr : (world outerWorkers innerWorkers limit).Run h w) : Shape limit h w := by
  induction hr with
  | refl => exact shape_world ho hi
  | tail hr he ih => exact ih.happens hr (isNew_world ho hi) calls_world he

theorem returned (ho : outerWorkers ≠ 0) (hi : innerWorkers ≠ 0) {h : List (Event Part)}
    {w : World Part} (hr : (world outerWorkers innerWorkers limit).Run h w) {x : Ending Part}
    (hx : w.ending? 0 = some x) :
    ∃ r, x = .value (.whole r) ∧ Returned outerWorkers innerWorkers limit w r := by
  have hs := shape_of_run ho hi hr
  obtain ⟨r, rfl, hresult, houter, hinner, h2⟩ := hs.ended hx
  have hdo := hr.drained_of_ended (isNew_world ho hi) calls_world (p := outerPool) rfl houter
  have hdi := hr.drained_of_ended (isNew_world ho hi) calls_world (p := innerPool) rfl hinner
  have hsize : ∀ name n, (WorkerPool.start Part name n).workers.length = n := fun _ _ =>
    List.length_replicate
  rw [hsize] at hdo hdi
  have hdone : ∀ (t : Nat) (task : Entry Part), w.tasks[t]? = some task →
      ∃ o, task.slot = .delivered o := by
    intro t task ht
    obtain ⟨-, -, -, -, -, houter, -⟩ := hdo
    obtain ⟨-, -, -, -, -, hinner, -⟩ := hdi
    rcases hs.tasks.getElem? ht with ⟨-, hp, -⟩ | ⟨-, hp, -⟩
    · exact houter t task ht hp
    · exact hinner t task ht hp
  exact ⟨r, rfl, hx, hresult, houter, hdo, hinner, hdi, hs.tasks.delivered h2 hdone⟩

end

/-! ### A caller without an inner pool -/

/-- **What the caller can be at that gives up the outer pool and returns** `r`. It has the one share in it. -/
inductive Quitting (r : Except Failure NestedGreeting) (w : World Part) : Program Part → Prop where
  | release {q : WorkerPool Part} (hq : w.pools[outerPool]? = some q) (h : q.shares = 1) :
      Quitting r w (.letGo outerPool (.yield (.whole r)))
  | drop {f : Program Part} (h : Dropping w outerPool (.yield (.whole r)) f) : Quitting r w f
  | done (h : w.Ended outerPool) : Quitting r w (.yield (.whole r))

/-- **The world of a caller that gives up the outer pool and returns** `r`. There is nothing to do for the
workers. -/
structure Abandoned (r : Except Failure NestedGreeting) (w : World Part) : Prop where
  tasks : w.tasks = []
  workers : ∀ p i x, w.worker? p i = some x → x = .idle ∨ x = .gone
  caller : ∃ f, w.clients = [f] ∧ Quitting r w f

section

variable {r : Except Failure NestedGreeting} {w v : World Part} {e : Event Part} {f g : Program Part}

theorem Quitting.tends (hf : Quitting r w f) : f.Tends outerPool ∨ f = .yield (.whole r) := by
  cases hf with
  | release => exact .inl rfl
  | drop h => exact .inl h.tends
  | done => exact .inr rfl

/-- Where the caller goes on. -/
theorem Quitting.after {a : Answer Part} (hf : Quitting r w f) (hw : w.Harmless)
    (he : w.Happens (.did (.client 0) f a) v) (hn : f.after? a = some g) : Quitting r v g := by
  cases hf with
  | release hq h =>
    cases he with
    | did hp ha =>
      cases ha with
      | released hq' =>
        obtain rfl := Option.some.inj (hq.symm.trans hq')
        rw [h] at hn
        cases hn
        exact .drop .ask
  | drop h =>
    rcases h.after he hw rfl hn with h | ⟨rfl, h⟩
    · exact .drop h
    · exact .done h
  | done => cases a <;> cases hn

/-- Where the caller stays when a worker leaves. -/
theorem Quitting.left {p i : Nat} (hf : Quitting r w f) (hw : w.Harmless)
    (he : w.Happens (.left p i) v) : Quitting r v f := by
  cases hf with
  | @release q hq h =>
    obtain ⟨q', hq', hshares⟩ : ∃ q', v.pools[outerPool]? = some q' ∧ q'.shares = q.shares := by
      cases he with
      | left hx =>
        rw [World.getElem?_setPool hx]
        split
        · next hp =>
          subst hp
          obtain rfl := Option.some.inj (hx.symm.trans hq)
          exact ⟨_, rfl, rfl⟩
        · exact ⟨q, hq, rfl⟩
    exact .release hq' (hshares.trans h)
  | drop h => exact .drop (h.mono (he.closed hw))
  | done h => exact .done (he.ended hw h)

/-- A worker that leaves is gone. -/
theorem Abandoned.workers_left {p i : Nat} (ha : Abandoned r w) (he : w.Happens (.left p i) v) :
    ∀ j k x, v.worker? j k = some x → x = .idle ∨ x = .gone := by
  intro j k x hx
  cases he with
  | left hq hi =>
    rw [World.worker?_setPool hq hi rfl] at hx
    split at hx
    · cases hx; exact .inr rfl
    · exact ha.workers j k x hx

/-- **Every move keeps the world of the caller that gives up the outer pool**: the caller goes on, or a
worker leaves. -/
theorem Abandoned.happens (ha : Abandoned r w) (hw : w.Harmless) (he : w.Happens e v) : Abandoned r v := by
  obtain ⟨f, hf, hquit⟩ := ha.caller
  have resting : ∀ {p i : Nat} {q : WorkerPool Part} {x : Worker Part}, w.pools[p]? = some q →
      q.workers[i]? = some x → x = .idle ∨ x = .gone :=
    fun hq hi => ha.workers _ _ _ (World.worker?_eq_some.2 ⟨_, hq, hi⟩)
  cases he with
  | @did s f' a u g hp hans hn =>
    cases s with
    | worker p i =>
      obtain ⟨q, x, hq, hi, hx⟩ := World.exists_worker hp
      obtain rfl | rfl := resting hq hi <;> cases hx
    | client i =>
      have hi : w.clients[i]? = some f' := hp
      rw [hf] at hi
      obtain ⟨rfl, rfl⟩ := getElem?_singleton_eq_some hi
      rcases hans.accepted_or_tuned with ⟨p, holds, job, next, q, rfl, -⟩ | ⟨-, hu⟩
      · rcases hquit.tends with h | h <;> cases h
      · refine ⟨hu.tasks.trans ha.tasks, fun p i x hx => ?_, g, ?_, hquit.after hw (.did hp hans hn) hn⟩
        · exact ha.workers p i x (hans.worker? p i ▸ hx)
        · rw [World.setProgram, hu.clients, hf]
          rfl
  | took _ _ _ ht => rw [ha.tasks] at ht; cases ht
  | left hq hi hr hc =>
    have he := World.Happens.left hq hi hr hc
    exact ⟨ha.tasks, ha.workers_left he, f, hf, hquit.left hw he⟩
  | delivered hq hi | counted hq hi | fell hq hi | lost hq hi => obtain h | h := resting hq hi <;> cases h

end

/-- The outer pool alone, and the caller that gives it up. -/
def abandonedWorld (outerWorkers : Nat) (e : Failure) : World Part where
  pools := [.start Part "outer" outerWorkers]
  clients := [abandon e]

/-- **The caller has returned**, since there is no inner pool. The outer pool is at its end, and there were no
jobs. -/
structure Refused (outerWorkers : Nat) (e : Failure) (w : World Part) : Prop where
  ending : w.ending? 0 = some (.value (.whole (.error e)))
  outerEnded : w.Ended outerPool
  outerDrained : w.Drained outerPool outerWorkers
  tasks : w.tasks = []

section

variable {n : Nat} {e : Failure} {h : List (Event Part)} {w : World Part}

theorem isNew_abandoned (hn : n ≠ 0) : (abandonedWorld n e).IsNew where
  tasks := rfl
  givenUp := rfl
  fragile := rfl
  pools p q hq := by
    obtain ⟨rfl, rfl⟩ := getElem?_singleton_eq_some hq
    exact ⟨n, by omega, "outer", 1, rfl⟩

theorem calls_abandoned : ∀ f ∈ (abandonedWorld n e).clients, f.Calls := by
  intro f hf
  rw [List.mem_singleton.1 hf]
  exact .letGo (Program.calls_yield _)

theorem harmless_abandoned (hn : n ≠ 0) : (abandonedWorld n e).Harmless :=
  (isNew_abandoned hn).harmless fun f hf => (calls_abandoned f hf).harmless

/-- **The world stays that of the caller that gives up the outer pool**, in every run. -/
theorem abandoned_of_run (hn : n ≠ 0) (hr : (abandonedWorld n e).Run h w) : Abandoned (.error e) w := by
  induction hr with
  | refl =>
    refine ⟨rfl, fun p i x hx => .inl ((isNew_abandoned hn).worker? hx), _, rfl, ?_⟩
    exact .release rfl rfl
  | tail hr he ih => exact ih.happens (hr.harmless (harmless_abandoned hn)) he

/-- Who has returned has come to the end of the outer pool. -/
theorem refused (hn : n ≠ 0) (hr : (abandonedWorld n e).Run h w) {x : Ending Part}
    (hx : w.ending? 0 = some x) : x = .value (.whole (.error e)) ∧ Refused n e w := by
  have ha := abandoned_of_run hn hr
  obtain ⟨f, hf, hquit⟩ := ha.caller
  obtain rfl := eq_finish_of_ending? hf hx
  generalize hg : Program.finish x = f at hquit
  cases hquit with
  | release => cases hg
  | drop h => subst hg; exact h.tends.elim
  | done hend =>
    cases hg
    have hdrained := hr.drained_of_ended (isNew_abandoned hn) calls_abandoned (p := outerPool) rfl hend
    rw [show (WorkerPool.start Part "outer" n).workers.length = n from List.length_replicate] at hdrained
    exact ⟨rfl, hx, hend, hdrained, ha.tasks⟩

/-- **Where nothing can happen, the caller has returned.** -/
theorem refused_of_stuck (hn : n ≠ 0) (hr : (abandonedWorld n e).Run h w) (hstuck : w.IsStuck) :
    Refused n e w := by
  have hw := harmless_abandoned (e := e) hn
  have ha := abandoned_of_run hn hr
  obtain ⟨f, hf, hquit⟩ := ha.caller
  have hp : w.program? (.client 0) = some f := by rw [World.program?, hf]; rfl
  obtain ⟨q, hq, -⟩ := hr.forward hw (p := outerPool) rfl
  have hidle : ¬ w.Blocked outerPool := by
    rintro ⟨i, t, g, hx, -⟩
    rcases ha.workers _ _ _ hx with h | h <;> cases h
  rcases hquit.tends with htends | rfl
  · have hcalls := hr.byCalls hw ((isNew_abandoned hn).byCalls calls_abandoned)
    exact absurd htends
      (hstuck.not_tends (hr.story (isNew_abandoned hn) hw) (hr.harmless hw) hcalls hq hidle hp)
  · exact (refused hn hr (x := .value (.whole (.error e))) (by rw [World.ending?, hf]; rfl)).2

end

end Greeting

section

variable {outerWorkers innerWorkers : Nat} {limit : Option Duration}

theorem greetingWorld?_of_zero : greetingWorld? 0 innerWorkers limit = some (.error (.emptyPool "outer")) :=
  rfl

/-- Names without a zero character are good for threads. -/
theorem startPool?_of_ne_zero {ν : Type} {w : World ν} {name : String} {n : Nat} (hn : n ≠ 0)
    (hname : name.toList.contains '\x00' = false) :
    w.startPool? name n = some (.ok (w.pools.length, { w with pools := w.pools ++ [.start ν name n] })) := by
  rw [World.startPool?, if_neg hn, hname]
  rfl

theorem greetingWorld?_of_inner_zero (ho : outerWorkers ≠ 0) :
    greetingWorld? outerWorkers 0 limit =
      some (.ok (Greeting.abandonedWorld outerWorkers (.emptyPool "inner"))) := by
  rw [greetingWorld?, startPool?_of_ne_zero ho (by decide)]
  rfl

theorem greetingWorld?_of_ne_zero (ho : outerWorkers ≠ 0) (hi : innerWorkers ≠ 0) :
    greetingWorld? outerWorkers innerWorkers limit =
      some (.ok (Greeting.world outerWorkers innerWorkers limit)) := by
  rw [greetingWorld?, startPool?_of_ne_zero ho (by decide)]
  simp only [Option.bind_eq_bind, Option.bind_some]
  rw [startPool?_of_ne_zero hi (by decide)]
  rfl

end

open Greeting in
/-- **The nested greeting, whatever the interleaving.** A pool without workers is refused. If it is the inner
one, the caller returns this in every run, when the outer pool has come to its end. Otherwise the caller is
never held up for good and returns in every run, with both texts, or because a limit was up if there is one;
and when it returns, both pools have come to their ends and both jobs have been run. -/
theorem nestedGreeting_settles (outerWorkers innerWorkers : Nat) (limit : Option Duration) :
    (outerWorkers = 0 →
      greetingWorld? outerWorkers innerWorkers limit = some (.error (.emptyPool "outer"))) ∧
    (outerWorkers ≠ 0 → innerWorkers = 0 →
      ∃ w₀, greetingWorld? outerWorkers innerWorkers limit = some (.ok w₀) ∧
        w₀.Inevitably (Refused outerWorkers (.emptyPool "inner")) ∧
        ∀ w, w₀.Reachable w →
          (w.ending? 0 = none → ¬ w.IsStuck) ∧
          ∀ x, w.ending? 0 = some x →
            x = .value (.whole (.error (.emptyPool "inner"))) ∧
              Refused outerWorkers (.emptyPool "inner") w) ∧
    (outerWorkers ≠ 0 → innerWorkers ≠ 0 →
      ∃ w₀, greetingWorld? outerWorkers innerWorkers limit = some (.ok w₀) ∧
        (w₀.Inevitably fun w => ∃ r, Returned outerWorkers innerWorkers limit w r) ∧
        ∀ w, w₀.Reachable w →
          (w.ending? 0 = none → ¬ w.IsStuck) ∧
          ∀ x, w.ending? 0 = some x →
            ∃ r, x = .value (.whole r) ∧ Returned outerWorkers innerWorkers limit w r) := by
  refine ⟨?_, ?_, fun ho hi =>
    ⟨world outerWorkers innerWorkers limit, greetingWorld?_of_ne_zero ho hi, ?_, fun w hr => ?_⟩⟩
  · rintro rfl
    exact greetingWorld?_of_zero
  · rintro ho rfl
    refine ⟨_, greetingWorld?_of_inner_zero ho, ?_, fun w hr => ?_⟩
    · exact (isNew_abandoned ho).story.inevitably_of_stuck (harmless_abandoned ho)
        fun h w hr => refused_of_stuck ho hr
    · obtain ⟨h, hr⟩ := World.reachable_iff_run.1 hr
      refine ⟨fun hnone hstuck => ?_, fun x => refused ho hr⟩
      rw [(refused_of_stuck ho hr hstuck).ending] at hnone
      cases hnone
  · have hnew : (world outerWorkers innerWorkers limit).IsNew := isNew_world ho hi
    have hw := hnew.harmless fun f hf => (calls_world f hf).harmless
    refine hnew.story.inevitably_of_stuck hw fun h w hr hstuck => ?_
    obtain ⟨x, hx⟩ := (shape_of_run ho hi hr).ended_of_stuck hr hnew hw hstuck
    obtain ⟨r, -, hreturned⟩ := returned ho hi hr hx
    exact ⟨r, hreturned⟩
  · have hnew : (world outerWorkers innerWorkers limit).IsNew := isNew_world ho hi
    have hw := hnew.harmless fun f hf => (calls_world f hf).harmless
    obtain ⟨h, hr⟩ := World.reachable_iff_run.1 hr
    refine ⟨fun hnone hstuck => ?_, fun x hx => returned ho hi hr hx⟩
    obtain ⟨x, hx⟩ := (shape_of_run ho hi hr).ended_of_stuck hr hnew hw hstuck
    rw [hnone] at hx
    cases hx

/-- Without a limit, the greeting always succeeds. -/
theorem nestedGreeting_settles_unlimited :
    (Greeting.world 2 1 none).Inevitably fun w =>
      w.ending? 0 = some (.value (.whole (.ok ⟨"hello", "hello master thesis", true⟩))) := by
  obtain ⟨w₀, hw₀, hreturns, -⟩ := (nestedGreeting_settles 2 1 none).2.2 (by decide) (by decide)
  cases hw₀
  refine hreturns.mono fun w _ => ?_
  rintro ⟨r, hr⟩
  rcases hr.result with rfl | ⟨d, hd, -⟩
  · exact hr.ending
  · cases hd

end Handoff.Pool
