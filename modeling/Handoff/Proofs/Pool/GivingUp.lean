import Handoff.Proofs.Pool.ExactlyOnce
import Handoff.Proofs.Pool.Keeping
import Handoff.Proofs.Pool.Slots

/-! # Handles that are given up

Who waits for a task with a limit is told what it would be told without one, or that the limit is up, and
that only as long as the task has not ended. A worker never waits for who holds the handle: if it is given
up, it disposes of what the job has ended with, and if it can, everything else goes as in the same run with
the handle kept.

* `JoinGives`: what a thread would be told if it waited without limit.
* `Undisturbed`: the same run with the handles of some tasks kept, and what it has in common with the run.
* `GivingUp`, `giving_up_safe`: the statement about one run, and that it holds in every run.
* `given_up_not_counted`: a job is not counted if its worker cannot dispose of what it has ended with.
-/

namespace Handoff.Pool

variable {ν : Type}

/-! ### The same run with handles kept -/

/-- What gives a handle up tells of no leg of a job's way, and what does not tells of the same. -/
theorem Event.leg?_kept (T : Nat → Bool) (p : Nat) (e : Event ν) :
    (e.kept? T).bind (Event.leg? p) = e.leg? p := by
  cases e with
  | did s f a =>
    rcases hf : f.gives T with _ | _
    · rw [kept?, hf, if_neg Bool.false_ne_true, Option.bind_some]
      cases f with
      | submit => rcases a with (_ | _) | _ <;> rfl
      | receive t limit next =>
        cases limit with
        | none => rfl
        | some d => rw [Program.keep_receive hf]; rfl
      | discard t next => rw [Program.keep_discard hf]; rfl
      | _ => rfl
    · rw [kept?, if_pos hf]
      unfold Program.gives at hf
      split at hf <;> first | rfl | cases hf
  | _ => rfl

/-- **The tasks pass the same legs in both runs.** -/
theorem passed_kept (T : Nat → Bool) (l : Leg) (p : Nat) (h : List (Event ν)) :
    passed l p (h.filterMap (Event.kept? T)) = passed l p h := by
  rw [passed, List.filterMap_filterMap, passed]
  congr 1
  funext e
  rw [← Event.leg?_kept T p e]
  cases e.kept? T <;> rfl

namespace World

/-- **The same run with the handles of the tasks in `T` kept**, and what it has in common with a run with
history `h` from `w₀` to `w`. -/
structure Undisturbed (T : Nat → Bool) (w₀ : World ν) (h : List (Event ν)) (w : World ν) : Prop where
  /-- Only the clients differ at the start. -/
  start : w₀.keep T = { w₀ with clients := w₀.clients.map (Program.keep T) }
  /-- All moves are there, but for those that give one of these handles up. -/
  run : (w₀.keep T).Run (h.filterMap (Event.kept? T)) (w.keep T)
  /-- Who offers a job, waits with another handle, shuts a pool down or waits for its end is answered the
  same. -/
  answers : ∀ s f a, .did s f a ∈ h → f.gives T = false →
    .did s (f.keep T) a ∈ h.filterMap (Event.kept? T)
  /-- The same jobs are accepted, taken, delivered and counted, in the same order. -/
  legs : ∀ l p, passed l p (h.filterMap (Event.kept? T)) = passed l p h
  /-- All pools are as they are. -/
  pools : ∀ (p : Nat) (q : WorkerPool ν), w.pools[p]? = some q →
    ∃ q', (w.keep T).pools[p]? = some q' ∧ q'.view = q.view ∧ q'.shares = q.shares
  /-- All tasks have the same for who waits for them. -/
  results : ∀ t, (w.keep T).result? t = w.result? t
  /-- Where nothing can happen, nothing can happen with these handles kept. -/
  stuck : w.IsStuck → (w.keep T).IsStuck

/-- In a new world there is nothing to keep but with the clients. -/
theorem IsNew.keep_eq {w : World ν} (h : w.IsNew) (T : Nat → Bool) :
    w.keep T = { w with clients := w.clients.map (Program.keep T) } := by
  have hpools : w.pools.map (WorkerPool.keep T) = w.pools := by
    refine (List.map_congr_left fun q hq => ?_).trans (List.map_id _)
    obtain ⟨p, hp⟩ := List.getElem?_of_mem hq
    obtain ⟨n, -, name, shares, rfl⟩ := h.pools p q hp
    simp [WorkerPool.keep, WorkerPool.start, Worker.keep]
  rw [World.keep, hpools, h.tasks, h.givenUp]
  rfl

theorem Run.undisturbed {w₀ w : World ν} {h : List (Event ν)} (hr : w₀.Run h w) (h₀ : w₀.IsNew)
    {T : Nat → Bool} (hT : ∀ e ∈ h, e.GivesUp T) (hf : NeverFragile T w₀ h) : Undisturbed T w₀ h w where
  start := h₀.keep_eq T
  run := hr.keep h₀ hT hf
  answers s f a hm hf := List.mem_filterMap.2 ⟨_, hm, by rw [Event.kept?, hf]; rfl⟩
  legs l p := passed_kept T l p h
  pools p q hq := ⟨_, pool_keep hq, q.view_keep, rfl⟩
  results := w.result?_keep
  stuck hs := hs.keep (hr.keepable h₀ hf)

/-! ### Waiting with a limit -/

/-- **What thread `s` would be told if it waited without limit** for task `t`, where it waits with one in
`w`: it is told `r` at once, and nothing else, and `v` is the world afterwards. -/
structure JoinGives (w : World ν) (s : Thread) (t : Nat) (next : Except Failure ν → Program ν)
    (r : Except Failure ν) (v : World ν) : Prop where
  happens : (w.setProgram (.receive t none next) s).Happens (.did s (.receive t none next) (.result r)) v
  only : ∀ e v', (w.setProgram (.receive t none next) s).Happens e v' → e.thread = s →
    e = .did s (.receive t none next) (.result r)

/-- The second change of a thread's program is the one that counts. -/
theorem setProgram_setProgram (w : World ν) (f g : Program ν) (s : Thread) :
    (w.setProgram f s).setProgram g s = w.setProgram g s := by
  cases s with
  | client i => simp [setProgram, List.set_set]
  | worker p i =>
    have htwice : ∀ x : Worker ν, (x.setProgram f).setProgram g = x.setProgram g := fun x => by
      cases x <;> rfl
    simp only [setProgram, World.mk.injEq, and_true]
    rw [List.modify_modify_eq]
    congr 1
    funext q
    simp only [Function.comp_apply, WorkerPool.mk.injEq, true_and]
    rw [List.modify_modify_eq]
    congr 1
    funext x
    exact htwice x

theorem takeOut_setProgram (w : World ν) (t : Nat) (f : Program ν) (s : Thread) :
    (w.setProgram f s).takeOut t = (w.takeOut t).setProgram f s := by cases s <;> rfl

theorem joinGives {w : World ν} {s : Thread} {t : Nat} {d : Duration} {next : Except Failure ν → Program ν}
    {r : Except Failure ν} (hf : w.program? s = some (.receive t (some d) next))
    (hres : w.result? t = some r) : JoinGives w s t next r ((w.takeOut t).setProgram (next r) s) := by
  have hp : (w.setProgram (.receive t none next) s).program? s = some (.receive t none next) := by
    rw [program?_setProgram _ hf, if_pos rfl]
  have hres' : (w.setProgram (.receive t none next) s).result? t = some r := by
    rw [result?, tasks_setProgram]; exact hres
  constructor
  · have htaken : (w.takeOut t).setProgram (next r) s =
        ((w.setProgram (.receive t none next) s).takeOut t).setProgram (next r) s := by
      rw [takeOut_setProgram, setProgram_setProgram]
    rw [htaken]
    exact .did hp (.received hres') rfl
  · intro e v' he hs
    obtain ⟨a, u, g, rfl, ha, -⟩ := he.of_program hs hp (by simp)
    cases ha with
    | received hr => rw [Option.some.inj (hr.symm.trans hres')]

/-! ### Giving up in a run -/

/-- **Waiting with a limit agrees with waiting, and giving up disturbs nothing**, in a run with history `h` from
`w₀` to `w`. -/
structure GivingUp (w₀ : World ν) (h : List (Event ν)) (w : World ν) : Prop where
  /-- A thread that waits for a task with a limit can be told something at any time. -/
  prompt : ∀ s t d next, w.program? s = some (.receive t (some d) next) →
    ∃ r v, w.Happens (.did s (.receive t (some d) next) (.result r)) v
  /-- It is told what it would be told if it waited without limit, or that the limit is up, and then the task
  has not ended. -/
  agrees : ∀ h₁ h₂ s t d next r, h = h₁ ++ .did s (.receive t (some d) next) (.result r) :: h₂ →
    ∃ u v, w₀.Run h₁ u ∧ u.Happens (.did s (.receive t (some d) next) (.result r)) v ∧ v.Run h₂ w ∧
      (JoinGives u s t next r v ∨ r = .error (.timeout d) ∧ ∀ e ∈ h₁, ∀ p i, ¬ e.Ends p i t)
  /-- Who was told anything else of a task was told what the task has. -/
  told : ∀ s t limit next r, .did s (.receive t limit next) (.result r) ∈ h →
    w.result? t = some r ∨ ∃ d, limit = some d ∧ r = .error (.timeout d)
  /-- From then on everybody is told this of the task, with or without limit. -/
  stays : ∀ t r, w.result? t = some r → ∀ k v, w.Run k v → v.result? t = some r ∧
    ∀ s limit next r', .did s (.receive t limit next) (.result r') ∈ k → r' = r
  /-- A worker waits for nobody: it delivers what its job has ended with, be the handle given up or not, and
  counts the job. Only with what cannot be disposed of it goes down, and with a value only if the handle has been
  given up. -/
  delivers : ∀ p i t e, w.worker? p i = some (.busy t (.finish e)) →
    (∃ o v u, e.outcome? = some o ∧ w.Happens (.delivered p i t o) v ∧ v.Happens (.counted p i t) u) ∨
    (∃ v, w.Happens (.fell p i t) v) ∧
      (e = .panic .bomb ∨ (∃ x, e = .fragile x) ∧ ∃ s next b, .did s (.discard t next) (.flag b) ∈ h)
  /-- No job is taken, delivered or counted twice. -/
  once : ∀ l p q, w.pools[p]? = some q → (passed l p h).Nodup
  /-- If all waits with the handles of the tasks in `T` end because the limit is up, and what their jobs end with
  can be disposed of, the run is the same as with these handles kept. -/
  undisturbed : ∀ T, (∀ e ∈ h, e.GivesUp T) → NeverFragile T w₀ h → Undisturbed T w₀ h w

section

variable {w₀ w : World ν} {h : List (Event ν)}

/-- What a thread was told that has waited with a limit. -/
theorem Run.agrees (hr : w₀.Run h w) (h₀ : w₀.IsNew) {h₁ h₂ : List (Event ν)} {s : Thread} {t : Nat}
    {d : Duration} {next : Except Failure ν → Program ν} {r : Except Failure ν}
    (hh : h = h₁ ++ .did s (.receive t (some d) next) (.result r) :: h₂) :
    ∃ u v, w₀.Run h₁ u ∧ u.Happens (.did s (.receive t (some d) next) (.result r)) v ∧ v.Run h₂ w ∧
      (JoinGives u s t next r v ∨ r = .error (.timeout d) ∧ ∀ e ∈ h₁, ∀ p i, ¬ e.Ends p i t) := by
  obtain ⟨u, v, hu, he, hv⟩ := (hh ▸ hr).exists_happens
  refine ⟨u, v, hu, he, hv, ?_⟩
  cases he with
  | did hp ha hn =>
    cases ha with
    | received hres =>
      cases hn
      exact .inl (joinGives hp hres)
    | receiveExpired hres =>
      refine .inr ⟨rfl, fun e hm p i hend => ?_⟩
      obtain ⟨r, hr⟩ := hu.result?_of_ends h₀ hm hend
      rw [hres] at hr
      cases hr

/-- Everybody is told the same of a task that has something. -/
theorem Run.told_same (hr : w₀.Run h w) (h₀ : w₀.IsNew) {k : List (Event ν)} {v : World ν} (hk : w.Run k v)
    {t : Nat} {r r' : Except Failure ν} (ht : w.result? t = some r) {s : Thread} {limit : Option Duration}
    {next : Except Failure ν → Program ν} (hm : .did s (.receive t limit next) (.result r') ∈ k) :
    r' = r := by
  obtain ⟨k₁, k₂, u, -, hu, -, hres | ⟨d, -, -, hres⟩⟩ := hk.answered hm
  all_goals have hsame := hr.result?_stays h₀ hu ht
  · exact Option.some.inj (hres.symm.trans hsame)
  · rw [hres] at hsame; cases hsame

/-- **A worker whose job has ended delivers and counts it with its next two moves**, unless it goes down. -/
theorem Run.delivers (hr : w₀.Run h w) (h₀ : w₀.IsNew) {p i t : Nat} {e : Ending ν}
    (hx : w.worker? p i = some (.busy t (.finish e))) :
    (∃ o v u, e.outcome? = some o ∧ w.Happens (.delivered p i t o) v ∧ v.Happens (.counted p i t) u) ∨
    (∃ v, w.Happens (.fell p i t) v) ∧
      (e = .panic .bomb ∨ (∃ x, e = .fragile x) ∧ ∃ s next b, .did s (.discard t next) (.flag b) ∈ h) := by
  obtain ⟨q, hq, hi⟩ := worker?_eq_some.1 hx
  rcases hd : w.bringsDown t e with _ | _
  · have hroom := hasRoom_of_result? (hr.result?_of_busy h₀ hx)
    have he := Happens.delivered hq hi (outcome?_of_bringsDown hd) hd hroom
    have hcounting : ((w.store t e).deliver p i t e.outcome).worker? p i = some (.counting t) := by
      rw [deliver, setWorker_eq_setPool (w := (w.store _ _).setSlot _ _) _ hq,
        worker?_setPool (w := (w.store _ _).setSlot _ _) hq hi rfl, if_pos ⟨rfl, rfl⟩]
    obtain ⟨q', hq', hi'⟩ := worker?_eq_some.1 hcounting
    exact .inl ⟨_, _, _, outcome?_of_bringsDown hd, he, .counted hq' hi'⟩
  · exact .inr ⟨⟨_, .fell hq hi hd⟩,
      (bringsDown_iff.1 hd).imp_right (And.imp_right (hr.mem_givenUp h₀).1)⟩

end

/-- **Waiting with a limit agrees with waiting, and giving up disturbs nothing**, whatever the clients and
their jobs and the interleaving. If all that jobs end with can be disposed of, every accepted job is run once,
and every run ends where the accepted jobs are settled, and those that have ended are counted. -/
theorem giving_up_safe {w₀ : World ν} (h₀ : w₀.IsNew) :
    (∀ h w, w₀.Run h w → GivingUp w₀ h w) ∧
    ((∀ f ∈ w₀.clients, f.Harmless) →
      (∀ h w, w₀.Run h w → ExactlyOnce w₀ h w ∧ (w.IsStuck → ∀ p q, w.pools[p]? = some q →
        (passed .delivered p h).Perm (passed .counted p h))) ∧
      w₀.Inevitably fun w => w.IsStuck ∧ w.Settled) := by
  refine ⟨fun h w hr => ⟨fun s t d next hf => ?_, fun h₁ h₂ s t d next r => hr.agrees h₀,
    fun s t limit next r hm => ?_, fun t r ht k v hk => ⟨hr.result?_stays h₀ hk ht,
      fun s limit next r' => hr.told_same h₀ hk ht⟩, fun p i t e => hr.delivers h₀,
    fun l p q hq => (hr.exists_traffic h₀ hq).nodup (hr.nodup_accepted h₀) l,
    fun T => hr.undisturbed h₀⟩, fun hc => ?_⟩
  · rcases hres : w.result? t with _ | r
    · exact ⟨_, _, .did hf (.receiveExpired hres) rfl⟩
    · exact ⟨_, _, .did hf (.received hres) rfl⟩
  · obtain ⟨h₁, h₂, u, -, hu, hk, hres | ⟨d, hd, hr', -⟩⟩ := hr.answered hm
    · exact .inl (hu.result?_stays h₀ hk hres)
    · exact .inr ⟨d, hd, hr'⟩
  · have hw := h₀.harmless hc
    exact ⟨fun h w hr => ⟨hr.exactlyOnce h₀ hw, fun hs p q => hr.delivered_perm_counted h₀ hs⟩,
      h₀.inevitably_settled hw⟩

/-- A pool with one worker, and a client that waits for a job for a moment, and drops the handle of another
one. -/
def impatient : World String where
  pools := [.start String "pool" 1]
  clients := [.submit 0 [] (.yield "first") fun
    | .ok t => .join t (some ⟨1⟩) fun _ => .submit 0 [] (.yield "second") fun
      | .ok u => .forget u (.yield "left")
      | .error _ => .yield ""
    | .error _ => .yield ""]

/-- Both jobs are run and counted, as in the same run with both handles kept. -/
theorem giving_up_safe_impatient :
    (∃ h w q, impatient.Run h w ∧ w.pools[0]? = some q ∧ q.completed = 2 ∧ GivingUp impatient h w ∧
      ExactlyOnce impatient h w ∧ Undisturbed (fun _ => true) impatient h w) ∧
    impatient.Inevitably fun w => w.IsStuck ∧ w.Settled := by
  have hnew : impatient.IsNew := by
    refine ⟨rfl, rfl, rfl, fun p q hq => ?_⟩
    obtain rfl := List.mem_singleton.1 (List.mem_of_getElem? hq)
    exact ⟨1, by decide, "pool", 1, rfl⟩
  have hc : ∀ f ∈ impatient.clients, f.Harmless := by
    intro f hf
    obtain rfl := List.mem_singleton.1 hf
    refine ⟨Program.harmless_yield _, fun r => ?_⟩
    rcases r with e | t
    · exact Program.harmless_yield _
    · refine .join fun _ => ⟨Program.harmless_yield _, fun r => ?_⟩
      rcases r with e | u
      · exact Program.harmless_yield _
      · exact .forget (Program.harmless_yield _)
  -- the client gives both handles up before its jobs are taken
  have hexpired := (((Run.refl (w := impatient)).does (.client 0) rfl (.accepted rfl rfl) rfl).does
    (.client 0) rfl (.receiveExpired rfl) rfl).does (.client 0) rfl .discarded rfl
  have hleft := (hexpired.does (.client 0) rfl (.accepted rfl rfl) rfl).does (.client 0) rfl .discarded rfl
  have hfirst := ((hleft.tail (.took (p := 0) (i := 0) rfl rfl rfl rfl)).tail
    (.delivered (p := 0) (i := 0) rfl rfl rfl rfl rfl)).tail (.counted (p := 0) (i := 0) rfl rfl)
  have hsecond := ((hfirst.tail (.took (p := 0) (i := 0) rfl rfl rfl rfl)).tail
    (.delivered (p := 0) (i := 0) rfl rfl rfl rfl rfl)).tail (.counted (p := 0) (i := 0) rfl rfl)
  have hsafe := giving_up_safe hnew
  have hgiving := hsafe.1 _ _ hsecond
  refine ⟨⟨_, _, _, hsecond, rfl, rfl, hgiving, ((hsafe.2 hc).1 _ _ hsecond).1,
    hgiving.undisturbed _ (fun e he => ?_) ((hnew.harmless hc).neverFragile _ _)⟩, (hsafe.2 hc).2⟩
  simp only [List.nil_append, List.cons_append, List.mem_cons, List.not_mem_nil, or_false] at he
  rcases he with rfl | rfl | rfl | rfl | rfl | rfl | rfl | rfl | rfl | rfl | rfl <;>
    intro s t d next r heq _ <;> cases heq
  rfl

/-- A pool with two workers, and a client that drops the handle of a job. -/
def droppedHandle (e : Ending String) : World String where
  pools := [.start String "pool" 2]
  clients := [.submit 0 [] (.finish e) fun
    | .ok t => .forget t (.yield "left")
    | .error _ => .yield ""]

/-- The job that has ended with `e` is not counted: a worker has taken it and has gone down with it, and
nothing is left to do. -/
def Uncounted (e : Ending String) : Prop :=
  ∃ h w q, (droppedHandle e).Run h w ∧ w.ending? 0 = some (.value "left") ∧ w.pools[0]? = some q ∧
    passed .taken 0 h = [0] ∧ passed .fallen 0 h = [0] ∧ q.workers.map Worker.place = [.gone, .idle] ∧
    q.queue = [] ∧ q.completed = 0

/-- **A job is not counted if its worker cannot dispose of what it has ended with**: the payload, if it has
panicked, or its value, if the handle has been given up. In the same run with the handle kept, the value is
counted. -/
theorem given_up_not_counted :
    Uncounted (.panic .bomb) ∧ Uncounted (.fragile "done") ∧
    ∃ h w q, ((droppedHandle (.fragile "done")).keep fun _ => true).Run h w ∧
      w.ending? 0 = some (.value "left") ∧ w.pools[0]? = some q ∧ passed .taken 0 h = [0] ∧
      q.workers.map Worker.place = [.idle, .idle] ∧ q.queue = [] ∧ q.completed = 1 := by
  have htook : ∀ e, _ := fun e =>
    (((Run.refl (w := droppedHandle e)).does (.client 0) rfl (.accepted rfl rfl) rfl).does
      (.client 0) rfl .discarded rfl).tail (.took (p := 0) (i := 0) rfl rfl rfl rfl)
  refine ⟨?_, ?_, ?_⟩
  · exact ⟨_, _, _, (htook _).tail (.fell (p := 0) (i := 0) rfl rfl rfl), rfl, rfl, rfl, rfl, rfl, rfl, rfl⟩
  · exact ⟨_, _, _, (htook _).tail (.fell (p := 0) (i := 0) rfl rfl rfl), rfl, rfl, rfl, rfl, rfl, rfl, rfl⟩
  · have hkept := ((Run.refl (w := (droppedHandle (.fragile "done")).keep fun _ => true)).does (.client 0) rfl
      (.accepted rfl rfl) rfl).tail (.took (p := 0) (i := 0) rfl rfl rfl rfl)
    exact ⟨_, _, _, (hkept.tail (.delivered (p := 0) (i := 0) rfl rfl rfl rfl rfl)).tail
      (.counted (p := 0) (i := 0) rfl rfl), rfl, rfl, rfl, rfl, rfl, rfl⟩

end World

end Handoff.Pool
