import Handoff.Proofs.Deferred.Future

/-! # To observe is not to disturb

A program has handles of its tasks. It may ask whether a task is done, and it may drop a handle that it does not use
any more; the task runs on. Another program observes more: it asks more questions, drops more handles, or waits longer
after its last task was made. Nothing else about it is different.

* `Action`, `Executor.execute`: what a program does, questions and dropped handles included.
* `IsOwned`: a handle is used up once, and it is not used after that.
* `ObservesMore`: the same program with more observations.
* `Undisturbed`: what each task comes to, and what is seen of that.
* `observing_undisturbed`: this is the same in all programs that observe more.
-/

namespace Handoff.Deferred

variable {ν : Type}

/-- **What a program does with its handles.** -/
inductive Action (ν : Type) where
  /-- It makes a task, waits or reads a result. -/
  | step (s : Step ν)
  /-- It asks whether a task is done. -/
  | finished (task : Nat)
  /-- It drops a handle. -/
  | drop (task : Nat)

/-- The steps of a program, without questions and dropped handles. -/
def stepsOf : List (Action ν) → List (Step ν)
  | [] => []
  | .step s :: p => s :: stepsOf p
  | .finished _ :: p => stepsOf p
  | .drop _ :: p => stepsOf p

/-- **A handle is used up once, and it is not used after that.** So many tasks were made before, and the handles in
`used` are used up. -/
def IsOwned (made : Nat) (used : List Nat) : List (Action ν) → Prop
  | [] => True
  | .step (.make m) :: p =>
    (m.inputs.Nodup ∧ ∀ j ∈ m.inputs, j < made ∧ j ∉ used) ∧ IsOwned (made + 1) (m.inputs ++ used) p
  | .step (.wait _) :: p => IsOwned made used p
  | .step (.get i) :: p => (i < made ∧ i ∉ used) ∧ IsOwned made (i :: used) p
  | .finished i :: p => (i < made ∧ i ∉ used) ∧ IsOwned made used p
  | .drop i :: p => (i < made ∧ i ∉ used) ∧ IsOwned made (i :: used) p

/-- Whether a program makes nothing. -/
def IsQuiet (p : List (Action ν)) : Prop := ∀ s ∈ stepsOf p, s.IsQuiet

/-- The tasks whose results are read, in this order. -/
def readsOf : List (Step ν) → List Nat
  | [] => []
  | .get i :: p => i :: readsOf p
  | .make _ :: p => readsOf p
  | .wait _ :: p => readsOf p

/-- **The second program observes more**: it asks more questions anywhere, drops more handles anywhere, and waits more
often or longer where nothing more is made. -/
inductive ObservesMore : List (Action ν) → List (Action ν) → Prop where
  | nil : ObservesMore [] []
  | same {p q : List (Action ν)} (a : Action ν) (h : ObservesMore p q) : ObservesMore (a :: p) (a :: q)
  | finished {p q : List (Action ν)} (i : Nat) (h : ObservesMore p q) : ObservesMore p (.finished i :: q)
  | drop {p q : List (Action ν)} (i : Nat) (h : ObservesMore p q) : ObservesMore p (.drop i :: q)
  | wait {p q : List (Action ν)} (span : Nat) (hp : IsQuiet p) (h : ObservesMore p q) :
      ObservesMore p (.step (.wait span) :: q)
  | longer {p q : List (Action ν)} {span span' : Nat} (hspan : span ≤ span') (hp : IsQuiet p)
      (h : ObservesMore p q) : ObservesMore (.step (.wait span) :: p) (.step (.wait span') :: q)

/-! ### Programs and their steps -/

section Programs

variable {p q : List (Action ν)}

theorem stepsOf_append (p q : List (Action ν)) : stepsOf (p ++ q) = stepsOf p ++ stepsOf q := by
  induction p with
  | nil => rfl
  | cons a p ih =>
    cases a with
    | step s => exact congrArg (s :: ·) ih
    | finished i | drop i => exact ih

theorem readsOf_append (p q : List (Step ν)) : readsOf (p ++ q) = readsOf p ++ readsOf q := by
  induction p with
  | nil => rfl
  | cons s p ih =>
    cases s with
    | get i => exact congrArg (i :: ·) ih
    | make m | wait span => exact ih

/-- The steps of a program use each task once. -/
theorem IsOwned.isLinear {made : Nat} {used used' : List Nat} (h : IsOwned made used p)
    (hused : ∀ j ∈ used', j ∈ used) : IsLinear made used' (stepsOf p) := by
  induction p generalizing made used used' with
  | nil => trivial
  | cons a p ih =>
    cases a with
    | step s =>
      cases s with
      | make m =>
        obtain ⟨⟨hnodup, hm⟩, h⟩ := h
        refine ⟨⟨hnodup, fun j hj => ⟨(hm j hj).1, fun hj' => (hm j hj).2 (hused j hj')⟩⟩, ih h fun j hj => ?_⟩
        rcases List.mem_append.1 hj with hj | hj
        · exact List.mem_append_left _ hj
        · exact List.mem_append_right _ (hused j hj)
      | wait span =>
        have h : IsOwned made used p := h
        exact ih h hused
      | get i =>
        refine ⟨⟨h.1.1, fun hi => h.1.2 (hused i hi)⟩, ih h.2 fun j hj => ?_⟩
        rcases List.mem_cons.1 hj with rfl | hj
        · exact List.mem_cons_self
        · exact List.mem_cons_of_mem _ (hused j hj)
    | finished i => exact ih h.2 hused
    | drop i => exact ih h.2 fun j hj => List.mem_cons_of_mem _ (hused j hj)

/-- Where nothing is made, nothing is made by observing more, and the same results are read. -/
theorem ObservesMore.quiet (h : ObservesMore p q) (hp : IsQuiet p) :
    IsQuiet q ∧ readsOf (stepsOf q) = readsOf (stepsOf p) := by
  induction h with
  | nil => exact ⟨hp, rfl⟩
  | same a _ ih =>
    cases a with
    | step s =>
      obtain ⟨hs, hp⟩ := List.forall_mem_cons.1 hp
      obtain ⟨hq, hreads⟩ := ih hp
      refine ⟨List.forall_mem_cons.2 ⟨hs, hq⟩, ?_⟩
      cases s with
      | make m => exact hs.elim
      | wait span => exact hreads
      | get i => exact congrArg (i :: ·) hreads
    | finished i | drop i => exact ih hp
  | finished i _ ih | drop i _ ih => exact ih hp
  | wait span _ _ ih => exact ⟨List.forall_mem_cons.2 ⟨trivial, (ih hp).1⟩, (ih hp).2⟩
  | longer _ hp' _ ih => exact ⟨List.forall_mem_cons.2 ⟨trivial, (ih hp').1⟩, (ih hp').2⟩

/-- **Who observes more differs only where nothing more is made**, and reads the same there. -/
theorem ObservesMore.split (h : ObservesMore p q) : ∃ s t t', stepsOf p = s ++ t ∧ stepsOf q = s ++ t' ∧
    (∀ a ∈ t, Step.IsQuiet a) ∧ (∀ a ∈ t', Step.IsQuiet a) ∧ readsOf t' = readsOf t := by
  induction h with
  | nil => exact ⟨[], [], [], rfl, rfl, by simp, by simp, rfl⟩
  | same a _ ih =>
    obtain ⟨s, t, t', hp, hq, hrest⟩ := ih
    cases a with
    | step a => exact ⟨a :: s, t, t', congrArg (a :: ·) hp, congrArg (a :: ·) hq, hrest⟩
    | finished i | drop i => exact ⟨s, t, t', hp, hq, hrest⟩
  | finished i _ ih | drop i _ ih => exact ih
  | wait span hp h =>
    obtain ⟨hq, hreads⟩ := h.quiet hp
    exact ⟨[], _, _, rfl, rfl, hp, List.forall_mem_cons.2 ⟨trivial, hq⟩, hreads⟩
  | longer _ hp h =>
    obtain ⟨hq, hreads⟩ := h.quiet hp
    exact ⟨[], _, _, rfl, rfl, List.forall_mem_cons.2 ⟨trivial, hp⟩, List.forall_mem_cons.2 ⟨trivial, hq⟩, hreads⟩

end Programs

namespace Executor

variable {x : Executor ν} {f : Nat → Outcome ν × Nat} {p q : List (Action ν)}

/-- The executor after an action. A question changes nothing, and a task whose handle is dropped runs on. -/
def execute (x : Executor ν) : Action ν → Executor ν
  | .step s => x.perform s
  | .finished _ => x
  | .drop _ => x

/-- The executor after a program. -/
def executeAll (x : Executor ν) (p : List (Action ν)) : Executor ν := p.foldl execute x

/-- **The results that a program reads**, with the tasks that they are of. -/
def reads (x : Executor ν) : List (Action ν) → List (Nat × Option (Outcome ν))
  | [] => []
  | .step (.get i) :: p => (i, (x.get i).1) :: reads (x.get i).2 p
  | .step (.make m) :: p => reads (x.make m).2 p
  | .step (.wait span) :: p => reads (x.wait span) p
  | .finished _ :: p => reads x p
  | .drop _ :: p => reads x p

theorem executeAll_eq (x : Executor ν) (p : List (Action ν)) : x.executeAll p = x.run (stepsOf p) := by
  induction p generalizing x with
  | nil => rfl
  | cons a p ih =>
    cases a with
    | step s => exact ih (x.perform s)
    | finished i | drop i => exact ih x

/-! ### What is seen -/

/-- **The tasks of a program come to this**, whatever is observed meanwhile. -/
structure Undisturbed (f : Nat → Outcome ν × Nat) (p : List (Action ν)) : Prop where
  /-- What is read is what the tasks come to. -/
  reads : reads {} p = (readsOf (stepsOf p)).map fun i => (i, some (f i).1)
  /-- What is done came to this, at this time. -/
  keepsTo : ∀ before after, p = before ++ after → KeepsTo f (({} : Executor ν).executeAll before)
  /-- A task that is done stays so. -/
  stays : ∀ before mid after, p = before ++ mid ++ after → ∀ i,
    (({} : Executor ν).executeAll before).isFinished i = true →
      (({} : Executor ν).executeAll (before ++ mid)).isFinished i = true
  /-- After a wait just the tasks are done whose time has come. -/
  waited : ∀ before span after, p = before ++ .step (.wait span) :: after →
    let x := ({} : Executor ν).executeAll before
    (x.wait span).now = x.now + min span longestSleep ∧
      ∀ i < x.tasks.length, (x.wait span).isFinished i = true ↔ (f i).2 ≤ (x.wait span).now
  /-- To read a result takes the time until it is there, and none if the task is done. -/
  read : ∀ before i after, p = before ++ .step (.get i) :: after →
    let x := ({} : Executor ν).executeAll before
    (x.get i).2.now = max x.now (f i).2 ∧ (x.isFinished i = true → (x.get i).2.now = x.now)
  /-- All tasks are done in the end, those whose handles were dropped among them. -/
  ends : ∃ n, let x := (({} : Executor ν).executeAll p).run (waits n)
    KeepsTo f x ∧ ∀ i < x.tasks.length, x.isFinished i = true

/-- Results stay in the course of a program. -/
theorem grows_run {s t u : List (Step ν)} (hp : IsLinear 0 [] (s ++ (t ++ u))) :
    Grows (({} : Executor ν).run s) (({} : Executor ν).run (s ++ t)) := by
  obtain ⟨hx, -, used, hused, hrest⟩ := Account.run (p := s) inOrder_start (by simp) hp
  rw [run_append]
  exact (Account.run (p := t) (q := u) hx hused hrest).2.1

/-- **A program is undisturbed** if its future is known. -/
theorem undisturbed_of_future (hp : IsOwned 0 [] p)
    (hf : ∀ i r, (({} : Executor ν).run (stepsOf p)).future i = some r → f i = r) : Undisturbed f p := by
  obtain ⟨n, hlinear, hend⟩ := exists_isEnd (hp.isLinear (by simp)) hf
  -- a part of the program is a part of its steps, and what comes after it leads to the end
  have hstep : ∀ before s after, p = before ++ .step s :: after →
      Agrees f (({} : Executor ν).executeAll before) s := by
    rintro before s after rfl
    rw [stepsOf_append, stepsOf, List.append_assoc, List.cons_append] at hlinear hend
    rw [executeAll_eq]
    exact hend.agrees hlinear
  have hkeeps : ∀ before after, p = before ++ after → KeepsTo f (({} : Executor ν).executeAll before) := by
    rintro before after rfl
    rw [stepsOf_append, List.append_assoc] at hlinear hend
    obtain ⟨hx, hgrows, -⟩ := run_split hlinear
    rw [executeAll_eq]
    exact hend.keepsTo hx hgrows
  have hreads : ∀ after before, p = before ++ after →
      reads (({} : Executor ν).executeAll before) after =
        (readsOf (stepsOf after)).map fun i => (i, some (f i).1) := by
    intro after
    induction after with
    | nil => exact fun before _ => rfl
    | cons a after ih =>
      intro before hsplit
      have hrest := ih (before ++ [a]) (by rw [hsplit, List.append_assoc]; rfl)
      rw [executeAll, List.foldl_append] at hrest
      cases a with
      | step s =>
        cases s with
        | make m | wait span => exact hrest
        | get i =>
          have hget : ((({} : Executor ν).executeAll before).get i).1 = some (f i).1 := (hstep before _ after hsplit).1
          rw [reads, hget]
          exact congrArg ((i, some (f i).1) :: ·) hrest
      | finished i | drop i => exact hrest
  refine ⟨hreads p [] rfl, hkeeps, ?_, fun before span after hsplit => hstep before _ after hsplit, ?_, n, ?_⟩
  · rintro before mid after rfl i hi
    rw [List.append_assoc, stepsOf_append, stepsOf_append, List.append_assoc, List.append_assoc] at hlinear
    rw [executeAll_eq, isFinished_eq] at hi ⊢
    obtain ⟨r, hr⟩ := Option.isSome_iff_exists.1 hi
    rw [stepsOf_append, (grows_run hlinear).keeps i r hr]
    rfl
  · rintro before i after hsplit
    have hnow := (hstep before _ after hsplit).2
    refine ⟨hnow, fun hi => ?_⟩
    have hle := (hkeeps before _ hsplit i hi).2.2
    rw [hnow]
    omega
  · obtain ⟨-, -, horder, -⟩ := run_split hlinear
    rw [executeAll_eq, ← run_append]
    refine ⟨hend.keepsTo horder (.refl _), fun i hi => ?_⟩
    rw [isFinished_eq]
    exact Option.isSome_iff_ne_none.2 (hend.done i hi)

end Executor

open Executor

/-- **Who observes more has the same future.** -/
theorem ObservesMore.future_eq {p q : List (Action ν)} (h : ObservesMore p q) (hp : IsOwned 0 [] p)
    (hq : IsOwned 0 [] q) (i : Nat) :
    (({} : Executor ν).run (stepsOf q)).future i = (({} : Executor ν).run (stepsOf p)).future i := by
  obtain ⟨s, t, t', hst, hst', ht, ht', -⟩ := h.split
  have hlinear : IsLinear 0 [] (stepsOf p) := hp.isLinear (by simp)
  have hlinear' : IsLinear 0 [] (stepsOf q) := hq.isLinear (by simp)
  rw [hst] at hlinear ⊢
  rw [hst'] at hlinear' ⊢
  rw [future_run hlinear ht, future_run hlinear' ht']

/-- **The same results are read** by who observes more. -/
theorem ObservesMore.readsOf_eq {p q : List (Action ν)} (h : ObservesMore p q) :
    readsOf (stepsOf q) = readsOf (stepsOf p) := by
  obtain ⟨s, t, t', hst, hst', -, -, hreads⟩ := h.split
  rw [hst, hst', readsOf_append, readsOf_append, hreads]

/-- **To observe deferred values is not to disturb them.** In every program each task comes to something at some time,
which is what is read of it and when it is seen to be done. In every program that observes more, that asks more
questions and drops more handles anywhere and waits longer after the last task was made, it is the same for all
tasks. -/
theorem observing_undisturbed (p : List (Action ν)) (hp : IsOwned 0 [] p) :
    ∃ f, Undisturbed f p ∧ ∀ q, ObservesMore p q → IsOwned 0 [] q →
      Undisturbed f q ∧ reads {} q = reads {} p := by
  obtain ⟨f, hf⟩ := exists_future (({} : Executor ν).run (stepsOf p))
  have hu : Undisturbed f p := undisturbed_of_future hp hf
  refine ⟨f, hu, fun q hmore hq => ?_⟩
  have hu' : Undisturbed f q := undisturbed_of_future hq fun i r hr => hf i r (hmore.future_eq hp hq i ▸ hr)
  exact ⟨hu', by rw [hu'.reads, hu.reads, hmore.readsOf_eq]⟩

/-- Two tasks fail at the same time and are combined, and a third one succeeds later. -/
def race : List (Action Nat) :=
  [.step (.make (.spawn ⟨2, .error (.text "first")⟩)), .step (.make (.spawn ⟨2, .error (.text "second")⟩)),
    .step (.make (.spawn ⟨5, .ok 1⟩)), .step (.make (.combine 0 1 fun a _ => .ok a)), .step (.get 3)]

/-- The same, watched while it goes on, and with the handle of the third task dropped. -/
def watchedRace : List (Action Nat) :=
  [.step (.make (.spawn ⟨2, .error (.text "first")⟩)), .finished 0,
    .step (.make (.spawn ⟨2, .error (.text "second")⟩)), .step (.make (.spawn ⟨5, .ok 1⟩)), .drop 2,
    .step (.make (.combine 0 1 fun a _ => .ok a)), .finished 3, .step (.wait 1), .step (.wait 4), .finished 3,
    .step (.get 3)]

/-- The first failure is read in both, and the dropped task is done after the waits. -/
theorem observing_undisturbed_race : IsOwned 0 [] race ∧ ObservesMore race watchedRace ∧
    IsOwned 0 [] watchedRace ∧ reads {} watchedRace = [(3, some (.error (Panic.text "first").failure))] ∧
      (({} : Executor Nat).executeAll (watchedRace.take 9)).isFinished 2 = true := by
  have howned : IsOwned 0 [] race := by simp [race, IsOwned, Maker.inputs, Maker.spawn]
  have howned' : IsOwned 0 [] watchedRace := by simp [watchedRace, IsOwned, Maker.inputs, Maker.spawn]
  have hquiet : IsQuiet ([.step (.get 3)] : List (Action Nat)) := by simp [IsQuiet, stepsOf, Step.IsQuiet]
  have hmore : ObservesMore race watchedRace :=
    .same _ <| .finished 0 <| .same _ <| .same _ <| .drop 2 <| .same _ <| .finished 3 <| .wait 1 hquiet <|
      .wait 4 hquiet <| .finished 3 <| .same _ .nil
  obtain ⟨f, -, hmost⟩ := observing_undisturbed race howned
  obtain ⟨-, hreads⟩ := hmost watchedRace hmore howned'
  exact ⟨howned, hmore, howned', hreads, rfl⟩

end Handoff.Deferred
