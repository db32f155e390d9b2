import Handoff.Proofs.Deferred.Program

/-! # Tasks made of something that looks the same

What a task is made of shows only in its inputs and in what a look at it finds. If all tasks are recast as others that
have the same inputs and in which a look finds the same, the executor does the same. It does not look at the credit
either, as long as no result is read.

* `Unseen`: a change of makers that cannot be seen.
* `Executor.recast`: the executor with its tasks recast, and with another credit.
* `Executor.look_recast`, `Executor.round_recast`, `Executor.settle_recast`, `Executor.runUntil_recast`: to recast
  commutes with all that an executor does by itself.
* `Executor.make_recast`, `Executor.wait_recast`, `Executor.get_recast`: and with what is done from outside.
* `Executor.run_recast`: hence a program whose makers are recast does the same.
-/

namespace Handoff.Deferred

variable {ν : Type}

/-- **A change of what tasks are made of that cannot be seen**: the inputs are the same, and a look finds the same. -/
structure Unseen (φ : Maker ν → Maker ν) : Prop where
  inputs : ∀ m, (φ m).inputs = m.inputs
  poll : ∀ view m, (φ m).poll view = m.poll view

theorem unseen_id : Unseen (id : Maker ν → Maker ν) := ⟨fun _ => rfl, fun _ _ => rfl⟩

/-- The stage of a task that is recast. -/
def Stage.recast (φ : Maker ν → Maker ν) : Stage ν → Stage ν
  | .pending m => .pending (φ m)
  | s => s

/-- The task, recast. -/
def Task.recast (φ : Maker ν → Maker ν) (t : Task ν) : Task ν := { t with stage := t.stage.recast φ }

@[simp] theorem Stage.yield?_recast (φ : Maker ν → Maker ν) (s : Stage ν) : (s.recast φ).yield? = s.yield? := by
  cases s <;> rfl

namespace Executor

/-- **The executor with its tasks recast**, and with another credit. -/
def recast (φ : Maker ν → Maker ν) (γ : Nat → Nat) (x : Executor ν) : Executor ν :=
  { x with tasks := x.tasks.map (Task.recast φ), credit := γ x.credit }

/-- To recast nothing is to change the credit. -/
theorem recast_id (γ : Nat → Nat) (x : Executor ν) : x.recast id γ = { x with credit := γ x.credit } := by
  have htask : Task.recast id = (id : Task ν → Task ν) := by
    funext t
    obtain ⟨s, reader⟩ := t
    cases s <;> rfl
  rw [recast, htask, List.map_id]

section Recast

variable {φ : Maker ν → Maker ν} (γ : Nat → Nat) (x : Executor ν) (i j : Nat)

@[simp] theorem stage?_recast : (x.recast φ γ).stage? i = (x.stage? i).map (Stage.recast φ) := by
  rw [stage?, recast, List.getElem?_map, Option.map_map, stage?, Option.map_map]
  rfl

@[simp] theorem result?_recast : (x.recast φ γ).result? = x.result? := by
  funext k
  rw [result?, result?, stage?_recast, Option.bind_map]
  congr 1
  funext s
  exact Stage.yield?_recast φ s

@[simp] theorem outcome?_recast : (x.recast φ γ).outcome? = x.outcome? := by
  rw [outcome?_eq, outcome?_eq, result?_recast]

@[simp] theorem isFinished_recast : (x.recast φ γ).isFinished = x.isFinished := by
  funext k
  rw [isFinished, isFinished, outcome?_recast]

theorem getElem?_tasks_recast : (x.recast φ γ).tasks[i]? = (x.tasks[i]?).map (Task.recast φ) :=
  List.getElem?_map ..

/-! ### One task -/

/-- A change of tasks that does not look at what they are made of comes to the same before and after. -/
theorem modify_recast {f : Task ν → Task ν} (hf : ∀ t, f (t.recast φ) = (f t).recast φ) :
    (x.recast φ γ).tasks.modify i f = (x.tasks.modify i f).map (Task.recast φ) := by
  apply List.ext_getElem?
  intro k
  rw [List.getElem?_modify, getElem?_tasks_recast, List.getElem?_map, List.getElem?_modify]
  rcases x.tasks[k]? with _ | t
  · rfl
  · split_ifs
    · exact congrArg some (hf t)
    · rfl

theorem setStage_recast {s : Stage ν} (hs : s.recast φ = s) :
    (x.recast φ γ).setStage i s = (x.setStage i s).recast φ γ := by
  have htask : ∀ t : Task ν, ({ t.recast φ with stage := s } : Task ν) = Task.recast φ { t with stage := s } := by
    intro t
    simp only [Task.recast, hs]
  rw [setStage, modify_recast γ x i htask]
  rfl

theorem wake_recast : (x.recast φ γ).wake i = (x.wake i).recast φ γ := by
  rw [wake, wake, isFinished_recast, apply_ite (recast φ γ)]
  rfl

theorem tell_recast : (x.recast φ γ).tell i j = (x.tell i j).recast φ γ := by
  have htasks := getElem?_tasks_recast (φ := φ) γ x i
  rcases ht : x.tasks[i]? with _ | ⟨m | g | r | ⟨o, t⟩, reader⟩ <;> rw [ht] at htasks
  case some.gathering =>
    have hset := setStage_recast (φ := φ) γ x i (s := .gathering (g.enqueue j)) rfl
    simp only [tell, ht, htasks, Option.map_some, Task.recast, Stage.recast]
    rw [hset, wake_recast, apply_ite (recast φ γ)]
  all_goals
    simp only [tell, ht, htasks, Option.map_some, Option.map_none, Task.recast, Stage.recast]
    exact wake_recast γ x i

theorem finish_recast (o : Outcome ν) : (x.recast φ γ).finish i o = (x.finish i o).recast φ γ := by
  have hset : (x.recast φ γ).setStage i (.done o (x.recast φ γ).now) = (x.setStage i (.done o x.now)).recast φ γ :=
    setStage_recast γ x i rfl
  unfold finish
  rw [hset]
  have htasks := getElem?_tasks_recast (φ := φ) γ (x.setStage i (.done o x.now)) i
  rcases ht : (x.setStage i (.done o x.now)).tasks[i]? with _ | ⟨s, _ | k⟩ <;> rw [ht] at htasks <;>
    simp only [ht, htasks, Option.map_some, Option.map_none, Task.recast]
  exact tell_recast ..

theorem postpone_recast : (x.recast φ γ).postpone i = (x.postpone i).recast φ γ := by
  rw [postpone, postpone, apply_ite (recast φ γ)]
  rfl

theorem gather_recast (g : Gathering ν) : (x.recast φ γ).gather i g = (x.gather i g).recast φ γ := by
  have hset := setStage_recast (φ := φ) γ x i (s := .gathering (g.look x.isFinished)) rfl
  rcases hr : (g.look x.isFinished).result? x.outcome? with _ | o <;>
    simp only [gather, isFinished_recast, outcome?_recast, hr]
  · rw [hset, apply_ite (recast φ γ), ← wake_recast, apply_ite (recast φ γ), ← postpone_recast]
  · exact finish_recast ..

/-- **A look finds the same** at a task that is recast. -/
theorem look_recast (hφ : Unseen φ) : (x.recast φ γ).look i = (x.look i).recast φ γ := by
  have hstage := stage?_recast (φ := φ) γ x i
  rcases hs : x.stage? i with _ | (m | g | r | ⟨o, t⟩) <;> rw [hs] at hstage
  · rw [look_none hs, look_none hstage]
  · rw [look_pending hs, look_pending hstage, result?_recast, hφ.poll]
    rcases m.poll x.result?.outcome with _ | ⟨delay, r⟩ | ⟨is, pack⟩ | o
    · rfl
    · have hset := setStage_recast (φ := φ) γ x i (s := .sleeping r) rfl
      simp only [sleep, hset]
      rfl
    · exact gather_recast ..
    · exact finish_recast ..
  · rw [look_gathering hs, look_gathering hstage, gather_recast]
  · rw [look_sleeping hs, look_sleeping hstage, finish_recast]
  · rw [look_done hs, look_done hstage]

/-! ### All tasks -/

theorem step_recast (hφ : Unseen φ) : (x.recast φ γ).step = x.step.recast φ γ := by
  have hready : (x.recast φ γ).ready = x.ready := rfl
  rcases hr : x.ready with _ | ⟨k, r⟩ <;> simp only [step, hready, hr]
  exact look_recast γ { x with ready := r } k hφ

theorem turn_recast (hφ : Unseen φ) (n : Nat) : (x.recast φ γ).turn n = (x.turn n).recast φ γ := by
  induction n generalizing x with
  | zero => rfl
  | succ n ih =>
    rw [turn, turn, apply_ite (recast φ γ), ← ih, ← step_recast γ x hφ]
    rfl

theorem resume_recast : (x.recast φ γ).resume i = (x.resume i).recast φ γ := by
  have htasks := getElem?_tasks_recast (φ := φ) γ x i
  rcases ht : x.tasks[i]? with _ | ⟨m | g | r | ⟨o, t⟩, reader⟩ <;> rw [ht] at htasks
  case some.gathering =>
    have hset := setStage_recast (φ := φ) γ x i (s := .gathering g.resume) rfl
    simp only [resume, ht, htasks, Option.map_some, Task.recast, Stage.recast]
    rw [hset, wake_recast]
  all_goals simp only [resume, ht, htasks, Option.map_some, Option.map_none, Task.recast, Stage.recast]

theorem round_recast (hφ : Unseen φ) : (x.recast φ γ).round = x.round.recast φ γ := by
  have hfold : ∀ (l : List Nat) (y : Executor ν), l.foldl resume (y.recast φ γ) = (l.foldl resume y).recast φ γ := by
    intro l
    induction l with
    | nil => exact fun y => rfl
    | cons k l ih => exact fun y => by rw [List.foldl_cons, resume_recast, ih, List.foldl_cons]
  rw [round, turn_recast γ x hφ]
  exact hfold (x.turn turnLength).postponed { x.turn turnLength with postponed := [] }

theorem weight_recast (hφ : Unseen φ) : (x.recast φ γ).weight = x.weight := by
  have hstage : ∀ s : Stage ν, Stage.weight (s.recast φ) = Stage.weight s := by
    intro s
    cases s with
    | pending m => exact congrArg (fun is => 4 + is.length) (hφ.inputs m)
    | gathering g | sleeping r | done o t => rfl
  have htasks : ∀ ts : List (Task ν), weightOf (ts.map (Task.recast φ)) = weightOf ts := by
    intro ts
    induction ts with
    | nil => rfl
    | cons t ts ih => rw [List.map_cons, weightOf, weightOf, ih, Task.recast, hstage]
  rw [weight, weight, recast, htasks]

theorem settle_recast (hφ : Unseen φ) : (x.recast φ γ).settle = x.settle.recast φ γ := by
  have hrounds : ∀ (n : Nat) (y : Executor ν), (y.recast φ γ).rounds n = (y.rounds n).recast φ γ := by
    intro n
    induction n with
    | zero => exact fun y => rfl
    | succ n ih =>
      intro y
      rw [rounds, rounds, apply_ite (recast φ γ), ← ih, ← round_recast γ y hφ]
      rfl
  rw [settle, weight_recast γ x hφ]
  exact hrounds x.weight x

theorem passUntil_recast (hφ : Unseen φ) (t n : Nat) :
    passUntil t n (x.recast φ γ) = (passUntil t n x).recast φ γ := by
  induction n generalizing x with
  | zero => rfl
  | succ n ih =>
    have hnext : (x.settle.recast φ γ).nextDue? = x.settle.nextDue? := rfl
    simp only [passUntil, settle_recast γ x hφ, hnext]
    rcases x.settle.nextDue? with _ | due
    · rfl
    · dsimp only
      rw [apply_ite (recast φ γ), ← ih]
      rfl

theorem runUntil_recast (hφ : Unseen φ) (n : Nat) : (x.recast φ γ).runUntil i n = (x.runUntil i n).recast φ γ := by
  induction n generalizing x with
  | zero => rfl
  | succ n ih =>
    have hidle : (x.recast φ γ).isIdle = x.isIdle := rfl
    have hnext : (x.recast φ γ).nextDue? = x.nextDue? := rfl
    rw [runUntil, runUntil, isFinished_recast, hidle, hnext, round_recast γ x hφ, ih]
    split_ifs
    · rfl
    · rcases x.nextDue? with _ | due
      · rfl
      · exact ih (x.jump due)
    · rfl

/-! ### From outside -/

theorem make_recast (hφ : Unseen φ) (m : Maker ν) : ((x.recast φ γ).make (φ m)).2 = (x.make m).2.recast φ γ := by
  have hread : ∀ (l : List Nat) (k : Nat) (y : Executor ν),
      l.foldl (fun y input => y.read k input) (y.recast φ γ) =
        (l.foldl (fun y input => y.read k input) y).recast φ γ := by
    intro l k
    induction l with
    | nil => exact fun y => rfl
    | cons input l ih =>
      intro y
      have hone : (y.recast φ γ).read k input = (y.read k input).recast φ γ := by
        rw [read, modify_recast γ y input (f := fun t => { t with reader := some k }) fun t => rfl]
        rfl
      rw [List.foldl_cons, hone, ih, List.foldl_cons]
  have hlength : (x.recast φ γ).tasks.length = x.tasks.length := List.length_map ..
  simp only [make, hφ.inputs, hlength, hread]
  generalize m.inputs.foldl (fun y input => y.read x.tasks.length input) x = y
  simp only [recast, List.map_append]
  rfl

theorem wait_recast (hφ : Unseen φ) (span : Nat) : (x.recast φ id).wait span = (x.wait span).recast φ id := by
  rw [wait, wait, weight_recast id x hφ]
  exact congrArg (fun y : Executor ν => { y with credit := readsPerLook }) (passUntil_recast id x hφ _ _)

/-- **To read a result comes to the same**, and leaves the executor recast as it was. -/
theorem get_recast (hφ : Unseen φ) :
    ((x.recast φ id).get i).1 = (x.get i).1 ∧ ((x.recast φ id).get i).2 = (x.get i).2.recast φ id := by
  have hturn : (if (x.recast φ id).credit = 0 then { (x.recast φ id).round with credit := readsPerLook }
      else x.recast φ id) =
        (if x.credit = 0 then { x.round with credit := readsPerLook } else x).recast φ id := by
    rw [apply_ite (recast φ id), round_recast id x hφ]
    rfl
  rw [get, get, hturn]
  generalize (if x.credit = 0 then { x.round with credit := readsPerLook } else x) = y
  dsimp only
  rw [isFinished_recast, outcome?_recast, weight_recast id y hφ, runUntil_recast id y i hφ, outcome?_recast]
  split_ifs
  · exact ⟨rfl, rfl⟩
  · exact ⟨rfl, rfl⟩

end Recast

end Executor

/-! ### Programs -/

/-- The step in which a task is made of something else. -/
def Step.recast (φ : Maker ν → Maker ν) : Step ν → Step ν
  | .make m => .make (φ m)
  | .wait span => .wait span
  | .get i => .get i

/-- **A program whose makers are recast does the same.** -/
theorem Executor.run_recast {φ : Maker ν → Maker ν} (hφ : Unseen φ) (p : List (Step ν)) (x : Executor ν) :
    (x.recast φ id).run (p.map (Step.recast φ)) = (x.run p).recast φ id := by
  induction p generalizing x with
  | nil => rfl
  | cons s p ih =>
    have hstep : (x.recast φ id).perform (s.recast φ) = (x.perform s).recast φ id := by
      cases s with
      | make m => exact make_recast id x hφ m
      | wait span => exact wait_recast x hφ span
      | get i => exact (get_recast x i hφ).2
    rw [List.map_cons, run, List.foldl_cons, hstep]
    exact ih (x.perform s)

end Handoff.Deferred
