import Handoff.Proofs.Deferred.Composition

/-! # Failures pass unchanged to the root of a composition

A program may make the tasks of a composition in any order, with other tasks and waits in between. What it
reads at the root in the end is told by the composition alone, up to the choice among several failures.

* `makersOf`: the makers of a program's tasks.
* `Executor.RunsOnce`: a task's function runs once if all inputs succeed, and never if one fails.
* `Executor.failure_propagates`: the statement for all compositions and programs.
-/

namespace Handoff.Deferred

variable {ν : Type}

/-- **The makers of a program's tasks**, in the order in which the tasks are made. -/
def makersOf : List (Step ν) → List (Maker ν)
  | [] => []
  | .make m :: p => m :: makersOf p
  | .wait _ :: p => makersOf p
  | .get _ :: p => makersOf p

theorem makersOf_map_make (ms : List (Maker ν)) : makersOf (ms.map .make) = ms := by
  induction ms with
  | nil => rfl
  | cons m ms ih => exact congrArg (m :: ·) ih

theorem makersOf_append (p q : List (Step ν)) : makersOf (p ++ q) = makersOf p ++ makersOf q := by
  induction p with
  | nil => rfl
  | cons s p ih =>
    cases s with
    | make m => exact congrArg (m :: ·) ih
    | wait span => exact ih
    | get i => exact ih

/-- What a composition can come to is a value if and only if nothing in it breaks off. -/
theorem Composition.Tells.ok_iff {c : Composition ν} {o : Outcome ν}
    (h : c.Tells o) : (∃ v, o = .ok v) ↔ c.breaks = [] := by
  rcases o with e | v
  · obtain ⟨b, hb, -⟩ := h
    have hne := List.ne_nil_of_mem hb
    simp [hne]
  · have hvalue : c.value? = some v := h
    rw [← Composition.isSome_value?_iff, hvalue]
    simp

theorem exists_failure_eq (b : Panic) : ∃ text, b.failure = .taskFailed text := by
  cases b with
  | text m => exact ⟨_, rfl⟩
  | other => exact ⟨_, rfl⟩

namespace Executor

/-- What is written in a run is made of the makers of the program. -/
theorem map_maker_written (x : Executor ν) (p : List (Step ν)) :
    (x.written p).map Entry.maker = makersOf p := by
  induction p generalizing x with
  | nil => rfl
  | cons s p ih =>
    cases s with
    | make m => exact congrArg (m :: ·) (ih (x.make m).2)
    | wait span => exact ih (x.wait span)
    | get i => exact ih (x.get i).2

theorem makersOf_waits (n : Nat) : makersOf (waits n : List (Step ν)) = [] := by
  induction n with
  | zero => rfl
  | succ n ih => exact ih

theorem length_run {p : List (Step ν)} (hp : IsLinear 0 [] p) :
    (({} : Executor ν).run p).tasks.length = (makersOf p).length := by
  obtain ⟨hx, -⟩ := run_split ((List.append_nil p).symm ▸ hp)
  rw [← hx.length, ← map_maker_written {} p, List.length_map]

/-- **A task's function runs at most once**, on the values of the inputs: once if all of them succeed, and
never if one fails. -/
structure RunsOnce (x : Executor ν) (cs : List (Call ν)) (i : Nat) (m : Maker ν) : Prop where
  once : (callsOf cs i).length ≤ 1
  given : ∀ vs ∈ callsOf cs i, List.Forall₂ (fun j v => x.outcome? j = some (.ok v)) m.inputs vs
  succeeded : ∀ vs, List.Forall₂ (fun j v => x.outcome? j = some (.ok v)) m.inputs vs →
    x.isFinished i = true → callsOf cs i = [vs]
  failed : ∀ j ∈ m.inputs, ∀ e, x.outcome? j = some (.error e) → callsOf cs i = []

section Runs

variable {x : Executor ν} {m : Maker ν} {cs : List (Call ν)} {i : Nat}

/-- A task is served as its stage tells, so its function runs once. -/
theorem runsOnce_of_served {s : Stage ν} (h : Served x.result? m s (callsOf cs i))
    (hs : x.stage? i = some s) : RunsOnce x cs i m := by
  -- inputs that have all succeeded have not failed
  have hclash : ∀ {vs : List ν}, x.result?.Values m.inputs vs → ∀ j ∈ m.inputs, ∀ e,
      x.result?.outcome j ≠ some (.error e) := by
    intro vs hvs j hj e he
    obtain ⟨v, hv⟩ := hvs.mem j hj
    rw [he] at hv
    cases hv
  generalize hcalls : callsOf cs i = vss at h
  cases h with
  | pending hp =>
    refine ⟨by simp [hcalls], by simp [hcalls], fun vs _ hdone => ?_, fun _ _ _ _ => hcalls⟩
    have hresult := result?_of_stage? hs
    rw [isFinished_eq, hresult] at hdone
    cases s with
    | pending m' => cases hdone
    | _ => exact hp.elim
  | @succeeded vs hp hvs =>
    refine ⟨by simp [hcalls], fun vs' hvs' => ?_, fun vs' hvs' _ => ?_, fun j hj e he => ?_⟩
    · rw [hcalls, List.mem_singleton] at hvs'
      rw [hvs', outcome?_eq]
      exact hvs
    · rw [outcome?_eq] at hvs'
      rw [hcalls, hvs.unique hvs']
    · rw [outcome?_eq] at he
      exact absurd he (hclash hvs j hj e)
  | @failed j e hp hj he =>
    refine ⟨by simp [hcalls], by simp [hcalls], fun vs hvs _ => ?_, fun _ _ _ _ => hcalls⟩
    rw [outcome?_eq] at hvs
    exact absurd he (hclash hvs j hj e)

/-- **In every run each task's function runs once.** -/
theorem Journal.runsOnce {p : List (Step ν)} (hp : IsLinear 0 [] p) (hrun : Journal {} p cs)
    (hm : (makersOf p)[i]? = some m) (hown : m.HasFunction) :
    RunsOnce (({} : Executor ν).run p) cs i m := by
  have hjournaled := hrun.served hp
  have hi : i < (makersOf p).length := (List.getElem?_eq_some_iff.1 hm).1
  obtain ⟨s, hs⟩ := exists_stage? (length_run hp ▸ hi)
  rw [← map_maker_written {} p, List.getElem?_map, Option.map_eq_some_iff] at hm
  obtain ⟨b, hb, rfl⟩ := hm
  exact runsOnce_of_served (hjournaled.served i b s hb hown hs) hs

end Runs

/-! ### The root -/

/-- **What is read at the root of a composition** is its value or the failure of one of its breaks. -/
theorem get_tells {before after : List (Step ν)} {i : Nat} {c : Composition ν}
    (hp : IsLinear 0 [] (before ++ .get i :: after)) (hc : c.IsBuilt (makersOf before) i) :
    ∃ o, ((({} : Executor ν).run before).get i).1 = some o ∧ c.Tells o := by
  obtain ⟨hx, -, -, used, hused⟩ := run_split hp
  obtain ⟨hmoves, o, t, ho, hres, -⟩ := get_spec hx hused.1.1
  refine ⟨o, ho, Composition.tells (hx.moves hmoves) c i ?_ o ?_⟩
  · rwa [map_maker_written]
  · rw [Yields.outcome, hres]
    rfl

/-- **Failures pass unchanged to the root of a composition.** A program can be written that makes any
composition. Whatever program makes it, what is read at the root is a value if and only if no leaf and no
function breaks off, and otherwise it is the failure of one that does, of which all inputs succeed. In every
program all tasks are done in the end, and the function of each runs once if all its inputs succeed, and never
if one fails; where it does not run, any other function could stand in its place. -/
theorem failure_propagates (c : Composition ν) :
    (∃ p i, IsLinear 0 [] (p ++ [.get i]) ∧ c.IsBuilt (makersOf p) i) ∧
    (∀ before i after, IsLinear 0 [] (before ++ .get i :: after) → c.IsBuilt (makersOf before) i →
      ∃ o, ((({} : Executor ν).run before).get i).1 = some o ∧
        ((∃ v, o = .ok v) ↔ c.breaks = []) ∧ (∀ v, o = .ok v → c.value? = some v) ∧
        ∀ e, o = .error e → ∃ b ∈ c.breaks, e = b.failure ∧ ∃ text, e = .taskFailed text) ∧
    (∀ p : List (Step ν), IsLinear 0 [] p →
      (∃ cs, Journal {} p cs) ∧
      (∀ cs i m, Journal {} p cs → (makersOf p)[i]? = some m → m.HasFunction →
        RunsOnce (({} : Executor ν).run p) cs i m) ∧
      ∃ n, IsLinear 0 [] (p ++ waits n) ∧ makersOf (p ++ waits n) = makersOf p ∧
        ∀ i < (makersOf p).length, (({} : Executor ν).run (p ++ waits n)).isFinished i = true) ∧
    ∀ (m m' : Maker ν) (view : Nat → Option (Outcome ν)), m.Alike m' →
      (∀ vs, m.args? view = some vs → m'.act vs = m.act vs) → m'.poll view = m.poll view := by
  refine ⟨?_, fun before i after hp hc => ?_, fun p hp => ⟨exists_journal hp, ?_, ?_⟩,
    fun m m' view => Maker.poll_congr⟩
  · obtain ⟨ms, i, h⟩ := Composition.exists_raised c 0
    refine ⟨ms.map .make, i, h.linear [] [.get i] (by simp) fun used hused => ?_, ?_⟩
    · have hi := h.within i (by simp)
      refine ⟨⟨hi.2, fun hin => ?_⟩, trivial⟩
      rcases hused i hin with hin | ⟨-, -, hnot⟩
      · cases hin
      · exact hnot (by simp)
    · rw [makersOf_map_make, ← List.append_nil ms]
      exact Composition.isBuilt_of_areBuilt (h.built [] [] rfl)
  · obtain ⟨o, ho, htells⟩ := get_tells hp hc
    refine ⟨o, ho, htells.ok_iff, ?_, ?_⟩
    · rintro v rfl
      exact htells
    · rintro e rfl
      obtain ⟨b, hb, rfl⟩ := htells
      exact ⟨b, hb, rfl, exists_failure_eq b⟩
  · exact fun cs i m hrun hm hown => hrun.runsOnce hp hm hown
  · obtain ⟨f, n, hend⟩ := exists_end hp
    have hlinear := isLinear_append_waits hp n
    have hmakers : makersOf (p ++ waits n) = makersOf p := by
      rw [makersOf_append, makersOf_waits, List.append_nil]
    refine ⟨n, hlinear, hmakers, fun i hi => ?_⟩
    rw [isFinished_eq]
    refine Option.isSome_iff_ne_none.2 (hend.done i ?_)
    rwa [length_run hlinear, hmakers]

/-- A sum of which one part comes late and the other breaks off, and the number after it. -/
def brokenSum : Composition Nat :=
  .map (.combine (.source ⟨1, .ok 3⟩ false) (.source ⟨0, .error (.text "no part")⟩ true) fun a b => .ok (a + b))
    fun n => .ok (n + 1)

/-- The tasks of the sum, with a wait in between. -/
def brokenSumTasks : List (Step Nat) :=
  [.make (.source ⟨0, .error (.text "no part")⟩ true), .wait 5, .make (.source ⟨1, .ok 3⟩ false),
    .make (.combine 1 0 fun a b => .ok (a + b)), .make (.map 2 fun n => .ok (n + 1))]

/-- The failure of the part is read at the root, and the functions above it have not run. -/
theorem failure_propagates_brokenSum : IsLinear 0 [] (brokenSumTasks ++ [.get 3]) ∧
    brokenSum.IsBuilt (makersOf brokenSumTasks) 3 ∧
    ((({} : Executor Nat).run brokenSumTasks).get 3).1 = some (.error (Panic.text "no part").failure) ∧
    ∃ cs, Journal {} (brokenSumTasks ++ [.get 3]) cs ∧ callsOf cs 0 = [[]] ∧ callsOf cs 3 = [] := by
  have hlinear : IsLinear 0 [] (brokenSumTasks ++ [.get 3]) := by
    simp [brokenSumTasks, IsLinear, Maker.inputs]
  have hbuilt : brokenSum.IsBuilt (makersOf brokenSumTasks) 3 :=
    ⟨2, rfl, 1, 0, rfl, rfl, rfl⟩
  obtain ⟨-, hroot, hcalls, -⟩ := failure_propagates brokenSum
  obtain ⟨o, ho, hok, -, hfail⟩ := hroot brokenSumTasks 3 [] hlinear hbuilt
  obtain ⟨⟨cs, hrun⟩, honce, -⟩ := hcalls _ hlinear
  have hbreaks : brokenSum.breaks = [.text "no part"] := rfl
  refine ⟨hlinear, hbuilt, ?_, cs, hrun, ?_, ?_⟩
  · rw [hbreaks] at hok hfail
    rcases o with e | v
    · obtain ⟨b, hb, rfl, -⟩ := hfail e rfl
      rw [ho, List.mem_singleton.1 hb]
    · have := hok.1 ⟨v, rfl⟩
      simp at this
  · exact (honce cs 0 _ hrun rfl trivial).succeeded [] .nil rfl
  · exact (honce cs 3 _ hrun rfl trivial).failed 2 (by simp [Maker.inputs]) _ rfl

end Executor

end Handoff.Deferred
