import Handoff.Proofs.Deferred.Meaning

/-! # What the executor does at one time

A task is seen through its stage and through the task that reads it.

* `Executor.stage?`, `Executor.reader?`, `Executor.result?`: what is seen of a task.
* `Executor.Finished`: what the end of a task does to all tasks.
* `Executor.Move`: the moves of an executor: a look at the first ready task, the return of what was put
  off, and a jump of the clock when nothing else can be done.
* `Executor.Grows`: results stay, and those to come are not dated back.
-/

namespace Handoff.Deferred

variable {ν : Type}

/-- What a stage shows of a result. -/
def Stage.yield? : Stage ν → Option (Outcome ν × Nat)
  | .done o t => some (o, t)
  | _ => none

/-- The stage of a reader that was told of an input. -/
def Stage.told (input : Nat) : Stage ν → Stage ν
  | .gathering g => if g.awaits input then .gathering (g.enqueue input) else .gathering g
  | s => s

/-- Whether a reader has something to do once it is told of an input. -/
def Stage.Heeds (input : Nat) : Stage ν → Prop
  | .pending _ => True
  | .gathering g => g.awaits input = true
  | _ => False

@[simp] theorem Stage.yield?_told (input : Nat) (s : Stage ν) : (s.told input).yield? = s.yield? := by
  rcases s with m | g | r | ⟨o, t⟩
  case gathering =>
    simp only [Stage.told]
    split_ifs <;> rfl
  all_goals rfl

namespace Executor

/-! ### What is seen of a task -/

/-- The stage of a task. -/
def stage? (x : Executor ν) (i : Nat) : Option (Stage ν) := (x.tasks[i]?).map Task.stage

/-- The task that reads a task. -/
def reader? (x : Executor ν) (i : Nat) : Option Nat := (x.tasks[i]?).bind Task.reader

/-- What a task has yielded, and when. -/
def result? (x : Executor ν) : Yields ν := fun i => (x.stage? i).bind Stage.yield?

theorem outcome?_eq (x : Executor ν) : x.outcome? = x.result?.outcome := by
  funext i
  unfold outcome? Yields.outcome result? stage?
  rcases x.tasks[i]? with _ | ⟨s, reader⟩
  · rfl
  · cases s <;> rfl

theorem isFinished_eq (x : Executor ν) (i : Nat) : x.isFinished i = (x.result? i).isSome := by
  rw [isFinished, outcome?_eq, Yields.outcome, Option.isSome_map]

theorem lt_of_stage? {x : Executor ν} {i : Nat} {s : Stage ν} (h : x.stage? i = some s) :
    i < x.tasks.length := by
  obtain ⟨t, ht, -⟩ := Option.map_eq_some_iff.1 h
  exact (List.getElem?_eq_some_iff.1 ht).1

theorem exists_stage? {x : Executor ν} {i : Nat} (h : i < x.tasks.length) : ∃ s, x.stage? i = some s :=
  ⟨_, by rw [stage?, List.getElem?_eq_getElem h]; rfl⟩

theorem result?_of_stage? {x : Executor ν} {i : Nat} {s : Stage ν} (h : x.stage? i = some s) :
    x.result? i = s.yield? := by rw [result?, h]; rfl

theorem stage?_of_result? {x : Executor ν} {i t : Nat} {o : Outcome ν} (h : x.result? i = some (o, t)) :
    x.stage? i = some (.done o t) := by
  unfold result? at h
  rcases hs : x.stage? i with _ | s <;> rw [hs] at h
  · cases h
  · cases s <;> cases h
    rfl

/-! ### Changes of a stage -/

@[simp] theorem length_setStage (x : Executor ν) (i : Nat) (s : Stage ν) :
    (x.setStage i s).tasks.length = x.tasks.length := by simp [setStage]

@[simp] theorem reader?_setStage (x : Executor ν) (i k : Nat) (s : Stage ν) :
    (x.setStage i s).reader? k = x.reader? k := by
  rw [reader?, reader?, setStage, List.getElem?_modify]
  rcases x.tasks[k]? with _ | t
  · rfl
  · split_ifs <;> rfl

theorem stage?_setStage (x : Executor ν) (i k : Nat) (s : Stage ν) :
    (x.setStage i s).stage? k = if k = i then (x.stage? k).map fun _ => s else x.stage? k := by
  rw [stage?, stage?, setStage, List.getElem?_modify]
  rcases x.tasks[k]? with _ | t
  · split_ifs <;> rfl
  · by_cases hk : k = i
    · simp [hk]
    · simp [hk, Ne.symm hk]

theorem stage?_setStage_of_ne {x : Executor ν} {i k : Nat} (s : Stage ν) (h : k ≠ i) :
    (x.setStage i s).stage? k = x.stage? k := by rw [stage?_setStage, if_neg h]

theorem stage?_setStage_self {x : Executor ν} {i : Nat} {s₀ : Stage ν} (s : Stage ν)
    (h : x.stage? i = some s₀) : (x.setStage i s).stage? i = some s := by
  rw [stage?_setStage, if_pos rfl, h]
  rfl

/-! ### Looks -/

theorem exists_task {x : Executor ν} {i : Nat} {s : Stage ν} (h : x.stage? i = some s) :
    ∃ reader, x.tasks[i]? = some ⟨s, reader⟩ := by
  obtain ⟨⟨s', reader⟩, ht, rfl⟩ := Option.map_eq_some_iff.1 h
  exact ⟨reader, ht⟩

theorem look_pending {x : Executor ν} {i : Nat} {m : Maker ν} (h : x.stage? i = some (.pending m)) :
    x.look i = match m.poll x.result?.outcome with
      | .waits => x
      | .sleeps delay r => x.sleep i delay r
      | .gathers inputs pack => x.gather i { inputs, pack }
      | .ends o => x.finish i o := by
  obtain ⟨reader, ht⟩ := exists_task h
  rcases hpoll : m.poll x.result?.outcome <;> simp only [look, ht, outcome?_eq, hpoll]

theorem look_gathering {x : Executor ν} {i : Nat} {g : Gathering ν}
    (h : x.stage? i = some (.gathering g)) : x.look i = x.gather i g := by
  obtain ⟨reader, ht⟩ := exists_task h
  rw [look, ht]

theorem look_sleeping {x : Executor ν} {i : Nat} {r : Except Panic ν}
    (h : x.stage? i = some (.sleeping r)) : x.look i = x.finish i (outcomeOf r) := by
  obtain ⟨reader, ht⟩ := exists_task h
  rw [look, ht]

theorem look_done {x : Executor ν} {i t : Nat} {o : Outcome ν} (h : x.stage? i = some (.done o t)) :
    x.look i = x := by
  obtain ⟨reader, ht⟩ := exists_task h
  rw [look, ht]

theorem look_none {x : Executor ν} {i : Nat} (h : x.stage? i = none) : x.look i = x := by
  have ht : x.tasks[i]? = none := Option.map_eq_none_iff.1 h
  rw [look, ht]

/-! ### The end of a task -/

theorem wake_eq (x : Executor ν) (i : Nat) : x.wake i = { x with ready := (x.wake i).ready } := by
  unfold wake
  split_ifs <;> rfl

theorem wake_ready (x : Executor ν) (i : Nat) :
    (x.wake i).ready = x.ready ∧ (i ∈ x.ready ∨ x.result? i ≠ none) ∨
      (x.wake i).ready = x.ready ++ [i] ∧ i ∉ x.ready := by
  unfold wake
  split_ifs with h
  · refine .inl ⟨rfl, ?_⟩
    rw [isFinished_eq] at h
    rcases (Bool.or_eq_true _ _).mp h with h | h
    · exact .inl (by simpa using h)
    · exact .inr (Option.isSome_iff_ne_none.1 h)
  · exact .inr ⟨rfl, fun hi => h (by simp [hi])⟩

/-- What telling a task of an input does. -/
theorem tell_cases (x : Executor ν) (j i : Nat) :
    (∃ g, x.stage? j = some (.gathering g) ∧ g.awaits i = true ∧
      x.tell j i = (x.setStage j (.gathering (g.enqueue i))).wake j) ∨
    (∃ g, x.stage? j = some (.gathering g) ∧ g.awaits i = false ∧ x.tell j i = x) ∨
    ((∀ g, x.stage? j ≠ some (.gathering g)) ∧ x.tell j i = x.wake j) := by
  unfold tell stage?
  rcases ht : x.tasks[j]? with _ | ⟨m | g | r | ⟨o, t⟩, reader⟩
  case some.gathering =>
    rcases ha : g.awaits i with _ | _
    · exact .inr (.inl ⟨g, rfl, ha, by simp [ha]⟩)
    · exact .inl ⟨g, rfl, ha, by simp [ha]⟩
  all_goals exact .inr (.inr ⟨by simp, rfl⟩)

/-- What telling a task of an input changes. -/
structure Told (x y : Executor ν) (j i : Nat) : Prop where
  same : y = { x with tasks := y.tasks, ready := y.ready }
  length : y.tasks.length = x.tasks.length
  reader : ∀ k, y.reader? k = x.reader? k
  stage_self : y.stage? j = (x.stage? j).map (Stage.told i)
  stage_other : ∀ k, k ≠ j → y.stage? k = x.stage? k
  ready : y.ready = x.ready ∨ j ∉ x.ready ∧ y.ready = x.ready ++ [j]
  heeded : ∀ s, x.stage? j = some s → s.Heeds i → j ∈ y.ready

theorem told_tell (x : Executor ν) (j i : Nat) : Told x (x.tell j i) j i := by
  -- a task that is woken is ready afterwards, unless it is done
  have hwoken : ∀ (y : Executor ν) s, y.stage? j = some s → s.yield? = none → j ∈ (y.wake j).ready := by
    intro y s hs hy
    rcases wake_ready y j with ⟨hw, hready | hdone⟩ | ⟨hw, -⟩
    · rwa [hw]
    · exact absurd (result?_of_stage? hs ▸ hy) hdone
    · rw [hw]; simp
  have hready : ∀ y : Executor ν,
      (y.wake j).ready = y.ready ∨ j ∉ y.ready ∧ (y.wake j).ready = y.ready ++ [j] := by
    intro y
    rcases wake_ready y j with ⟨hw, -⟩ | ⟨hw, hnot⟩
    · exact .inl hw
    · exact .inr ⟨hnot, hw⟩
  rcases tell_cases x j i with ⟨g, hg, ha, hy⟩ | ⟨g, hg, ha, hy⟩ | ⟨hg, hy⟩
  · have htasks : (x.tell j i).tasks = (x.setStage j (.gathering (g.enqueue i))).tasks := by
      rw [hy, wake_eq]
    have hself := stage?_setStage_self (.gathering (g.enqueue i)) hg
    refine ⟨by rw [hy, wake_eq]; rfl, by rw [htasks]; exact length_setStage .., fun k => ?_, ?_,
      fun k hk => ?_, by rw [hy]; exact hready _, fun s _ _ => by rw [hy]; exact hwoken _ _ hself rfl⟩
    · rw [reader?, htasks]
      exact reader?_setStage ..
    · rw [stage?, htasks, ← stage?, hself, hg]
      simp [Stage.told, ha]
    · rw [stage?, htasks, ← stage?, stage?_setStage_of_ne _ hk]
  · refine ⟨by rw [hy], by rw [hy], fun k => by rw [hy], ?_, fun k _ => by rw [hy], .inl (by rw [hy]), ?_⟩
    · rw [hy, hg]
      simp [Stage.told, ha]
    · intro s hs hheeds
      rw [hg] at hs
      cases hs
      exact absurd hheeds (by simp [Stage.Heeds, ha])
  · have htasks : (x.tell j i).tasks = x.tasks := by rw [hy, wake_eq]
    refine ⟨by rw [hy, wake_eq], by rw [htasks], fun k => by rw [reader?, reader?, htasks], ?_,
      fun k _ => by rw [stage?, stage?, htasks], by rw [hy]; exact hready x, ?_⟩
    · rw [stage?, htasks, ← stage?]
      rcases hs : x.stage? j with _ | s
      · rfl
      · rcases s with m | g | r | ⟨o, t⟩
        case gathering => exact absurd hs (hg g)
        all_goals rfl
    · intro s hs hheeds
      rw [hy]
      rcases s with m | g | r | ⟨o, t⟩
      case pending => exact hwoken x _ hs rfl
      case gathering => exact absurd hs (hg g)
      all_goals exact hheeds.elim

theorem finish_cases (x : Executor ν) (i : Nat) (o : Outcome ν) :
    (x.reader? i = none ∧ x.finish i o = x.setStage i (.done o x.now)) ∨
    ∃ j, x.reader? i = some j ∧ x.finish i o = (x.setStage i (.done o x.now)).tell j i := by
  rw [← reader?_setStage x i i (.done o x.now)]
  rcases ht : (x.setStage i (.done o x.now)).tasks[i]? with _ | ⟨s, _ | j⟩
  · exact .inl ⟨by rw [reader?, ht]; rfl, by simp only [finish, ht]⟩
  · exact .inl ⟨by rw [reader?, ht]; rfl, by simp only [finish, ht]⟩
  · exact .inr ⟨j, by rw [reader?, ht]; rfl, by simp only [finish, ht]⟩

/-- **What the end of a task does**: its reader is told of it. -/
structure Finished (x y : Executor ν) (i : Nat) (o : Outcome ν) : Prop where
  same : y = { x with tasks := y.tasks, ready := y.ready }
  length : y.tasks.length = x.tasks.length
  reader : ∀ k, y.reader? k = x.reader? k
  stage_self : y.stage? i = some (.done o x.now)
  stage_reader : ∀ j, j ≠ i → x.reader? i = some j → y.stage? j = (x.stage? j).map (Stage.told i)
  stage_other : ∀ k, k ≠ i → x.reader? i ≠ some k → y.stage? k = x.stage? k
  ready : y.ready = x.ready ∨ ∃ j, x.reader? i = some j ∧ j ∉ x.ready ∧ y.ready = x.ready ++ [j]
  heeded : ∀ j s, j ≠ i → x.reader? i = some j → x.stage? j = some s → s.Heeds i → j ∈ y.ready

theorem finished_finish {x : Executor ν} {i : Nat} {s₀ : Stage ν} (o : Outcome ν)
    (h : x.stage? i = some s₀) : Finished x (x.finish i o) i o := by
  have hself := stage?_setStage_self (.done o x.now) h
  have hother : ∀ k, k ≠ i → (x.setStage i (.done o x.now)).stage? k = x.stage? k :=
    fun k hk => stage?_setStage_of_ne _ hk
  rcases finish_cases x i o with ⟨hr, hy⟩ | ⟨j, hr, hy⟩ <;> rw [hy]
  · exact ⟨rfl, length_setStage .., fun k => reader?_setStage .., hself,
      fun j _ hj => by simp [hr] at hj, fun k hk _ => hother k hk, .inl rfl,
      fun j s _ hj => by simp [hr] at hj⟩
  · have htold := told_tell (x.setStage i (.done o x.now)) j i
    have hj : ∀ k, x.reader? i = some k → j = k := fun k hk => by simpa [hr] using hk
    refine ⟨htold.same, htold.length.trans (length_setStage ..),
      fun k => (htold.reader k).trans (reader?_setStage ..), ?_, fun k hk hk' => ?_,
      fun k hk hk' => ?_, ?_, fun k s hk hk' hs hheeds => ?_⟩
    · rcases Decidable.em (i = j) with rfl | hij
      · rw [htold.stage_self, hself]
        rfl
      · exact (htold.stage_other i hij).trans hself
    · obtain rfl := hj k hk'
      rw [← hother j hk]
      exact htold.stage_self
    · exact (htold.stage_other k fun hkj => hk' (hkj ▸ hr)).trans (hother k hk)
    · rcases htold.ready with hready | ⟨hnot, hready⟩
      · exact .inl hready
      · exact .inr ⟨j, hr, hnot, hready⟩
    · obtain rfl := hj k hk'
      exact htold.heeded s ((hother j hk).trans hs) hheeds

theorem Finished.result? {x y : Executor ν} {i : Nat} {o : Outcome ν} (h : Finished x y i o) (k : Nat) :
    y.result? k = if k = i then some (o, x.now) else x.result? k := by
  unfold Executor.result?
  split_ifs with hk
  · rw [hk, h.stage_self]
    rfl
  · by_cases hr : x.reader? i = some k
    · rw [h.stage_reader k hk hr]
      rcases x.stage? k with _ | s
      · rfl
      · exact s.yield?_told i
    · rw [h.stage_other k hk hr]

/-! ### Sleeping and gathering -/

/-- What a look at a task that gathers changes, if it does not end it. -/
structure Gathered (x y : Executor ν) (i : Nat) (g : Gathering ν) : Prop where
  same : y = { x with tasks := y.tasks, ready := y.ready, postponed := y.postponed }
  tasks : y.tasks = (x.setStage i (.gathering (g.look x.isFinished))).tasks
  ready : y.ready = x.ready ∨ g.isVain x.isFinished = true ∧ i ∉ x.ready ∧ y.ready = x.ready ++ [i]
  postponed : y.postponed = x.postponed ∧ ((g.look x.isFinished).putOff = [] ∨ i ∈ x.postponed) ∨
    y.postponed = i :: x.postponed ∧ (g.look x.isFinished).putOff ≠ [] ∧ i ∉ x.postponed

/-- What is put off is noted, once. -/
theorem postpone_cases (x : Executor ν) (i : Nat) (l : List Nat) :
    let y := if l.isEmpty then x else x.postpone i
    y = { x with postponed := y.postponed } ∧
      (y.postponed = x.postponed ∧ (l = [] ∨ i ∈ x.postponed) ∨
        y.postponed = i :: x.postponed ∧ l ≠ [] ∧ i ∉ x.postponed) := by
  unfold postpone
  split_ifs with hl hi
  · exact ⟨rfl, .inl ⟨rfl, .inl (by simpa using hl)⟩⟩
  · exact ⟨rfl, .inl ⟨rfl, .inr (by simpa using hi)⟩⟩
  · exact ⟨rfl, .inr ⟨rfl, by simpa using hl, by simpa using hi⟩⟩

theorem gather_cases (x : Executor ν) (i : Nat) (g : Gathering ν) :
    (∃ o, (g.look x.isFinished).result? x.result?.outcome = some o ∧ x.gather i g = x.finish i o) ∨
    ((g.look x.isFinished).result? x.result?.outcome = none ∧ Gathered x (x.gather i g) i g) := by
  rw [← outcome?_eq]
  rcases hr : (g.look x.isFinished).result? x.outcome? with _ | o
  · refine .inr ⟨rfl, ?_⟩
    obtain ⟨hsame, hpost⟩ := postpone_cases (x.setStage i (.gathering (g.look x.isFinished))) i
      (g.look x.isFinished).putOff
    have hgather : x.gather i g =
        let y := x.setStage i (.gathering (g.look x.isFinished))
        let z := if (g.look x.isFinished).putOff.isEmpty then y else y.postpone i
        if g.isVain x.isFinished then z.wake i else z := by
      unfold gather
      simp only [hr]
    generalize hz : (if (g.look x.isFinished).putOff.isEmpty
      then x.setStage i (.gathering (g.look x.isFinished))
      else (x.setStage i (.gathering (g.look x.isFinished))).postpone i) = z at hsame hpost
    simp only [hz] at hgather
    have hready : z.ready = x.ready := by rw [hsame]; rfl
    rw [hgather]
    split_ifs with hvain
    · refine ⟨by rw [wake_eq, hsame]; rfl, by rw [wake_eq, hsame], ?_, by rw [wake_eq]; exact hpost⟩
      rcases wake_ready z i with ⟨hw, -⟩ | ⟨hw, hnot⟩
      · exact .inl (hw.trans hready)
      · exact .inr ⟨hvain, hready ▸ hnot, hready ▸ hw⟩
    · exact ⟨by rw [hsame]; rfl, by rw [hsame], .inl hready, hpost⟩
  · exact .inl ⟨o, rfl, by simp only [gather, hr]⟩

theorem resume_cases (x : Executor ν) (i : Nat) :
    (∃ g, x.stage? i = some (.gathering g) ∧
      x.resume i = (x.setStage i (.gathering g.resume)).wake i) ∨
    ((∀ g, x.stage? i ≠ some (.gathering g)) ∧ x.resume i = x) := by
  unfold resume stage?
  rcases ht : x.tasks[i]? with _ | ⟨m | g | r | ⟨o, t⟩, reader⟩
  case some.gathering => exact .inl ⟨g, rfl, rfl⟩
  all_goals exact .inr ⟨by simp, rfl⟩

/-! ### Moves -/

/-- **A move**: a look at the first ready task, the return of what was put off, or a jump of the clock
when nothing else can be done. How many results may still be read can change at any time. -/
inductive Move : Executor ν → Executor ν → Prop where
  | look {x : Executor ν} {i : Nat} {r : List Nat} (h : x.ready = i :: r) :
      Move x ({ x with ready := r }.look i)
  | resume {x : Executor ν} : Move x x.resumeAll
  | jump {x : Executor ν} {t : Nat} (hidle : x.isIdle = true) (hnow : x.now ≤ t)
      (hdue : ∀ tm ∈ x.timers, t ≤ tm.due) : Move x (x.jump t)
  | credit {x : Executor ν} (n : Nat) : Move x { x with credit := n }

/-- **Results stay**, and those to come are not dated back. -/
structure Grows (x y : Executor ν) : Prop where
  length : x.tasks.length ≤ y.tasks.length
  now : x.now ≤ y.now
  keeps : ∀ i r, x.result? i = some r → y.result? i = some r
  later : ∀ i o t, x.result? i = none → y.result? i = some (o, t) → x.now ≤ t

theorem Grows.of_result {x y : Executor ν} (hl : x.tasks.length ≤ y.tasks.length) (hn : x.now ≤ y.now)
    (hr : y.result? = x.result?) : Grows x y :=
  ⟨hl, hn, fun i r h => by rw [hr, h], fun i o t h h' => by rw [hr, h] at h'; cases h'⟩

theorem Grows.refl (x : Executor ν) : Grows x x := .of_result (Nat.le_refl _) (Nat.le_refl _) rfl

theorem Grows.trans {x y z : Executor ν} (h : Grows x y) (h' : Grows y z) : Grows x z := by
  refine ⟨Nat.le_trans h.length h'.length, Nat.le_trans h.now h'.now,
    fun i r hi => h'.keeps i r (h.keeps i r hi), ?_⟩
  intro i o t hx hz
  rcases hy : y.result? i with _ | ⟨o', t'⟩
  · exact Nat.le_trans h.now (h'.later i o t hy hz)
  · rw [h'.keeps i _ hy] at hz
    cases hz
    exact h.later i o t hx hy

theorem Finished.grows {x y : Executor ν} {i : Nat} {o : Outcome ν} (h : Finished x y i o)
    (hi : x.result? i = none) : Grows x y := by
  have hnow : y.now = x.now := by rw [h.same]
  refine ⟨Nat.le_of_eq h.length.symm, Nat.le_of_eq hnow.symm, fun k r hk => ?_, fun k o' t hk hk' => ?_⟩
  · have hne : k ≠ i := by rintro rfl; rw [hi] at hk; cases hk
    rw [h.result?, if_neg hne, hk]
  · rw [h.result?] at hk'
    split_ifs at hk'
    · cases hk'; exact Nat.le_refl _
    · rw [hk] at hk'; cases hk'

theorem result?_of_tasks {x y : Executor ν} (h : y.tasks = x.tasks) : y.result? = x.result? := by
  funext i
  rw [result?, result?, stage?, stage?, h]

theorem result?_setStage {x : Executor ν} {i : Nat} {s₀ s : Stage ν} (h : x.stage? i = some s₀)
    (hy : s.yield? = s₀.yield?) : (x.setStage i s).result? = x.result? := by
  funext k
  rw [result?, result?, stage?_setStage]
  split_ifs with hk
  · rw [hk, h]; exact hy
  · rfl

theorem grows_setStage {x y : Executor ν} {i : Nat} {s₀ s : Stage ν} (h : x.stage? i = some s₀)
    (hy : s.yield? = s₀.yield?) (hnow : y.now = x.now) (htasks : y.tasks = (x.setStage i s).tasks) :
    Grows x y := by
  have hlength : y.tasks.length = x.tasks.length := by rw [htasks, length_setStage]
  exact .of_result (Nat.le_of_eq hlength.symm) (Nat.le_of_eq hnow.symm)
    ((result?_of_tasks htasks).trans (result?_setStage h hy))

theorem grows_gather {x : Executor ν} {i : Nat} {g : Gathering ν} {s₀ : Stage ν}
    (h : x.stage? i = some s₀) (hy : s₀.yield? = none) : Grows x (x.gather i g) := by
  rcases gather_cases x i g with ⟨o, -, hgather⟩ | ⟨-, hgather⟩
  · rw [hgather]
    exact (finished_finish o h).grows ((result?_of_stage? h).trans hy)
  · exact grows_setStage h (s := .gathering _) hy.symm (by rw [hgather.same]) hgather.tasks

theorem grows_look (x : Executor ν) (i : Nat) : Grows x (x.look i) := by
  rcases hs : x.stage? i with _ | (m | g | r | ⟨o, t⟩)
  · rw [look_none hs]; exact .refl x
  · have hnone : x.result? i = none := result?_of_stage? hs
    rw [look_pending hs]
    rcases m.poll x.result?.outcome with _ | ⟨delay, r⟩ | ⟨is, pack⟩ | o
    · exact .refl x
    · exact grows_setStage hs (s := .sleeping r) rfl rfl rfl
    · exact grows_gather hs rfl
    · exact (finished_finish o hs).grows hnone
  · rw [look_gathering hs]; exact grows_gather hs rfl
  · rw [look_sleeping hs]; exact (finished_finish _ hs).grows (result?_of_stage? hs)
  · rw [look_done hs]; exact .refl x

theorem grows_resume (x : Executor ν) (i : Nat) : Grows x (x.resume i) := by
  rcases resume_cases x i with ⟨g, hg, hy⟩ | ⟨-, hy⟩
  · exact grows_setStage hg (s := .gathering g.resume) rfl (by rw [hy, wake_eq]; rfl) (by rw [hy, wake_eq])
  · rw [hy]; exact .refl x

theorem Move.grows {x y : Executor ν} (h : Move x y) : Grows x y := by
  cases h with
  | @look i r _ =>
    have hpop : Grows x { x with ready := r } := .of_result (Nat.le_refl _) (Nat.le_refl _) rfl
    exact hpop.trans (grows_look _ i)
  | resume =>
    have hfold : ∀ (l : List Nat) (y : Executor ν), Grows x y → Grows x (l.foldl Executor.resume y) := by
      intro l
      induction l with
      | nil => exact fun y hy => hy
      | cons i l ih => exact fun y hy => ih _ (hy.trans (grows_resume y i))
    exact hfold _ _ (.of_result (Nat.le_refl _) (Nat.le_refl _) rfl)
  | jump _ hnow _ => exact .of_result (Nat.le_refl _) hnow rfl
  | credit n => exact .of_result (Nat.le_refl _) (Nat.le_refl _) rfl

end Executor

end Handoff.Deferred
