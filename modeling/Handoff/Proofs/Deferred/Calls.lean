import Handoff.Proofs.Deferred.Program

/-! # How often a task's own function runs

A look at a task runs the task's own function at the moment at which all its inputs are seen to have
succeeded. The task does not wait any longer then, so this happens once, and it never happens when an input
has failed.

* `Maker.args?`: the values on which a look runs the function of a task; `Maker.poll_congr` says that a look
  depends on the function only through them.
* `Executor.Journal`: a run of a program, with the calls of functions that were made in it, in their order.
* `Executor.exists_journal`: each program has one.
* `Executor.Served`: how often the function of a task has run, by the stage of the task.
* `Executor.Journal.served`: this holds for all tasks in all runs.
-/

namespace Handoff.Deferred

variable {ν : Type}

/-- **A run of a task's own function**, with the values that it is given. -/
structure Call (ν : Type) where
  task : Nat
  args : List ν

/-- **The values on which a look runs the task's own function**, if it does. A task that packs a list has no
function of its own. -/
def Maker.args? (view : Nat → Option (Outcome ν)) : Maker ν → Option (List ν)
  | .source _ _ => some []
  | .map i _ =>
    match view i with
    | some (.ok v) => some [v]
    | _ => none
  | .andThen i _ =>
    match view i with
    | some (.ok v) => some [v]
    | _ => none
  | .combine l r _ =>
    match joinPair (view l) (view r) with
    | some (.ok (a, b)) => some [a, b]
    | _ => none
  | .all _ _ => none

/-- The makers differ at most in the task's own function. -/
def Maker.Alike : Maker ν → Maker ν → Prop
  | .source _ apart, .source _ apart' => apart = apart'
  | .map i _, .map i' _ => i = i'
  | .andThen i _, .andThen i' _ => i = i'
  | .combine l r _, .combine l' r' _ => l = l' ∧ r = r'
  | .all is pack, .all is' pack' => is = is' ∧ pack = pack'
  | _, _ => False

/-- **A look depends on the task's own function only through the values it is run on.** Where it is not run,
any other function could stand in its place. -/
theorem Maker.poll_congr {m m' : Maker ν} {view : Nat → Option (Outcome ν)} (halike : m.Alike m')
    (hact : ∀ vs, m.args? view = some vs → m'.act vs = m.act vs) : m'.poll view = m.poll view := by
  cases m with
  | source l apart =>
    cases m' with
    | source l' apart' =>
      obtain rfl : apart = apart' := halike
      have hl : some l' = some l := hact [] rfl
      rw [Option.some_inj.1 hl]
    | _ => exact halike.elim
  | map i f =>
    cases m' with
    | map i' f' =>
      obtain rfl : i = i' := halike
      rcases hv : view i with _ | (e | v)
      · simp only [Maker.poll, hv]
      · simp only [Maker.poll, hv]
      · have hf : some (Later.mk 0 (f' v)) = some ⟨0, f v⟩ := hact [v] (by simp only [Maker.args?, hv])
        simp only [Option.some_inj, Later.mk.injEq, true_and] at hf
        simp only [Maker.poll, hv, hf]
    | _ => exact halike.elim
  | andThen i f =>
    cases m' with
    | andThen i' f' =>
      obtain rfl : i = i' := halike
      rcases hv : view i with _ | (e | v)
      · simp only [Maker.poll, hv]
      · simp only [Maker.poll, hv]
      · have hf : some (f' v) = some (f v) := hact [v] (by simp only [Maker.args?, hv])
        simp only [Maker.poll, hv, Option.some_inj.1 hf]
    | _ => exact halike.elim
  | combine l r f =>
    cases m' with
    | combine l' r' f' =>
      obtain ⟨rfl, rfl⟩ : l = l' ∧ r = r' := halike
      rcases hv : joinPair (view l) (view r) with _ | (e | ⟨a, b⟩)
      · simp only [Maker.poll, hv]
      · simp only [Maker.poll, hv]
      · have hf : some (Later.mk 0 (f' a b)) = some ⟨0, f a b⟩ :=
          hact [a, b] (by simp only [Maker.args?, hv])
        simp only [Option.some_inj, Later.mk.injEq, true_and] at hf
        simp only [Maker.poll, hv, hf]
    | _ => exact halike.elim
  | all is pack =>
    cases m' with
    | all is' pack' =>
      obtain ⟨rfl, rfl⟩ : is = is' ∧ pack = pack' := halike
      rfl
    | _ => exact halike.elim

/-- Whether a task has a function of its own. -/
def Maker.HasFunction : Maker ν → Prop
  | .all _ _ => False
  | _ => True

/-- The inputs have all succeeded with these values. -/
def Yields.Values (res : Yields ν) (is : List Nat) (vs : List ν) : Prop :=
  List.Forall₂ (fun j v => res.outcome j = some (.ok v)) is vs

theorem Yields.Values.unique {res : Yields ν} {is : List Nat} {vs vs' : List ν} (h : res.Values is vs)
    (h' : res.Values is vs') : vs = vs' := by
  induction h generalizing vs' with
  | nil => cases h'; rfl
  | cons hv _ ih =>
    rcases h' with _ | ⟨hv', hrest⟩
    rw [hv] at hv'
    cases hv'
    rw [ih hrest]

theorem Yields.Values.mem {res : Yields ν} {is : List Nat} {vs : List ν} (h : res.Values is vs) :
    ∀ j ∈ is, ∃ v, res.outcome j = some (.ok v) := by
  induction h with
  | nil => simp
  | cons hv _ ih => exact List.forall_mem_cons.2 ⟨⟨_, hv⟩, ih⟩

theorem Maker.HasFunction.isMany {m : Maker ν} (h : m.HasFunction) : m.isMany = false := by
  cases m with
  | all is pack => exact h.elim
  | _ => rfl

section Seen

variable {m : Maker ν} {view : Nat → Option (Outcome ν)}

theorem allValues_eq_some {is : List Nat} {vs : List ν} (h : allValues (is.map view) = some vs) :
    List.Forall₂ (fun j v => view j = some (.ok v)) is vs := by
  induction is generalizing vs with
  | nil => cases h; exact .nil
  | cons i is ih =>
    rw [List.map_cons] at h
    rcases hi : view i with _ | (e | v) <;> rw [hi] at h
    · cases h
    · cases h
    · obtain ⟨vs, hrest, rfl⟩ := Option.map_eq_some_iff.1 h
      exact .cons hi (ih hrest)

/-- The function is run on the values of the inputs, once all are seen to have succeeded. -/
theorem Maker.HasFunction.args?_eq_some_iff (h : m.HasFunction) {vs : List ν} :
    m.args? view = some vs ↔ m.seen view = some (.ok vs) := by
  cases m with
  | source l apart => simp [Maker.args?, Maker.seen, Maker.join, Maker.isMany, Maker.inputs, joinEarly,
      firstFailure, allValues]
  | map i f =>
    rcases hv : view i with _ | (e | v) <;>
      simp [Maker.args?, Maker.seen, Maker.join, Maker.isMany, Maker.inputs, joinEarly_singleton, hv,
        Except.map]
  | andThen i f =>
    rcases hv : view i with _ | (e | v) <;>
      simp [Maker.args?, Maker.seen, Maker.join, Maker.isMany, Maker.inputs, joinEarly_singleton, hv,
        Except.map]
  | combine l r f =>
    rcases hl : view l with _ | (e | a) <;> rcases hr : view r with _ | (e' | b) <;>
      simp [Maker.args?, Maker.seen, Maker.join, Maker.isMany, Maker.inputs, joinPair, joinEarly,
        firstFailure, allValues, hl, hr]
  | all is pack => exact h.elim

theorem Maker.HasFunction.values (h : m.HasFunction) {vs : List ν} (hseen : m.seen view = some (.ok vs)) :
    List.Forall₂ (fun j v => view j = some (.ok v)) m.inputs vs := by
  rw [Maker.seen, Maker.join, h.isMany, if_neg Bool.false_ne_true, joinEarly] at hseen
  rcases hf : firstFailure (m.inputs.map view) with _ | e <;> simp only [hf] at hseen
  · obtain ⟨vs', hvs, hok⟩ := Option.map_eq_some_iff.1 hseen
    cases hok
    exact allValues_eq_some hvs
  · cases hseen

theorem Maker.HasFunction.failing (h : m.HasFunction) {e : Failure} (hseen : m.seen view = some (.error e)) :
    ∃ j ∈ m.inputs, view j = some (.error e) := by
  rw [Maker.seen, Maker.join, h.isMany, if_neg Bool.false_ne_true, joinEarly] at hseen
  rcases hf : firstFailure (m.inputs.map view) with _ | e' <;> simp only [hf] at hseen
  · obtain ⟨vs, -, hok⟩ := Option.map_eq_some_iff.1 hseen
    cases hok
  · cases hseen
    obtain ⟨front, k, rest, his, hk, -⟩ := firstFailure_eq_some hf
    exact ⟨k, by simp [his], hk⟩

end Seen

/-! ### Stages and calls -/

/-- Whether a task has not yet got what it is made of. -/
def Stage.IsPending : Stage ν → Prop
  | .pending _ => True
  | _ => False

/-- **How often the function of a task has run**, by its stage: not at all as long as the task waits, and once
it waits no longer exactly once if its inputs have succeeded, and not at all if one has failed. -/
inductive Served (res : Yields ν) (m : Maker ν) (s : Stage ν) : List (List ν) → Prop where
  | pending (hs : s.IsPending) : Served res m s []
  | succeeded {vs : List ν} (hs : ¬ s.IsPending) (h : res.Values m.inputs vs) : Served res m s [vs]
  | failed {j : Nat} {e : Failure} (hs : ¬ s.IsPending) (hj : j ∈ m.inputs)
      (h : res.outcome j = some (.error e)) : Served res m s []

theorem Served.mono {res res' : Yields ν} {m : Maker ν} {s s' : Stage ν} {vss : List (List ν)}
    (h : Served res m s vss) (hs : s'.IsPending ↔ s.IsPending)
    (hkeep : ∀ j y, res j = some y → res' j = some y) : Served res' m s' vss := by
  have houtcome : ∀ j o, res.outcome j = some o → res'.outcome j = some o := by
    intro j o hj
    obtain ⟨y, hy, rfl⟩ := Option.map_eq_some_iff.1 hj
    rw [Yields.outcome, hkeep j y hy]
    rfl
  cases h with
  | pending hp => exact .pending (hs.2 hp)
  | succeeded hp hvs => exact .succeeded (fun h => hp (hs.1 h)) (hvs.imp fun j v hj => houtcome j _ hj)
  | failed hp hj he => exact .failed (fun h => hp (hs.1 h)) hj (houtcome _ _ he)

namespace Executor

open Relation (ReflTransGen)

/-! ### Runs with their calls -/

/-- The call that a look at a task makes, if it makes one. -/
def called (x : Executor ν) (i : Nat) : List (Call ν) :=
  match x.tasks[i]? with
  | some ⟨.pending m, _⟩ => ((m.args? x.outcome?).map (Call.mk i)).toList
  | _ => []

/-- **A move with the calls that are made in it.** Only looks make calls. -/
inductive Act : Executor ν → List (Call ν) → Executor ν → Prop where
  | look {x : Executor ν} {i : Nat} {r : List Nat} (h : x.ready = i :: r) :
      Act x (x.called i) ({ x with ready := r }.look i)
  | resume {x : Executor ν} : Act x [] x.resumeAll
  | jump {x : Executor ν} {t : Nat} (hidle : x.isIdle = true) (hnow : x.now ≤ t)
      (hdue : ∀ tm ∈ x.timers, t ≤ tm.due) : Act x [] (x.jump t)
  | credit {x : Executor ν} (n : Nat) : Act x [] { x with credit := n }

/-- Moves, with the calls that are made in them. -/
inductive Acts (x : Executor ν) : List (Call ν) → Executor ν → Prop where
  | refl : Acts x [] x
  | tail {cs cs' : List (Call ν)} {y z : Executor ν} (hxy : Acts x cs y) (hyz : Act y cs' z) :
      Acts x (cs ++ cs') z

/-- **A run of a program, with the calls that are made in it.** -/
inductive Journal : Executor ν → List (Step ν) → List (Call ν) → Prop where
  | nil (x : Executor ν) : Journal x [] []
  | make {x : Executor ν} {m : Maker ν} {p : List (Step ν)} {cs : List (Call ν)}
      (rest : Journal (x.make m).2 p cs) : Journal x (.make m :: p) cs
  | wait {x : Executor ν} {span : Nat} {p : List (Step ν)} {cs cs' : List (Call ν)}
      (h : Acts x cs (x.wait span)) (rest : Journal (x.wait span) p cs') :
      Journal x (.wait span :: p) (cs ++ cs')
  | get {x : Executor ν} {i : Nat} {p : List (Step ν)} {cs cs' : List (Call ν)}
      (h : Acts x cs (x.get i).2) (rest : Journal (x.get i).2 p cs') : Journal x (.get i :: p) (cs ++ cs')

theorem Act.move {x y : Executor ν} {cs : List (Call ν)} (h : Act x cs y) : Move x y := by
  cases h with
  | look hr => exact .look hr
  | resume => exact .resume
  | jump hidle hnow hdue => exact .jump hidle hnow hdue
  | credit n => exact .credit n

theorem Acts.moves {x y : Executor ν} {cs : List (Call ν)} (h : Acts x cs y) : ReflTransGen Move x y := by
  induction h with
  | refl => exact .refl
  | tail _ hact ih => exact ih.tail hact.move

theorem exists_acts {x y : Executor ν} (h : ReflTransGen Move x y) : ∃ cs, Acts x cs y := by
  induction h with
  | refl => exact ⟨[], .refl⟩
  | tail _ hmove ih =>
    obtain ⟨cs, hcs⟩ := ih
    cases hmove with
    | look hr => exact ⟨_, hcs.tail (.look hr)⟩
    | resume => exact ⟨_, hcs.tail .resume⟩
    | jump hidle hnow hdue => exact ⟨_, hcs.tail (.jump hidle hnow hdue)⟩
    | credit n => exact ⟨_, hcs.tail (.credit n)⟩

/-- What stands after a part of a program is a program as well. -/
theorem exists_journal_after {before after : List (Step ν)} (hp : IsLinear 0 [] (before ++ after)) :
    ∃ cs, Journal (({} : Executor ν).run before) after cs := by
  induction after generalizing before with
  | nil => exact ⟨[], .nil _⟩
  | cons s after ih =>
    obtain ⟨hx, -, -, used, hused⟩ := run_split hp
    have hsplit : before ++ s :: after = before ++ [s] ++ after := by simp
    obtain ⟨cs', hrest⟩ := ih (hsplit ▸ hp)
    rw [run_append] at hrest
    cases s with
    | make m => exact ⟨cs', .make hrest⟩
    | wait span =>
      obtain ⟨cs, hcs⟩ := exists_acts (wait_spec span hx).1
      exact ⟨cs ++ cs', .wait hcs hrest⟩
    | get i =>
      obtain ⟨cs, hcs⟩ := exists_acts (get_spec hx hused.1.1).1
      exact ⟨cs ++ cs', .get hcs hrest⟩

/-- **Every program has a journal.** -/
theorem exists_journal {p : List (Step ν)} (hp : IsLinear 0 [] p) :
    ∃ cs, Journal ({} : Executor ν) p cs := by
  have hp' : IsLinear 0 [] ([] ++ p) := hp
  exact exists_journal_after hp'

/-! ### Calls and stages -/

/-- The values that the function of a task was run on, in the order of its runs. -/
def callsOf (cs : List (Call ν)) (i : Nat) : List (List ν) := (cs.filter (·.task = i)).map Call.args

theorem callsOf_append (cs cs' : List (Call ν)) (i : Nat) :
    callsOf (cs ++ cs') i = callsOf cs i ++ callsOf cs' i := by
  rw [callsOf, List.filter_append, List.map_append]
  rfl

theorem callsOf_eq_nil {cs : List (Call ν)} {i : Nat} (h : ∀ c ∈ cs, c.task ≠ i) : callsOf cs i = [] := by
  rw [callsOf, List.map_eq_nil_iff, List.filter_eq_nil_iff]
  intro c hc
  simpa using h c hc

theorem called_of_stage {x : Executor ν} {i : Nat} {s : Stage ν} (hs : x.stage? i = some s)
    (hnot : ∀ m, s ≠ .pending m) : x.called i = [] := by
  obtain ⟨reader, ht⟩ := exists_task hs
  rw [called, ht]
  rcases s with m | g | r | ⟨o, t⟩
  case pending => exact absurd rfl (hnot m)
  all_goals rfl

theorem called_of_pending {x : Executor ν} {i : Nat} {m : Maker ν} (hs : x.stage? i = some (.pending m)) :
    x.called i = ((m.args? x.result?.outcome).map (Call.mk i)).toList := by
  obtain ⟨reader, ht⟩ := exists_task hs
  rw [called, ht, outcome?_eq]

theorem task_of_called {x : Executor ν} {i : Nat} {c : Call ν} (hc : c ∈ x.called i) : c.task = i := by
  unfold called at hc
  split at hc
  · simp only [Option.mem_toList, Option.map_eq_some_iff] at hc
    obtain ⟨vs, -, rfl⟩ := hc
    rfl
  · cases hc

/-- **All calls are accounted for.** -/
structure Journaled (book : List (Entry ν)) (x : Executor ν) (cs : List (Call ν)) : Prop where
  made : ∀ c ∈ cs, c.task < x.tasks.length
  served : ∀ (i : Nat) (b : Entry ν) (s : Stage ν), book[i]? = some b → b.maker.HasFunction →
    x.stage? i = some s → Served x.result? b.maker s (callsOf cs i)

/-! ### Moves keep the account of calls -/

section Moves

variable {book : List (Entry ν)} {x y : Executor ν} {cs cs' : List (Call ν)} {i k : Nat}

theorem isPending_told (s : Stage ν) (j : Nat) : (s.told j).IsPending ↔ s.IsPending := by
  rcases s with m | g | r | ⟨o, t⟩
  case gathering =>
    simp only [Stage.told]
    split_ifs <;> rfl
  all_goals rfl

/-- The stages of two executors at a task agree in whether the task waits. -/
def SameWait (x y : Executor ν) (k : Nat) : Prop :=
  ∀ s', y.stage? k = some s' → ∃ s, x.stage? k = some s ∧ (s'.IsPending ↔ s.IsPending)

theorem sameWait_of_eq (h : y.stage? k = x.stage? k) : SameWait x y k :=
  fun s' hs' => ⟨s', h ▸ hs', Iff.rfl⟩

theorem SameWait.trans {z : Executor ν} (h : SameWait x y k) (h' : SameWait y z k) : SameWait x z k := by
  intro s'' hs''
  obtain ⟨s', hs', hiff'⟩ := h' s'' hs''
  obtain ⟨s, hs, hiff⟩ := h s' hs'
  exact ⟨s, hs, hiff'.trans hiff⟩

theorem Finished.sameWait {o : Outcome ν} (h : Finished x y i o) (hk : k ≠ i) : SameWait x y k := by
  by_cases hr : x.reader? i = some k
  · intro s' hs'
    rw [h.stage_reader k hk hr] at hs'
    obtain ⟨s, hs, rfl⟩ := Option.map_eq_some_iff.1 hs'
    exact ⟨s, hs, isPending_told s i⟩
  · exact sameWait_of_eq (h.stage_other k hk hr)

/-- A look at a task does not end the waiting of another. -/
theorem sameWait_look (hk : k ≠ i) : SameWait x (x.look i) k := by
  have hgather : ∀ g s, x.stage? i = some s → SameWait x (x.gather i g) k := by
    intro g s hs
    rcases gather_cases x i g with ⟨o, -, hy⟩ | ⟨-, hy⟩
    · rw [hy]
      exact (finished_finish o hs).sameWait hk
    · refine sameWait_of_eq ?_
      rw [stage?, hy.tasks]
      exact stage?_setStage_of_ne _ hk
  rcases hs : x.stage? i with _ | (m | g | r | ⟨o, t⟩)
  · rw [look_none hs]
    exact sameWait_of_eq rfl
  · rw [look_pending hs]
    rcases m.poll x.result?.outcome with _ | ⟨delay, r⟩ | ⟨is, pack⟩ | o
    · exact sameWait_of_eq rfl
    · exact sameWait_of_eq (stage?_setStage_of_ne _ hk)
    · exact hgather _ _ hs
    · exact (finished_finish o hs).sameWait hk
  · rw [look_gathering hs]
    exact hgather g _ hs
  · rw [look_sleeping hs]
    exact (finished_finish _ hs).sameWait hk
  · rw [look_done hs]
    exact sameWait_of_eq rfl

theorem sameWait_resumeAll (x : Executor ν) (k : Nat) : SameWait x x.resumeAll k := by
  have hresume : ∀ (y : Executor ν) i, SameWait y (y.resume i) k := by
    intro y i
    rcases resume_cases y i with ⟨g, hg, hy⟩ | ⟨-, hy⟩
    · have htasks : (y.resume i).tasks = (y.setStage i (.gathering g.resume)).tasks := by rw [hy, wake_eq]
      intro s' hs'
      rw [stage?, htasks, ← stage?, stage?_setStage] at hs'
      split_ifs at hs' with hki
      · subst hki
        rw [hg] at hs'
        cases hs'
        exact ⟨_, hg, Iff.rfl⟩
      · exact ⟨s', hs', Iff.rfl⟩
    · rw [hy]
      exact sameWait_of_eq rfl
  have hfold : ∀ (l : List Nat) (y : Executor ν), SameWait y (l.foldl resume y) k := by
    intro l
    induction l with
    | nil => exact fun y => sameWait_of_eq rfl
    | cons i l ih => exact fun y => (hresume y i).trans (ih _)
  exact hfold x.postponed { x with postponed := [] }

/-- Moves in which nothing is called and no task ends its waiting keep the account of calls. -/
theorem Journaled.quiet (h : Journaled book x cs) (hgrows : Grows x y) (hwait : ∀ k, SameWait x y k) :
    Journaled book y cs := by
  refine ⟨fun c hc => Nat.lt_of_lt_of_le (h.made c hc) hgrows.length, fun k b s' hb hown hs' => ?_⟩
  obtain ⟨s, hs, hiff⟩ := hwait k s' hs'
  exact (h.served k b s hb hown hs).mono hiff hgrows.keeps

/-- The calls of a look at a task that waits. -/
theorem callsOf_called {m : Maker ν} (hown : m.HasFunction) (hs : x.stage? i = some (.pending m)) :
    (∀ vs, m.seen x.result?.outcome = some (.ok vs) → callsOf (x.called i) i = [vs]) ∧
      ((∀ vs, m.seen x.result?.outcome ≠ some (.ok vs)) → callsOf (x.called i) i = []) := by
  rw [called_of_pending hs]
  constructor
  · intro vs hseen
    rw [hown.args?_eq_some_iff.2 hseen]
    simp [callsOf]
  · intro hseen
    have hargs : m.args? x.result?.outcome = none := by
      rw [Option.eq_none_iff_forall_ne_some]
      intro vs hvs
      exact hseen vs (hown.args?_eq_some_iff.1 hvs)
    rw [hargs]
    rfl

/-- **A look serves the task that is looked at**: its function is run if and only if its waiting ends with the
success of all inputs. -/
theorem served_look {b : Entry ν} {s s' : Stage ν} {vss : List (List ν)}
    (h : Account book (i :: x.ready) x.postponed x) (hb : book[i]? = some b) (hown : b.maker.HasFunction)
    (hs : x.stage? i = some s) (hs' : (x.look i).stage? i = some s')
    (hserved : Served x.result? b.maker s vss) :
    Served (x.look i).result? b.maker s' (vss ++ callsOf (x.called i) i) := by
  have hkeeps := (grows_look x i).keeps
  -- a task that waits no longer is not called again
  have hlater : ¬ s.IsPending → ¬ s'.IsPending →
      Served (x.look i).result? b.maker s' (vss ++ callsOf (x.called i) i) := by
    intro hnot hnot'
    have hcalled : x.called i = [] := called_of_stage hs (by rintro m rfl; exact hnot trivial)
    rw [hcalled, callsOf, List.filter_nil, List.map_nil, List.append_nil]
    exact hserved.mono (by simp [hnot, hnot']) hkeeps
  cases h.fits i b s hb hs with
  | @pending m hmaker hready htime =>
    subst hmaker
    obtain rfl : vss = [] := by
      cases hserved with
      | pending => rfl
      | succeeded hp => exact absurd trivial hp
      | failed hp => exact absurd trivial hp
    obtain ⟨hone, hnone⟩ := callsOf_called hown hs
    -- the inputs have succeeded, and the waiting has ended
    have hsucceeded : ∀ vs, b.maker.seen x.result?.outcome = some (.ok vs) → ¬ s'.IsPending →
        Served (x.look i).result? b.maker s' (callsOf (x.called i) i) := by
      intro vs hseen hnot
      rw [hone vs hseen]
      exact (Served.succeeded hnot (hown.values hseen)).mono Iff.rfl hkeeps
    have hpoll := b.maker.polled x.result?.outcome
    have hlook := look_pending hs
    rw [List.nil_append]
    generalize b.maker.poll x.result?.outcome = progress at hpoll hlook
    cases hpoll with
    | waits hseen =>
      simp only at hlook
      rw [hlook, hs] at hs'
      cases hs'
      rw [hnone (by simp [hseen])]
      exact .pending trivial
    | @fails e hseen =>
      simp only at hlook
      have hself := (finished_finish (.error e) hs).stage_self
      rw [← hlook, hs'] at hself
      cases hself
      obtain ⟨j, hj, he⟩ := hown.failing hseen
      rw [hnone (by simp [hseen])]
      exact (Served.failed (s := .done (.error e) x.now) (fun hp => hp.elim) hj he).mono Iff.rfl hkeeps
    | @sleeps vs l hseen hact =>
      simp only at hlook
      have hself : (x.look i).stage? i = some (.sleeping l.result) := by
        rw [hlook]
        exact stage?_setStage_self _ hs
      rw [hs'] at hself
      cases hself
      exact hsucceeded vs hseen fun hp => hp.elim
    | @ends vs l hseen hact hdelay =>
      simp only at hlook
      have hself := (finished_finish (outcomeOf l.result) hs).stage_self
      rw [← hlook, hs'] at hself
      cases hself
      exact hsucceeded vs hseen fun hp => hp.elim
    | gathers hgathers =>
      rw [hgathers] at hown
      exact hown.elim
  | gathering hmaker =>
    rw [hmaker] at hown
    exact hown.elim
  | @sleeping r =>
    have hself := (finished_finish (outcomeOf r) hs).stage_self
    rw [← look_sleeping hs, hs'] at hself
    cases hself
    exact hlater (fun hp => hp.elim) (fun hp => hp.elim)
  | done =>
    rw [look_done hs, hs] at hs'
    cases hs'
    exact hlater (fun hp => hp.elim) (fun hp => hp.elim)

/-- **A look keeps the account of calls**, with the one that it makes. -/
theorem Journaled.look (h : Journaled book x cs) (horder : Account book (i :: x.ready) x.postponed x) :
    Journaled book (x.look i) (cs ++ x.called i) := by
  have hlength := (grows_look x i).length
  refine ⟨fun c hc => ?_, fun k b s' hb hown hs' => ?_⟩
  · rcases List.mem_append.1 hc with hc | hc
    · exact Nat.lt_of_lt_of_le (h.made c hc) hlength
    · rw [task_of_called hc]
      exact Nat.lt_of_lt_of_le (horder.awake_lt i (by simp)) hlength
  · rw [callsOf_append]
    by_cases hk : k = i
    · subst hk
      obtain ⟨s, hs⟩ := exists_stage? (horder.awake_lt k (by simp))
      exact served_look horder hb hown hs hs' (h.served k b s hb hown hs)
    · have hnone : callsOf (x.called i) k = [] :=
        callsOf_eq_nil fun c hc hck => hk (hck ▸ task_of_called hc)
      obtain ⟨s, hs, hiff⟩ := sameWait_look hk s' hs'
      rw [hnone, List.append_nil]
      exact (h.served k b s hb hown hs).mono hiff (grows_look x i).keeps

/-- **A move keeps the account of calls**, with those that are made in it. -/
theorem Journaled.act (h : Journaled book x cs) (horder : InOrder book x) (hxy : Act x cs' y) :
    Journaled book y (cs ++ cs') := by
  cases hxy with
  | @look i r hr =>
    have hpop : Account book (i :: r) x.postponed { x with ready := r } := by
      have := horder.of_same (y := { x with ready := r }) rfl rfl rfl
      rwa [hr] at this
    have hsame : Journaled book { x with ready := r } cs := ⟨h.made, h.served⟩
    exact hsame.look hpop
  | resume =>
    rw [List.append_nil]
    exact h.quiet Move.resume.grows (sameWait_resumeAll x)
  | jump hidle hnow hdue =>
    rw [List.append_nil]
    exact h.quiet (Move.jump hidle hnow hdue).grows fun k => sameWait_of_eq rfl
  | credit n =>
    rw [List.append_nil]
    exact h.quiet (Move.credit n).grows fun k => sameWait_of_eq rfl

theorem Journaled.acts (h : Journaled book x cs) (horder : InOrder book x) (hxy : Acts x cs' y) :
    Journaled book y (cs ++ cs') := by
  induction hxy with
  | refl => rwa [List.append_nil]
  | tail hacts hact ih =>
    rw [← List.append_assoc]
    exact ih.act (horder.moves hacts.moves) hact

/-- A new task has not been served. -/
theorem Journaled.make (h : Journaled book x cs) (horder : InOrder book x) {m : Maker ν}
    (hm : ∀ j ∈ m.inputs, j < x.tasks.length) : Journaled (book ++ [x.entry m]) (x.make m).2 cs := by
  have hmade := made_make hm
  have hresult := hmade.result?
  generalize (x.make m).2 = y at hmade hresult
  refine ⟨fun c hc => ?_, fun k b s hb hown hs => ?_⟩
  · rw [hmade.length]
    exact Nat.lt_succ_of_lt (h.made c hc)
  · by_cases hk : k = x.tasks.length
    · subst hk
      have hnone : callsOf cs x.tasks.length = [] := callsOf_eq_nil fun c hc => Nat.ne_of_lt (h.made c hc)
      rw [hmade.stage_new] at hs
      cases hs
      rw [hnone]
      exact .pending trivial
    · rw [hmade.stage_old k hk] at hs
      have hlt : k < book.length := horder.length ▸ lt_of_stage? hs
      rw [List.getElem?_append_left hlt] at hb
      rw [hresult]
      exact h.served k b s hb hown hs

theorem written_append (x : Executor ν) (p q : List (Step ν)) :
    written x (p ++ q) = written x p ++ written (x.run p) q := by
  induction p generalizing x with
  | nil => rfl
  | cons s p ih =>
    cases s with
    | make m => exact congrArg (x.entry m :: ·) (ih (x.make m).2)
    | wait span => exact ih (x.wait span)
    | get i => exact ih (x.get i).2

/-- A part of a run keeps the account of calls, with those that are made in it. -/
theorem Journal.served_after {before after : List (Step ν)} (hp : IsLinear 0 [] (before ++ after))
    (hstart : Journaled (written {} before) (({} : Executor ν).run before) cs)
    (hrun : Journal (({} : Executor ν).run before) after cs') :
    Journaled (written {} (before ++ after)) (({} : Executor ν).run (before ++ after)) (cs ++ cs') := by
  induction after generalizing before cs cs' with
  | nil =>
    cases hrun
    rwa [List.append_nil, List.append_nil]
  | cons s after ih =>
    obtain ⟨hx, -, -, used, hused⟩ := run_split hp
    have hsplit : before ++ s :: after = before ++ [s] ++ after := by simp
    have hbook := written_append ({} : Executor ν) before [s]
    have hend := run_append ({} : Executor ν) before [s]
    rw [hsplit] at hp ⊢
    generalize ({} : Executor ν).run before = x at hx hused hstart hrun hbook hend
    cases hrun with
    | @make _ m _ _ hrest =>
      have hmade := hstart.make hx fun j hj => (hused.1.2 j hj).1
      refine ih hp ?_ (by rw [hend]; exact hrest)
      rw [hbook, hend]
      exact hmade
    | @wait _ span _ cs₁ cs₂ hacts hrest =>
      have hwaited := hstart.acts hx hacts
      rw [← List.append_assoc]
      refine ih hp ?_ (by rw [hend]; exact hrest)
      rw [hbook, hend, written, written, List.append_nil]
      exact hwaited
    | @get _ i _ cs₁ cs₂ hacts hrest =>
      have hread := hstart.acts hx hacts
      rw [← List.append_assoc]
      refine ih hp ?_ (by rw [hend]; exact hrest)
      rw [hbook, hend, written, written, List.append_nil]
      exact hread

/-- **In every run all calls are accounted for.** -/
theorem Journal.served {p : List (Step ν)} (hp : IsLinear 0 [] p) (hrun : Journal {} p cs) :
    Journaled (written {} p) (({} : Executor ν).run p) cs := by
  have hstart : Journaled (ν := ν) (written {} []) (({} : Executor ν).run []) [] :=
    ⟨fun c hc => absurd hc List.not_mem_nil, fun i b s hb => by simp [written] at hb⟩
  have hp' : IsLinear 0 [] ([] ++ p) := hp
  exact Journal.served_after hp' hstart hrun

end Moves

end Executor

end Handoff.Deferred
