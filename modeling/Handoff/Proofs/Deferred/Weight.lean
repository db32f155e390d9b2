import Handoff.Proofs.Deferred.Account

/-! # The weight of what is left to do

A task weighs what it can still do: it pays for the tasks that it makes ready, for its timer and for
what it puts off.

* `Executor.Account.weight_look`: a look does not raise the weight. It takes a task off the ready ones,
  so that the weight is lower in the end.
* `Executor.weight_resumeAll`, `Executor.weight_jump`: the return of what was put off, and a jump of the
  clock, lower the weight.
-/

namespace Handoff.Deferred.Executor

variable {ν : Type} {book : List (Entry ν)} {x : Executor ν} {i : Nat}

theorem weightOf_modify {ts : List (Task ν)} {i : Nat} {t : Task ν} (f : Task ν → Task ν)
    (h : ts[i]? = some t) :
    weightOf (ts.modify i f) + Stage.weight t.stage = weightOf ts + Stage.weight (f t).stage := by
  induction ts generalizing i with
  | nil => cases h
  | cons u ts ih =>
    rcases i with _ | i
    · obtain rfl : u = t := by simpa using h
      simp only [List.modify_zero_cons, weightOf]
      omega
    · have := ih (i := i) (by simpa using h)
      simp only [List.modify_succ_cons, weightOf]
      omega

theorem weight_pending (m : Maker ν) : Stage.weight (.pending m) = 4 + m.inputs.length := rfl

theorem weight_gathering (g : Gathering ν) : Stage.weight (.gathering g) = g.weight := rfl

theorem weight_sleeping (r : Except Panic ν) : Stage.weight (.sleeping r) = 2 := rfl

theorem weight_done (o : Outcome ν) (t : Nat) : Stage.weight (.done o t) = 0 := rfl

theorem weight_setStage {s₀ : Stage ν} (s : Stage ν) (h : x.stage? i = some s₀) :
    (x.setStage i s).weight + Stage.weight s₀ = x.weight + Stage.weight s := by
  obtain ⟨reader, ht⟩ := exists_task h
  have := weightOf_modify (fun t => { t with stage := s }) ht
  simp only [weight, setStage] at *
  omega

theorem weight_wake (x : Executor ν) (i : Nat) : (x.wake i).weight ≤ x.weight + 1 := by
  have hlen : (x.wake i).ready.length ≤ x.ready.length + 1 := by
    rcases wake_ready x i with ⟨hw, -⟩ | ⟨hw, -⟩ <;> simp [hw]
  rw [wake_eq]
  simp only [weight]
  omega

theorem weight_tell (x : Executor ν) (j i : Nat) : (x.tell j i).weight ≤ x.weight + 2 := by
  rcases tell_cases x j i with ⟨g, hg, -, hy⟩ | ⟨g, hg, -, hy⟩ | ⟨hg, hy⟩ <;> rw [hy]
  · have hset := weight_setStage (.gathering (g.enqueue i)) hg
    have hwake := weight_wake (x.setStage j (.gathering (g.enqueue i))) j
    have hnew : (g.enqueue i).weight ≤ 3 + (g.inputs.length - g.read.length) :=
      (g.enqueue i).weight_bounds.2
    have hold := g.weight_bounds.1
    simp only [weight_gathering] at hset
    omega
  · omega
  · have := weight_wake x j
    omega

theorem weight_finish {s₀ : Stage ν} (o : Outcome ν) (h : x.stage? i = some s₀) :
    (x.finish i o).weight + Stage.weight s₀ ≤ x.weight + 2 := by
  have hset := weight_setStage (.done o x.now) h
  rw [weight_done] at hset
  rcases finish_cases x i o with ⟨-, hy⟩ | ⟨j, -, hy⟩ <;> rw [hy]
  · omega
  · have := weight_tell (x.setStage i (.done o x.now)) j i
    omega

theorem weight_sleep {s₀ : Stage ν} (delay : Nat) (r : Except Panic ν) (h : x.stage? i = some s₀) :
    (x.sleep i delay r).weight + Stage.weight s₀ = x.weight + 4 := by
  have := weight_setStage (.sleeping r) h
  rw [weight_sleeping] at this
  simp only [weight, sleep, List.length_append, List.length_singleton] at *
  omega

theorem weight_gather {s₀ : Stage ν} {g : Gathering ν} (h : x.stage? i = some s₀)
    (hsorts : g.Sorts x.result?) (hlate : g.putOff ≠ [] → i ∈ x.postponed) :
    (x.gather i g).weight + Stage.weight s₀ ≤ x.weight + g.weight := by
  rcases gather_cases x i g with ⟨o, -, hy⟩ | ⟨-, hy⟩
  · have hfinish := weight_finish o h
    have hg := g.weight_bounds.1
    rw [hy]
    omega
  · have hlook := hsorts.weight_look (isFinished_eq x)
    have hset := weight_setStage (.gathering (g.look x.isFinished)) h
    have hready : (x.gather i g).ready.length ≤
        x.ready.length + if g.isVain x.isFinished then 1 else 0 := by
      rcases hy.ready with hr | ⟨hvain, -, hr⟩ <;> simp [hr]
      simp [hvain]
    have hpostponed : 3 * (x.gather i g).postponed.length ≤ 3 * x.postponed.length +
        if g.putOff = [] ∧ (g.look x.isFinished).putOff ≠ [] then 3 else 0 := by
      rcases hy.postponed with ⟨hp, -⟩ | ⟨hp, hnew, hnot⟩ <;> rw [hp]
      · omega
      · have hold : g.putOff = [] := by
          by_contra hne
          exact hnot (hlate hne)
        rw [if_pos ⟨hold, hnew⟩, List.length_cons]
        omega
    have htasks : weightOf (x.gather i g).tasks + Stage.weight s₀ =
        weightOf x.tasks + (g.look x.isFinished).weight := by
      rw [hy.tasks]
      rw [weight_gathering] at hset
      simp only [weight, setStage] at hset ⊢
      omega
    have htimers : (x.gather i g).timers = x.timers := by rw [hy.same]
    simp only [weight, htimers]
    omega

/-- **A look lowers the weight** by what it takes off the ready tasks. -/
theorem Account.weight_look (h : Account book (i :: x.ready) x.postponed x) :
    (x.look i).weight ≤ x.weight := by
  rcases hs : x.stage? i with _ | s
  · exact Nat.le_of_eq (by rw [look_none hs])
  · obtain ⟨b, hb⟩ := h.exists_entry hs
    cases h.fits i b s hb hs with
    | @pending m hmaker hready htime =>
      have hpoll := m.polled x.result?.outcome
      rw [look_pending hs]
      generalize m.poll x.result?.outcome = progress at hpoll
      cases hpoll with
      | waits => exact Nat.le_refl _
      | @fails e =>
        have := weight_finish (.error e) hs
        rw [weight_pending] at this
        dsimp only
        omega
      | @sleeps vs l =>
        have := weight_sleep l.delay l.result hs
        rw [weight_pending] at this
        dsimp only
        omega
      | @ends vs l =>
        have := weight_finish (outcomeOf l.result) hs
        rw [weight_pending] at this
        dsimp only
        omega
      | @gathers is pack hgathers =>
        have hnodup : is.Nodup := by
          have := (h.inputs i b hb).1
          rwa [← hmaker, hgathers] at this
        have := weight_gather hs (Gathering.sorts_start pack hnodup) (by simp)
        rw [weight_pending, hgathers, Maker.inputs] at this
        have hstart : (Gathering.weight { inputs := is, pack }) ≤ 3 + (is.length - 0) :=
          (Gathering.weight_bounds _).2
        dsimp only
        omega
    | @gathering g _ _ hsorts _ _ hlate _ =>
      have := weight_gather hs hsorts hlate
      rw [weight_gathering] at this
      rw [look_gathering hs]
      omega
    | @sleeping r =>
      have := weight_finish (outcomeOf r) hs
      rw [weight_sleeping] at this
      rw [look_sleeping hs]
      omega
    | done => exact Nat.le_of_eq (by rw [look_done hs])

theorem weight_resume (x : Executor ν) (i : Nat) : (x.resume i).weight ≤ x.weight + 2 := by
  rcases resume_cases x i with ⟨g, hg, hy⟩ | ⟨-, hy⟩ <;> rw [hy]
  · have hset := weight_setStage (.gathering g.resume) hg
    have hwake := weight_wake (x.setStage i (.gathering g.resume)) i
    have hnew : g.resume.weight ≤ 3 + (g.inputs.length - g.read.length) := g.resume.weight_bounds.2
    have hold := g.weight_bounds.1
    simp only [weight_gathering] at hset
    omega
  · omega

theorem weight_resumeAll (x : Executor ν) :
    x.resumeAll.weight + x.postponed.length ≤ x.weight := by
  have hfold : ∀ (l : List Nat) (y : Executor ν), (l.foldl resume y).weight ≤ y.weight + 2 * l.length := by
    intro l
    induction l with
    | nil => exact fun y => Nat.le_refl _
    | cons i l ih =>
      intro y
      have hrest := ih (y.resume i)
      have hresume := weight_resume y i
      rw [List.foldl_cons, List.length_cons]
      omega
  have hall := hfold x.postponed { x with postponed := [] }
  have hnone : ({ x with postponed := [] } : Executor ν).weight + 3 * x.postponed.length = x.weight := by
    simp [weight]
  rw [resumeAll]
  omega

/-- A jump of the clock lowers the weight by the number of timers that expire. -/
theorem weight_jump (x : Executor ν) (t : Nat) :
    (x.jump t).weight + (x.timers.filter (·.due ≤ t)).length = x.weight := by
  have hsplit : (x.timers.filter (·.due ≤ t)).length + (x.timers.filter (t < ·.due)).length =
      x.timers.length := by
    have hneg : (x.timers.filter (t < ·.due)) = x.timers.filter fun tm => !decide (tm.due ≤ t) :=
      List.filter_congr fun tm _ => by simp only [← Nat.not_le, decide_not]
    rw [hneg]
    exact (List.length_eq_length_filter_add _).symm
  simp only [weight, jump, List.length_append, List.length_map]
  omega

end Handoff.Deferred.Executor
