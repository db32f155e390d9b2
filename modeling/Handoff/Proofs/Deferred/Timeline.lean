import Handoff.Proofs.Deferred.Program

/-! # Deferred values come to what they mean

Whatever a program makes and however long it waits in between, each task comes to its meaning, which is
told by what it is made of and by what its inputs come to. It is seen to be done from that time on, and
not before.

* `Executor.KeepsTo`: what is done came to what it means when it means it.
* `Executor.Agrees`: what a step of a program makes or shows agrees with what the tasks mean.
* `Executor.IsEnd.agrees`: every step on the way to the end agrees with it.
* `Executor.run_means`: the statement for all programs.
-/

namespace Handoff.Deferred.Executor

open Relation (ReflTransGen)

variable {ν : Type}

/-- **What is done came to this, at this time.** -/
def KeepsTo (f : Nat → Outcome ν × Nat) (x : Executor ν) : Prop :=
  ∀ i, x.isFinished i = true →
    x.outcome? i = some (f i).1 ∧ x.finishTime? i = some (f i).2 ∧ (f i).2 ≤ x.now

/-- **A step agrees with what the tasks come to.** A task that is made comes to what it means. After a wait
just the tasks are done whose time has come. A result is there at its time, or at once if that is over. -/
def Agrees (f : Nat → Outcome ν × Nat) (x : Executor ν) : Step ν → Prop
  | .make m =>
    (x.make m).1 = x.tasks.length ∧ (x.make m).2.now = x.now ∧
      Means (fun j => some (f j)) x.now (fun j => ∃ e, x.outcome? j = some (.error e)) m
        (f (x.make m).1).1 (f (x.make m).1).2
  | .wait span =>
    (x.wait span).now = x.now + min span longestSleep ∧
      ∀ i < x.tasks.length, (x.wait span).isFinished i = true ↔ (f i).2 ≤ (x.wait span).now
  | .get i => (x.get i).1 = some (f i).1 ∧ (x.get i).2.now = max x.now (f i).2

/-- **The end**: all tasks are done, and this is what they came to. -/
structure IsEnd (f : Nat → Outcome ν × Nat) (y : Executor ν) : Prop where
  done : ∀ k < y.tasks.length, y.result? k ≠ none
  tells : ∀ k r, y.result? k = some r → f k = r

section Timeline

variable {book rest : List (Entry ν)} {x y : Executor ν} {f : Nat → Outcome ν × Nat} {i t : Nat}
  {o : Outcome ν}

theorem finishTime?_eq (x : Executor ν) (i : Nat) : x.finishTime? i = (x.result? i).map Prod.snd := by
  unfold finishTime? result? stage?
  rcases x.tasks[i]? with _ | ⟨s, reader⟩
  · rfl
  · cases s <;> rfl

/-- What is done is what there is in the end. -/
theorem IsEnd.keepsTo (hend : IsEnd f y) (h : InOrder book x) (hxy : Grows x y) : KeepsTo f x := by
  intro i hi
  rw [isFinished_eq] at hi
  obtain ⟨⟨o, t⟩, hres⟩ := Option.isSome_iff_exists.1 hi
  have hshown : x.result?.outcome i = some o := by rw [Yields.outcome, hres]; rfl
  obtain ⟨t', ht', hres'⟩ := h.shows i o hshown
  rw [hres] at hres'
  cases hres'
  rw [outcome?_eq, finishTime?_eq, hend.tells i _ (hxy.keeps i _ hres), hshown, hres]
  exact ⟨rfl, rfl, ht'⟩

/-- What there is in the end is what is written. -/
theorem Account.means (h : InOrder book y) (hy : y.result? i = some (o, t)) {b : Entry ν}
    (hb : book[i]? = some b) : Means y.result? b.made b.failed b.maker o t := by
  have hfits := h.fits i b _ hb (stage?_of_result? hy)
  cases hfits with
  | done hmeans _ => exact hmeans

/-- In the end all results are there, and they do not depend on how they are named. -/
theorem IsEnd.means (hend : IsEnd f y) (h : InOrder book y) {b : Entry ν} (hb : book[i]? = some b) :
    Means (fun j => some (f j)) b.made b.failed b.maker (f i).1 (f i).2 := by
  have hi : i < y.tasks.length := h.length ▸ (List.getElem?_eq_some_iff.1 hb).1
  obtain ⟨⟨o, t⟩, hres⟩ := Option.ne_none_iff_exists'.1 (hend.done i hi)
  rw [hend.tells i _ hres]
  refine (h.means hres hb).mono (fun j _ r hj => congrArg some (hend.tells j r hj))
    fun j hj o' s hnone _ => ?_
  have hlt := Nat.lt_trans ((h.inputs i b hb).2 j hj) hi
  exact absurd hnone (hend.done j hlt)

/-- After a wait just the tasks are done whose time has come. -/
theorem IsEnd.isFinished_iff (hend : IsEnd f y) (hrest : AtRest x) (h : InOrder book x) (hxy : Grows x y)
    (hy : InOrder (book ++ rest) y) (hi : i < x.tasks.length) :
    x.isFinished i = true ↔ (f i).2 ≤ x.now := by
  constructor
  · exact fun hdone => (hend.keepsTo h hxy i hdone).2.2
  · intro hle
    rw [isFinished_eq]
    by_contra hnone
    have hnone : x.result? i = none := by simpa using hnone
    obtain ⟨s, hs⟩ := exists_stage? hi
    obtain ⟨⟨o, t⟩, hres⟩ := Option.ne_none_iff_exists'.1 (hend.done i (Nat.lt_of_lt_of_le hi hxy.length))
    have hlate : x.now < t := hrest.now_lt h hxy.keeps
      (fun k b o t hb hres => hy.means hres (List.getElem?_append_left
        (List.getElem?_eq_some_iff.1 hb).1 ▸ hb)) i hs ((result?_of_stage? hs).symm.trans hnone) hres
    rw [hend.tells i _ hres] at hle
    exact Nat.not_lt.2 hle hlate

/-- **Every step on the way to the end agrees with what the tasks come to there.** -/
theorem IsEnd.agrees {before after : List (Step ν)} {s : Step ν}
    (hend : IsEnd f (({} : Executor ν).run (before ++ s :: after)))
    (hp : IsLinear 0 [] (before ++ s :: after)) : Agrees f (({} : Executor ν).run before) s := by
  obtain ⟨hx, hgrows, hyorder, used, hused⟩ := run_split hp
  -- the same, cut after the step
  have hsplit : before ++ s :: after = before ++ [s] ++ after := by simp
  obtain ⟨hx', hgrows', hyorder', -⟩ := run_split (hsplit ▸ hp)
  rw [← hsplit, run_append] at hgrows' hyorder'
  rw [run_append] at hx'
  generalize ({} : Executor ν).run (before ++ s :: after) = y at hend hgrows hyorder hgrows' hyorder'
  generalize hbook : written ({} : Executor ν) before = book at hx hyorder
  generalize ({} : Executor ν).run before = x at hx hgrows hyorder hused hx' hgrows' hyorder'
  cases s with
  | make m =>
    have hm : ∀ j ∈ m.inputs, j < x.tasks.length := fun j hj => (hused.1.2 j hj).1
    have hentry : (book ++ x.written (.make m :: after))[x.tasks.length]? = some (x.entry m) := by
      rw [← hx.length, List.getElem?_append_right (Nat.le_refl _), Nat.sub_self]
      rfl
    exact ⟨rfl, by rw [(made_make hm).same], hend.means hyorder hentry⟩
  | wait span =>
    obtain ⟨hmoves, hnow, hrest, -⟩ := wait_spec span hx
    refine ⟨hnow, fun i hi => ?_⟩
    exact hend.isFinished_iff hrest hx' hgrows' hyorder'
      (Nat.lt_of_lt_of_le hi (Grows.of_moves hmoves).length)
  | get i =>
    obtain ⟨hmoves, o, t, ho, hres, hnow⟩ := get_spec hx hused.1.1
    have hfi := hend.tells i _ (hgrows'.keeps i _ hres)
    exact ⟨by rw [ho, hfi], by rw [hnow, hfi]⟩

/-- **Every program comes to its end** after some waits. -/
theorem exists_end {p : List (Step ν)} (hp : IsLinear 0 [] p) :
    ∃ (f : Nat → Outcome ν × Nat) (n : Nat), IsEnd f (({} : Executor ν).run (p ++ waits n)) := by
  obtain ⟨hlast, -⟩ := run_split ((List.append_nil p).symm ▸ hp)
  obtain ⟨n, hall⟩ := exists_waits hlast
  rw [← run_append] at hall
  let f : Nat → Outcome ν × Nat := fun i =>
    ((({} : Executor ν).run (p ++ waits n)).result? i).getD (.error (Panic.failure .other), 0)
  exact ⟨f, n, hall, fun i r hr => by simp [f, hr]⟩

end Timeline

/-- **Deferred values come to what they mean.** Each task of a program in which tasks are used once comes to
its meaning at the time of its meaning, whatever else is made, awaited or read meanwhile. In the end all
tasks are done. -/
theorem run_means (p : List (Step ν)) (hp : IsLinear 0 [] p) :
    ∃ f : Nat → Outcome ν × Nat,
      (∀ before s after, p = before ++ s :: after → Agrees f (({} : Executor ν).run before) s) ∧
      (∀ before after, p = before ++ after → KeepsTo f (({} : Executor ν).run before)) ∧
      ∃ n, let x := ({} : Executor ν).run (p ++ waits n)
        KeepsTo f x ∧ ∀ i < x.tasks.length, x.isFinished i = true := by
  obtain ⟨f, n, hend⟩ := exists_end hp
  have hlinear := isLinear_append_waits hp n
  refine ⟨f, ?_, ?_, n, ?_, fun i hi => ?_⟩
  · rintro before s after rfl
    rw [List.append_assoc, List.cons_append] at hend hlinear
    exact hend.agrees hlinear
  · rintro before after rfl
    rw [List.append_assoc] at hend hlinear
    obtain ⟨hx, hgrows, -⟩ := run_split hlinear
    exact hend.keepsTo hx hgrows
  · obtain ⟨-, -, hyorder, -⟩ := run_split hlinear
    exact hend.keepsTo hyorder (.refl _)
  · rw [isFinished_eq]
    exact Option.isSome_iff_ne_none.2 (hend.done i hi)

/-- One task fails after a while and one at once, at the same time; then both are combined, the second one
first. -/
def tie : List (Step Nat) :=
  [.make (.spawn ⟨1, .error (.text "first")⟩), .wait 1, .make (.spawn ⟨0, .error (.text "second")⟩),
    .make (.combine 1 0 fun a _ => .ok a), .get 2]

/-- The failure of the second task is passed on. -/
theorem run_means_tie : IsLinear 0 [] tie ∧ ∃ f : Nat → Outcome Nat × Nat,
    let x := ({} : Executor Nat).run (tie.take 3)
    (f 0).2 ≤ 1 ∧ (f 2).1 = .error (Panic.text "second").failure ∧
      Means (fun j => some (f j)) 1 (fun j => ∃ e, x.outcome? j = some (.error e))
        (.combine 1 0 fun a _ => .ok a) (f 2).1 (f 2).2 := by
  have hlinear : IsLinear 0 [] tie := by simp [tie, IsLinear, Maker.inputs, Maker.spawn]
  obtain ⟨f, hf, -⟩ := run_means tie hlinear
  have hwait := (hf [.make (.spawn ⟨1, .error (.text "first")⟩)] (.wait 1) _ rfl).2 0 (by decide)
  have hmake := (hf (tie.take 3) (.make (.combine 1 0 fun a _ => .ok a)) _ rfl).2.2
  have hget := (hf (tie.take 4) (.get 2) _ rfl).1
  refine ⟨hlinear, f, hwait.1 rfl, ?_, hmake⟩
  exact (Option.some_inj.1 hget).symm

/-- **A task may not sleep for its whole delay, and may pass on the failure of an input that had not yet
failed** when it was made, though another had. -/
theorem delay_and_tie_differ :
    let x := ({} : Executor Nat).run [.make (.spawn ⟨longestSleep + 5, .ok 1⟩), .wait longestSleep]
    let y := ({} : Executor Nat).run (tie.take 3)
    (x.now < longestSleep + 5 ∧ x.isFinished 0 = true) ∧
      y.outcome? 0 = some (.error (Panic.text "first").failure) ∧ y.outcome? 1 = none ∧
      ((y.make (.combine 1 0 fun a _ => .ok a)).2.get 2).1 =
        some (.error (Panic.text "second").failure) ∧
      (Panic.text "second").failure ≠ (Panic.text "first").failure :=
  ⟨⟨by decide +kernel, by decide +kernel⟩, rfl, rfl, rfl, by decide +kernel⟩

end Handoff.Deferred.Executor
