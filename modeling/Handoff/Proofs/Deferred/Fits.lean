import Handoff.Proofs.Deferred.Gathering
import Handoff.Proofs.Deferred.Moves

/-! # A task fits what is written of it

A task that waits has not yet got what it needs and could not have had it before now. A task that sleeps
has got it and wakes when its time has come, and a task that is done has come to what it means.

* `Entry`: what is written of a task.
* `Fits`: how the stage of a task agrees with its entry.
* `Fits.frame`: a task for which nothing has changed still fits.
* `Fits.told`: the reader of a task that has ended fits once it is told of it.
-/

namespace Handoff.Deferred

variable {ν : Type}

/-- **What is written of a task**: what it was made of, when, and which tasks had failed then. -/
structure Entry (ν : Type) where
  maker : Maker ν
  made : Nat
  failed : Nat → Prop

open Executor (longestSleep)

/-- **How the stage of a task agrees with its entry**, at the time `now` with these results. A look is
owed to the tasks `awake`, and what they have put off to the tasks `late`. -/
inductive Fits (now : Nat) (res : Yields ν) (awake late : List Nat) (timers : List Timer) (k : Nat)
    (b : Entry ν) : Stage ν → Prop where
  | pending {m : Maker ν} (hmaker : m = b.maker) (hready : k ∈ awake ∨ m.seen res.outcome = none)
      (htime : b.made = now ∨ m.seen (res.before now) = none) :
      Fits now res awake late timers k b (.pending m)
  | gathering {g : Gathering ν} (hmaker : b.maker = .all g.inputs g.pack)
      (hmany : sideBySide < g.inputs.length) (hsorts : g.Sorts res)
      (hresult : g.result? res.outcome = none) (hready : g.queued ≠ [] → k ∈ awake)
      (hlate : g.putOff ≠ [] → k ∈ late)
      (htime : b.made = now ∨ b.maker.seen (res.before now) = none) :
      Fits now res awake late timers k b (.gathering g)
  | sleeping {r : Except Panic ν} {vs : List ν} {l : Later ν} {s : Nat}
      (hmet : Met res b.made b.failed b.maker (.ok vs) s) (hact : b.maker.act vs = some l)
      (hr : r = l.result)
      (hdue : k ∈ awake ∧ s + min l.delay longestSleep = now ∧ (∀ d, ⟨d, k⟩ ∉ timers) ∨
        k ∉ awake ∧ ⟨s + min l.delay longestSleep, k⟩ ∈ timers) :
      Fits now res awake late timers k b (.sleeping r)
  | done {o : Outcome ν} {t : Nat} (hmeans : Means res b.made b.failed b.maker o t) (ht : t ≤ now) :
      Fits now res awake late timers k b (.done o t)

theorem Maker.seen_congr {m : Maker ν} {view view' : Nat → Option (Outcome ν)}
    (h : ∀ j ∈ m.inputs, view' j = view j) : m.seen view' = m.seen view := by
  rw [Maker.seen, Maker.seen, List.map_congr_left h]

section Fits

variable {now : Nat} {res res' : Yields ν} {awake awake' late late' : List Nat}
  {timers timers' : List Timer} {k : Nat} {b : Entry ν} {s : Stage ν}

/-- A task still fits if nothing has changed for it. -/
theorem Fits.frame (h : Fits now res awake late timers k b s)
    (hres : ∀ j ∈ b.maker.inputs, res' j = res j) (hawake : k ∈ awake' ↔ k ∈ awake)
    (hlate : k ∈ late → k ∈ late') (htimers : ∀ d, ⟨d, k⟩ ∈ timers' ↔ ⟨d, k⟩ ∈ timers) :
    Fits now res' awake' late' timers' k b s := by
  have hseen : b.maker.seen res'.outcome = b.maker.seen res.outcome :=
    Maker.seen_congr fun j hj => by rw [Yields.outcome, Yields.outcome, hres j hj]
  have hbefore : b.maker.seen (res'.before now) = b.maker.seen (res.before now) :=
    Maker.seen_congr fun j hj => by rw [Yields.before, Yields.before, hres j hj]
  have hkeep : ∀ j ∈ b.maker.inputs, ∀ y, res j = some y → res' j = some y := by
    intro j hj y hy
    rw [hres j hj, hy]
  have hnew : ∀ j ∈ b.maker.inputs, ∀ t o s, res j = none → res' j = some (o, s) → t ≤ s := by
    intro j hj t o s hold hnew
    rw [hres j hj, hold] at hnew
    cases hnew
  cases h with
  | pending hmaker hready htime =>
    subst hmaker
    exact .pending rfl (by rwa [hawake, hseen]) (by rwa [hbefore])
  | @gathering g hmaker hmany hsorts hresult hready hl htime =>
    have hinputs : ∀ j ∈ g.inputs, res' j = res j := by rw [hmaker] at hres; exact hres
    have hresult' : g.result? res'.outcome = none :=
      (Gathering.result?_congr fun j hj => hinputs j (hsorts.mem j (by simp [hj]))).trans hresult
    exact .gathering hmaker hmany (hsorts.congr hinputs) hresult' (fun hq => hawake.2 (hready hq))
      (fun hp => hlate (hl hp)) (by rwa [hbefore])
  | sleeping hmet hact hr hdue =>
    refine .sleeping (hmet.mono hkeep fun j hj o s => hnew j hj _ o s) hact hr ?_
    simpa only [hawake, htimers] using hdue
  | done hmeans ht => exact .done (hmeans.mono hkeep fun j hj o s => hnew j hj _ o s) ht

/-- Results of now do not count as results from before. -/
theorem Yields.before_of_new (hold : ∀ j, res j ≠ none → res' j = res j)
    (hnew : ∀ j o t, res j = none → res' j = some (o, t) → now ≤ t) : res'.before now = res.before now := by
  funext j
  unfold Yields.before
  rcases hj : res j with _ | ⟨o, t⟩
  · rcases hj' : res' j with _ | ⟨o, t⟩
    · rfl
    · exact if_neg (Nat.not_lt.2 (hnew j o t hj hj'))
  · rw [hold j (by simp [hj]), hj]

/-- All that is there now was there before any later time. -/
theorem Yields.before_of_shows (h : res.Shows now res.outcome) {t : Nat} (ht : now < t) :
    res.before t = res.outcome := by
  funext j
  rcases hj : res j with _ | ⟨o, s⟩
  · rw [Yields.before, Yields.outcome, hj]
    rfl
  · have ho : res.outcome j = some o := by rw [Yields.outcome, hj]; rfl
    obtain ⟨s', hs', hj'⟩ := h j o ho
    rw [ho, Yields.before_eq_some hj' (Nat.lt_of_le_of_lt hs' ht)]

/-- **The reader of a task that has just ended still fits**, once it is told of it. -/
theorem Fits.told {i : Nat} {o : Outcome ν} (h : Fits now res awake late timers k b s)
    (hi : res i = none) (hin : i ∈ b.maker.inputs) (hself : res' i = some (o, now))
    (hother : ∀ j, j ≠ i → res' j = res j) (hawake : k ∈ awake → k ∈ awake')
    (hheeds : s.Heeds i → k ∈ awake') : Fits now res' awake' late timers k b (s.told i) := by
  have hold : ∀ j, res j ≠ none → res' j = res j := by
    intro j hj
    exact hother j (by rintro rfl; exact hj hi)
  have hkeep : ∀ j ∈ b.maker.inputs, ∀ y, res j = some y → res' j = some y := by
    intro j _ y hy
    rw [hold j (by simp [hy]), hy]
  have hnew : ∀ j o t, res j = none → res' j = some (o, t) → now ≤ t := by
    intro j o' t hj hj'
    rcases Decidable.em (j = i) with rfl | hji
    · rw [hself] at hj'; cases hj'; exact Nat.le_refl _
    · rw [hother j hji, hj] at hj'; cases hj'
  have hbefore := Yields.before_of_new hold hnew
  cases h with
  | pending hmaker hready htime =>
    exact .pending hmaker (.inl (hheeds trivial)) (by rwa [hbefore])
  | @gathering g hmaker hmany hsorts hresult hready hlate htime =>
    have hmem : i ∈ g.inputs := by rw [hmaker] at hin; exact hin
    have hread : ∀ j ∈ g.read, res' j = res j := fun j hj => hold j (hsorts.read j hj)
    obtain ⟨hawaits, hnot⟩ := hsorts.told hi hmem hother
    simp only [Stage.told]
    split_ifs with ha
    · exact .gathering hmaker hmany (hawaits ha) ((Gathering.result?_congr (g := g) hread).trans hresult)
        (fun _ => hheeds ha) hlate (by rwa [hbefore])
    · exact .gathering hmaker hmany (hnot (by simpa using ha))
        ((Gathering.result?_congr hread).trans hresult) (fun hq => hawake (hready hq)) hlate
        (by rwa [hbefore])
  | sleeping hmet =>
    -- a task that sleeps has all its inputs
    obtain ⟨v, t, hv⟩ := Succeed.value hmet i hin
    rw [hi] at hv
    cases hv
  | done hmeans ht =>
    refine .done (hmeans.mono hkeep fun j _ o' t' hj hj' => ?_) ht
    have := hnew j o' t' hj hj'
    omega

/-- **A task to which nothing is owed cannot go on**, unless it only sleeps. -/
theorem Fits.seen_eq_none (h : Fits now res [] [] timers k b s) (hs : s.yield? = none)
    (hs' : ∀ r, s ≠ .sleeping r) : b.maker.seen res.outcome = none := by
  cases h with
  | pending hmaker hready _ =>
    subst hmaker
    exact hready.resolve_left List.not_mem_nil
  | @gathering g hmaker hmany hsorts hresult hq hp _ =>
    have hqueued : g.queued = [] := by_contra fun hne => List.not_mem_nil (hq hne)
    have hputOff : g.putOff = [] := by_contra fun hne => List.not_mem_nil (hp hne)
    rw [Gathering.result?_eq hmany, Option.map_eq_none_iff] at hresult
    rw [hmaker, ← hresult]
    exact Maker.seen_congr fun j hj => (hsorts.view_eq hqueued hputOff j hj).symm
  | @sleeping r => exact absurd rfl (hs' r)
  | done => cases hs

end Fits

end Handoff.Deferred
