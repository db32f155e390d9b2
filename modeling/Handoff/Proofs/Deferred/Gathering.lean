import Mathlib.Data.List.Basic
import Mathlib.Data.List.Perm.Basic
import Mathlib.Tactic.SplitIfs
import Handoff.Proofs.Deferred.Meaning

/-! # Gathering sorts the inputs

Each input of a gathering is read, queued, put off, or not there yet.

* `Gathering.Sorts`: this fact; a look, a new input and the return of what was put off keep it.
* `Gathering.view`: the outcomes that have been read, in which the result is looked for.
* `Gathering.Sorts.weight_look`: a look lowers the weight by what it may put off and by a look in vain.
-/

namespace Handoff.Deferred

variable {ν : Type}

namespace Gathering

/-- **Which inputs have been read and which are still to be looked at.** All that are there are among
them. -/
structure Sorts (g : Gathering ν) (res : Yields ν) : Prop where
  nodup : (g.read ++ g.queued ++ g.putOff).Nodup
  mem : ∀ j ∈ g.read ++ g.queued ++ g.putOff, j ∈ g.inputs
  read : ∀ j ∈ g.read, res j ≠ none
  complete : ∀ j ∈ g.inputs, res j ≠ none → j ∈ g.read ++ g.queued ++ g.putOff

/-- The outcomes that have been read. -/
def view (g : Gathering ν) (res : Yields ν) (j : Nat) : Option (Outcome ν) :=
  if g.read.contains j then res.outcome j else none

variable {g : Gathering ν} {res res' : Yields ν}

theorem sorts_start {inputs : List Nat} (pack : List ν → ν) (h : inputs.Nodup) :
    Sorts { inputs, pack } res := by
  refine ⟨by simpa using h, by simp, by simp, fun j hj _ => by simpa using hj⟩

/-- A look goes over the queued inputs up to a place; what it has not come to is put off. -/
theorem afterReads_split (isThere : Nat → Bool) (n : Nat) (l : List Nat) :
    ∃ front, l = front ++ afterReads isThere n l ∧ (l.filter isThere).take n = front.filter isThere ∧
      (afterReads isThere n l ≠ [] → (front.filter isThere).length = n) := by
  induction l generalizing n with
  | nil => exact ⟨[], by simp [afterReads], by simp, by simp [afterReads]⟩
  | cons i l ih =>
    rcases n with _ | n
    · exact ⟨[], by simp [afterReads], by simp, by simp⟩
    · rw [afterReads]
      rcases hi : isThere i with _ | _
      · obtain ⟨front, hl, htake, hlen⟩ := ih (n + 1)
        refine ⟨i :: front, ?_, by simpa [hi] using htake, by simpa [hi] using hlen⟩
        rw [List.cons_append, if_neg Bool.false_ne_true, ← hl]
      · obtain ⟨front, hl, htake, hlen⟩ := ih n
        refine ⟨i :: front, ?_, by simpa [hi] using htake, by simpa [hi] using hlen⟩
        rw [List.cons_append, if_pos rfl, ← hl]

/-- After a look nothing is queued, and each input that was is read or put off, or is not there. -/
theorem look_split (g : Gathering ν) (isThere : Nat → Bool) :
    ∃ front rest, g.queued = front ++ rest ∧ (g.look isThere).read = g.read ++ front.filter isThere ∧
      (g.look isThere).putOff = g.putOff ++ rest ∧
      (rest ≠ [] → (front.filter isThere).length = readsPerLook) := by
  obtain ⟨front, hqueued, htake, hlen⟩ := afterReads_split isThere readsPerLook g.queued
  refine ⟨front, _, hqueued, ?_, rfl, hlen⟩
  rw [look, htake]

theorem Sorts.look (h : g.Sorts res) {isThere : Nat → Bool} (hthere : ∀ j, isThere j = (res j).isSome) :
    (g.look isThere).Sorts res := by
  obtain ⟨front, rest, hqueued, hread, hputOff, -⟩ := look_split g isThere
  have hsub : (g.read ++ front.filter isThere ++ [] ++ (g.putOff ++ rest)).Sublist
      (g.read ++ front ++ (g.putOff ++ rest)) := by
    rw [List.append_nil]
    exact (List.filter_sublist.append_left _).append_right _
  have hperm : (g.read ++ front ++ (g.putOff ++ rest)).Perm (g.read ++ g.queued ++ g.putOff) := by
    rw [hqueued, ← List.append_assoc g.read, List.append_assoc _ rest]
    exact List.perm_append_comm.append_left _
  have hnew : (g.look isThere).read ++ (g.look isThere).queued ++ (g.look isThere).putOff =
      g.read ++ front.filter isThere ++ [] ++ (g.putOff ++ rest) := by rw [hread, hputOff]; rfl
  refine ⟨?_, fun j hj => ?_, fun j hj => ?_, fun j hj hres => ?_⟩
  · rw [hnew]
    exact (hperm.nodup_iff.2 h.nodup).sublist hsub
  · rw [hnew] at hj
    exact h.mem j (hperm.mem_iff.1 (hsub.subset hj))
  · rw [hread, List.mem_append, List.mem_filter] at hj
    rcases hj with hj | ⟨-, hj⟩
    · exact h.read j hj
    · rw [hthere] at hj
      exact Option.isSome_iff_ne_none.1 hj
  · have hold := hperm.mem_iff.2 (h.complete j hj hres)
    have hj : isThere j = true := by rw [hthere]; exact Option.isSome_iff_ne_none.2 hres
    rw [hnew]
    simp only [List.mem_append, List.mem_filter] at hold ⊢
    rcases hold with (hold | hold) | hold
    · exact .inl (.inl (.inl hold))
    · exact .inl (.inl (.inr ⟨hold, hj⟩))
    · exact .inr hold

theorem Sorts.congr (h : g.Sorts res) (hres : ∀ j ∈ g.inputs, res' j = res j) : g.Sorts res' := by
  refine ⟨h.nodup, h.mem, fun j hj => ?_, fun j hj hr => h.complete j hj (hres j hj ▸ hr)⟩
  rw [hres j (h.mem j (by simp [hj]))]
  exact h.read j hj

/-- An input that has come is queued if it had been looked at, and among the others if not. -/
theorem Sorts.told {i : Nat} (h : g.Sorts res) (hi : res i = none) (hmem : i ∈ g.inputs)
    (hres : ∀ j, j ≠ i → res' j = res j) :
    (g.awaits i = true → (g.enqueue i).Sorts res') ∧ (g.awaits i = false → g.Sorts res') := by
  have hnot : i ∉ g.read := fun hr => h.read i hr hi
  have hread : ∀ j ∈ g.read, res' j ≠ none := by
    intro j hj
    rw [hres j fun hji => hnot (hji ▸ hj)]
    exact h.read j hj
  have hcomplete : ∀ j ∈ g.inputs, j ≠ i → res' j ≠ none → j ∈ g.read ++ g.queued ++ g.putOff := by
    intro j hj hji hr
    exact h.complete j hj (hres j hji ▸ hr)
  constructor
  · intro ha
    simp only [awaits, Bool.and_eq_true, Bool.not_eq_true', List.contains_eq_mem,
      decide_eq_false_iff_not] at ha
    have hperm : ((g.enqueue i).read ++ (g.enqueue i).queued ++ (g.enqueue i).putOff).Perm
        (i :: (g.read ++ g.queued ++ g.putOff)) := by
      show (g.read ++ (g.queued ++ [i]) ++ g.putOff).Perm _
      rw [← List.append_assoc, List.append_assoc _ [i]]
      exact List.perm_middle
    refine ⟨?_, fun j hj => ?_, hread, fun j hj hr => ?_⟩
    · rw [hperm.nodup_iff, List.nodup_cons]
      exact ⟨by simp [hnot, ha], h.nodup⟩
    · rcases List.mem_cons.1 (hperm.mem_iff.1 hj) with rfl | hj
      · exact hmem
      · exact h.mem j hj
    · rw [hperm.mem_iff, List.mem_cons]
      rcases Decidable.em (j = i) with hji | hji
      · exact .inl hji
      · exact .inr (hcomplete j hj hji hr)
  · intro ha
    refine ⟨h.nodup, h.mem, hread, fun j hj hr => ?_⟩
    rcases Decidable.em (j = i) with rfl | hji
    · have : j ∈ g.queued ∨ j ∈ g.putOff := by
        by_contra hno
        rw [not_or] at hno
        simp [awaits, hno] at ha
      simp [this]
    · exact hcomplete j hj hji hr

theorem Sorts.resume (h : g.Sorts res) : g.resume.Sorts res := by
  have hperm : (g.resume.read ++ g.resume.queued ++ g.resume.putOff).Perm
      (g.read ++ g.queued ++ g.putOff) := by
    show (g.read ++ (g.queued ++ g.putOff.reverse) ++ []).Perm _
    rw [List.append_nil, ← List.append_assoc]
    exact (List.reverse_perm _).append_left _
  exact ⟨hperm.nodup_iff.2 h.nodup, fun j hj => h.mem j (hperm.mem_iff.1 hj), h.read,
    fun j hj hr => hperm.mem_iff.2 (h.complete j hj hr)⟩

theorem result?_eq (hmany : sideBySide < g.inputs.length) :
    g.result? res.outcome = ((Maker.all g.inputs g.pack).seen (g.view res)).map fun r => r.map g.pack := by
  simp only [Maker.seen, Maker.join, Maker.isMany, Maker.inputs, hmany, decide_true, if_true]
  rfl

/-- With nothing left to look at, all that is there has been read. -/
theorem Sorts.view_eq (h : g.Sorts res) (hqueued : g.queued = []) (hputOff : g.putOff = []) :
    ∀ j ∈ g.inputs, g.view res j = res.outcome j := by
  intro j hj
  rw [view, List.contains_eq_mem]
  split_ifs with hread
  · rfl
  · have hnone : res j = none := by
      by_contra hr
      have := h.complete j hj hr
      simp [hqueued, hputOff] at this
      simp [this] at hread
    rw [Yields.outcome, hnone]
    rfl

theorem result?_congr (hres : ∀ j ∈ g.read, res' j = res j) :
    g.result? res'.outcome = g.result? res.outcome := by
  have hview : (g.inputs.map fun i => if g.read.contains i then res'.outcome i else none) =
      g.inputs.map fun i => if g.read.contains i then res.outcome i else none := by
    refine List.map_congr_left fun j _ => ?_
    rw [List.contains_eq_mem]
    split_ifs with hread
    · rw [Yields.outcome, Yields.outcome, hres j (by simpa using hread)]
    · rfl
  rw [result?, result?, hview]

/-- What is queued counts for one. -/
theorem weight_bounds (g : Gathering ν) : 2 + (g.inputs.length - g.read.length) ≤ g.weight ∧
    g.weight ≤ 3 + (g.inputs.length - g.read.length) := by
  unfold weight
  rcases g.queued.isEmpty <;> simp only [Bool.false_eq_true, if_false, if_true] <;> omega

/-- **A look pays** for the look that follows one in vain, and for what it puts off. -/
theorem Sorts.weight_look (h : g.Sorts res) {isThere : Nat → Bool}
    (hthere : ∀ j, isThere j = (res j).isSome) :
    (g.look isThere).weight + (if g.isVain isThere then 1 else 0) +
      (if g.putOff = [] ∧ (g.look isThere).putOff ≠ [] then 3 else 0) ≤ g.weight := by
  obtain ⟨front, rest, hqueued, hread, hputOff, hlen⟩ := look_split g isThere
  have hsub : (g.look isThere).read.length ≤ g.inputs.length := by
    have hsorts := h.look hthere
    refine List.Subperm.length_le (List.subperm_of_subset ?_ fun j hj => hsorts.mem j (by simp [hj]))
    exact (List.nodup_append.1 (List.nodup_append.1 hsorts.nodup).1).1
  have hweight : (g.look isThere).weight = 2 + (g.inputs.length - (g.look isThere).read.length) := rfl
  rw [hweight, weight]
  rw [hread, List.length_append] at hsub ⊢
  cases hq : g.queued with
  | nil =>
    have hvain : g.isVain isThere = false := by simp [isVain, missed, hq]
    have hrest : rest = [] := (List.append_eq_nil_iff.1 (hqueued ▸ hq)).2
    simp [hvain, hputOff, hrest]
    omega
  | cons i q =>
    have hpay : (if g.putOff = [] ∧ (g.look isThere).putOff ≠ [] then 3 else 0) ≤
        (front.filter isThere).length := by
      split_ifs with hnew
      · have hrest : rest ≠ [] := by
          rw [hputOff, hnew.1, List.nil_append] at hnew
          exact hnew.2
        rw [hlen hrest]
        decide
      · exact Nat.zero_le _
    have hvain : (if g.isVain isThere then 1 else 0) ≤ 1 := by split_ifs <;> omega
    simp only [List.isEmpty_cons, Bool.false_eq_true, if_false]
    omega

end Gathering

end Handoff.Deferred
