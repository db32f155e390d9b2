import Mathlib.Data.List.Basic
import Mathlib.Tactic.SplitIfs
import Handoff.Deferred.Executor

/-! # What a task comes to

The outcome of a task and the time of it are known from those of its inputs and from the time at which
the task was made. Nothing is said here of how tasks are run.

* `Means`: what a task comes to, by what it is made of.
* `Met`: what its inputs come to together, before its own function has run.
* `Met.of_seen`: what is found in time when the inputs are looked at is what they come to.
* `Met.seen_before`: what the inputs come to is found by looking at them after that time.
-/

namespace Handoff.Deferred

variable {ν : Type}

/-- What tasks have yielded, and when. -/
abbrev Yields (ν : Type) := Nat → Option (Outcome ν × Nat)

/-- The outcomes alone. -/
def Yields.outcome (res : Yields ν) (j : Nat) : Option (Outcome ν) := (res j).map Prod.fst

/-- The outcomes from before a point in time. -/
def Yields.before (res : Yields ν) (n : Nat) (j : Nat) : Option (Outcome ν) :=
  match res j with
  | some (o, t) => if t < n then some o else none
  | none => none

/-! ### Several inputs -/

/-- **All inputs succeed** with these values, in argument order. They are awaited from the time `made`
on and are there at the last time. -/
inductive Succeed (res : Yields ν) (made : Nat) : List Nat → List ν → Nat → Prop where
  | nil : Succeed res made [] [] made
  | cons {i s t : Nat} {v : ν} {is : List Nat} {vs : List ν} (h : res i = some (.ok v, s))
      (rest : Succeed res made is vs t) : Succeed res made (i :: is) (v :: vs) (max s t)

/-- **An input fails, awaited in argument order**: the first one that fails, once it and all before it
are there. -/
inductive FailsInOrder (res : Yields ν) (made : Nat) : List Nat → Failure → Nat → Prop where
  | here {i s : Nat} {e : Failure} {is : List Nat} (h : res i = some (.error e, s)) :
      FailsInOrder res made (i :: is) e (max s made)
  | later {i s t : Nat} {v : ν} {e : Failure} {is : List Nat} (h : res i = some (.ok v, s))
      (rest : FailsInOrder res made is e t) : FailsInOrder res made (i :: is) e (max s t)

/-- **An input fails, awaited side by side**: one that fails first in time, and before which in argument
order stands none that had already `failed`. -/
structure FailsEarly (res : Yields ν) (made : Nat) (failed : Nat → Prop) (is : List Nat) (e : Failure)
    (t : Nat) : Prop where
  fails : ∃ front k rest s, is = front ++ k :: rest ∧ res k = some (.error e, s) ∧ t = max s made ∧
    ∀ j ∈ front, ¬ failed j
  first : ∀ j ∈ is, ∀ e' s, res j = some (.error e', s) → t ≤ max s made

/-- Whether the inputs are awaited in argument order. -/
def Maker.isMany : Maker ν → Bool
  | .all is _ => sideBySide < is.length
  | _ => false

/-- How the failure of an input is passed on. -/
def Maker.Fails (m : Maker ν) (res : Yields ν) (made : Nat) (failed : Nat → Prop) (e : Failure)
    (t : Nat) : Prop :=
  if m.isMany then FailsInOrder res made m.inputs e t else FailsEarly res made failed m.inputs e t

/-! ### A task -/

/-- **What a task comes to**, and when: it is made of `m` at the time `made`, when these tasks had
already `failed`. -/
inductive Means (res : Yields ν) (made : Nat) (failed : Nat → Prop) : Maker ν → Outcome ν → Nat → Prop where
  | source {l : Later ν} {apart : Bool} :
      Means res made failed (.source l apart) (outcomeOf l.result) (made + min l.delay Executor.longestSleep)
  | map {i s : Nat} {f : ν → Except Panic ν} {v : ν} (h : res i = some (.ok v, s)) :
      Means res made failed (.map i f) (outcomeOf (f v)) (max s made)
  | andThen {i s : Nat} {f : ν → Later ν} {v : ν} (h : res i = some (.ok v, s)) :
      Means res made failed (.andThen i f) (outcomeOf (f v).result)
        (max s made + min (f v).delay Executor.longestSleep)
  | combine {l r s t : Nat} {f : ν → ν → Except Panic ν} {a b : ν} (hl : res l = some (.ok a, s))
      (hr : res r = some (.ok b, t)) :
      Means res made failed (.combine l r f) (outcomeOf (f a b)) (max s (max t made))
  | all {is : List Nat} {pack : List ν → ν} {vs : List ν} {t : Nat} (h : Succeed res made is vs t) :
      Means res made failed (.all is pack) (.ok (pack vs)) t
  | fails {m : Maker ν} {e : Failure} {t : Nat} (h : m.Fails res made failed e t) :
      Means res made failed m (.error e) t

/-! ### What the inputs come to together -/

/-- What the inputs of a task come to together, before its own function has run. -/
def Met (res : Yields ν) (made : Nat) (failed : Nat → Prop) (m : Maker ν) :
    Except Failure (List ν) → Nat → Prop
  | .ok vs, t => Succeed res made m.inputs vs t
  | .error e, t => m.Fails res made failed e t

/-- What a task does with the values of its inputs. -/
def Maker.act : Maker ν → List ν → Option (Later ν)
  | .source l _, [] => some l
  | .map _ f, [v] => some ⟨0, f v⟩
  | .andThen _ f, [v] => some (f v)
  | .combine _ _ f, [a, b] => some ⟨0, f a b⟩
  | .all _ pack, vs => some ⟨0, .ok (pack vs)⟩
  | _, _ => none

/-- What the outcomes of the inputs come to, as far as they are there. -/
def Maker.join (m : Maker ν) (os : List (Option (Outcome ν))) : Option (Except Failure (List ν)) :=
  if m.isMany then joinInOrder os else joinEarly os

/-- What the inputs come to, looked at in a view of the outcomes. -/
def Maker.seen (m : Maker ν) (view : Nat → Option (Outcome ν)) : Option (Except Failure (List ν)) :=
  m.join (m.inputs.map view)

/-- **What a look at a task finds**, and what the task does then. -/
inductive Maker.Polled (m : Maker ν) (view : Nat → Option (Outcome ν)) : Progress ν → Prop where
  | waits (h : m.seen view = none) : Polled m view .waits
  | fails {e : Failure} (h : m.seen view = some (.error e)) : Polled m view (.ends (.error e))
  | sleeps {vs : List ν} {l : Later ν} (h : m.seen view = some (.ok vs)) (hact : m.act vs = some l) :
      Polled m view (.sleeps l.delay l.result)
  | ends {vs : List ν} {l : Later ν} (h : m.seen view = some (.ok vs)) (hact : m.act vs = some l)
      (hdelay : l.delay = 0) : Polled m view (.ends (outcomeOf l.result))
  | gathers {is : List Nat} {pack : List ν → ν} (h : m = .all is pack) (hmany : sideBySide < is.length) :
      Polled m view (.gathers is pack)

theorem Maker.Polled.start {m : Maker ν} {view : Nat → Option (Outcome ν)} {vs : List ν} {l : Later ν}
    (h : m.seen view = some (.ok vs)) (hact : m.act vs = some l) : m.Polled view l.start := by
  unfold Later.start
  split_ifs with hdelay
  · exact .ends h hact hdelay
  · exact .sleeps h hact

theorem joinEarly_singleton (o : Option (Outcome ν)) :
    joinEarly [o] = o.map fun r => r.map fun v => [v] := by
  rcases o with _ | (e | v) <;> rfl

theorem Maker.polled (m : Maker ν) (view : Nat → Option (Outcome ν)) : m.Polled view (m.poll view) := by
  cases m with
  | source l apart =>
    have hseen : (Maker.source l apart).seen view = some (.ok []) := rfl
    cases apart with
    | true => exact .sleeps hseen rfl
    | false => exact .start hseen rfl
  | map i f =>
    have hseen : (Maker.map i f).seen view = (view i).map fun r => r.map fun v => [v] :=
      joinEarly_singleton _
    rw [Maker.poll]
    rcases hi : view i with _ | (e | v) <;> rw [hi] at hseen
    · exact .waits hseen
    · exact .fails hseen
    · exact .ends hseen (l := ⟨0, f v⟩) rfl rfl
  | andThen i f =>
    have hseen : (Maker.andThen i f).seen view = (view i).map fun r => r.map fun v => [v] :=
      joinEarly_singleton _
    rw [Maker.poll]
    rcases hi : view i with _ | (e | v) <;> rw [hi] at hseen
    · exact .waits hseen
    · exact .fails hseen
    · exact .start hseen rfl
  | combine l r f =>
    have hseen : (Maker.combine l r f).seen view =
        (joinPair (view l) (view r)).map fun o => o.map fun ab => [ab.1, ab.2] := by
      rcases hl : view l with _ | (e | a) <;> rcases hr : view r with _ | (e' | b) <;>
        simp [Maker.seen, Maker.join, Maker.isMany, Maker.inputs, joinPair, joinEarly, firstFailure,
          allValues, hl, hr, Except.map]
    rw [Maker.poll]
    rcases hj : joinPair (view l) (view r) with _ | (e | ⟨a, b⟩) <;> rw [hj] at hseen
    · exact .waits hseen
    · exact .fails hseen
    · exact .ends hseen (l := ⟨0, f a b⟩) rfl rfl
  | all is pack =>
    rw [Maker.poll]
    split_ifs with hmany
    · exact .gathers rfl hmany
    · have hseen : (Maker.all is pack).seen view = joinEarly (is.map view) := by
        simp [Maker.seen, Maker.join, Maker.isMany, Maker.inputs, hmany]
      rcases hj : joinEarly (is.map view) with _ | (e | vs) <;> rw [hj] at hseen
      · exact .waits hseen
      · exact .fails hseen
      · exact .ends hseen (l := ⟨0, .ok (pack vs)⟩) rfl rfl

/-- What a task comes to once its inputs have met. -/
theorem Met.means {res : Yields ν} {made t : Nat} {failed : Nat → Prop} {m : Maker ν} {vs : List ν}
    {l : Later ν} (h : Met res made failed m (.ok vs) t) (hact : m.act vs = some l) :
    Means res made failed m (outcomeOf l.result) (t + min l.delay Executor.longestSleep) := by
  replace h : Succeed res made m.inputs vs t := h
  cases m with
  | source l' apart =>
    cases h
    cases hact
    exact .source
  | map i f =>
    rcases h with _ | ⟨hi, ⟨⟩⟩
    cases hact
    exact .map hi
  | andThen i f =>
    rcases h with _ | ⟨hi, ⟨⟩⟩
    cases hact
    exact .andThen hi
  | combine l' r f =>
    rcases h with _ | ⟨hl, _ | ⟨hr, ⟨⟩⟩⟩
    cases hact
    exact .combine hl hr
  | all is pack =>
    cases hact
    exact .all h

/-- What a gathering has come to, once its inputs have met. -/
theorem Means.of_gathered {res : Yields ν} {made t : Nat} {failed : Nat → Prop} {is : List Nat}
    {pack : List ν → ν} {r : Except Failure (List ν)} (h : Met res made failed (.all is pack) r t) :
    Means res made failed (.all is pack) (r.map pack) t := by
  rcases r with e | vs
  · exact .fails h
  · exact .all h

/-- **A task's inputs meet, and then its own function takes its time**, unless an input has failed. -/
theorem Means.met {res : Yields ν} {made t : Nat} {failed : Nat → Prop} {m : Maker ν} {o : Outcome ν}
    (h : Means res made failed m o t) :
    (∃ vs l s, Met res made failed m (.ok vs) s ∧ m.act vs = some l ∧ o = outcomeOf l.result ∧
      t = s + min l.delay Executor.longestSleep) ∨
    ∃ e, Met res made failed m (.error e) t ∧ o = .error e := by
  cases h with
  | source => exact .inl ⟨[], _, made, .nil, rfl, rfl, rfl⟩
  | map h => exact .inl ⟨_, ⟨0, _⟩, _, .cons h .nil, rfl, rfl, by simp⟩
  | andThen h => exact .inl ⟨_, _, _, .cons h .nil, rfl, rfl, rfl⟩
  | combine hl hr => exact .inl ⟨_, ⟨0, _⟩, _, .cons hl (.cons hr .nil), rfl, rfl, by simp⟩
  | all h => exact .inl ⟨_, ⟨0, _⟩, _, h, rfl, rfl, by simp⟩
  | fails h => exact .inr ⟨_, h, rfl⟩

/-! ### What is settled -/

section Settled

variable {res res' : Yields ν} {made : Nat} {failed : Nat → Prop}

theorem Succeed.made_le {is : List Nat} {vs : List ν} {t : Nat} (h : Succeed res made is vs t) :
    made ≤ t := by
  induction h with
  | nil => exact Nat.le_refl _
  | cons _ _ ih => omega

theorem FailsInOrder.made_le {is : List Nat} {e : Failure} {t : Nat} (h : FailsInOrder res made is e t) :
    made ≤ t := by
  induction h with
  | here _ => omega
  | later _ _ ih => omega

theorem Succeed.value {is : List Nat} {vs : List ν} {t : Nat} (h : Succeed res made is vs t) :
    ∀ j ∈ is, ∃ v s, res j = some (.ok v, s) := by
  induction h with
  | nil => simp
  | cons hi _ ih => exact List.forall_mem_cons.2 ⟨⟨_, _, hi⟩, ih⟩

theorem FailsInOrder.failing {is : List Nat} {e : Failure} {t : Nat} (h : FailsInOrder res made is e t) :
    ∃ j ∈ is, ∃ s, res j = some (.error e, s) := by
  induction h with
  | here hi => exact ⟨_, by simp, _, hi⟩
  | later _ _ ih =>
    obtain ⟨j, hj, hfail⟩ := ih
    exact ⟨j, List.mem_cons_of_mem _ hj, hfail⟩

theorem Maker.Fails.failing {m : Maker ν} {e : Failure} {t : Nat} (h : m.Fails res made failed e t) :
    ∃ j ∈ m.inputs, ∃ s, res j = some (.error e, s) := by
  unfold Maker.Fails at h
  split_ifs at h with hmany
  · exact h.failing
  · obtain ⟨front, k, rest, s, his, hk, -⟩ := h.fails
    exact ⟨k, by simp [his], s, hk⟩

theorem Succeed.unique {is : List Nat} {vs vs' : List ν} {t t' : Nat} (h : Succeed res made is vs t)
    (h' : Succeed res made is vs' t') : vs = vs' ∧ t = t' := by
  induction h generalizing vs' t' with
  | nil => cases h'; exact ⟨rfl, rfl⟩
  | cons hi _ ih =>
    rcases h' with _ | ⟨hi', hrest'⟩
    obtain ⟨rfl, rfl⟩ := ih hrest'
    rw [hi] at hi'
    cases hi'
    exact ⟨rfl, rfl⟩

/-- Inputs that have all succeeded do not meet otherwise. -/
theorem Met.unique {m : Maker ν} {vs : List ν} {r : Except Failure (List ν)} {t t' : Nat}
    (h : Met res made failed m (.ok vs) t) (h' : Met res made failed m r t') : r = .ok vs ∧ t' = t := by
  rcases r with e | vs'
  · obtain ⟨j, hj, s, hfail⟩ := Maker.Fails.failing h'
    obtain ⟨v, s', hv⟩ := Succeed.value h j hj
    rw [hfail] at hv
    cases hv
  · obtain ⟨rfl, rfl⟩ := Succeed.unique h h'
    exact ⟨rfl, rfl⟩

/-- What the inputs have met in stays, if what is yielded later does not come before it. -/
theorem Met.mono {m : Maker ν} {r : Except Failure (List ν)} {t : Nat} (h : Met res made failed m r t)
    (hkeep : ∀ j ∈ m.inputs, ∀ y, res j = some y → res' j = some y)
    (hlate : ∀ j ∈ m.inputs, ∀ o s, res j = none → res' j = some (o, s) → t ≤ s) :
    Met res' made failed m r t := by
  have hsucceed : ∀ is vs t, Succeed res made is vs t → (∀ j ∈ is, j ∈ m.inputs) →
      Succeed res' made is vs t := by
    intro is vs t h hmem
    induction h with
    | nil => exact .nil
    | cons hi _ ih =>
      obtain ⟨hj, hmem⟩ := List.forall_mem_cons.1 hmem
      exact .cons (hkeep _ hj _ hi) (ih hmem)
  have hinOrder : ∀ is e t, FailsInOrder res made is e t → (∀ j ∈ is, j ∈ m.inputs) →
      FailsInOrder res' made is e t := by
    intro is e t h hmem
    induction h with
    | here hi => exact .here (hkeep _ (hmem _ (by simp)) _ hi)
    | later hi _ ih =>
      obtain ⟨hj, hmem⟩ := List.forall_mem_cons.1 hmem
      exact .later (hkeep _ hj _ hi) (ih hmem)
  rcases r with e | vs
  · replace h : m.Fails res made failed e t := h
    show m.Fails res' made failed e t
    unfold Maker.Fails at h ⊢
    split_ifs at h ⊢ with hmany
    · exact hinOrder _ _ _ h fun j hj => hj
    · obtain ⟨front, k, rest, s, his, hk, ht, hfront⟩ := h.fails
      refine ⟨⟨front, k, rest, s, his, hkeep k (by simp [his]) _ hk, ht, hfront⟩, ?_⟩
      intro j hj e' s' hj'
      rcases hold : res j with _ | y
      · have := hlate j hj _ _ hold hj'
        omega
      · rw [hkeep j hj y hold] at hj'
        cases hj'
        exact h.first j hj e' s' hold
  · exact hsucceed _ _ _ h fun j hj => hj

theorem Means.mono {m : Maker ν} {o : Outcome ν} {t : Nat} (h : Means res made failed m o t)
    (hkeep : ∀ j ∈ m.inputs, ∀ y, res j = some y → res' j = some y)
    (hlate : ∀ j ∈ m.inputs, ∀ o s, res j = none → res' j = some (o, s) → t ≤ s) :
    Means res' made failed m o t := by
  rcases h.met with ⟨vs, l, s, hmet, hact, rfl, rfl⟩ | ⟨e, hmet, rfl⟩
  · exact (hmet.mono hkeep fun j hj o s' hold hnew => by have := hlate j hj o s' hold hnew; omega).means hact
  · exact .fails (hmet.mono hkeep hlate)

end Settled

/-! ### Looking at the inputs -/

section Looking

variable {res : Yields ν} {made now : Nat} {failed : Nat → Prop} {view : Nat → Option (Outcome ν)}

/-- A view shows outcomes that are there, all of them or not. -/
def Yields.Shows (res : Yields ν) (now : Nat) (view : Nat → Option (Outcome ν)) : Prop :=
  ∀ j o, view j = some o → ∃ s ≤ now, res j = some (o, s)

theorem Yields.before_eq_some {j s n : Nat} {o : Outcome ν} (h : res j = some (o, s)) (hs : s < n) :
    res.before n j = some o := by
  rw [Yields.before, h]
  exact if_pos hs

theorem firstFailure_eq_none {is : List Nat} (h : firstFailure (is.map view) = none) :
    ∀ j ∈ is, ∀ e, view j ≠ some (.error e) := by
  induction is with
  | nil => simp
  | cons i is ih =>
    rw [List.map_cons] at h
    rcases hi : view i with _ | (e | v) <;> rw [hi] at h
    · exact List.forall_mem_cons.2 ⟨by simp [hi], ih h⟩
    · cases h
    · exact List.forall_mem_cons.2 ⟨by simp [hi], ih h⟩

theorem firstFailure_eq_some {is : List Nat} {e : Failure} (h : firstFailure (is.map view) = some e) :
    ∃ front k rest, is = front ++ k :: rest ∧ view k = some (.error e) ∧
      ∀ j ∈ front, ∀ e', view j ≠ some (.error e') := by
  induction is with
  | nil => cases h
  | cons i is ih =>
    rw [List.map_cons] at h
    have hlater : firstFailure (is.map view) = some e → (∀ e', view i ≠ some (.error e')) →
        ∃ front k rest, i :: is = front ++ k :: rest ∧ view k = some (.error e) ∧
          ∀ j ∈ front, ∀ e', view j ≠ some (.error e') := by
      intro h hi
      obtain ⟨front, k, rest, rfl, hk, hfront⟩ := ih h
      exact ⟨i :: front, k, rest, rfl, hk, List.forall_mem_cons.2 ⟨hi, hfront⟩⟩
    rcases hi : view i with _ | (e' | v) <;> rw [hi] at h
    · exact hlater h (by simp [hi])
    · cases h
      exact ⟨[], i, is, rfl, hi, by simp⟩
    · exact hlater h (by simp [hi])

theorem succeed_of_allValues (hshows : res.Shows now view) (hmade : made ≤ now) {is : List Nat}
    {vs : List ν} (h : allValues (is.map view) = some vs) : ∃ t ≤ now, Succeed res made is vs t := by
  induction is generalizing vs with
  | nil => cases h; exact ⟨made, hmade, .nil⟩
  | cons i is ih =>
    rw [List.map_cons] at h
    rcases hi : view i with _ | (e | v) <;> rw [hi] at h
    · cases h
    · cases h
    · obtain ⟨vs, hrest, rfl⟩ := Option.map_eq_some_iff.1 h
      obtain ⟨t, ht, hrest⟩ := ih hrest
      obtain ⟨s, hs, hi⟩ := hshows i _ hi
      exact ⟨max s t, by omega, .cons hi hrest⟩

theorem allValues_of_succeed {is : List Nat} {vs : List ν} {n t : Nat} (h : Succeed res made is vs t)
    (ht : t < n) : allValues (is.map (res.before n)) = some vs := by
  induction h with
  | nil => rfl
  | cons hi _ ih =>
    rw [List.map_cons, Yields.before_eq_some hi (by omega), allValues, ih (by omega)]
    rfl

/-- In argument order, what a look finds is what the inputs come to. -/
theorem of_joinInOrder (hshows : res.Shows now view) (hmade : made ≤ now) {is : List Nat}
    {r : Except Failure (List ν)} (h : joinInOrder (is.map view) = some r) :
    ∃ t ≤ now, (∃ vs, r = .ok vs ∧ Succeed res made is vs t) ∨
      ∃ e, r = .error e ∧ FailsInOrder res made is e t := by
  induction is generalizing r with
  | nil => cases h; exact ⟨made, hmade, .inl ⟨[], rfl, .nil⟩⟩
  | cons i is ih =>
    rw [List.map_cons] at h
    rcases hi : view i with _ | (e | v) <;> rw [hi] at h
    · cases h
    · cases h
      obtain ⟨s, hs, hi⟩ := hshows i _ hi
      exact ⟨max s made, by omega, .inr ⟨e, rfl, .here hi⟩⟩
    · obtain ⟨r, hrest, rfl⟩ := Option.map_eq_some_iff.1 h
      obtain ⟨s, hs, hi⟩ := hshows i _ hi
      obtain ⟨t, ht, ⟨vs, rfl, hvs⟩ | ⟨e, rfl, he⟩⟩ := ih hrest
      · exact ⟨max s t, by omega, .inl ⟨v :: vs, rfl, .cons hi hvs⟩⟩
      · exact ⟨max s t, by omega, .inr ⟨e, rfl, .later hi he⟩⟩

theorem joinInOrder_of_succeed {is : List Nat} {vs : List ν} {n t : Nat} (h : Succeed res made is vs t)
    (ht : t < n) : joinInOrder (is.map (res.before n)) = some (.ok vs) := by
  induction h with
  | nil => rfl
  | cons hi _ ih =>
    rw [List.map_cons, Yields.before_eq_some hi (by omega), joinInOrder, ih (by omega)]
    rfl

theorem joinInOrder_of_fails {is : List Nat} {e : Failure} {n t : Nat} (h : FailsInOrder res made is e t)
    (ht : t < n) : joinInOrder (is.map (res.before n)) = some (.error e) := by
  induction h with
  | here hi => rw [List.map_cons, Yields.before_eq_some hi (by omega), joinInOrder]
  | later hi _ ih =>
    rw [List.map_cons, Yields.before_eq_some hi (by omega), joinInOrder, ih (by omega)]
    rfl

/-- Awaited side by side, a failure is seen wherever it is. -/
theorem joinEarly_of_failing {is : List Nat} {j : Nat} {e : Failure} (hj : j ∈ is)
    (h : view j = some (.error e)) : joinEarly (is.map view) ≠ none := by
  rw [joinEarly]
  rcases hf : firstFailure (is.map view) with _ | e'
  · exact absurd h (firstFailure_eq_none hf j hj e)
  · exact Option.some_ne_none _

/-- **What the inputs come to is seen after that time.** -/
theorem Met.seen_before {m : Maker ν} {r : Except Failure (List ν)} {n t : Nat}
    (h : Met res made failed m r t) (ht : t < n) : m.seen (res.before n) ≠ none := by
  unfold Maker.seen Maker.join
  rcases r with e | vs
  · replace h : m.Fails res made failed e t := h
    unfold Maker.Fails at h
    split_ifs at h ⊢ with hmany
    · rw [joinInOrder_of_fails h ht]
      exact Option.some_ne_none _
    · obtain ⟨front, k, rest, s, his, hk, hs, -⟩ := h.fails
      exact joinEarly_of_failing (by simp [his]) (Yields.before_eq_some hk (by omega))
  · replace h : Succeed res made m.inputs vs t := h
    split_ifs with hmany
    · rw [joinInOrder_of_succeed h ht]
      exact Option.some_ne_none _
    · rw [joinEarly, allValues_of_succeed h ht]
      rcases firstFailure (m.inputs.map (res.before n)) <;> exact Option.some_ne_none _

/-- Inputs that are all there have met. -/
theorem Maker.seen_ne_none {m : Maker ν} (h : ∀ j ∈ m.inputs, view j ≠ none) : m.seen view ≠ none := by
  have hvalues : ∀ is : List Nat, (∀ j ∈ is, view j ≠ none) →
      firstFailure (is.map view) ≠ none ∨ allValues (is.map view) ≠ none := by
    intro is his
    induction is with
    | nil => exact .inr (Option.some_ne_none _)
    | cons i is ih =>
      obtain ⟨hi, his⟩ := List.forall_mem_cons.1 his
      rw [List.map_cons]
      rcases hv : view i with _ | (e | v)
      · exact absurd hv hi
      · exact .inl (Option.some_ne_none _)
      · exact (ih his).imp id fun hall => by simpa [allValues] using hall
  have hinOrder : ∀ is : List Nat, (∀ j ∈ is, view j ≠ none) → joinInOrder (is.map view) ≠ none := by
    intro is his
    induction is with
    | nil => exact Option.some_ne_none _
    | cons i is ih =>
      obtain ⟨hi, his⟩ := List.forall_mem_cons.1 his
      rw [List.map_cons]
      rcases hv : view i with _ | (e | v)
      · exact absurd hv hi
      · exact Option.some_ne_none _
      · simpa [joinInOrder] using ih his
  unfold Maker.seen Maker.join
  split_ifs with hmany
  · exact hinOrder m.inputs h
  · rw [joinEarly]
    rcases hf : firstFailure (m.inputs.map view) with _ | e
    · have hall := (hvalues m.inputs h).resolve_left (by simp [hf])
      simpa using hall
    · exact Option.some_ne_none _

/-- **What a look finds is what the inputs come to, and it is found in time**: either the task has just
been made, or nothing could be said before. -/
theorem Met.of_seen {m : Maker ν} {r : Except Failure (List ν)} (hshows : res.Shows now view)
    (hmade : made ≤ now) (htime : made = now ∨ m.seen (res.before now) = none)
    (hfailed : m.isMany = false → ∀ j, failed j → ∃ e, view j = some (.error e))
    (h : m.seen view = some r) : Met res made failed m r now := by
  -- once the inputs are known to meet by now, they meet now
  have hnow : ∀ t ≤ now, made ≤ t → Met res made failed m r t → Met res made failed m r now := by
    intro t ht hmt hmet
    rcases Nat.lt_or_ge t now with hlt | hge
    · rcases htime with rfl | hnone
      · omega
      · exact absurd hnone (hmet.seen_before hlt)
    · rwa [Nat.le_antisymm ht hge] at hmet
  unfold Maker.seen Maker.join at h
  split_ifs at h with hmany
  · obtain ⟨t, ht, ⟨vs, rfl, hvs⟩ | ⟨e, rfl, he⟩⟩ := of_joinInOrder hshows hmade h
    · exact hnow t ht hvs.made_le hvs
    · have hfails : m.Fails res made failed e t := by rw [Maker.Fails, if_pos hmany]; exact he
      exact hnow t ht he.made_le hfails
  · rw [joinEarly] at h
    rcases hf : firstFailure (m.inputs.map view) with _ | e <;> simp only [hf] at h
    · obtain ⟨vs, hvs, rfl⟩ := Option.map_eq_some_iff.1 h
      obtain ⟨t, ht, hvs⟩ := succeed_of_allValues hshows hmade hvs
      exact hnow t ht hvs.made_le hvs
    · cases h
      obtain ⟨front, k, rest, his, hk, hfront⟩ := firstFailure_eq_some hf
      obtain ⟨s, hs, hk⟩ := hshows k _ hk
      -- no input has failed before now, unless the task has just been made
      have hlate : ∀ j ∈ m.inputs, ∀ e' s', res j = some (.error e', s') → now ≤ max s' made := by
        intro j hj e' s' hj'
        rcases htime with rfl | hnone
        · omega
        · by_contra hlt
          have hseen : m.seen (res.before now) ≠ none := by
            rw [Maker.seen, Maker.join, if_neg hmany]
            exact joinEarly_of_failing hj (Yields.before_eq_some hj' (by omega))
          exact hseen hnone
      have hkey : now = max s made := by
        have := hlate k (by simp [his]) e s hk
        omega
      show m.Fails res made failed e now
      rw [Maker.Fails, if_neg hmany]
      refine ⟨⟨front, k, rest, s, his, hk, hkey, ?_⟩, hlate⟩
      intro j hj hfail
      obtain ⟨e', he'⟩ := hfailed (by simpa using hmany) j hfail
      exact hfront j hj e' he'

end Looking

end Handoff.Deferred
