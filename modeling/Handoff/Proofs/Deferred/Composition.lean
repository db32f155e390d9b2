import Handoff.Proofs.Deferred.Calls
import Handoff.Proofs.Deferred.Timeline

/-! # Failures in a composition

A composition is a tree: its leaves are sources, and at every other place stands a function of the values of
the places below. Where a function breaks off, all that is above it fails with the same failure.

* `Composition.value?`: the value of a composition in which nothing breaks off.
* `Composition.breaks`: what its leaves and functions break off with, those whose inputs succeed.
* `Composition.IsBuilt`: a task of a program is the root of a composition.
* `Composition.tells`: what the root comes to is the value or one of the breaks.
* `Composition.exists_raised`: any composition can be made.
-/

namespace Handoff.Deferred

variable {ν : Type}

/-- **A composition**: how a value is put together. -/
inductive Composition (ν : Type) where
  | source (later : Later ν) (apart : Bool)
  | map (input : Composition ν) (f : ν → Except Panic ν)
  | andThen (input : Composition ν) (f : ν → Later ν)
  | combine (left right : Composition ν) (f : ν → ν → Except Panic ν)
  | all (inputs : List (Composition ν)) (pack : List ν → ν)

/-- The value of a function that has run and not broken off. -/
def succeeded : Option (Except Panic ν) → Option ν
  | some (.ok v) => some v
  | _ => none

/-- What a function that has run has broken off with. -/
def broken : Option (Except Panic ν) → List Panic
  | some (.error b) => [b]
  | _ => []

namespace Composition

mutual

/-- **What the function at the root comes to**; nothing if one of its inputs does not succeed. -/
def own? : Composition ν → Option (Except Panic ν)
  | source l _ => some l.result
  | map c f => (succeeded c.own?).map f
  | andThen c f => (succeeded c.own?).map fun v => (f v).result
  | combine l r f => (succeeded l.own?).bind fun a => (succeeded r.own?).map (f a)
  | all cs pack => (values? cs).map fun vs => .ok (pack vs)

/-- The values of compositions that all succeed. -/
def values? : List (Composition ν) → Option (List ν)
  | [] => some []
  | c :: cs => (succeeded c.own?).bind fun v => (values? cs).map (v :: ·)

end

/-- **The value of a composition** in which nothing breaks off. -/
def value? (c : Composition ν) : Option ν := succeeded c.own?

mutual

/-- **What the leaves and the functions of a composition break off with**, those of them whose inputs all
succeed. -/
def breaks : Composition ν → List Panic
  | source l apart => broken (source l apart).own?
  | map c f => c.breaks ++ broken (map c f).own?
  | andThen c f => c.breaks ++ broken (andThen c f).own?
  | combine l r f => l.breaks ++ r.breaks ++ broken (combine l r f).own?
  | all cs _ => breaksOfAll cs

/-- What the leaves and the functions of compositions break off with. -/
def breaksOfAll : List (Composition ν) → List Panic
  | [] => []
  | c :: cs => c.breaks ++ breaksOfAll cs

end

theorem succeeded_eq_some_iff {o : Option (Except Panic ν)} {v : ν} :
    succeeded o = some v ↔ o = some (.ok v) := by
  rcases o with _ | (b | v') <;> simp [succeeded]

/-- A function that runs succeeds if and only if it does not break off. -/
theorem isSome_succeeded_map {α : Type} {o : Option α} (f : α → Except Panic ν) :
    (succeeded (o.map f)).isSome ↔ o.isSome ∧ broken (o.map f) = [] := by
  rcases o with _ | a
  · simp [succeeded]
  · rcases hf : f a with b | v <;> simp [succeeded, broken, hf]

mutual

/-- **A composition has a value if and only if nothing in it breaks off.** -/
theorem isSome_value?_iff : ∀ c : Composition ν, c.value?.isSome ↔ c.breaks = []
  | source l apart => by
    rw [value?, breaks, own?]
    rcases l.result with b | v <;> simp [succeeded, broken]
  | map c f => by
    have hc := isSome_value?_iff c
    rw [value?] at hc
    rw [value?, breaks, own?, isSome_succeeded_map, hc, List.append_eq_nil_iff]
  | andThen c f => by
    have hc := isSome_value?_iff c
    rw [value?] at hc
    rw [value?, breaks, own?, isSome_succeeded_map, hc, List.append_eq_nil_iff]
  | combine l r f => by
    have hl := isSome_value?_iff l
    have hr := isSome_value?_iff r
    rw [value?] at hl hr
    rw [value?, breaks, own?, List.append_eq_nil_iff, List.append_eq_nil_iff, ← hl, ← hr]
    rcases ha : succeeded l.own? with _ | a
    · simp [succeeded]
    · rw [Option.bind_some, isSome_succeeded_map]
      simp
  | all cs pack => by
    have hcs := isSome_values?_iff cs
    rw [value?, breaks, own?, isSome_succeeded_map, hcs]
    rcases values? cs with _ | vs <;> simp [broken]

theorem isSome_values?_iff : ∀ cs : List (Composition ν), (values? cs).isSome ↔ breaksOfAll cs = []
  | [] => by simp [values?, breaksOfAll]
  | c :: cs => by
    have hc := isSome_value?_iff c
    have hcs := isSome_values?_iff cs
    rw [value?] at hc
    rw [values?, breaksOfAll, List.append_eq_nil_iff, ← hc, ← hcs]
    rcases succeeded c.own? with _ | v <;> simp

end

/-- What the function at the root breaks off with is among the breaks. -/
theorem mem_breaks_of_own? {c : Composition ν} {b : Panic} (h : c.own? = some (.error b)) : b ∈ c.breaks := by
  cases c with
  | source l apart => simp [breaks, h, broken]
  | map c f => simp [breaks, h, broken]
  | andThen c f => simp [breaks, h, broken]
  | combine l r f => simp [breaks, h, broken]
  | all cs pack => rcases hvs : values? cs with _ | vs <;> simp [own?, hvs] at h

/-! ### Compositions in programs -/

mutual

/-- **A task is the root of a composition**, when tasks are made by these makers. -/
def IsBuilt (ms : List (Maker ν)) : Composition ν → Nat → Prop
  | source l apart, i => ms[i]? = some (.source l apart)
  | map c f, i => ∃ j, ms[i]? = some (.map j f) ∧ c.IsBuilt ms j
  | andThen c f, i => ∃ j, ms[i]? = some (.andThen j f) ∧ c.IsBuilt ms j
  | combine l r f, i => ∃ j k, ms[i]? = some (.combine j k f) ∧ l.IsBuilt ms j ∧ r.IsBuilt ms k
  | all cs pack, i => ∃ is, ms[i]? = some (.all is pack) ∧ AreBuilt ms cs is

/-- Tasks are the roots of compositions. -/
def AreBuilt (ms : List (Maker ν)) : List (Composition ν) → List Nat → Prop
  | [], is => is = []
  | c :: cs, is => ∃ j js, is = j :: js ∧ c.IsBuilt ms j ∧ AreBuilt ms cs js

end

/-- **An outcome that a composition can come to**: its value, or the failure of one of its leaves or
functions. -/
def Tells (c : Composition ν) : Outcome ν → Prop
  | .ok v => c.value? = some v
  | .error e => ∃ b ∈ c.breaks, e = b.failure

theorem tells_own {c : Composition ν} {r : Except Panic ν} (h : c.own? = some r) : c.Tells (outcomeOf r) := by
  rcases r with b | v
  · exact ⟨b, mem_breaks_of_own? h, rfl⟩
  · exact succeeded_eq_some_iff.2 h

/-- All inputs have succeeded with the values with which they succeed in time. -/
theorem values_of_succeed {res : Yields ν} {made t : Nat} {is : List Nat} {vs : List ν}
    (h : Succeed res made is vs t) : res.Values is vs := by
  induction h with
  | nil => exact .nil
  | cons hi _ ih => exact .cons (by rw [Yields.outcome, hi]; rfl) ih

section Tells

open Executor (InOrder result? Account)

variable {book : List (Entry ν)} {y : Executor ν}

/-- What a task has come to comes of its inputs: they have succeeded and its own function has run, or one has
failed and its failure is passed on. -/
theorem of_outcome {i : Nat} {m : Maker ν} {o : Outcome ν} (h : InOrder book y)
    (hm : (book.map Entry.maker)[i]? = some m) (ho : y.result?.outcome i = some o) :
    (∃ vs l, y.result?.Values m.inputs vs ∧ m.act vs = some l ∧ o = outcomeOf l.result) ∨
      ∃ e, ∃ j ∈ m.inputs, y.result?.outcome j = some (.error e) ∧ o = .error e := by
  rw [List.getElem?_map, Option.map_eq_some_iff] at hm
  obtain ⟨b, hb, rfl⟩ := hm
  obtain ⟨t, -, hres⟩ := h.shows i o ho
  rcases (Executor.Account.means h hres hb).met with ⟨vs, l, s, hmet, hact, ho, -⟩ | ⟨e, hmet, ho⟩
  · exact .inl ⟨vs, l, values_of_succeed hmet, hact, ho⟩
  · obtain ⟨j, hj, s, hfail⟩ := Maker.Fails.failing hmet
    exact .inr ⟨e, j, hj, by rw [Yields.outcome, hfail]; rfl, ho⟩

/-- **The roots of compositions come to what these can come to**: all values together are theirs, and what any
of them fails with is one of their breaks. -/
structure AllTell (res : Yields ν) (cs : List (Composition ν)) (is : List Nat) : Prop where
  values : ∀ vs, res.Values is vs → values? cs = some vs
  breaks : ∀ j ∈ is, ∀ e, res.outcome j = some (.error e) → ∃ b ∈ breaksOfAll cs, e = b.failure

theorem AllTell.nil {res : Yields ν} : AllTell res [] [] := by
  refine ⟨fun vs hvs => ?_, fun j hj => absurd hj List.not_mem_nil⟩
  cases hvs
  rfl

theorem AllTell.cons {res : Yields ν} {c : Composition ν} {cs : List (Composition ν)} {j : Nat} {js : List Nat}
    (hc : ∀ o, res.outcome j = some o → c.Tells o) (hcs : AllTell res cs js) :
    AllTell res (c :: cs) (j :: js) := by
  refine ⟨fun vs hvs => ?_, fun k hk e hfail => ?_⟩
  · rcases hvs with _ | ⟨hv, hrest⟩
    have hvalue := hc _ hv
    rw [values?, ← value?, hvalue, hcs.values _ hrest]
    rfl
  · rcases List.mem_cons.1 hk with rfl | hk
    · obtain ⟨b, hb, rfl⟩ := hc _ hfail
      exact ⟨b, List.mem_append_left _ hb, rfl⟩
    · obtain ⟨b, hb, rfl⟩ := hcs.breaks k hk e hfail
      exact ⟨b, List.mem_append_right _ hb, rfl⟩

/-- A task tells of the composition that it is the root of, if its inputs tell of those below: on their values
it comes to what the function at the root comes to, and their breaks are breaks of the whole. -/
theorem tells_node {i : Nat} {m : Maker ν} {c : Composition ν} {cs : List (Composition ν)} (h : InOrder book y)
    (hm : (book.map Entry.maker)[i]? = some m) (hcs : AllTell y.result? cs m.inputs)
    (hown : ∀ vs l, values? cs = some vs → m.act vs = some l → c.own? = some l.result)
    (hbreaks : ∀ b ∈ breaksOfAll cs, b ∈ c.breaks) : ∀ o, y.result?.outcome i = some o → c.Tells o := by
  intro o ho
  rcases of_outcome h hm ho with ⟨vs, l, hvs, hact, rfl⟩ | ⟨e, j, hj, hfail, rfl⟩
  · exact tells_own (hown vs l (hcs.values vs hvs) hact)
  · obtain ⟨b, hb, rfl⟩ := hcs.breaks j hj e hfail
    exact ⟨b, hbreaks b hb, rfl⟩

/-- The one value of one composition. -/
theorem values?_singleton {c : Composition ν} {vs : List ν} (h : values? [c] = some vs) :
    ∃ v, succeeded c.own? = some v ∧ vs = [v] := by
  obtain ⟨v, hv, hrest⟩ := Option.bind_eq_some_iff.1 h
  cases hrest
  exact ⟨v, hv, rfl⟩

/-- The two values of two compositions. -/
theorem values?_pair {l r : Composition ν} {vs : List ν} (h : values? [l, r] = some vs) :
    ∃ a b, succeeded l.own? = some a ∧ succeeded r.own? = some b ∧ vs = [a, b] := by
  obtain ⟨a, ha, hrest⟩ := Option.bind_eq_some_iff.1 h
  obtain ⟨bs, hbs, rfl⟩ := Option.map_eq_some_iff.1 hrest
  obtain ⟨b, hb, rfl⟩ := values?_singleton hbs
  exact ⟨a, b, ha, hb, rfl⟩

mutual

/-- **The root of a composition comes to what the composition can come to.** -/
theorem tells (h : InOrder book y) : ∀ (c : Composition ν) (i : Nat),
    c.IsBuilt (book.map Entry.maker) i → ∀ o, y.result?.outcome i = some o → c.Tells o
  | source l apart, i, hm => by
    refine tells_node h hm .nil (fun vs l' hvs hact => ?_) fun b hb => absurd hb List.not_mem_nil
    cases hvs
    cases hact
    rfl
  | map c f, i, ⟨j, hm, hc⟩ => by
    have hbelow : AllTell y.result? [c] [j] := .cons (tells h c j hc) .nil
    refine tells_node h hm hbelow (fun vs l hvs hact => ?_) fun b hb => ?_
    · obtain ⟨v, hv, rfl⟩ := values?_singleton hvs
      cases hact
      rw [own?, hv]
      rfl
    · rw [breaksOfAll, breaksOfAll, List.append_nil] at hb
      exact List.mem_append_left _ hb
  | andThen c f, i, ⟨j, hm, hc⟩ => by
    have hbelow : AllTell y.result? [c] [j] := .cons (tells h c j hc) .nil
    refine tells_node h hm hbelow (fun vs l hvs hact => ?_) fun b hb => ?_
    · obtain ⟨v, hv, rfl⟩ := values?_singleton hvs
      cases hact
      rw [own?, hv]
      rfl
    · rw [breaksOfAll, breaksOfAll, List.append_nil] at hb
      exact List.mem_append_left _ hb
  | combine l r f, i, ⟨j, k, hm, hl, hr⟩ => by
    have hbelow : AllTell y.result? [l, r] [j, k] := .cons (tells h l j hl) (.cons (tells h r k hr) .nil)
    refine tells_node h hm hbelow (fun vs l' hvs hact => ?_) fun b hb => ?_
    · obtain ⟨a, b, ha, hb, rfl⟩ := values?_pair hvs
      cases hact
      rw [own?, ha, hb]
      rfl
    · rw [breaksOfAll, breaksOfAll, breaksOfAll, List.append_nil] at hb
      exact List.mem_append_left _ hb
  | all cs pack, i, ⟨is, hm, hcs⟩ => by
    refine tells_node h hm (tells_all h cs is hcs) (fun vs l hvs hact => ?_) fun b hb => hb
    cases hact
    rw [own?, hvs]
    rfl

theorem tells_all (h : InOrder book y) : ∀ (cs : List (Composition ν)) (is : List Nat),
    AreBuilt (book.map Entry.maker) cs is → AllTell y.result? cs is
  | [], _, rfl => .nil
  | c :: cs, _, ⟨j, js, rfl, hc, hcs⟩ => .cons (tells h c j hc) (tells_all h cs js hcs)

end

end Tells

/-! ### Any composition can be made -/

/-- **Compositions are raised** by these makers, the first of which makes the `n`-th task: their roots are
tasks of their own, and none of the roots is used. -/
structure Raised (n : Nat) (ms : List (Maker ν)) (cs : List (Composition ν)) (is : List Nat) : Prop where
  nodup : is.Nodup
  within : ∀ i ∈ is, n ≤ i ∧ i < n + ms.length
  built : ∀ front back, front.length = n → AreBuilt (front ++ (ms ++ back)) cs is
  linear : ∀ used rest, (∀ j ∈ used, j < n) →
    (∀ used', (∀ j ∈ used', j ∈ used ∨ n ≤ j ∧ j < n + ms.length ∧ j ∉ is) →
      IsLinear (n + ms.length) used' rest) → IsLinear n used (ms.map .make ++ rest)

section Raised

variable {n : Nat} {ms ms' : List (Maker ν)} {c : Composition ν} {cs cs' : List (Composition ν)}
  {is is' : List Nat}

theorem raised_nil : Raised (ν := ν) n [] [] [] :=
  ⟨List.nodup_nil, by simp, fun _ _ _ => rfl, fun used _ _ h => h used fun _ hj => .inl hj⟩

theorem areBuilt_append {ms : List (Maker ν)} (h : AreBuilt ms cs is) (h' : AreBuilt ms cs' is') :
    AreBuilt ms (cs ++ cs') (is ++ is') := by
  induction cs generalizing is with
  | nil =>
    obtain rfl : is = [] := h
    exact h'
  | cons c cs ih =>
    obtain ⟨j, js, rfl, hc, hrest⟩ := h
    exact ⟨j, js ++ is', rfl, hc, ih hrest⟩

theorem isBuilt_of_areBuilt {ms : List (Maker ν)} {j : Nat} (h : AreBuilt ms [c] [j]) : c.IsBuilt ms j := by
  obtain ⟨j', js, hj, hbuilt, -⟩ := h
  cases hj
  exact hbuilt

/-- Compositions are raised one after the other. -/
theorem Raised.append (h : Raised n ms cs is) (h' : Raised (n + ms.length) ms' cs' is') :
    Raised n (ms ++ ms') (cs ++ cs') (is ++ is') := by
  have hlength : n + (ms ++ ms').length = n + ms.length + ms'.length := by
    rw [List.length_append]
    omega
  refine ⟨?_, fun i hi => ?_, fun front back hfront => ?_, fun used rest hused hrest => ?_⟩
  · refine List.nodup_append.2 ⟨h.nodup, h'.nodup, ?_⟩
    rintro i hi _ hi' rfl
    have := h.within i hi
    have := h'.within i hi'
    omega
  · rw [hlength]
    rcases List.mem_append.1 hi with hi | hi
    · have := h.within i hi
      omega
    · have := h'.within i hi
      omega
  · have hfirst := h.built front (ms' ++ back) hfront
    have hsecond := h'.built (front ++ ms) back (by rw [List.length_append, hfront])
    rw [List.append_assoc] at hsecond ⊢
    exact areBuilt_append hfirst hsecond
  · rw [List.map_append, List.append_assoc]
    refine h.linear used _ hused fun used' hused' => ?_
    have hlt : ∀ j ∈ used', j < n + ms.length := by
      intro j hj
      rcases hused' j hj with hj | hj
      · have := hused j hj
        omega
      · exact hj.2.1
    refine h'.linear used' rest hlt fun used'' hused'' => ?_
    rw [← hlength]
    refine hrest used'' fun j hj => ?_
    -- what is used by the second was there before it or is none of its roots
    rcases hused'' j hj with hj | ⟨hle, hj, hnot⟩
    · rcases hused' j hj with hj | ⟨hle, hj, hnot⟩
      · exact .inl hj
      · refine .inr ⟨hle, by omega, fun hin => ?_⟩
        rcases List.mem_append.1 hin with hin | hin
        · exact hnot hin
        · have := h'.within j hin
          omega
    · refine .inr ⟨by omega, by omega, fun hin => ?_⟩
      rcases List.mem_append.1 hin with hin | hin
      · have := h.within j hin
        omega
      · exact hnot hin

/-- Once the compositions below it are raised, a task that uses just their roots raises a composition. -/
theorem Raised.node {m : Maker ν} (h : Raised n ms cs is) (hm : m.inputs = is)
    (hc : ∀ ms', ms'[n + ms.length]? = some m → AreBuilt ms' cs is → c.IsBuilt ms' (n + ms.length)) :
    Raised n (ms ++ [m]) [c] [n + ms.length] := by
  refine ⟨List.nodup_singleton _, by simp, fun front back hfront => ?_, fun used rest hused hrest => ?_⟩
  · have hbelow := h.built front ([m] ++ back) hfront
    rw [List.append_assoc]
    refine ⟨_, [], rfl, hc _ ?_ hbelow, rfl⟩
    rw [← List.append_assoc, List.getElem?_append_right (by simp [hfront])]
    simp [hfront]
  · rw [List.map_append, List.append_assoc]
    refine h.linear used _ hused fun used' hused' => ?_
    have hfree : ∀ j ∈ m.inputs, j < n + ms.length ∧ j ∉ used' := by
      intro j hj
      rw [hm] at hj
      have hin := h.within j hj
      refine ⟨hin.2, fun hj' => ?_⟩
      rcases hused' j hj' with hj' | ⟨-, -, hnot⟩
      · have := hused j hj'
        omega
      · exact hnot hj
    refine ⟨⟨hm ▸ h.nodup, hfree⟩, ?_⟩
    rw [show n + ms.length + 1 = n + (ms ++ [m]).length by simp [Nat.add_assoc]]
    refine hrest _ fun j hj => ?_
    rw [List.mem_singleton, List.length_append, List.length_singleton]
    rcases List.mem_append.1 hj with hj | hj
    · rw [hm] at hj
      have := h.within j hj
      exact .inr ⟨by omega, by omega, by omega⟩
    · rcases hused' j hj with hj | ⟨hle, hlt, -⟩
      · exact .inl hj
      · exact .inr ⟨hle, by omega, by omega⟩

end Raised

mutual

/-- **Any composition can be raised.** -/
theorem exists_raised : ∀ (c : Composition ν) (n : Nat), ∃ ms i, Raised n ms [c] [i]
  | source l apart, n => ⟨_, _, raised_nil.node (m := .source l apart) rfl fun _ hm _ => hm⟩
  | map c f, n => by
    obtain ⟨ms, j, hc⟩ := exists_raised c n
    exact ⟨_, _, hc.node (m := .map j f) rfl fun ms' hm hbuilt => ⟨j, hm, isBuilt_of_areBuilt hbuilt⟩⟩
  | andThen c f, n => by
    obtain ⟨ms, j, hc⟩ := exists_raised c n
    exact ⟨_, _, hc.node (m := .andThen j f) rfl fun ms' hm hbuilt => ⟨j, hm, isBuilt_of_areBuilt hbuilt⟩⟩
  | combine l r f, n => by
    obtain ⟨ms, j, hl⟩ := exists_raised l n
    obtain ⟨ms', k, hr⟩ := exists_raised r (n + ms.length)
    refine ⟨_, _, (hl.append hr).node (m := .combine j k f) rfl fun ms' hm hbuilt => ?_⟩
    obtain ⟨j', js, hj, hleft, k', ks, rfl, hright, rfl⟩ := hbuilt
    cases hj
    exact ⟨j, k, hm, hleft, hright⟩
  | all cs pack, n => by
    obtain ⟨ms, is, hcs⟩ := exists_raised_all cs n
    exact ⟨_, _, hcs.node (m := .all is pack) rfl fun ms' hm hbuilt => ⟨is, hm, hbuilt⟩⟩

theorem exists_raised_all : ∀ (cs : List (Composition ν)) (n : Nat), ∃ ms is, Raised n ms cs is
  | [], n => ⟨[], [], raised_nil⟩
  | c :: cs, n => by
    obtain ⟨ms, i, hc⟩ := exists_raised c n
    obtain ⟨ms', is, hcs⟩ := exists_raised_all cs (n + ms.length)
    exact ⟨_, _, hc.append hcs⟩

end

end Composition

end Handoff.Deferred
