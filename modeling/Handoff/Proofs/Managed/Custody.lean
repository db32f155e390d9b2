import Handoff.Proofs.Managed.Workshop

/-! # What becomes of objects

An object is under a name in the registry or in the program's hands, and an operation moves at most one object
and changes at most one. What fails leaves the registry as it was.

* `Workshop.Acted`, `Workshop.acted`: all that an operation can do.
* `Workshop.failure_isAboutName_iff`: which operations fail for a name that is taken or not.
* `Workshop.act_of_failure`: what fails leaves the registry as it was.
* `Workshop.held_acts`: what becomes of an object in the program's hands.
* `Workshop.sameBut_acts`: nothing else depends on it.
-/

namespace Handoff

namespace Workshop

namespace Operation

/-- The name that an operation asks for. -/
def asks? : Operation → Option ObjectName
  | unregister name => some name
  | describe name => some name
  | getAttribute name _ => some name
  | setAttribute name _ _ => some name
  | invoke name _ _ => some name
  | _ => none

/-- The name under which an operation offers an object, if there is one to offer. -/
def offers? {σ : Type} (w : Workshop σ) : Operation → Option ObjectName
  | register name _ => some name
  | reregister name object => (w.held? object).map fun _ => name
  | _ => none

/-- The use of a record in the registry. -/
def use? : Operation → Option (ObjectName × Use)
  | setAttribute name attr value => some (name, .set attr value)
  | invoke name operation args => some (name, .call operation args)
  | _ => none

/-- What is left in the program's hands of what it offers. -/
def left (removed : List (Option Record)) : Operation → List (Option Record)
  | reregister _ object => removed.set object none
  | _ => removed

/-- Whether an operation offers this object. -/
def Offers (object : Nat) : Operation → Prop
  | reregister _ k => k = object
  | _ => False

/-- Whether an operation has to do with this object alone, in the program's hands. -/
def handles (object : Nat) : Operation → Bool
  | useRemoved k _ => k = object
  | readRemoved k _ => k = object
  | _ => false

/-- The use of this object in the program's hands. -/
def directUse? (object : Nat) : Operation → Option Use
  | useRemoved k u => if k = object then some u else none
  | _ => none

/-- Whether an operation only shows something. -/
def Shows (w : Workshop Registry) : Operation → Prop
  | names => True
  | size => True
  | isEmpty => True
  | describe name => (w.registry.find? name).isSome
  | getAttribute name _ => (w.registry.find? name).isSome
  | reregister _ object => w.held? object = none
  | useRemoved object _ => w.held? object = none
  | readRemoved _ _ => True
  | _ => False

end Operation

/-- What is done in a registry, and what there is afterwards. -/
abbrev act (w : Workshop Registry) (op : Operation) : Answer × Workshop Registry :=
  w.perform Registry.service op

/-- What there is after a run in a registry. -/
abbrev acts (w : Workshop Registry) (ops : List Operation) : Workshop Registry := w.run Registry.service ops

/-- **All that an operation can do.** -/
inductive Acted (w : Workshop Registry) : Operation → Answer × Workshop Registry → Prop where
  /-- The name is taken. -/
  | refused {name : ObjectName} (r : Record) (h : (w.registry.find? name).isSome) :
      Acted w (.register name r) (.done (.error (.alreadyRegistered name.text)), w)
  /-- The name is taken, and the object is given away. -/
  | dropped {name : ObjectName} {k : Nat} {r : Record} (hk : w.held? k = some r)
      (h : (w.registry.find? name).isSome) :
      Acted w (.reregister name k)
        (.done (.error (.alreadyRegistered name.text)), { w with removed := w.removed.set k none })
  | registered {name : ObjectName} (r : Record) (h : w.registry.find? name = none) :
      Acted w (.register name r) (.done (.ok ()), { w with registry := w.registry.put name r })
  | returned {name : ObjectName} {k : Nat} {r : Record} (hk : w.held? k = some r)
      (h : w.registry.find? name = none) :
      Acted w (.reregister name k) (.done (.ok ()), ⟨w.registry.put name r, w.removed.set k none⟩)
  | removed {name : ObjectName} {r : Record} (h : w.registry.find? name = some r) :
      Acted w (.unregister name)
        (.removed (.ok r), ⟨⟨w.registry.objects.erase name⟩, w.removed ++ [some r]⟩)
  /-- The name is not taken. -/
  | missed {op : Operation} {name : ObjectName} {a : Answer} (hop : op.asks? = some name)
      (h : w.registry.find? name = none) (ha : a.failure? = some (.unknownObject name.text)) : Acted w op (a, w)
  | used {op : Operation} {name : ObjectName} {u : Use} {r : Record} (hop : op.use? = some (name, u))
      (h : w.registry.find? name = some r) :
      Acted w op (.reply (w.registry.use name u).1, { w with registry := (w.registry.use name u).2 })
  | handled {k : Nat} {r : Record} (u : Use) (hk : w.held? k = some r) :
      Acted w (.useRemoved k u)
        (.reply (r.use u).1, { w with removed := w.removed.set k (some (r.use u).2) })
  | shown {op : Operation} {a : Answer} (hop : op.Shows w)
      (ha : ∀ e, a.failure? = some e → ¬ e.IsAboutName) : Acted w op (a, w)

section Acted

variable {w : Workshop Registry}

theorem handle_of_some {k : Nat} {r : Record} (h : w.held? k = some r)
    (f : Record → Answer × Workshop Registry) : w.handle k f = f r := by
  rw [handle, h]

theorem handle_of_none {k : Nat} (h : w.held? k = none) (f : Record → Answer × Workshop Registry) :
    w.handle k f = (.nothing, w) := by
  rw [handle, h]

theorem service_register (g : Registry) (name : ObjectName) (r : Record) :
    Registry.service.register g name r = g.register name r := rfl

theorem service_unregister (g : Registry) (name : ObjectName) :
    Registry.service.unregister g name = g.unregister name := rfl

/-- The use of a record in the registry is one by its name. -/
theorem acted_use {op : Operation} {name : ObjectName} {u : Use} (hop : op.use? = some (name, u))
    (hact : w.act op = (.reply (w.registry.use name u).1, { w with registry := (w.registry.use name u).2 })) :
    Acted w op (w.act op) := by
  rw [hact]
  rcases h : w.registry.find? name with _ | r
  · have hasks : op.asks? = some name := by
      cases op <;> cases hop <;> rfl
    rw [Registry.use_of_none h]
    exact .missed hasks h rfl
  · exact .used hop h

/-- **An operation does one of these.** -/
theorem acted (w : Workshop Registry) (op : Operation) : Acted w op (w.act op) := by
  -- a shown answer without failure
  have hfree : ∀ {a : Answer}, a.failure? = none → ∀ e, a.failure? = some e → ¬ e.IsAboutName := by
    intro a ha e he
    rw [ha] at he
    cases he
  cases op with
  | register name r =>
    rcases h : w.registry.find? name with _ | r'
    · rw [act, perform, service_register, Registry.register_of_none h]
      exact .registered r h
    · have htaken : (w.registry.find? name).isSome := by rw [h]; rfl
      rw [act, perform, service_register, Registry.register_of_isSome htaken]
      exact .refused r htaken
  | unregister name =>
    rcases h : w.registry.find? name with _ | r
    · rw [act, perform, service_unregister, Registry.unregister_of_none h]
      exact .missed rfl h rfl
    · rw [act, perform, service_unregister, Registry.unregister_of_some h]
      exact .removed h
  | reregister name k =>
    rcases hk : w.held? k with _ | r
    · rw [act, perform, handle_of_none hk]
      exact .shown hk (hfree rfl)
    · rw [act, perform, handle_of_some hk, service_register]
      rcases h : w.registry.find? name with _ | r'
      · rw [Registry.register_of_none h]
        exact .returned hk h
      · have htaken : (w.registry.find? name).isSome := by rw [h]; rfl
        rw [Registry.register_of_isSome htaken]
        exact .dropped hk htaken
  | names => exact .shown trivial (hfree rfl)
  | size => exact .shown trivial (hfree rfl)
  | isEmpty => exact .shown trivial (hfree rfl)
  | describe name =>
    rcases h : w.registry.find? name with _ | r
    · refine .missed rfl h ?_
      show Answer.failureOf (w.registry.describe name) = _
      rw [Registry.describe, h]
      rfl
    · refine .shown (by rw [Operation.Shows, h]; rfl) (hfree ?_)
      show Answer.failureOf (w.registry.describe name) = _
      rw [Registry.describe, h]
      rfl
  | getAttribute name attr =>
    rcases h : w.registry.find? name with _ | r
    · refine .missed rfl h ?_
      show Answer.failureOf (w.registry.getAttribute name attr) = _
      rw [Registry.getAttribute, h]
      rfl
    · refine .shown (by rw [Operation.Shows, h]; rfl) ?_
      show ∀ e, Answer.failureOf (w.registry.getAttribute name attr) = some e → _
      rw [Registry.getAttribute_of_some h]
      rcases r.getAttribute? attr with _ | v
      · rintro _ ⟨⟩
        exact id
      · rintro _ ⟨⟩
  | setAttribute name attr value =>
    have huse : (Operation.setAttribute name attr value).use? = some (name, .set attr value) := rfl
    refine acted_use huse ?_
    rw [← Registry.setAttribute_eq]
    rfl
  | invoke name operation args =>
    have huse : (Operation.invoke name operation args).use? = some (name, .call operation args) := rfl
    refine acted_use huse ?_
    rw [← Registry.invoke_eq]
    rfl
  | useRemoved k u =>
    rcases hk : w.held? k with _ | r
    · rw [act, perform, handle_of_none hk]
      exact .shown hk (hfree rfl)
    · rw [act, perform, handle_of_some hk]
      exact .handled u hk
  | readRemoved k attr =>
    rcases hk : w.held? k with _ | r
    · rw [act, perform, handle_of_none hk]
      exact .shown trivial (hfree rfl)
    · rw [act, perform, handle_of_some hk]
      exact .shown trivial (hfree rfl)

/-! ### Failures -/

theorem offers_of_asks {op : Operation} {name : ObjectName} (h : op.asks? = some name) :
    op.offers? w = none := by
  cases op <;> first | rfl | cases h

theorem left_of_asks {op : Operation} {name : ObjectName} (h : op.asks? = some name)
    (removed : List (Option Record)) : op.left removed = removed := by
  cases op <;> first | rfl | cases h

theorem asks_of_use {op : Operation} {name : ObjectName} {u : Use} (h : op.use? = some (name, u)) :
    op.asks? = some name := by
  cases op <;> cases h <;> rfl

/-- What only shows something offers nothing, and does not ask for a name that is not taken. -/
theorem names_of_shows {op : Operation} (h : op.Shows w) :
    op.offers? w = none ∧ ∀ name, op.asks? = some name → (w.registry.find? name).isSome := by
  cases op <;> simp_all [Operation.Shows, Operation.offers?, Operation.asks?]

theorem failure_of_reply {a : Reply} {e : Failure} (h : (Answer.reply a).failure? = some e) :
    a = .error e := by
  rcases a with e' | v <;> cases h
  rfl

theorem getElem?_of_held {k : Nat} {r : Record} (h : w.held? k = some r) : w.removed[k]? = some (some r) := by
  rw [held?, Option.join_eq_some_iff] at h
  exact h

/-- Nothing changes if an object is put where it is. -/
theorem set_held {k : Nat} {r : Record} (h : w.held? k = some r) : w.removed.set k (some r) = w.removed := by
  obtain ⟨hk, hr⟩ := List.getElem?_eq_some_iff.1 (getElem?_of_held h)
  rw [← hr, List.set_getElem_self]

/-- There is nothing to give away where there is no object. -/
theorem left_of_shows {op : Operation} (h : op.Shows w) : op.left w.removed = w.removed := by
  cases op with
  | reregister name k =>
    rcases hk : w.removed[k]? with _ | r
    · exact List.set_eq_of_length_le (List.getElem?_eq_none_iff.1 hk)
    · have hnone : r = none := by
        have : w.held? k = none := h
        rwa [held?, hk] at this
      obtain ⟨hlt, hr⟩ := List.getElem?_eq_some_iff.1 hk
      show w.removed.set k none = w.removed
      rw [← hnone, ← hr, List.set_getElem_self]
  | _ => rfl

variable {op : Operation} {name : ObjectName} {e : Failure}

/-- An operation that offers an object under a name that is taken fails for it. -/
theorem failure_of_offers (ho : op.offers? w = some name) (h : (w.registry.find? name).isSome) :
    (w.act op).1.failure? = some (.alreadyRegistered name.text) := by
  have hacted := w.acted op
  generalize w.act op = x at hacted
  cases hacted with
  | refused | dropped | registered | returned | removed | handled =>
    simp_all [Operation.offers?, Answer.failure?, Answer.failureOf]
  | missed hop => rw [offers_of_asks hop] at ho; cases ho
  | used hop => rw [offers_of_asks (asks_of_use hop)] at ho; cases ho
  | shown hop => rw [(names_of_shows hop).1] at ho; cases ho

/-- An operation that asks for a name that is not taken fails for it. -/
theorem failure_of_asks (ho : op.asks? = some name) (h : w.registry.find? name = none) :
    (w.act op).1.failure? = some (.unknownObject name.text) := by
  have hacted := w.acted op
  generalize w.act op = x at hacted
  cases hacted with
  | refused | dropped | registered | returned | removed | handled =>
    simp_all [Operation.asks?]
  | missed hop _ ha =>
    rw [ho] at hop
    cases hop
    exact ha
  | used hop h' =>
    rw [asks_of_use hop] at ho
    cases ho
    rw [h] at h'
    cases h'
  | shown hop =>
    have := (names_of_shows hop).2 name ho
    rw [h] at this
    cases this

/-- **Which operations fail for a name**: those that offer an object under a name that is taken, and those that
ask for one that is not. The failure carries the canonical spelling. -/
theorem failure_isAboutName_iff : (w.act op).1.failure? = some e ∧ e.IsAboutName ↔
      (∃ name, op.offers? w = some name ∧ (w.registry.find? name).isSome ∧
        e = .alreadyRegistered name.text) ∨
      ∃ name, op.asks? = some name ∧ w.registry.find? name = none ∧ e = .unknownObject name.text := by
  constructor
  · rintro ⟨he, hname⟩
    have hacted := w.acted op
    generalize w.act op = x at hacted he
    cases hacted with
    | refused r h => cases he; exact .inl ⟨_, rfl, h, rfl⟩
    | dropped hk h => cases he; exact .inl ⟨_, by rw [Operation.offers?, hk]; rfl, h, rfl⟩
    | registered | returned | removed => cases he
    | missed hop h ha =>
      rw [ha] at he
      cases he
      exact .inr ⟨_, hop, h, rfl⟩
    | used hop h =>
      have hnone := Registry.use_isAboutName_iff.1 ⟨e, failure_of_reply he, hname⟩
      rw [h] at hnone
      cases hnone
    | handled => exact absurd hname (Record.not_isAboutName_of_error (failure_of_reply he))
    | shown _ ha => exact absurd hname (ha e he)
  · rintro (⟨name, ho, h, rfl⟩ | ⟨name, ho, h, rfl⟩)
    · exact ⟨failure_of_offers ho h, trivial⟩
    · exact ⟨failure_of_asks ho h, trivial⟩

/-- **What fails leaves all as it was**, except that an object that was offered is given away. -/
theorem act_of_failure (he : (w.act op).1.failure? = some e) :
    (w.act op).2 = { w with removed := op.left w.removed } := by
  have hacted := w.acted op
  generalize w.act op = x at hacted he
  cases hacted with
  | refused | dropped => rfl
  | registered | returned | removed => cases he
  | missed hop => rw [left_of_asks hop]
  | used hop h => rw [left_of_asks (asks_of_use hop), Registry.use_of_error (failure_of_reply he)]
  | @handled k r u hk =>
    have hsame : (r.use u).2 = r := Record.use_of_error (failure_of_reply he)
    rw [hsame, set_held hk]
    rfl
  | shown hop => rw [left_of_shows hop]

/-! ### Objects in the program's hands -/

variable {k : Nat} {r : Record}

theorem directUse_of_asks (h : op.asks? = some name) (k : Nat) : op.directUse? k = none := by
  cases op <;> first | rfl | cases h

theorem directUse_of_shows (h : op.Shows w) (hk : w.held? k = some r) : op.directUse? k = none := by
  cases op with
  | useRemoved j u =>
    have hnone : w.held? j = none := h
    refine if_neg ?_
    rintro rfl
    rw [hk] at hnone
    cases hnone
  | _ => rfl

theorem held_set_of_ne {w' : Workshop Registry} {j : Nat} {o : Option Record} (h : w'.removed = w.removed.set j o)
    (hj : j ≠ k) : w'.held? k = w.held? k := by
  rw [held?, held?, h, List.getElem?_set_ne hj]

/-- **An object stays as it is in the program's hands** until it is used there or offered. -/
theorem held_act (hk : w.held? k = some r) (hop : ¬ op.Offers k) :
    (w.act op).2.held? k = some (r.useAll (op.directUse? k).toList) := by
  have hlt : k < w.removed.length := (List.getElem?_eq_some_iff.1 (getElem?_of_held hk)).1
  have hacted := w.acted op
  generalize w.act op = x at hacted
  cases hacted with
  | refused | registered => exact hk
  | dropped | returned => exact (held_set_of_ne rfl hop).trans hk
  | removed => exact (congrArg Option.join (List.getElem?_append_left hlt)).trans hk
  | missed hop => rw [directUse_of_asks hop]; exact hk
  | used hop => rw [directUse_of_asks (asks_of_use hop)]; exact hk
  | @handled j r' u hj =>
    by_cases hjk : j = k
    · subst hjk
      rw [hk] at hj
      cases hj
      rw [held?, Operation.directUse?, if_pos rfl, List.getElem?_set_self hlt]
      rfl
    · rw [Operation.directUse?, if_neg hjk]
      exact (held_set_of_ne rfl hjk).trans hk
  | shown hop => rw [directUse_of_shows hop hk]; exact hk

/-- What is done to an object in the program's hands. -/
theorem held_acts {ops : List Operation} (hk : w.held? k = some r) (hops : ∀ op ∈ ops, ¬ op.Offers k) :
    (w.acts ops).held? k = some (r.useAll (ops.filterMap (Operation.directUse? k))) := by
  induction ops generalizing w r with
  | nil => exact hk
  | cons op ops ih =>
    obtain ⟨hop, hops⟩ := List.forall_mem_cons.1 hops
    have hrest := ih (held_act hk hop) hops
    rw [← Record.useAll_append] at hrest
    rw [List.filterMap_cons]
    rcases hu : op.directUse? k with _ | u <;> rw [hu] at hrest <;> exact hrest

/-! ### Nothing else depends on them -/

/-- Two programs differ at most in one object in their hands. -/
structure SameBut (k : Nat) (w w' : Workshop Registry) : Prop where
  registry : w.registry = w'.registry
  length : w.removed.length = w'.removed.length
  removed : ∀ j, j ≠ k → w.removed[j]? = w'.removed[j]?

theorem SameBut.refl (k : Nat) (w : Workshop Registry) : SameBut k w w := ⟨rfl, rfl, fun _ _ => rfl⟩

theorem sameBut_handles (hop : op.handles k = true) (w : Workshop Registry) : SameBut k (w.act op).2 w := by
  have hacted := w.acted op
  generalize w.act op = x at hacted
  cases hacted with
  | refused | dropped | registered | returned | removed => cases hop
  | missed | shown => exact .refl k w
  | used hu => cases op <;> first | cases hop | cases hu
  | @handled j r u hj =>
    have hjk : j = k := by simpa [Operation.handles] using hop
    subst hjk
    exact ⟨rfl, List.length_set, fun i hi => List.getElem?_set_ne (Ne.symm hi)⟩

theorem SameBut.set {w w' : Workshop Registry} (h : SameBut k w w') {g : Registry} (j : Nat)
    (o : Option Record) : SameBut k ⟨g, w.removed.set j o⟩ ⟨g, w'.removed.set j o⟩ := by
  refine ⟨rfl, by rw [List.length_set, List.length_set, h.length], fun i hi => ?_⟩
  rw [List.getElem?_set, List.getElem?_set, h.removed i hi, h.length]

theorem SameBut.append {w w' : Workshop Registry} (h : SameBut k w w') {g : Registry} (o : Option Record) :
    SameBut k ⟨g, w.removed ++ [o]⟩ ⟨g, w'.removed ++ [o]⟩ := by
  refine ⟨rfl, by rw [List.length_append, List.length_append, h.length], fun i hi => ?_⟩
  rw [List.getElem?_append, List.getElem?_append, h.removed i hi, h.length]

/-- **An operation that has nothing to do with the object** is answered alike, whatever the object is. -/
theorem sameBut_act {w w' : Workshop Registry} (h : SameBut k w w') (hop : op.handles k = false)
    (hoffers : ¬ op.Offers k) : (w.act op).1 = (w'.act op).1 ∧ SameBut k (w.act op).2 (w'.act op).2 := by
  have hstay : ∀ g : Registry, SameBut k ⟨g, w.removed⟩ ⟨g, w'.removed⟩ := fun g => ⟨rfl, h.length, h.removed⟩
  have hheld : ∀ j, j ≠ k → w.held? j = w'.held? j := by
    intro j hj
    rw [held?, held?, h.removed j hj]
  obtain ⟨g, removed⟩ := w
  obtain ⟨g', removed'⟩ := w'
  obtain rfl : g = g' := h.registry
  cases op with
  | unregister name =>
    rw [act, act, perform, perform, service_unregister]
    rcases g.unregister name with ⟨e | r, g'⟩
    · exact ⟨rfl, hstay g'⟩
    · exact ⟨rfl, h.append (some r)⟩
  | reregister name j =>
    rw [act, act, perform, perform, handle, handle, hheld j hoffers]
    rcases held? (⟨g, removed'⟩ : Workshop Registry) j with _ | r
    · exact ⟨rfl, h⟩
    · exact ⟨rfl, h.set j none⟩
  | useRemoved j u =>
    have hj : j ≠ k := by simpa [Operation.handles] using hop
    rw [act, act, perform, perform, handle, handle, hheld j hj]
    rcases held? (⟨g, removed'⟩ : Workshop Registry) j with _ | r
    · exact ⟨rfl, h⟩
    · exact ⟨rfl, h.set j (some (r.use u).2)⟩
  | readRemoved j attr =>
    have hj : j ≠ k := by simpa [Operation.handles] using hop
    rw [act, act, perform, perform, handle, handle, hheld j hj]
    rcases held? (⟨g, removed'⟩ : Workshop Registry) j with _ | r
    · exact ⟨rfl, h⟩
    · exact ⟨rfl, h⟩
  | names | size | isEmpty | describe | getAttribute => exact ⟨rfl, h⟩
  | register | setAttribute | invoke => exact ⟨rfl, hstay _⟩

/-- The answers to the operations that have nothing to do with an object in the program's hands. -/
def answersBut (k : Nat) (w : Workshop Registry) (ops : List Operation) : List Answer :=
  ((ops.zip (w.answers Registry.service ops)).filter fun p => !p.1.handles k).map Prod.snd

/-- **What is done to an object in the program's hands is seen nowhere else**, as long as it is not offered: the
registry and the other answers are as if it were not done. -/
theorem sameBut_acts {w w' : Workshop Registry} {ops : List Operation} (h : SameBut k w w')
    (hops : ∀ op ∈ ops, ¬ op.Offers k) :
    SameBut k (w.acts ops) (w'.acts (ops.filter (!·.handles k))) ∧
      answersBut k w ops = w'.answers Registry.service (ops.filter (!·.handles k)) := by
  induction ops generalizing w w' with
  | nil => exact ⟨h, rfl⟩
  | cons op ops ih =>
    obtain ⟨hoffers, hops⟩ := List.forall_mem_cons.1 hops
    rw [answersBut, answers, List.zip_cons_cons, List.filter_cons, List.filter_cons]
    rcases hop : op.handles k with _ | _
    · obtain ⟨hanswer, hafter⟩ := sameBut_act h hop hoffers
      obtain ⟨hend, hrest⟩ := ih hafter hops
      exact ⟨hend, congrArg₂ List.cons hanswer hrest⟩
    · have hfirst := sameBut_handles hop w
      have hafter : SameBut k (w.act op).2 w' :=
        ⟨hfirst.registry.trans h.registry, hfirst.length.trans h.length,
          fun j hj => (hfirst.removed j hj).trans (h.removed j hj)⟩
      exact ih hafter hops

end Acted

end Workshop

end Handoff
