import Mathlib.Data.Finmap
import Mathlib.Data.Finset.Sort
import Handoff.Proofs.Managed.Custody

/-! # A registry is a finite map

Beside the registry stands a finite map from names to records, and what a registry offers is told of the map in
the plainest way. No program can tell the two apart.

* `FiniteMap.service`: what a registry offers, for a finite map.
* `Service.Refines`: one service answers as another does.
* `Registry.refines_finiteMap`: the registry answers as the finite map does.
* `Workshop.answers_refine`: so it is for all programs.
* `Workshop.registry_is_finiteMap`: this, with what becomes of objects that are taken out.
-/

namespace Handoff

/-! ### The finite map -/

/-- One name is the other or stands before it. -/
def ObjectName.AtMost (a b : ObjectName) : Prop := (compare a b).isLE = true

namespace ObjectName

instance : DecidableRel AtMost := fun a b => inferInstanceAs (Decidable ((compare a b).isLE = true))

instance : IsTrans ObjectName AtMost := ⟨fun _ _ _ hab hbc => Std.TransCmp.isLE_trans hab hbc⟩

instance : Std.Antisymm AtMost :=
  ⟨fun _ _ hab hba => Std.LawfulEqOrd.eq_of_compare (Std.OrientedCmp.isLE_antisymm hab hba)⟩

instance : Std.Total AtMost := by
  refine ⟨fun a b => ?_⟩
  have hswap : compare b a = (compare a b).swap := Std.OrientedCmp.eq_swap
  rw [AtMost, AtMost, hswap]
  cases compare a b <;> simp

end ObjectName

/-- **A finite map** from names to records. -/
abbrev FiniteMap := Finmap fun _ : ObjectName => Record

namespace FiniteMap

/-- What the map answers where a record refuses to set an attribute: if there is no such attribute, the answer tells
under which name it was asked for. -/
def refusedSetting (name : ObjectName) : Except Failure Unit → Except Failure Unit
  | .error (.unknownAttribute _ attr) => .error (.unknownAttribute name.text attr)
  | answer => answer

/-- What the map answers where a record refuses a call: if there is no such operation, the answer tells under which
name it was asked for. -/
def refusedCall (name : ObjectName) : Except Failure Json → Except Failure Json
  | .error (.unknownOperation _ operation) => .error (.unknownOperation name.text operation)
  | answer => answer

/-- **What a registry offers, for a finite map.** -/
def service : Service FiniteMap where
  register m name r :=
    if name ∈ m then (.error (.alreadyRegistered name.text), m) else (.ok (), m.insert name r)
  unregister m name :=
    match m.lookup name with
    | some r => (.ok r, m.erase name)
    | none => (.error (.unknownObject name.text), m)
  names m := m.keys.sort ObjectName.AtMost
  size m := m.keys.card
  isEmpty m := decide (m.keys.card = 0)
  describe m name := if name ∈ m then .ok Record.descriptor else .error (.unknownObject name.text)
  getAttribute m name attr :=
    match m.lookup name with
    | none => .error (.unknownObject name.text)
    | some r => ((r.getAttribute? attr).map Except.ok).getD (.error (.unknownAttribute name.text attr))
  setAttribute m name attr value :=
    match m.lookup name with
    | none => (.error (.unknownObject name.text), m)
    | some r =>
      (refusedSetting name (r.setAttribute attr value).1, m.insert name (r.setAttribute attr value).2)
  invoke m name operation args :=
    match m.lookup name with
    | none => (.error (.unknownObject name.text), m)
    | some r => (refusedCall name (r.invoke operation args).1, m.insert name (r.invoke operation args).2)

end FiniteMap

/-! ### Refinement -/

/-- One answers as the other does, and they are related afterwards. -/
def Agree {α σ τ : Type} (R : σ → τ → Prop) (x : α × σ) (y : α × τ) : Prop := x.1 = y.1 ∧ R x.2 y.2

/-- **One service answers as another does**, as long as what they are kept in is related. -/
structure Service.Refines {σ τ : Type} (s : Service σ) (t : Service τ) (R : σ → τ → Prop) : Prop where
  register : ∀ {a b}, R a b → ∀ name r, Agree R (s.register a name r) (t.register b name r)
  unregister : ∀ {a b}, R a b → ∀ name, Agree R (s.unregister a name) (t.unregister b name)
  names : ∀ {a b}, R a b → s.names a = t.names b
  size : ∀ {a b}, R a b → s.size a = t.size b
  isEmpty : ∀ {a b}, R a b → s.isEmpty a = t.isEmpty b
  describe : ∀ {a b}, R a b → ∀ name, s.describe a name = t.describe b name
  getAttribute : ∀ {a b}, R a b → ∀ name attr, s.getAttribute a name attr = t.getAttribute b name attr
  setAttribute : ∀ {a b}, R a b → ∀ name attr value,
    Agree R (s.setAttribute a name attr value) (t.setAttribute b name attr value)
  invoke : ∀ {a b}, R a b → ∀ name operation args,
    Agree R (s.invoke a name operation args) (t.invoke b name operation args)

namespace Workshop

variable {σ τ : Type} {s : Service σ} {t : Service τ} {R : σ → τ → Prop} {w : Workshop σ} {v : Workshop τ}

/-- Two programs have the same in their hands, and their registries are related. -/
def Related (R : σ → τ → Prop) (w : Workshop σ) (v : Workshop τ) : Prop :=
  R w.registry v.registry ∧ w.removed = v.removed

theorem agree_handle (hw : Related R w v) (object : Nat) {f : Record → Answer × Workshop σ}
    {f' : Record → Answer × Workshop τ} (hf : ∀ r, Agree (Related R) (f r) (f' r)) :
    Agree (Related R) (w.handle object f) (v.handle object f') := by
  have hheld : w.held? object = v.held? object := by rw [held?, held?, hw.2]
  rw [handle, handle, hheld]
  rcases v.held? object with _ | r
  · exact ⟨rfl, hw⟩
  · exact hf r

/-- **An operation is answered alike**, and the programs stay related. -/
theorem agree_perform (h : s.Refines t R) (hw : Related R w v) (op : Operation) :
    Agree (Related R) (w.perform s op) (v.perform t op) := by
  obtain ⟨hR, hremoved⟩ := hw
  cases op with
  | register name r =>
    obtain ⟨hanswer, hafter⟩ := h.register hR name r
    exact ⟨congrArg Answer.done hanswer, hafter, hremoved⟩
  | unregister name =>
    obtain ⟨hanswer, hafter⟩ := h.unregister hR name
    show Agree (Related R) (w.keep (s.unregister w.registry name)) (v.keep (t.unregister v.registry name))
    generalize s.unregister w.registry name = x at hanswer hafter
    generalize t.unregister v.registry name = y at hanswer hafter
    obtain ⟨a, g⟩ := x
    obtain ⟨b, m⟩ := y
    obtain rfl : a = b := hanswer
    rcases a with e | r
    · exact ⟨rfl, hafter, hremoved⟩
    · exact ⟨rfl, hafter, congrArg (· ++ [some r]) hremoved⟩
  | reregister name object =>
    refine agree_handle ⟨hR, hremoved⟩ object fun r => ?_
    obtain ⟨hanswer, hafter⟩ := h.register hR name r
    exact ⟨congrArg Answer.done hanswer, hafter, congrArg (List.set · object none) hremoved⟩
  | names => exact ⟨congrArg Answer.names (h.names hR), hR, hremoved⟩
  | size => exact ⟨congrArg Answer.size (h.size hR), hR, hremoved⟩
  | isEmpty => exact ⟨congrArg Answer.isEmpty (h.isEmpty hR), hR, hremoved⟩
  | describe name => exact ⟨congrArg Answer.descriptor (h.describe hR name), hR, hremoved⟩
  | getAttribute name attr => exact ⟨congrArg Answer.value (h.getAttribute hR name attr), hR, hremoved⟩
  | setAttribute name attr value =>
    obtain ⟨hanswer, hafter⟩ := h.setAttribute hR name attr value
    exact ⟨congrArg (fun a : Except Failure Unit => Answer.reply (a.map fun _ => none)) hanswer, hafter, hremoved⟩
  | invoke name operation args =>
    obtain ⟨hanswer, hafter⟩ := h.invoke hR name operation args
    exact ⟨congrArg (fun a : Except Failure Json => Answer.reply (a.map some)) hanswer, hafter, hremoved⟩
  | useRemoved object u =>
    refine agree_handle ⟨hR, hremoved⟩ object fun r => ⟨rfl, hR, ?_⟩
    exact congrArg (List.set · object (some (r.use u).2)) hremoved
  | readRemoved object attr => exact agree_handle ⟨hR, hremoved⟩ object fun r => ⟨rfl, hR, hremoved⟩

/-- **All operations of a program are answered alike.** -/
theorem answers_refine (h : s.Refines t R) (hw : Related R w v) (ops : List Operation) :
    w.answers s ops = v.answers t ops := by
  induction ops generalizing w v with
  | nil => rfl
  | cons op ops ih =>
    obtain ⟨hanswer, hafter⟩ := agree_perform h hw op
    rw [answers, answers, hanswer, ih hafter]

end Workshop

/-! ### The registry and the map -/

namespace Registry

/-- **A registry holds what a finite map does.** -/
def Holds (g : Registry) (m : FiniteMap) : Prop := ∀ name, g.find? name = m.lookup name

variable {g : Registry} {m : FiniteMap}

theorem Holds.put (h : Holds g m) (name : ObjectName) (r : Record) :
    Holds (g.put name r) (m.insert name r) := by
  intro k
  rw [find?_put]
  split_ifs with hk
  · rw [hk, Finmap.lookup_insert]
  · rw [Finmap.lookup_insert_of_ne _ (Ne.symm hk), h k]

theorem Holds.erase (h : Holds g m) (name : ObjectName) : Holds ⟨g.objects.erase name⟩ (m.erase name) := by
  intro k
  rw [find?_erase]
  split_ifs with hk
  · rw [hk, Finmap.lookup_erase]
  · rw [Finmap.lookup_erase_ne (Ne.symm hk), h k]

theorem Holds.mem_iff (h : Holds g m) (name : ObjectName) : name ∈ m ↔ (g.find? name).isSome := by
  rw [h name, Finmap.lookup_isSome]

/-- The names of a registry are those of the map, in their order. -/
theorem Holds.names (h : Holds g m) : g.names = m.keys.sort ObjectName.AtMost := by
  refine eq_of_ascending g.names_ascending ?_ fun k => ?_
  · -- sorted names of which none stands twice stand strictly in order
    have hsorted := Finset.pairwise_sort m.keys ObjectName.AtMost
    have hnodup := Finset.sort_nodup m.keys ObjectName.AtMost
    refine (List.pairwise_and_iff.2 ⟨hsorted, hnodup⟩).imp fun {a b} hab => ?_
    have hle : (compare a b).isLE = true := hab.1
    rcases hc : compare a b with _ | _ | _
    · rfl
    · exact absurd (Std.LawfulEqOrd.eq_of_compare hc) hab.2
    · rw [hc] at hle
      cases hle
  · rw [mem_names_iff, Finset.mem_sort, Finmap.mem_keys, h.mem_iff]

theorem Holds.size (h : Holds g m) : g.size = m.keys.card := by
  rw [← length_names, h.names, Finset.length_sort]

theorem mapError_attributeFailure (name : ObjectName) (answer : Except Failure Unit) :
    answer.mapError (attributeFailure name) = FiniteMap.refusedSetting name answer := by
  rcases answer with e | _
  · cases e <;> rfl
  · rfl

theorem mapError_operationFailure (name : ObjectName) (answer : Except Failure Json) :
    answer.mapError (operationFailure name) = FiniteMap.refusedCall name answer := by
  rcases answer with e | _
  · cases e <;> rfl
  · rfl

/-- **The registry answers as the finite map does.** -/
theorem refines_finiteMap : Registry.service.Refines FiniteMap.service Holds where
  register {g m} h name r := by
    show Agree Holds (g.register name r) (if name ∈ m then _ else _)
    rw [register]
    have hmem := h.mem_iff name
    rcases hf : g.find? name with _ | r'
    · rw [if_neg (by simp [hmem, hf])]
      exact ⟨rfl, h.put name r⟩
    · rw [if_pos (by simp [hmem, hf])]
      exact ⟨rfl, h⟩
  unregister {g m} h name := by
    show Agree Holds (g.unregister name) (match m.lookup name with | some r => _ | none => _)
    rw [unregister, h name]
    rcases m.lookup name with _ | r
    · exact ⟨rfl, h⟩
    · exact ⟨rfl, h.erase name⟩
  names h := h.names
  size h := h.size
  isEmpty {g m} h := by
    show g.isEmpty = decide (m.keys.card = 0)
    rw [← h.size, Bool.eq_iff_iff, isEmpty_iff, decide_eq_true_iff]
  describe {g m} h name := by
    show g.describe name = if name ∈ m then _ else _
    have hmem := h.mem_iff name
    rcases hf : g.find? name with _ | r'
    · rw [describe, hf, if_neg (by simp [hmem, hf])]
      rfl
    · rw [describe_of_some hf, if_pos (by simp [hmem, hf])]
  getAttribute {g m} h name attr := by
    show g.getAttribute name attr = match m.lookup name with | none => _ | some r => _
    rw [← h name]
    rcases hf : g.find? name with _ | r
    · rw [getAttribute, hf]
      rfl
    · rw [getAttribute_of_some hf]
      show _ = ((r.getAttribute? attr).map Except.ok).getD _
      cases r.getAttribute? attr <;> rfl
  setAttribute {g m} h name attr value := by
    show Agree Holds (g.setAttribute name attr value) (match m.lookup name with | none => _ | some r => _)
    rw [setAttribute, h name]
    rcases m.lookup name with _ | r
    · exact ⟨rfl, h⟩
    · exact ⟨mapError_attributeFailure name _, h.put name _⟩
  invoke {g m} h name operation args := by
    show Agree Holds (g.invoke name operation args) (match m.lookup name with | none => _ | some r => _)
    rw [invoke, h name]
    rcases m.lookup name with _ | r
    · exact ⟨rfl, h⟩
    · exact ⟨mapError_operationFailure name _, h.put name _⟩

end Registry

namespace Workshop

open Registry (atticLamp cellarLamp)

/-- **A registry is a finite map**, and an object that is taken out of it is on its own. All answers are those
of the map. An operation fails for a name just if it offers an object under a name that is taken, or asks for
one that is not. What fails changes nothing, but what was offered is given away. The names stand in their order,
each once. A removed object is what it was, and what is done to it directly; until it is offered nobody else
notices it, and then it shows itself as it is. -/
theorem registry_is_finiteMap :
    (∀ ops : List Operation, answers Registry.service ⟨Registry.empty, []⟩ ops =
      answers FiniteMap.service ⟨∅, []⟩ ops) ∧
    (∀ (w : Workshop Registry) (op : Operation) (e : Failure),
      ((w.act op).1.failure? = some e ∧ e.IsAboutName ↔
        (∃ name, op.offers? w = some name ∧ (w.registry.find? name).isSome ∧
          e = .alreadyRegistered name.text) ∨
        ∃ name, op.asks? = some name ∧ w.registry.find? name = none ∧ e = .unknownObject name.text) ∧
      ((w.act op).1.failure? = some e → (w.act op).2 = { w with removed := op.left w.removed })) ∧
    (∀ g : Registry, g.names.Pairwise (fun a b => compare a b = .lt) ∧ g.names.Nodup ∧
      g.size = g.names.length ∧ (g.isEmpty = true ↔ g.size = 0)) ∧
    ∀ (w : Workshop Registry) (name : ObjectName) (r : Record), w.registry.find? name = some r →
      let k := w.removed.length
      let w₁ := (w.act (.unregister name)).2
      w₁.registry.find? name = none ∧ w₁.held? k = some r ∧
      ∀ ops, (∀ op ∈ ops, ¬ op.Offers k) →
        let w₂ := w₁.acts ops
        let r₂ := r.useAll (ops.filterMap (Operation.directUse? k))
        let others := ops.filter (!·.handles k)
        w₂.held? k = some r₂ ∧ w₂.registry = (w₁.acts others).registry ∧
        answersBut k w₁ ops = w₁.answers Registry.service others ∧
        ∀ name', w₂.registry.find? name' = none →
          let g₃ := (w₂.act (.reregister name' k)).2.registry
          g₃.find? name' = some r₂ ∧ g₃.getAttribute name' "label" = .ok (.str r₂.label) ∧
            g₃.getAttribute name' "counter" = .ok (.int r₂.counter.toInt) := by
  refine ⟨fun ops => ?_, fun w op e => ⟨failure_isAboutName_iff, act_of_failure⟩,
    fun g => ⟨g.names_ascending, g.names_nodup, g.length_names.symm, g.isEmpty_iff⟩, ?_⟩
  · have hstart : Registry.Holds Registry.empty ∅ := fun name => by
      rw [Registry.find?_empty, Finmap.lookup_empty]
    exact answers_refine Registry.refines_finiteMap ⟨hstart, rfl⟩ ops
  · intro w name r h k w₁
    have hw₁ : w₁ = ⟨⟨w.registry.objects.erase name⟩, w.removed ++ [some r]⟩ := by
      show (w.keep (w.registry.unregister name)).2 = _
      rw [Registry.unregister_of_some h]
      rfl
    have hfree : w₁.registry.find? name = none := by
      rw [hw₁, Registry.find?_erase, if_pos rfl]
    have hheld : w₁.held? k = some r := by
      rw [hw₁, held?, List.getElem?_concat_length]
      rfl
    refine ⟨hfree, hheld, ?_⟩
    intro ops hops w₂ r₂ others
    obtain ⟨hsame, hanswers⟩ := sameBut_acts (.refl k w₁) hops
    have hheld₂ : w₂.held? k = some r₂ := held_acts hheld hops
    refine ⟨hheld₂, hsame.registry, hanswers, ?_⟩
    intro name' hname' g₃
    have hg₃ : g₃ = w₂.registry.put name' r₂ := by
      show (w₂.handle k _).2.registry = _
      rw [handle_of_some hheld₂, service_register, Registry.register_of_none hname']
    have hfound : g₃.find? name' = some r₂ := by rw [hg₃, Registry.find?_put, if_pos rfl]
    refine ⟨hfound, ?_, ?_⟩
    · rw [Registry.getAttribute, hfound]
      rfl
    · rw [Registry.getAttribute, hfound]
      rfl

/-- An object is taken out, used there, and returned under another name. -/
theorem registry_is_finiteMap_moved :
    let w : Workshop Registry := ⟨Registry.empty.put atticLamp ⟨"lit", 1⟩, []⟩
    let use : Operation := .useRemoved 0 (.increment 5)
    w.registry.find? atticLamp = some ⟨"lit", 1⟩ ∧ (∀ op ∈ [use], ¬ op.Offers 0) ∧
      (w.acts [.unregister atticLamp, use]).registry.find? cellarLamp = none ∧
      (w.acts [.unregister atticLamp, use, .reregister cellarLamp 0]).registry.find? cellarLamp =
        some ⟨"lit", 6⟩ := by
  intro w use
  have hfind : w.registry.find? atticLamp = some ⟨"lit", 1⟩ := by
    rw [Registry.find?_put, if_pos rfl]
  have hops : ∀ op ∈ [use], ¬ op.Offers 0 := by simp [use, Operation.Offers]
  obtain ⟨hfree, -, hout⟩ := registry_is_finiteMap.2.2.2 w atticLamp ⟨"lit", 1⟩ hfind
  obtain ⟨-, hregistry, -, hreturn⟩ := hout [use] hops
  have hcellar : (w.acts [.unregister atticLamp, use]).registry.find? cellarLamp = none := by
    have hsame : (w.acts [.unregister atticLamp, use]).registry = ⟨w.registry.objects.erase atticLamp⟩ := by
      refine hregistry.trans ?_
      show (w.keep (w.registry.unregister atticLamp)).2.registry = _
      rw [Registry.unregister_of_some hfind]
      rfl
    rw [hsame, Registry.find?_erase, if_neg (by decide), Registry.find?_put, if_neg (by decide)]
    exact Registry.find?_empty cellarLamp
  exact ⟨hfind, hops, hcellar, (hreturn cellarLamp hcellar).1⟩

end Workshop

end Handoff
