import Handoff.Proofs.Managed.Entries

/-! # Requests about one object

Whatever a registry is asked about one object, it answers from what stands under the object's name, and it changes
nothing under other names. So requests about different objects do not notice each other: in either order they are
answered alike, and they leave the same registry.

* `Registry.Request`, `Registry.serve`: what is asked about one object, and what comes of it.
* `Registry.IsLocal`: what has to do with one name only; `Registry.isLocal_serve`: every request is of this kind.
* `Registry.IsLocal.commutes`: what has to do with different names can be done in either order.
* `Registry.serve_commutes`: the statement for requests.
-/

namespace Handoff.Registry

/-! ### Requests -/

/-- **What a registry is asked about one object.** -/
inductive Request where
  | register (r : Record)
  | unregister
  | describe
  | getAttribute (attr : String)
  | setAttribute (attr : String) (value : Json)
  | invoke (operation : String) (args : List Json)

/-- What comes back if nothing fails. -/
inductive Response where
  | done
  | removed (r : Record)
  | descriptor (d : Descriptor)
  | value (v : Json)

/-- **Serves a request** about the object under a name: the answer, and the registry afterwards. -/
def serve (g : Registry) (name : ObjectName) : Request → Except Failure Response × Registry
  | .register r => ((g.register name r).1.map fun _ => .done, (g.register name r).2)
  | .unregister => ((g.unregister name).1.map .removed, (g.unregister name).2)
  | .describe => ((g.describe name).map .descriptor, g)
  | .getAttribute attr => ((g.getAttribute name attr).map .value, g)
  | .setAttribute attr value =>
    ((g.setAttribute name attr value).1.map fun _ => .done, (g.setAttribute name attr value).2)
  | .invoke operation args =>
    ((g.invoke name operation args).1.map .value, (g.invoke name operation args).2)

/-! ### What stands under a name -/

/-- The registry with something else under a name: a record, or nothing. -/
def place (g : Registry) (name : ObjectName) : Option Record → Registry
  | some r => g.put name r
  | none => ⟨g.objects.erase name⟩

theorem find?_place (g : Registry) (name : ObjectName) (o : Option Record) (k : ObjectName) :
    (g.place name o).find? k = if name = k then o else g.find? k := by
  cases o with
  | none => exact find?_erase g name k
  | some r => exact find?_put g name r k

/-- Nothing changes if what stands under a name is placed there. -/
theorem place_of_find? {g : Registry} {name : ObjectName} {o : Option Record} (h : g.find? name = o) :
    g.place name o = g := by
  refine ext_find? fun k => ?_
  rw [find?_place]
  split_ifs with hk
  · rw [← hk, h]
  · rfl

/-! ### Locality -/

section Local

variable {α β : Type} {name a b : ObjectName} {f : Registry → α × Registry} {h : Registry → β × Registry}

/-- **What has to do with one name only**: what is answered, and what stands under the name afterwards, is told from
what stood there before, and nothing changes under other names. -/
structure IsLocal (name : ObjectName) (f : Registry → α × Registry) : Prop where
  answer : ∀ {g g' : Registry}, g.find? name = g'.find? name → (f g).1 = (f g').1
  there : ∀ {g g' : Registry}, g.find? name = g'.find? name → (f g).2.find? name = (f g').2.find? name
  elsewhere : ∀ (g : Registry) {k : ObjectName}, k ≠ name → (f g).2.find? k = g.find? k

/-- It is enough to tell what becomes of what stands under the name. -/
theorem IsLocal.of_place (φ : Option Record → α × Option Record)
    (hf : ∀ g, f g = ((φ (g.find? name)).1, g.place name (φ (g.find? name)).2)) : IsLocal name f where
  answer hg := by rw [hf, hf, hg]
  there hg := by rw [hf, hf, find?_place, find?_place, if_pos rfl, if_pos rfl, hg]
  elsewhere g k hk := by
    rw [hf]
    exact (find?_place ..).trans (if_neg hk.symm)

/-- **What has to do with different names can be done in either order.** -/
theorem IsLocal.commutes (hf : IsLocal a f) (hh : IsLocal b h) (hab : a ≠ b) (g : Registry) :
    (f (h g).2).1 = (f g).1 ∧ (h (f g).2).1 = (h g).1 ∧ (h (f g).2).2 = (f (h g).2).2 := by
  have ha : (h g).2.find? a = g.find? a := hh.elsewhere g hab
  have hb : (f g).2.find? b = g.find? b := hf.elsewhere g hab.symm
  refine ⟨hf.answer ha, hh.answer hb, ext_find? fun k => ?_⟩
  by_cases hka : k = a
  · subst hka
    rw [hh.elsewhere _ hab, hf.there ha]
  by_cases hkb : k = b
  · subst hkb
    rw [hf.elsewhere _ hka, hh.there hb]
  · rw [hh.elsewhere _ hkb, hf.elsewhere _ hka, hf.elsewhere _ hka, hh.elsewhere _ hkb]

theorem IsLocal.map (m : α → β) (hf : IsLocal name f) : IsLocal name fun g => (m (f g).1, (f g).2) where
  answer hg := congrArg m (hf.answer hg)
  there := hf.there
  elsewhere := hf.elsewhere

end Local

section Requests

variable (name : ObjectName)

theorem isLocal_register (r : Record) : IsLocal name fun g => g.register name r := by
  refine .of_place (fun o => o.elim (.ok (), some r) fun r' => (.error (.alreadyRegistered name.text), some r'))
    fun g => ?_
  rcases hr : g.find? name with _ | r'
  · exact register_of_none hr r
  · rw [register_of_isSome (by rw [hr]; rfl)]
    exact congrArg (Prod.mk _) (place_of_find? hr).symm

theorem isLocal_unregister : IsLocal name fun g => g.unregister name := by
  refine .of_place (fun o => o.elim (.error (unknown name), none) fun r => (.ok r, none)) fun g => ?_
  rcases hr : g.find? name with _ | r
  · rw [unregister_of_none hr]
    exact congrArg (Prod.mk _) (place_of_find? hr).symm
  · exact unregister_of_some hr

theorem isLocal_use (u : Use) : IsLocal name fun g => g.use name u := by
  refine .of_place (fun o => o.elim (.error (unknown name), none) fun r =>
    ((r.use u).1.mapError (useFailure name u), some (r.use u).2)) fun g => ?_
  rcases hr : g.find? name with _ | r
  · rw [use_of_none hr]
    exact congrArg (Prod.mk _) (place_of_find? hr).symm
  · exact use_of_some hr u

/-- What only looks at an object has to do with its name only. -/
theorem isLocal_of_reads {α : Type} {f : Registry → α} (φ : Option Record → α) (hf : ∀ g, f g = φ (g.find? name)) :
    IsLocal name fun g => (f g, g) :=
  .of_place (fun o => (φ o, o)) fun g => by rw [hf, place_of_find? rfl]

theorem isLocal_describe : IsLocal name fun g => (g.describe name, g) := by
  refine isLocal_of_reads name (fun o => o.elim (.error (unknown name)) fun _ => .ok Record.descriptor) fun g => ?_
  rcases hr : g.find? name with _ | r
  · rw [describe, hr]
    rfl
  · exact describe_of_some hr

theorem isLocal_getAttribute (attr : String) : IsLocal name fun g => (g.getAttribute name attr, g) := by
  refine isLocal_of_reads name (fun o => o.elim (.error (unknown name)) fun r =>
    (r.getAttribute? attr).elim (.error (.unknownAttribute name.text attr)) .ok) fun g => ?_
  rcases hr : g.find? name with _ | r
  · rw [getAttribute, hr]
    rfl
  · exact getAttribute_of_some hr attr

/-- What comes back of a use. -/
def Response.ofReply : Option Json → Response
  | none => .done
  | some v => .value v

/-- An attribute is set by a use. -/
theorem serve_setAttribute (g : Registry) (attr : String) (value : Json) :
    g.serve name (.setAttribute attr value) =
      ((g.use name (.set attr value)).1.map .ofReply, (g.use name (.set attr value)).2) := by
  rw [← setAttribute_eq, serve]
  rcases g.setAttribute name attr value with ⟨_ | _, g'⟩ <;> rfl

/-- An operation is called by a use. -/
theorem serve_invoke (g : Registry) (operation : String) (args : List Json) :
    g.serve name (.invoke operation args) =
      ((g.use name (.call operation args)).1.map .ofReply, (g.use name (.call operation args)).2) := by
  rw [← invoke_eq, serve]
  rcases g.invoke name operation args with ⟨_ | _, g'⟩ <;> rfl

/-- **A request has to do with the name of its object only.** -/
theorem isLocal_serve (q : Request) : IsLocal name fun g => g.serve name q := by
  cases q with
  | register r => exact (isLocal_register name r).map (Except.map fun _ => Response.done)
  | unregister => exact (isLocal_unregister name).map (Except.map Response.removed)
  | describe => exact (isLocal_describe name).map (Except.map Response.descriptor)
  | getAttribute attr => exact (isLocal_getAttribute name attr).map (Except.map Response.value)
  | setAttribute attr value =>
    simp only [serve_setAttribute]
    exact (isLocal_use name (.set attr value)).map (Except.map Response.ofReply)
  | invoke operation args =>
    simp only [serve_invoke]
    exact (isLocal_use name (.call operation args)).map (Except.map Response.ofReply)

end Requests

/-- **Requests about different objects commute.** In either order each of them is answered as it is alone, failures
included, and they leave the same registry: the same names in the same order, and the same record under each. -/
theorem serve_commutes (g : Registry) {a b : ObjectName} (hab : a ≠ b) (p q : Request) :
    ((g.serve b q).2.serve a p).1 = (g.serve a p).1 ∧ ((g.serve a p).2.serve b q).1 = (g.serve b q).1 ∧
      ((g.serve a p).2.serve b q).2 = ((g.serve b q).2.serve a p).2 ∧
      ((g.serve a p).2.serve b q).2.names = ((g.serve b q).2.serve a p).2.names ∧
      ∀ k, ((g.serve a p).2.serve b q).2.find? k = ((g.serve b q).2.serve a p).2.find? k := by
  obtain ⟨hp, hq, hafter⟩ := (isLocal_serve a p).commutes (isLocal_serve b q) hab g
  exact ⟨hp, hq, hafter, congrArg names hafter, fun k => congrArg (find? · k) hafter⟩

/-- The lamp in the attic is taken out, and one in the cellar is taken in where there was none: in either order. -/
theorem serve_commutes_lamps :
    let g := empty.put atticLamp ⟨"lit", 3⟩
    let out := Request.unregister
    let taken := Request.register ⟨"dark", 1⟩
    atticLamp ≠ cellarLamp ∧ (g.serve atticLamp out).1 = .ok (.removed ⟨"lit", 3⟩) ∧
      ((g.serve cellarLamp taken).2.serve atticLamp out).1 = .ok (.removed ⟨"lit", 3⟩) ∧
      ((g.serve atticLamp out).2.serve cellarLamp taken).2 = ((g.serve cellarLamp taken).2.serve atticLamp out).2 := by
  intro g out taken
  have hne : atticLamp ≠ cellarLamp := by decide
  have hattic : g.find? atticLamp = some ⟨"lit", 3⟩ := by rw [find?_put, if_pos rfl]
  have hout : (g.serve atticLamp out).1 = .ok (.removed ⟨"lit", 3⟩) := by
    show (g.unregister atticLamp).1.map Response.removed = _
    rw [unregister_of_some hattic]
    rfl
  obtain ⟨hsame, -, hafter, -⟩ := serve_commutes g hne out taken
  exact ⟨hne, hout, hsame.trans hout, hafter⟩

end Handoff.Registry
