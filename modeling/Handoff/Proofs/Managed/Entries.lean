import Mathlib.Data.List.Sort
import Handoff.Proofs.Managed.Use

/-! # Registries as maps

A registry is known from the object under each name. Its names stand in their order, each once. A record in a
registry is used as it is by itself, and all other records stay as they are.

* `Registry.find?_put`, `Registry.find?_erase`: what stands under each name after a change.
* `Registry.names_ascending`, `Registry.mem_names_iff`: the names.
* `Registry.use`: the use of the record under a name.
* `Registry.find?_use`, `Registry.find?_use_of_ne`, `Registry.names_use`: what stands there after it.
-/

namespace Handoff.Registry

section

variable {α : Type} {g g' : Registry α} {name : ObjectName} {r : α}

/-- **A registry is known from what stands under each name.** -/
theorem ext_find? (h : ∀ k, g.find? k = g'.find? k) : g = g' := by
  cases g
  cases g'
  rw [mk.injEq]
  exact Std.ExtTreeMap.ext_getElem? h

theorem find?_empty (k : ObjectName) : (empty α).find? k = none := Std.ExtTreeMap.getElem?_empty

theorem find?_put (g : Registry α) (name : ObjectName) (r : α) (k : ObjectName) :
    (g.put name r).find? k = if name = k then some r else g.find? k := by
  simp only [find?, put, Std.ExtTreeMap.getElem?_insert, Std.compare_eq_iff_eq]

theorem find?_erase (g : Registry α) (name k : ObjectName) :
    find? ⟨g.objects.erase name⟩ k = if name = k then none else g.find? k := by
  simp only [find?, Std.ExtTreeMap.getElem?_erase, Std.compare_eq_iff_eq]

/-- Nothing changes if an object is put where it stands. -/
theorem put_of_find? (h : g.find? name = some r) : g.put name r = g := by
  refine ext_find? fun k => ?_
  rw [find?_put]
  split_ifs with hk
  · rw [← hk, h]
  · rfl

/-! ### Names -/

/-- **The names stand in their order.** -/
theorem names_ascending (g : Registry α) : g.names.Pairwise fun a b => compare a b = .lt :=
  Std.ExtTreeMap.ordered_keys

/-- No name stands before itself. -/
theorem compare_self_ne_lt (a : ObjectName) : compare a a ≠ .lt := by
  rw [Std.compare_eq_iff_eq.2 rfl]
  exact Ordering.noConfusion

theorem names_nodup (g : Registry α) : g.names.Nodup := by
  refine g.names_ascending.imp ?_
  rintro a _ hlt rfl
  exact compare_self_ne_lt a hlt

theorem mem_names_iff {k : ObjectName} : k ∈ g.names ↔ (g.find? k).isSome := by
  rw [names, Std.ExtTreeMap.mem_keys, Std.ExtTreeMap.mem_iff_isSome_getElem?, find?]

theorem length_names (g : Registry α) : g.names.length = g.size := Std.ExtTreeMap.length_keys

theorem isEmpty_iff (g : Registry α) : g.isEmpty = true ↔ g.size = 0 := by
  rw [isEmpty, size, Std.ExtTreeMap.isEmpty_eq_size_beq_zero, beq_iff_eq]

/-- Lists of names in their order are equal if they have the same members. -/
theorem eq_of_ascending {l l' : List ObjectName} (h : l.Pairwise fun a b => compare a b = .lt)
    (h' : l'.Pairwise fun a b => compare a b = .lt) (hmem : ∀ k, k ∈ l ↔ k ∈ l') : l = l' := by
  have hirrefl : Std.Irrefl fun a b : ObjectName => compare a b = .lt := ⟨compare_self_ne_lt⟩
  have hantisymm : Std.Antisymm fun a b : ObjectName => compare a b = .lt := by
    refine ⟨fun a b hab hba => ?_⟩
    have hswap : compare a b = (compare b a).swap := Std.OrientedCmp.eq_swap
    rw [hab, hba] at hswap
    cases hswap
  exact h.eq_of_mem_iff h' hmem

/-- The names do not change if the same names are taken. -/
theorem names_congr (h : ∀ k, (g.find? k).isSome = (g'.find? k).isSome) : g.names = g'.names := by
  refine eq_of_ascending g.names_ascending g'.names_ascending fun k => ?_
  rw [mem_names_iff, mem_names_iff, h]

/-- An object put in the place of another leaves the names as they are. -/
theorem names_put (h : (g.find? name).isSome) (r : α) : (g.put name r).names = g.names := by
  refine names_congr fun k => ?_
  rw [find?_put]
  split_ifs with hk
  · rw [← hk, h]
    rfl
  · rfl

/-- An object by itself has the only name. -/
theorem names_put_empty (name : ObjectName) (r : α) : ((empty α).put name r).names = [name] := by
  refine eq_of_ascending (names_ascending _) (List.pairwise_singleton ..) fun k => ?_
  rw [mem_names_iff, find?_put, List.mem_singleton]
  split_ifs with hk
  · simp [hk]
  · simpa [find?_empty] using Ne.symm hk

/-! ### Taking in and out -/

theorem register_of_none (h : g.find? name = none) (r : α) :
    g.register name r = (.ok (), g.put name r) := by
  rw [register, h]

theorem register_of_isSome (h : (g.find? name).isSome) (r : α) :
    g.register name r = (.error (.alreadyRegistered name.text), g) := by
  obtain ⟨r', hr'⟩ := Option.isSome_iff_exists.1 h
  rw [register, hr']

theorem unregister_of_none (h : g.find? name = none) : g.unregister name = (.error (unknown name), g) := by
  rw [unregister, h]

theorem unregister_of_some (h : g.find? name = some r) :
    g.unregister name = (.ok r, ⟨g.objects.erase name⟩) := by
  rw [unregister, h]

end

/-! ### The use of a record under a name -/

variable {g : Registry} {name : ObjectName} {r : Record}

/-- A failure of a use of the object under a name, with this name where the registry puts it. -/
def useFailure (name : ObjectName) : Use → Failure → Failure
  | .set _ _ => attributeFailure name
  | .call _ _ => operationFailure name
  | _ => id

theorem isAboutName_useFailure_iff {u : Use} {e : Failure} : (useFailure name u e).IsAboutName ↔ e.IsAboutName := by
  cases u <;> cases e <;> exact Iff.rfl

/-- **The use of the record under a name**, and the registry afterwards. -/
def use (g : Registry) (name : ObjectName) (u : Use) : Reply × Registry :=
  match g.find? name with
  | none => (.error (unknown name), g)
  | some r => ((r.use u).1.mapError (useFailure name u), g.put name (r.use u).2)

theorem use_of_none (h : g.find? name = none) (u : Use) : g.use name u = (.error (unknown name), g) := by
  rw [use, h]

theorem use_of_some (h : g.find? name = some r) (u : Use) :
    g.use name u = ((r.use u).1.mapError (useFailure name u), g.put name (r.use u).2) := by
  rw [use, h]

theorem describe_of_some (h : g.find? name = some r) : g.describe name = .ok Record.descriptor := by
  rw [describe, h]
  rfl

theorem getAttribute_of_some (h : g.find? name = some r) (attr : String) :
    g.getAttribute name attr = (r.getAttribute? attr).elim (.error (.unknownAttribute name.text attr)) .ok := by
  have hrecord : Managed.getAttribute? r attr = r.getAttribute? attr := rfl
  simp only [getAttribute, h, hrecord]
  cases r.getAttribute? attr <;> rfl

theorem setAttribute_of_some (h : g.find? name = some r) (attr : String) (value : Json) :
    g.setAttribute name attr value =
      ((r.setAttribute attr value).1.mapError (attributeFailure name), g.put name (r.setAttribute attr value).2) := by
  rw [setAttribute, h]
  rfl

theorem invoke_of_some (h : g.find? name = some r) (operation : String) (args : List Json) :
    g.invoke name operation args =
      ((r.invoke operation args).1.mapError (operationFailure name), g.put name (r.invoke operation args).2) := by
  rw [invoke, h]
  rfl

/-- An attribute is set by a use. -/
theorem setAttribute_eq (g : Registry) (name : ObjectName) (attr : String) (value : Json) :
    ((g.setAttribute name attr value).1.map fun _ => none, (g.setAttribute name attr value).2) =
      g.use name (.set attr value) := by
  rcases h : g.find? name with _ | r
  · rw [use_of_none h, setAttribute, h]
    rfl
  · rw [use_of_some h, setAttribute_of_some h, Record.use]
    rcases r.setAttribute attr value with ⟨e | _, r'⟩ <;> rfl

/-- An operation is called by a use. -/
theorem invoke_eq (g : Registry) (name : ObjectName) (operation : String) (args : List Json) :
    ((g.invoke name operation args).1.map some, (g.invoke name operation args).2) =
      g.use name (.call operation args) := by
  rcases h : g.find? name with _ | r
  · rw [use_of_none h, invoke, h]
    rfl
  · rw [use_of_some h, invoke_of_some h, Record.use]
    rcases r.invoke operation args with ⟨e | v, r'⟩ <;> rfl

/-- **A use that fails leaves the registry as it was.** -/
theorem use_of_error {u : Use} {e : Failure} (h : (g.use name u).1 = .error e) : (g.use name u).2 = g := by
  rcases hr : g.find? name with _ | r
  · rw [use_of_none hr]
  · rw [use_of_some hr] at h ⊢
    rcases hu : (r.use u).1 with e' | v
    · show g.put name (r.use u).2 = g
      rw [Record.use_of_error hu, put_of_find? hr]
    · rw [hu] at h
      cases h

/-- **A use fails for a name if and only if the name is not taken.** -/
theorem use_isAboutName_iff {u : Use} :
    (∃ e, (g.use name u).1 = .error e ∧ e.IsAboutName) ↔ g.find? name = none := by
  rcases hr : g.find? name with _ | r
  · rw [use_of_none hr]
    simp [unknown, Failure.IsAboutName]
  · rw [use_of_some hr]
    rcases hu : (r.use u).1 with e | v
    · simpa [Except.mapError, isAboutName_useFailure_iff] using Record.not_isAboutName_of_error hu
    · simp [Except.mapError]

/-- A use changes nothing under other names, and takes and frees no name. -/
theorem find?_use_of_ne {u : Use} {k : ObjectName} (hk : k ≠ name) :
    (g.use name u).2.find? k = g.find? k := by
  rcases hr : g.find? name with _ | r
  · rw [use_of_none hr]
  · rw [use_of_some hr]
    exact (find?_put ..).trans (if_neg hk.symm)

theorem find?_use (h : g.find? name = some r) (u : Use) :
    (g.use name u).2.find? name = some (r.use u).2 := by
  rw [use_of_some h]
  exact (find?_put ..).trans (if_pos rfl)

theorem names_use (g : Registry) (name : ObjectName) (u : Use) : (g.use name u).2.names = g.names := by
  rcases hr : g.find? name with _ | r
  · rw [use_of_none hr]
  · rw [use_of_some hr]
    exact names_put (by rw [hr]; rfl) _

/-! ### Two names -/

/-- The name `lamps:room=attic`. -/
def atticLamp : ObjectName where
  domain := "lamps"
  properties := [("room", "attic")]
  isWord_domain := by decide
  properties_ne_nil := by decide
  isProperty := by decide
  ascending := by decide

/-- The name `lamps:room=cellar`. -/
def cellarLamp : ObjectName where
  domain := "lamps"
  properties := [("room", "cellar")]
  isWord_domain := by decide
  properties_ne_nil := by decide
  isProperty := by decide
  ascending := by decide

end Handoff.Registry
