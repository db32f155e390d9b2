import Handoff.Proofs.Managed.Canonical
import Handoff.Proofs.Managed.Entries

/-! # The order of object names

Names are ordered by their domains, and names of one domain by the first property that differs, keys before values. All
texts are compared by their bytes. A name whose properties are the first ones of another comes before it. This is not
the order of the canonical spellings: the colon after a domain is greater than some characters of domains.

* `ObjectName.Before`: the order, told without the comparison.
* `ObjectName.compare_eq_lt_iff`: the comparison finds it.
* `ObjectName.hashed_injective`: names are hashed by what tells them apart.
* `Registry.mem_names_registerAll`: the names after objects were offered.
* `Registry.names_independent`: the order is strict and total, and a registry does not show in which order objects came.
-/

namespace Handoff

namespace ObjectName

variable {a b c : ObjectName}

/-! ### The order -/

/-- A property comes before another: by its key, or by its value if they have the same key. -/
def PropertyBefore (p q : String × String) : Prop :=
  Text.bytes p.1 < Text.bytes q.1 ∨ p.1 = q.1 ∧ Text.bytes p.2 < Text.bytes q.2

/-- **A name comes before another**: by its domain, or by its properties from the first on if they have the same
domain. -/
def Before (a b : ObjectName) : Prop :=
  Text.bytes a.domain < Text.bytes b.domain ∨
    a.domain = b.domain ∧ List.Lex PropertyBefore a.properties b.properties

theorem compare_string_eq_lt_iff {s t : String} : compare s t = .lt ↔ Text.bytes s < Text.bytes t := by
  rw [Text.bytes_lt_iff]
  exact compareOfLessAndEq_eq_lt

theorem cmpProperty_eq_lt_iff {p q : String × String} : cmpProperty p q = .lt ↔ PropertyBefore p q := by
  rw [cmpProperty, compareLex, Ordering.then_eq_lt, compareOn, compareOn, compare_string_eq_lt_iff,
    compare_string_eq_lt_iff, Std.compare_eq_iff_eq]
  rfl

/-- Lists are compared by the first elements that differ. -/
theorem compareLex_eq_lt_iff {α : Type} {cmp : α → α → Ordering} [Std.LawfulEqCmp cmp] {l l' : List α} :
    List.compareLex cmp l l' = .lt ↔ List.Lex (fun x y => cmp x y = .lt) l l' := by
  induction l generalizing l' with
  | nil => cases l' <;> simp [List.compareLex_nil_nil, List.compareLex_nil_cons]
  | cons x l ih =>
    cases l' with
    | nil => simp [List.compareLex_cons_nil]
    | cons y l' =>
      rw [List.compareLex_cons_cons, Ordering.then_eq_lt, ih, Std.LawfulEqCmp.compare_eq_iff_eq, List.cons_lex_cons_iff]

/-- **The comparison finds the order.** -/
theorem compare_eq_lt_iff : compare a b = .lt ↔ Before a b := by
  have hproperties : cmpProperties a b = .lt ↔ List.Lex PropertyBefore a.properties b.properties := by
    rw [cmpProperties, compareLex_eq_lt_iff]
    simp only [cmpProperty_eq_lt_iff]
  show cmp a b = .lt ↔ _
  rw [cmp, compareLex, Ordering.then_eq_lt, compareOn, compare_string_eq_lt_iff, hproperties, Std.compare_eq_iff_eq]
  rfl

theorem compare_eq_gt_iff : compare a b = .gt ↔ Before b a := by
  rw [Std.OrientedCmp.gt_iff_lt, compare_eq_lt_iff]

theorem Before.trans (h : Before a b) (h' : Before b c) : Before a c :=
  compare_eq_lt_iff.1 (Std.TransCmp.lt_trans (compare_eq_lt_iff.2 h) (compare_eq_lt_iff.2 h'))

/-- **Of two names one comes first, or they are equal**, and only one of this holds. -/
theorem trichotomy (a b : ObjectName) :
    (Before a b ∧ a ≠ b ∧ ¬ Before b a) ∨ (¬ Before a b ∧ a = b ∧ ¬ Before b a) ∨
      (¬ Before a b ∧ a ≠ b ∧ Before b a) := by
  have hlt : Before a b ↔ compare a b = .lt := compare_eq_lt_iff.symm
  have hgt : Before b a ↔ compare a b = .gt := compare_eq_gt_iff.symm
  have heq : a = b ↔ compare a b = .eq := Std.compare_eq_iff_eq.symm
  rw [ne_eq, hlt, hgt, heq]
  generalize compare a b = o
  cases o <;> decide

theorem compare_eq_eq_iff : compare a b = .eq ↔ a.text = b.text := by
  rw [Std.compare_eq_iff_eq, text_injective.eq_iff]

/-! ### The hash -/

/-- Properties are told apart by their texts. -/
theorem flatMap_text_injective :
    Function.Injective fun ps : List (String × String) => ps.flatMap fun p => [HashPiece.text p.1, .text p.2] := by
  intro ps ps' h
  induction ps generalizing ps' with
  | nil => cases ps' <;> simp_all
  | cons p ps ih =>
    cases ps' with
    | nil => simp at h
    | cons p' ps' =>
      simp only [List.flatMap_cons, List.cons_append, List.nil_append, List.cons.injEq, HashPiece.text.injEq] at h
      obtain ⟨hkey, hvalue, hrest⟩ := h
      rw [Prod.ext hkey hvalue, ih hrest]

/-- **Names are hashed by what tells them apart.** -/
theorem hashed_injective : Function.Injective hashed := by
  intro a b h
  simp only [hashed, List.cons.injEq, HashPiece.text.injEq] at h
  obtain ⟨hdomain, -, hproperties⟩ := h
  exact ext hdomain (flatMap_text_injective hproperties)

end ObjectName

/-! ### The names of a registry -/

namespace Registry

open ObjectName (Before)

variable {g : Registry} {es es' : List (ObjectName × Record)}

/-- The registry after objects were offered to it, one after the other. -/
def registerAll (g : Registry) (es : List (ObjectName × Record)) : Registry :=
  es.foldl (fun g e => (g.register e.1 e.2).2) g

theorem mem_names_register {name k : ObjectName} {r : Record} :
    k ∈ (g.register name r).2.names ↔ k ∈ g.names ∨ k = name := by
  rcases h : g.find? name with _ | r'
  · rw [register_of_none h, mem_names_iff, find?_put, mem_names_iff]
    split_ifs with hk
    · simp [hk]
    · simp [Ne.symm hk]
  · have hsome : (g.find? name).isSome := by rw [h]; rfl
    rw [register_of_isSome hsome]
    refine ⟨.inl, fun hor => hor.elim id fun hk => ?_⟩
    rw [hk, mem_names_iff, hsome]

/-- **Every name that was offered is taken afterwards**, and no other new one. -/
theorem mem_names_registerAll {k : ObjectName} :
    k ∈ (g.registerAll es).names ↔ k ∈ g.names ∨ k ∈ es.map Prod.fst := by
  induction es generalizing g with
  | nil => simp [registerAll]
  | cons e es ih =>
    show k ∈ ((g.register e.1 e.2).2.registerAll es).names ↔ _
    rw [ih, mem_names_register, List.map_cons, List.mem_cons, or_assoc]

theorem names_before (g : Registry) : g.names.Pairwise Before :=
  g.names_ascending.imp fun h => ObjectName.compare_eq_lt_iff.1 h

/-- **The order of names is strict and total, and a registry keeps it**, whatever it is told first.
* The comparison finds the order by bytes in either direction, and that names are equal just where their canonical
  spellings are. Names are equal just if a hasher is given the same of them, so equal names have the same hash.
* Of two names one comes before the other or they are equal, and only one of this holds; the order is transitive.
* After objects were offered to a registry, its names stand in this order, each once, and they are those that it had
  and those that were offered. So the same names stand in the same order, whichever came first. -/
theorem names_independent :
    (∀ a b : ObjectName, (compare a b = .lt ↔ Before a b) ∧ (compare a b = .gt ↔ Before b a) ∧
      (compare a b = .eq ↔ a.text = b.text) ∧ (a.text = b.text ↔ a = b) ∧ (a.hashed = b.hashed ↔ a.text = b.text) ∧
      (a.text = b.text → hash a = hash b)) ∧
    (∀ a b : ObjectName, (Before a b ∧ a ≠ b ∧ ¬ Before b a) ∨ (¬ Before a b ∧ a = b ∧ ¬ Before b a) ∨
      (¬ Before a b ∧ a ≠ b ∧ Before b a)) ∧
    (∀ a b c : ObjectName, Before a b → Before b c → Before a c) ∧
    ∀ (g : Registry) (es : List (ObjectName × Record)),
      (g.registerAll es).names.Pairwise Before ∧
      (∀ k, k ∈ (g.registerAll es).names ↔ k ∈ g.names ∨ k ∈ es.map Prod.fst) ∧
      ∀ es' : List (ObjectName × Record), (∀ k, k ∈ es.map Prod.fst ↔ k ∈ es'.map Prod.fst) →
        (g.registerAll es).names = (g.registerAll es').names := by
  refine ⟨fun a b => ⟨ObjectName.compare_eq_lt_iff, ObjectName.compare_eq_gt_iff, ObjectName.compare_eq_eq_iff,
    ObjectName.text_injective.eq_iff, ?_, fun h => ?_⟩, ObjectName.trichotomy, fun a b c => ObjectName.Before.trans,
    fun g es => ⟨names_before _, fun k => mem_names_registerAll, fun es' hsame => ?_⟩⟩
  · rw [ObjectName.hashed_injective.eq_iff, ObjectName.text_injective.eq_iff]
  · rw [ObjectName.text_injective h]
  · refine eq_of_ascending (names_ascending _) (names_ascending _) fun k => ?_
    rw [mem_names_registerAll, mem_names_registerAll, hsame]

/-- Names of two domains: the one of the longer domain has the lesser spelling, and still comes last; a name whose
properties begin those of another comes before it. A registry lists them so, whichever came first. -/
theorem names_independent_dottedDomain :
    let a := ObjectName.single "a" "k" "1" (by decide) (by decide)
    let c := ObjectName.single "a.b" "k" "1" (by decide) (by decide)
    let b : ObjectName := ⟨"a", [("k", "1"), ("l", "2")], by decide, by decide, by decide, by decide⟩
    let r : Record := ⟨"x", 0⟩
    Before a b ∧ Before b c ∧ Before a c ∧ Text.bytes c.text < Text.bytes a.text ∧
      (empty.registerAll [(c, r), (a, r), (b, r)]).names = (empty.registerAll [(b, r), (c, r), (b, r), (a, r)]).names ∧
      (empty.registerAll [(b, r), (c, r), (b, r), (a, r)]).names = [a, b, c] := by
  intro a c b r
  obtain ⟨-, -, htrans, hnames⟩ := names_independent
  have hab : Before a b := .inr ⟨rfl, .cons .nil⟩
  have hbc : Before b c := .inl (Text.bytes_lt_iff.2 (by decide))
  have hac : Before a c := htrans a b c hab hbc
  have hlisted : [a, b, c].Pairwise fun x y => compare x y = .lt := by
    simp only [ObjectName.compare_eq_lt_iff, List.pairwise_cons, List.mem_cons, forall_eq_or_imp, List.not_mem_nil,
      false_implies, implies_true, List.Pairwise.nil, and_true]
    exact ⟨⟨hab, hac⟩, hbc⟩
  have hempty (k : ObjectName) : k ∉ empty.names := by
    rw [mem_names_iff, find?_empty]
    exact Bool.false_ne_true
  refine ⟨hab, hbc, hac, Text.bytes_lt_iff.2 (by decide), (hnames empty _).2.2 _ fun k => ?_,
    eq_of_ascending (names_ascending _) hlisted fun k => ?_⟩
  · simp only [List.map_cons, List.map_nil, List.mem_cons, List.not_mem_nil, or_false]
    tauto
  · rw [(hnames empty _).2.1]
    simp only [hempty, List.map_cons, List.map_nil, List.mem_cons, List.not_mem_nil, or_false, false_or]
    tauto

end Registry

end Handoff
