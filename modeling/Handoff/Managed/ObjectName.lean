import Handoff.Failure
import Handoff.KeyedList
import Handoff.Text.Cut

/-! # Object names

A managed object is known by a domain and by properties, `domain:key=value,key=value`. The
properties are kept in the order of their keys, so two spellings of a name are one value.

* `ObjectName.ofText?`: the name a text spells, or the first rule that the text breaks.
* `ObjectName.text`: the canonical spelling.
* `ObjectName.cmp`: names are ordered by domain, then by their properties from the first on. The
  order is total and agrees with equality.
* `ObjectName.hashed`: names are hashed by their parts.
-/

namespace Handoff

/-! ### Words and values -/

namespace ObjectName

/-- The characters of domains and keys. -/
def isWordChar (c : Char) : Bool := c.isAlphanum || c == '_' || c == '.' || c == '-'

/-- A domain or a key: at least one character, and none that is not of a word. -/
def IsWord (l : List Char) : Prop := l ≠ [] ∧ ∀ c ∈ l, isWordChar c

/-- The characters of property values: all but those with a meaning in names and patterns. -/
def isValueChar (c : Char) : Bool := c != ',' && c != '=' && c != ':' && c != '*' && c != '?'

/-- A property value: at least one character, and none that is not of a value. -/
def IsValue (l : List Char) : Prop := l ≠ [] ∧ ∀ c ∈ l, isValueChar c

instance (l : List Char) : Decidable (IsWord l) :=
  decidable_of_bool (!l.isEmpty && l.all isWordChar) (by simp [IsWord])

instance (l : List Char) : Decidable (IsValue l) :=
  decidable_of_bool (!l.isEmpty && l.all isValueChar) (by simp [IsValue])

/-- A key that is a word, with a value that is one. -/
def IsProperty (p : String × String) : Prop := IsWord p.1.toList ∧ IsValue p.2.toList

instance (p : String × String) : Decidable (IsProperty p) := by
  unfold IsProperty; infer_instance

/-- The rules of names, in the order in which they are checked. -/
inductive Fault where
  | missingColon
  | badDomain
  | noProperty
  | badProperty
  | duplicateKey
deriving DecidableEq, Repr

/-- The wording of a broken rule. -/
def Fault.text : Fault → String
  | missingColon => "missing ':' between domain and properties"
  | badDomain => "domain must be letters, digits, '.', '_' or '-'"
  | noProperty => "at least one key=value property is required"
  | badProperty => "properties must look like key=value"
  | duplicateKey => "duplicate property key"

end ObjectName

/-- The name of a managed object. -/
structure ObjectName where
  domain : String
  properties : List (String × String)
  isWord_domain : ObjectName.IsWord domain.toList
  properties_ne_nil : properties ≠ []
  isProperty : ∀ p ∈ properties, ObjectName.IsProperty p
  ascending : KeyedList.Ascending properties
deriving DecidableEq

namespace ObjectName

@[ext]
theorem ext {a b : ObjectName} (hd : a.domain = b.domain) (hp : a.properties = b.properties) :
    a = b := by
  cases a; cases b; simp_all

/-- The value of the property with key `k`. -/
def property? (n : ObjectName) (k : String) : Option String := KeyedList.find? k n.properties

/-! ### Reading -/

/-- The property that a piece of text spells. -/
def readProperty (l : List Char) : Option (String × String) :=
  match Text.cutAt (· == '=') l with
  | none => none
  | some (k, v) => if IsWord k ∧ IsValue v then some (String.ofList k, String.ofList v) else none

/-- Adds the properties that pieces of text spell, from the first on. -/
def readProperties : List (List Char) → List (String × String) →
    Except Fault (List (String × String))
  | [], acc => .ok acc
  | l :: ls, acc =>
    match readProperty l with
    | none => .error .badProperty
    | some (k, v) =>
      if (KeyedList.find? k acc).isSome then .error .duplicateKey
      else readProperties ls (KeyedList.insert k v acc)

theorem isProperty_of_readProperty {l : List Char} {p : String × String}
    (h : readProperty l = some p) : IsProperty p := by
  unfold readProperty at h
  split at h
  · simp at h
  · split at h
    · next hkv =>
      cases h
      simpa [IsProperty] using hkv
    · simp at h

/-- What `readProperties` adds keeps the rules. -/
theorem readProperties_ok {ls : List (List Char)} {acc ps : List (String × String)}
    (h : readProperties ls acc = .ok ps) (hp : ∀ p ∈ acc, IsProperty p)
    (ha : KeyedList.Ascending acc) :
    (∀ p ∈ ps, IsProperty p) ∧ KeyedList.Ascending ps ∧ (acc ≠ [] ∨ ls ≠ [] → ps ≠ []) := by
  induction ls generalizing acc with
  | nil => cases h; exact ⟨hp, ha, by simp⟩
  | cons l ls ih =>
    rw [readProperties] at h
    split at h
    · simp at h
    · next k v hkv =>
      split at h
      · simp at h
      · obtain ⟨h1, h2, h3⟩ := ih h
          (fun p hm => (KeyedList.eq_or_mem_of_mem_insert hm).elim
            (fun he => he ▸ isProperty_of_readProperty hkv) (hp p)) ha.insert
        exact ⟨h1, h2, fun _ => h3 (.inl (List.ne_nil_of_mem (KeyedList.mem_insert_self k v acc)))⟩

/-- The name that a list of characters spells. -/
def ofChars? (l : List Char) : Except Fault ObjectName :=
  match Text.cutAt (· == ':') l with
  | none => .error .missingColon
  | some (d, rest) =>
    if hd : IsWord d then
      if rest = [] then .error .noProperty
      else
        match h : readProperties (Text.pieces (· == ',') rest) [] with
        | .error e => .error e
        | .ok ps =>
          have hps := readProperties_ok h (by simp) List.Pairwise.nil
          .ok {
            domain := String.ofList d
            properties := ps
            isWord_domain := by simpa using hd
            properties_ne_nil := hps.2.2 (.inr (Text.pieces_ne_nil _ _))
            isProperty := hps.1
            ascending := hps.2.1 }
    else .error .badDomain

/-- **The name a text spells**, or the first rule that the text breaks. -/
def ofText? (s : String) : Except Fault ObjectName := ofChars? s.toList

/-- The name a text spells; the failure carries the text. -/
def parse (s : String) : Except Failure ObjectName :=
  (ofText? s).mapError fun e => .invalidObjectName s e.text

/-! ### The canonical spelling -/

/-- A property as it is spelled. -/
def propertyChars (p : String × String) : List Char := p.1.toList ++ '=' :: p.2.toList

/-- The characters of the canonical spelling. -/
def chars (n : ObjectName) : List Char :=
  n.domain.toList ++ ':' :: List.intercalate [','] (n.properties.map propertyChars)

/-- **The canonical spelling of a name.** -/
def text (n : ObjectName) : String := String.ofList n.chars

/-! ### The order -/

/-- Properties are compared by key, then by value. -/
def cmpProperty : String × String → String × String → Ordering :=
  compareLex (compareOn Prod.fst) (compareOn Prod.snd)

/-- Names of one domain are compared by the first property that differs. -/
def cmpProperties (a b : ObjectName) : Ordering :=
  List.compareLex cmpProperty a.properties b.properties

/-- **The order of names**: by domain, then by the first property that differs; a name whose
properties begin the other's comes first. -/
def cmp : ObjectName → ObjectName → Ordering := compareLex (compareOn domain) cmpProperties

instance : Ord ObjectName := ⟨cmp⟩

instance : Std.TransCmp cmpProperty := by
  unfold cmpProperty; infer_instance

instance : Std.LawfulEqCmp cmpProperty where
  eq_of_compare {a b} h := by
    simp only [cmpProperty, compareLex_eq_eq, compareOn] at h
    exact Prod.ext (Std.LawfulEqOrd.eq_of_compare h.1) (Std.LawfulEqOrd.eq_of_compare h.2)

instance : Std.TransCmp cmpProperties where
  eq_swap {a b} := by
    show List.compareLex cmpProperty a.properties b.properties =
      (List.compareLex cmpProperty b.properties a.properties).swap
    exact Std.OrientedCmp.eq_swap
  isLE_trans {a b c} hab hbc := by
    show (List.compareLex cmpProperty a.properties c.properties).isLE
    exact Std.TransCmp.isLE_trans (b := b.properties) hab hbc

/-- The order is total. -/
instance : Std.TransOrd ObjectName := by
  show Std.TransCmp cmp
  unfold cmp; infer_instance

/-- Names that the order does not tell apart are equal. -/
instance : Std.LawfulEqOrd ObjectName where
  eq_of_compare {a b} h := by
    have h : cmp a b = .eq := h
    simp only [cmp, compareLex_eq_eq, compareOn, cmpProperties] at h
    exact ObjectName.ext (Std.LawfulEqOrd.eq_of_compare h.1) (Std.LawfulEqCmp.eq_of_compare h.2)

/-! ### The hash -/

/-- What a hasher is given at a time: a text, or how many parts follow. -/
inductive HashPiece where
  | text (s : String)
  | count (n : Nat)
deriving DecidableEq, Repr, Hashable

/-- **What a hasher is given of a name**: the domain, the number of properties, and each property. -/
def hashed (n : ObjectName) : List HashPiece :=
  .text n.domain :: .count n.properties.length ::
    n.properties.flatMap fun p => [.text p.1, .text p.2]

instance : Hashable ObjectName := ⟨fun n => hash n.hashed⟩

end ObjectName

end Handoff
