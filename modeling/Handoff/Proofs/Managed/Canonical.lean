import Handoff.Proofs.Managed.Grammar
import Handoff.Proofs.Text.Bytes

/-! # The canonical spelling of object names

A text gives its domain and its properties in one way only, since neither a word nor a value holds the characters
between them. Names are compared by what they give, whatever its order in the text; the canonical spelling gives
the properties by ascending keys, so it is one text for one name.

* `ObjectName.Spells.unique`: what a text gives.
* `ObjectName.eq_iff_perm`: names are equal just if they are given the same properties, in some order.
* `ObjectName.text_canonical`: the statement about the canonical spelling.
-/

namespace Handoff.ObjectName

variable {s s' d d' : String} {ps ps' : List (String × String)} {n n' : ObjectName}

/-! ### What a text gives -/

theorem map_propertyChars_injective (hps : ∀ p ∈ ps, IsProperty p) (hps' : ∀ p ∈ ps', IsProperty p)
    (h : ps.map propertyChars = ps'.map propertyChars) : ps = ps' := by
  have hread : ∀ {qs : List (String × String)}, (∀ q ∈ qs, IsProperty q) →
      (qs.map propertyChars).map readProperty = qs.map some := by
    intro qs hqs
    rw [List.map_map]
    exact List.map_congr_left fun q hq => readProperty_eq_some_iff.2 ⟨hqs q hq, rfl⟩
  have hsome : ps.map some = ps'.map some := by
    rw [← hread hps, ← hread hps', h]
  exact List.map_injective_iff.2 (Option.some_injective _) hsome

/-- **A text gives one domain and one list of properties.** -/
theorem Spells.unique (h : Spells s d ps) (h' : Spells s d' ps') : d = d' ∧ ps = ps' := by
  have hcolon : ∀ {e : String}, IsWord e.toList → ':' ∉ e.toList := fun he => he.not_mem (by decide)
  obtain ⟨hd, hrest⟩ := Text.append_cons_inj (hcolon h.isWord) (hcolon h'.isWord) (h.text.symm.trans h'.text)
  refine ⟨String.toList_injective hd, map_propertyChars_injective h.isProperty h'.isProperty ?_⟩
  rw [← Text.pieces_intercalate (forall_comma_not_mem h.isProperty) (by simpa using h.ne_nil), hrest,
    Text.pieces_intercalate (forall_comma_not_mem h'.isProperty) (by simpa using h'.ne_nil)]

theorem Spells.spells_iff (h : Spells s d ps) {e : String} {qs : List (String × String)} :
    Spells s e qs ↔ e = d ∧ qs = ps := by
  refine ⟨fun h' => h'.unique h, ?_⟩
  rintro ⟨rfl, rfl⟩
  exact h

/-! ### Names by what they are given -/

/-- Names with the same domain and the same properties are equal, since properties stand in one order. -/
theorem eq_of_perm (hd : n.domain = n'.domain) (hps : n.properties.Perm n'.properties) : n = n' :=
  ext hd (n.ascending.eq_of_mem_iff n'.ascending fun _ => hps.mem_iff)

/-- **Two texts spell one name** just if they give the same domain, and the same properties in some order. -/
theorem eq_iff_perm (h : parse s = .ok n) (h' : parse s' = .ok n') (hs : Spells s d ps)
    (hs' : Spells s' d' ps') : n = n' ↔ d = d' ∧ ps.Perm ps' := by
  obtain ⟨rfl, hps⟩ := perm_of_parse h hs
  obtain ⟨rfl, hps'⟩ := perm_of_parse h' hs'
  constructor
  · rintro rfl
    exact ⟨rfl, hps.symm.trans hps'⟩
  · rintro ⟨hd, hperm⟩
    exact eq_of_perm hd (hps.trans (hperm.trans hps'.symm))

/-! ### The canonical spelling -/

/-- Names are told apart by their canonical spellings. -/
theorem text_injective : Function.Injective text := by
  intro n n' h
  have hparse := parse_text n
  rw [h, parse_text] at hparse
  cases hparse
  rfl

/-- The keys ascend, by their bytes. -/
theorem bytes_ascending (n : ObjectName) :
    (n.properties.map Prod.fst).Pairwise fun k k' => Text.bytes k < Text.bytes k' :=
  List.pairwise_map.2 (n.ascending.imp fun hlt => Text.bytes_lt_iff.2 hlt)

/-- **The canonical spelling is canonical.**
* A name that was read is read again from its canonical spelling, which gives the properties by strictly ascending
  keys; what is read from it has the same canonical spelling.
* Names have one canonical spelling just if they are equal.
* A text that is read gives its domain and its properties in one way, and two such texts spell one name just if they
  give the same domain and, in some order, the same properties. -/
theorem text_canonical :
    (∀ (s : String) (n : ObjectName), parse s = .ok n →
      parse n.text = .ok n ∧
      (∃ ps, Spells n.text n.domain ps ∧ (∀ k v, n.property? k = some v ↔ (k, v) ∈ ps) ∧
        (ps.map Prod.fst).Pairwise fun k k' => Text.bytes k < Text.bytes k') ∧
      ∀ n', parse n.text = .ok n' → n'.text = n.text) ∧
    (∀ n n' : ObjectName, n.text = n'.text ↔ n = n') ∧
    ∀ (s s' : String) (n n' : ObjectName), parse s = .ok n → parse s' = .ok n' →
      ∃ d ps d' ps', (∀ e qs, Spells s e qs ↔ e = d ∧ qs = ps) ∧
        (∀ e qs, Spells s' e qs ↔ e = d' ∧ qs = ps') ∧ (n = n' ↔ d = d' ∧ ps.Perm ps') := by
  refine ⟨fun s n h => ⟨parse_text n, ?_, ?_⟩, fun n n' => text_injective.eq_iff, ?_⟩
  · exact ⟨n.properties, n.spells_text, fun k v => property?_eq_some_iff, n.bytes_ascending⟩
  · intro n' h'
    cases (parse_text n).symm.trans h'
    rfl
  · intro s s' n n' h h'
    obtain ⟨ps, hs, -⟩ := spells_of_parse h
    obtain ⟨ps', hs', -⟩ := spells_of_parse h'
    exact ⟨_, ps, _, ps', fun _ _ => hs.spells_iff, fun _ _ => hs'.spells_iff, eq_iff_perm h h' hs hs'⟩

/-- The name `primers:name=main,type=Greeter`. -/
def mainGreeter : ObjectName where
  domain := "primers"
  properties := [("name", "main"), ("type", "Greeter")]
  isWord_domain := by decide
  properties_ne_nil := by decide
  isProperty := by decide
  ascending := by decide

/-- Two spellings of one name; the second one is the canonical one. -/
theorem text_canonical_swapped :
    parse "primers:type=Greeter,name=main" = .ok mainGreeter ∧ ∃ n,
      parse "primers:name=main,type=Greeter" = .ok n ∧ n = mainGreeter ∧
      n.text = "primers:name=main,type=Greeter" ∧ parse n.text = .ok n := by
  have hparse : parse "primers:type=Greeter,name=main" = .ok mainGreeter := rfl
  have hs : Spells "primers:type=Greeter,name=main" "primers" [("type", "Greeter"), ("name", "main")] :=
    ⟨by decide, by decide, by decide, by decide, by decide⟩
  have hs' : Spells "primers:name=main,type=Greeter" "primers" [("name", "main"), ("type", "Greeter")] :=
    ⟨by decide, by decide, by decide, by decide, by decide⟩
  obtain ⟨n, hn, -⟩ := parse_of_spells hs'
  obtain ⟨hread, -, hsame⟩ := text_canonical
  obtain ⟨d, ps, d', ps', hd, hd', hiff⟩ := hsame _ _ _ _ hn hparse
  obtain ⟨rfl, rfl⟩ := (hd _ _).1 hs'
  obtain ⟨rfl, rfl⟩ := (hd' _ _).1 hs
  obtain rfl : n = mainGreeter := hiff.2 ⟨rfl, by decide⟩
  exact ⟨hparse, mainGreeter, hn, rfl, rfl, (hread _ _ hn).1⟩

end Handoff.ObjectName
