import Mathlib.Data.List.Nodup
import Mathlib.Data.List.Sort
import Mathlib.Tactic.SplitIfs
import Handoff.Managed.ObjectName

/-! # The grammar of object names

A name is spelled by a domain, a colon, and properties with commas between them. Every text spells a name
or breaks a first rule, and reading tells which: the properties are looked at from the left, and the first
that is malformed or repeats a key is reported.

* `ObjectName.Spells`: the grammar; `ObjectName.Refused`: the first rule that a text breaks.
* `ObjectName.spells_or_refused`: every text does one or the other.
* `ObjectName.parse_of_spells`, `ObjectName.parse_of_refused`: reading finds out which.
* `ObjectName.parse_grammar`: so the names that are read are those that the grammar gives.
* `ObjectName.perm_of_parse`: a name that was read has the properties of the text.
* `ObjectName.parse_text`: a name is read from its canonical spelling.
-/

namespace Handoff

/-! ### Pieces -/

namespace Text

/-- A text is cut at the first place of a character. -/
theorem cutAt_append_cons {c : Char} {a : List Char} (ha : c ∉ a) (b : List Char) :
    cutAt (· == c) (a ++ c :: b) = some (a, b) :=
  cutAt_eq_some.2 ⟨c, beq_self_eq_true c, fun _ hx heq => ha (beq_iff_eq.1 heq ▸ hx), rfl⟩

/-- So the parts around the first place of a character are determined. -/
theorem append_cons_inj {c : Char} {a a' b b' : List Char} (ha : c ∉ a) (ha' : c ∉ a')
    (h : a ++ c :: b = a' ++ c :: b') : a = a' ∧ b = b' := by
  have hcut := cutAt_append_cons ha b
  rw [h, cutAt_append_cons ha'] at hcut
  cases hcut
  exact ⟨rfl, rfl⟩

theorem pieces_eq_splitOn (c : Char) (l : List Char) : pieces (· == c) l = l.splitOn c := by
  induction l with
  | nil => rfl
  | cons d l ih =>
    rw [pieces, ih, List.splitOn_cons_eq_if_modifyHead]
    split_ifs with h
    · rfl
    · rcases hs : l.splitOn c with _ | ⟨a, r⟩
      · exact absurd hs (List.splitOn_ne_nil c l)
      · rfl

/-- Pieces are told apart again where commas, or the like, were put between them. -/
theorem pieces_intercalate {c : Char} {ls : List (List Char)} (h : ∀ l ∈ ls, c ∉ l) (hne : ls ≠ []) :
    pieces (· == c) (List.intercalate [c] ls) = ls := by
  rw [pieces_eq_splitOn, List.splitOn_intercalate c h hne]

theorem intercalate_pieces (c : Char) (l : List Char) : List.intercalate [c] (pieces (· == c) l) = l := by
  rw [pieces_eq_splitOn, List.intercalate_splitOn]

theorem not_mem_of_mem_pieces {c : Char} {l x : List Char} (h : x ∈ pieces (· == c) l) : c ∉ x := by
  induction l generalizing x with
  | nil =>
    rw [pieces, List.mem_singleton] at h
    simp [h]
  | cons d l ih =>
    rw [pieces] at h
    split_ifs at h with hd
    · rcases List.mem_cons.1 h with rfl | h
      · simp
      · exact ih h
    · have hne : c ≠ d := fun heq => hd (by simp [heq])
      rcases hp : pieces (· == c) l with _ | ⟨a, r⟩
      · exact absurd hp (pieces_ne_nil _ l)
      · rw [hp] at h ih
        rcases List.mem_cons.1 h with rfl | h
        · exact fun hmem => (List.mem_cons.1 hmem).elim hne (ih (List.mem_cons_self ..))
        · exact ih (List.mem_cons_of_mem _ h)

end Text

/-! ### Entries -/

namespace KeyedList

variable {ν : Type}

theorem Ascending.nodup {l : List (String × ν)} (h : Ascending l) : (l.map Prod.fst).Nodup := by
  refine List.pairwise_map.2 (List.Pairwise.imp (fun {a b} hlt heq => ?_) h)
  rw [heq] at hlt
  exact String.lt_irrefl _ hlt

theorem find?_isSome_iff {k : String} {l : List (String × ν)} :
    (find? k l).isSome ↔ k ∈ l.map Prod.fst := by
  simp only [find?, Option.isSome_map, List.find?_isSome, beq_iff_eq, List.mem_map]

theorem find?_eq_some_iff {k : String} {v : ν} {l : List (String × ν)} (h : (l.map Prod.fst).Nodup) :
    find? k l = some v ↔ (k, v) ∈ l := by
  induction l with
  | nil => simp [find?]
  | cons a l ih =>
    obtain ⟨hnot, hnodup⟩ := List.nodup_cons.1 h
    have ih := ih hnodup
    rw [find?] at ih ⊢
    rw [List.find?_cons]
    by_cases ha : a.1 = k
    · subst ha
      have hother : (a.1, v) ∉ l := fun hmem => hnot (List.mem_map.2 ⟨_, hmem, rfl⟩)
      simp [hother, Prod.ext_iff, eq_comm]
    · have hne : (k, v) ≠ a := fun heq => ha (heq ▸ rfl)
      have hskip : (a.1 == k) = false := by simpa using ha
      rw [List.mem_cons, ← ih]
      simp only [hskip, hne, false_or]

/-- Lists in the order of their keys are equal if they have the same entries. -/
theorem Ascending.eq_of_mem_iff {l l' : List (String × ν)} (h : Ascending l) (h' : Ascending l')
    (hmem : ∀ e, e ∈ l ↔ e ∈ l') : l = l' := by
  have hirrefl : Std.Irrefl fun a b : String × ν => a.1 < b.1 := ⟨fun _ => String.lt_irrefl _⟩
  have hantisymm : Std.Antisymm fun a b : String × ν => a.1 < b.1 :=
    ⟨fun _ _ hab hba => absurd (String.lt_trans hab hba) (String.lt_irrefl _)⟩
  exact List.Pairwise.eq_of_mem_iff h h' hmem

/-- The list with entries added one after the other. -/
def insertAll (l : List (String × ν)) (es : List (String × ν)) : List (String × ν) :=
  es.foldl (fun l e => insert e.1 e.2 l) l

theorem mem_keys_insert {k k' : String} {v : ν} {l : List (String × ν)} (h : Ascending l) :
    k' ∈ (insert k v l).map Prod.fst ↔ k' = k ∨ k' ∈ l.map Prod.fst := by
  simp only [List.mem_map, mem_insert h]
  grind

/-- **Entries with keys of their own are added** to those that are there. -/
theorem mem_insertAll {l es : List (String × ν)} (h : Ascending l) (hes : (es.map Prod.fst).Nodup)
    (hnew : ∀ e ∈ es, e.1 ∉ l.map Prod.fst) (e : String × ν) : e ∈ insertAll l es ↔ e ∈ l ∨ e ∈ es := by
  induction es generalizing l with
  | nil => simp [KeyedList.insertAll]
  | cons d es ih =>
    obtain ⟨hd, hes⟩ := List.nodup_cons.1 hes
    have hnew' : ∀ e ∈ es, e.1 ∉ (insert d.1 d.2 l).map Prod.fst := by
      intro e he hmem
      rcases (mem_keys_insert h).1 hmem with heq | hmem
      · exact hd (heq ▸ List.mem_map_of_mem he)
      · exact hnew e (List.mem_cons_of_mem _ he) hmem
    have hkeep : e ∈ l → e.1 ≠ d.1 := by
      intro he heq
      exact hnew d (List.mem_cons_self ..) (heq ▸ List.mem_map_of_mem he)
    have hrest := ih h.insert hes hnew'
    rw [KeyedList.insertAll, List.foldl_cons]
    rw [KeyedList.insertAll] at hrest
    rw [hrest, mem_insert h, List.mem_cons]
    grind

end KeyedList

namespace ObjectName

/-! ### The grammar -/

/-- **A text spells a name** with a domain and properties. -/
structure Spells (s : String) (domain : String) (ps : List (String × String)) : Prop where
  text : s.toList = domain.toList ++ ':' :: List.intercalate [','] (ps.map propertyChars)
  isWord : IsWord domain.toList
  ne_nil : ps ≠ []
  isProperty : ∀ p ∈ ps, IsProperty p
  nodup : (ps.map Prod.fst).Nodup

/-- A text that begins like the spelling of a name: a domain, properties with keys of their own, and then
the piece `l` up to the next comma or the end. -/
structure Begins (s : String) (ps : List (String × String)) (l : List Char) : Prop where
  text : ∃ (domain : String) (ls : List (List Char)), IsWord domain.toList ∧ (∀ x ∈ ls, ',' ∉ x) ∧
    s.toList = domain.toList ++ ':' :: List.intercalate [','] (ps.map propertyChars ++ l :: ls) ∧
    ps.map propertyChars ++ l :: ls ≠ [[]]
  isProperty : ∀ p ∈ ps, IsProperty p
  nodup : (ps.map Prod.fst).Nodup
  piece : ',' ∉ l

/-- **The first rule that a text breaks.** -/
inductive Refused (s : String) : Fault → Prop where
  | missingColon (h : ':' ∉ s.toList) : Refused s .missingColon
  | badDomain {d rest : List Char} (hs : s.toList = d ++ ':' :: rest) (hd : ':' ∉ d) (h : ¬ IsWord d) :
      Refused s .badDomain
  | noProperty {d : List Char} (hs : s.toList = d ++ [':']) (hd : IsWord d) : Refused s .noProperty
  | badProperty {ps : List (String × String)} {l : List Char} (h : Begins s ps l)
      (hl : ∀ p, IsProperty p → l ≠ propertyChars p) : Refused s .badProperty
  | duplicateKey {ps : List (String × String)} {p : String × String} (h : Begins s ps (propertyChars p))
      (hp : IsProperty p) (hk : p.1 ∈ ps.map Prod.fst) : Refused s .duplicateKey

/-! ### Words and properties -/

theorem IsWord.not_mem {l : List Char} {c : Char} (h : IsWord l) (hc : isWordChar c = false) : c ∉ l :=
  fun hmem => by simp [h.2 c hmem] at hc

theorem IsProperty.not_mem {p : String × String} {c : Char} (h : IsProperty p)
    (hw : isWordChar c = false) (hv : isValueChar c = false) (hne : c ≠ '=') : c ∉ propertyChars p := by
  intro hmem
  rcases List.mem_append.1 hmem with hmem | hmem
  · exact h.1.not_mem hw hmem
  · rcases List.mem_cons.1 hmem with rfl | hmem
    · exact hne rfl
    · simp [h.2.2 c hmem] at hv

theorem comma_not_mem {p : String × String} (h : IsProperty p) : ',' ∉ propertyChars p :=
  h.not_mem (by decide) (by decide) (by decide)

theorem forall_comma_not_mem {ps : List (String × String)} (h : ∀ p ∈ ps, IsProperty p) :
    ∀ l ∈ ps.map propertyChars, ',' ∉ l :=
  List.forall_mem_map.2 fun p hp => comma_not_mem (h p hp)

/-- The name with one property. -/
def single (domain k v : String) (hd : IsWord domain.toList) (hp : IsProperty (k, v)) : ObjectName where
  domain := domain
  properties := [(k, v)]
  isWord_domain := hd
  properties_ne_nil := List.cons_ne_nil _ _
  isProperty := List.forall_mem_singleton.2 hp
  ascending := List.pairwise_singleton _ _

/-- **A piece of text spells a property** just if it is a key, an equals sign and a value. -/
theorem readProperty_eq_some_iff {l : List Char} {p : String × String} :
    readProperty l = some p ↔ IsProperty p ∧ l = propertyChars p := by
  constructor
  · intro h
    refine ⟨isProperty_of_readProperty h, ?_⟩
    unfold readProperty at h
    split at h
    · cases h
    · next k v hcut =>
      split_ifs at h
      cases h
      obtain ⟨c, hc, -, rfl⟩ := Text.cutAt_eq_some.1 hcut
      simp only [beq_iff_eq] at hc
      simp [propertyChars, hc]
  · rintro ⟨hp, rfl⟩
    have hcut : Text.cutAt (· == '=') (propertyChars p) = some (p.1.toList, p.2.toList) :=
      Text.cutAt_append_cons (hp.1.not_mem (by decide)) _
    rw [readProperty, hcut]
    simp only [String.ofList_toList]
    exact if_pos hp

theorem readProperty_eq_none_iff {l : List Char} :
    readProperty l = none ↔ ∀ p, IsProperty p → l ≠ propertyChars p := by
  rw [Option.eq_none_iff_forall_ne_some]
  simp only [ne_eq, readProperty_eq_some_iff, not_and]

/-! ### Scanning properties -/

/-- Properties whose keys are not among those of `acc`, each key once. -/
structure Fresh (acc ps : List (String × String)) : Prop where
  isProperty : ∀ p ∈ ps, IsProperty p
  nodup : (ps.map Prod.fst).Nodup
  new : ∀ p ∈ ps, p.1 ∉ acc.map Prod.fst

/-- The rest of a scan is that of the pieces which were not looked at. -/
theorem readProperties_append {acc ps : List (String × String)} (ha : KeyedList.Ascending acc)
    (h : Fresh acc ps) (ls : List (List Char)) :
    readProperties (ps.map propertyChars ++ ls) acc = readProperties ls (KeyedList.insertAll acc ps) := by
  induction ps generalizing acc with
  | nil => rfl
  | cons p ps ih =>
    obtain ⟨hp, hps⟩ := List.nodup_cons.1 h.nodup
    have hread : readProperty (propertyChars p) = some (p.1, p.2) :=
      readProperty_eq_some_iff.2 ⟨h.isProperty p (List.mem_cons_self ..), rfl⟩
    have hnew : ¬ (KeyedList.find? p.1 acc).isSome := fun hk =>
      h.new p (List.mem_cons_self ..) (KeyedList.find?_isSome_iff.1 hk)
    have hfresh : Fresh (KeyedList.insert p.1 p.2 acc) ps := by
      refine ⟨fun q hq => h.isProperty q (List.mem_cons_of_mem _ hq), hps, fun q hq hmem => ?_⟩
      rcases (KeyedList.mem_keys_insert ha).1 hmem with heq | hmem
      · exact hp (heq ▸ List.mem_map_of_mem hq)
      · exact h.new q (List.mem_cons_of_mem _ hq) hmem
    rw [List.map_cons, List.cons_append, readProperties, hread]
    simp only [if_neg hnew]
    exact ih ha.insert hfresh

/-- **Pieces are properties with keys of their own, up to the end or to a first piece that is not one.** -/
theorem exists_scan (ls : List (List Char)) (acc : List (String × String)) :
    (∃ ps, Fresh acc ps ∧ ls = ps.map propertyChars) ∨
      ∃ ps l rest, Fresh acc ps ∧ ls = ps.map propertyChars ++ l :: rest ∧
        ((∀ p, IsProperty p → l ≠ propertyChars p) ∨
          ∃ p, IsProperty p ∧ l = propertyChars p ∧ (p.1 ∈ acc.map Prod.fst ∨ p.1 ∈ ps.map Prod.fst)) := by
  induction ls generalizing acc with
  | nil => exact .inl ⟨[], ⟨by simp, List.nodup_nil, by simp⟩, rfl⟩
  | cons l ls ih =>
    have hnil : Fresh acc [] := ⟨by simp, List.nodup_nil, by simp⟩
    rcases hl : readProperty l with _ | p
    · exact .inr ⟨[], l, ls, hnil, rfl, .inl (readProperty_eq_none_iff.1 hl)⟩
    · obtain ⟨hp, rfl⟩ := readProperty_eq_some_iff.1 hl
      by_cases hk : p.1 ∈ acc.map Prod.fst
      · exact .inr ⟨[], _, ls, hnil, rfl, .inr ⟨p, hp, rfl, .inl hk⟩⟩
      · have hcons : ∀ {ps}, Fresh (p :: acc) ps → Fresh acc (p :: ps) := by
          intro ps h
          refine ⟨List.forall_mem_cons.2 ⟨hp, h.isProperty⟩, List.nodup_cons.2 ⟨fun hmem => ?_, h.nodup⟩,
            List.forall_mem_cons.2 ⟨hk, fun q hq hmem => h.new q hq (List.mem_cons_of_mem _ hmem)⟩⟩
          obtain ⟨q, hq, heq⟩ := List.mem_map.1 hmem
          exact h.new q hq (by simp [heq])
        rcases ih (p :: acc) with ⟨ps, h, rfl⟩ | ⟨ps, l, rest, h, rfl, hstop⟩
        · exact .inl ⟨p :: ps, hcons h, rfl⟩
        · refine .inr ⟨p :: ps, l, rest, hcons h, rfl, hstop.imp_right ?_⟩
          rintro ⟨q, hq, rfl, hk⟩
          refine ⟨q, hq, rfl, ?_⟩
          simp only [List.map_cons, List.mem_cons] at hk ⊢
          tauto

/-! ### Every text spells a name or breaks a first rule -/

/-- **Every text spells a name, or breaks a first rule.** -/
theorem spells_or_refused (s : String) : (∃ d ps, Spells s d ps) ∨ ∃ f, Refused s f := by
  rcases hcut : Text.cutAt (· == ':') s.toList with _ | ⟨d, rest⟩
  · exact .inr ⟨_, .missingColon fun hmem => Text.cutAt_eq_none.1 hcut _ hmem rfl⟩
  obtain ⟨c, hc, hd, hs⟩ := Text.cutAt_eq_some.1 hcut
  obtain rfl : c = ':' := by simpa using hc
  by_cases hword : IsWord d
  swap
  · exact .inr ⟨_, .badDomain hs (fun hmem => hd _ hmem rfl) hword⟩
  by_cases hrest : rest = []
  · exact .inr ⟨_, .noProperty (by rw [hs, hrest]) hword⟩
  have hpieces : List.intercalate [','] (Text.pieces (· == ',') rest) = rest := Text.intercalate_pieces ',' rest
  have hcomma : ∀ x ∈ Text.pieces (· == ',') rest, ',' ∉ x := fun _ => Text.not_mem_of_mem_pieces
  have hdomain : IsWord (String.ofList d).toList := by simpa using hword
  rcases exists_scan (Text.pieces (· == ',') rest) [] with ⟨ps, h, hps⟩ | ⟨ps, l, ls, h, hps, hstop⟩
  · refine .inl ⟨String.ofList d, ps, ?_, hdomain, ?_, h.isProperty, h.nodup⟩
    · rw [hs, ← hps, hpieces, String.toList_ofList]
    · rintro rfl
      exact Text.pieces_ne_nil _ _ hps
  · have hne : Text.pieces (· == ',') rest ≠ [[]] := by
      intro heq
      rw [heq] at hpieces
      exact hrest hpieces.symm
    have hbegins : Begins s ps l := by
      refine ⟨⟨String.ofList d, ls, hdomain, fun x hx => hcomma x (by simp [hps, hx]), ?_, hps ▸ hne⟩,
        h.isProperty, h.nodup, hcomma l (by simp [hps])⟩
      rw [hs, ← hps, hpieces, String.toList_ofList]
    rcases hstop with hbad | ⟨p, hp, rfl, hk⟩
    · exact .inr ⟨_, .badProperty hbegins hbad⟩
    · exact .inr ⟨_, .duplicateKey hbegins hp (by simpa using hk)⟩

/-! ### Reading finds out which -/

/-- A text with a good domain and something after the colon is read by its pieces. -/
theorem ofChars?_eq {d rest : List Char} (hd : IsWord d) (hne : rest ≠ []) :
    (∀ e, readProperties (Text.pieces (· == ',') rest) [] = .error e → ofChars? (d ++ ':' :: rest) = .error e) ∧
      ∀ ps, readProperties (Text.pieces (· == ',') rest) [] = .ok ps →
        ∃ n, ofChars? (d ++ ':' :: rest) = .ok n ∧ n.domain = String.ofList d ∧ n.properties = ps := by
  have hcut : Text.cutAt (· == ':') (d ++ ':' :: rest) = some (d, rest) :=
    Text.cutAt_append_cons (hd.not_mem (by decide)) _
  unfold ofChars?
  rw [hcut]
  simp only [dif_pos hd, if_neg hne]
  refine ⟨fun e h => ?_, fun ps h => ?_⟩
  · split
    · next e' h' => rw [h] at h'; cases h'; rfl
    · next ps' h' => rw [h] at h'; cases h'
  · split
    · next e' h' => rw [h] at h'; cases h'
    · next ps' h' => rw [h] at h'; cases h'; exact ⟨_, rfl, rfl, rfl⟩

/-- What follows the colon where the properties begin as they should. -/
theorem pieces_begins {ps : List (String × String)} {l : List Char} {ls : List (List Char)}
    (hps : ∀ p ∈ ps, IsProperty p) (hl : ',' ∉ l) (hls : ∀ x ∈ ls, ',' ∉ x) :
    Text.pieces (· == ',') (List.intercalate [','] (ps.map propertyChars ++ l :: ls)) =
      ps.map propertyChars ++ l :: ls := by
  refine Text.pieces_intercalate (fun x hx => ?_) (by simp)
  rcases List.mem_append.1 hx with hx | hx
  · exact forall_comma_not_mem hps x hx
  · rcases List.mem_cons.1 hx with rfl | hx
    · exact hl
    · exact hls x hx

theorem intercalate_ne_nil {ls : List (List Char)} (hne : ls ≠ []) (h : ls ≠ [[]]) :
    List.intercalate [','] ls ≠ [] := by
  rcases ls with _ | ⟨l, _ | ⟨l', ls⟩⟩
  · exact absurd rfl hne
  · rw [List.intercalate_singleton]
    rintro rfl
    exact h rfl
  · rw [List.intercalate_cons_cons]
    simp

/-- **A text that spells a name is read**: the name has the domain, and its properties are those that were
given. -/
theorem parse_of_spells {s d : String} {ps : List (String × String)} (h : Spells s d ps) :
    ∃ n, parse s = .ok n ∧ n.domain = d ∧ ∀ p, p ∈ n.properties ↔ p ∈ ps := by
  have hfresh : Fresh [] ps := ⟨h.isProperty, h.nodup, by simp⟩
  have hchars : ps.map propertyChars ≠ [] := by simpa using h.ne_nil
  have hrest : List.intercalate [','] (ps.map propertyChars) ≠ [] := by
    refine intercalate_ne_nil hchars fun heq => ?_
    obtain ⟨p, hp, heq⟩ := List.mem_map.1 (heq ▸ List.mem_singleton_self [] : [] ∈ ps.map propertyChars)
    simp [propertyChars] at heq
  have hpieces := Text.pieces_intercalate (forall_comma_not_mem h.isProperty) hchars
  have hread := readProperties_append List.Pairwise.nil hfresh []
  rw [List.append_nil, ← hpieces] at hread
  obtain ⟨n, hn, hd, hps⟩ := (ofChars?_eq h.isWord hrest).2 _ hread
  refine ⟨n, ?_, by simpa using hd, fun p => ?_⟩
  · rw [parse, ofText?, h.text, hn]
    rfl
  · rw [hps, KeyedList.mem_insertAll List.Pairwise.nil h.nodup (by simp)]
    simp

/-- **A text that breaks a first rule is refused for that reason.** -/
theorem parse_of_refused {s : String} {f : Fault} (h : Refused s f) :
    parse s = .error (.invalidObjectName s f.text) := by
  suffices hf : ofChars? s.toList = .error f by
    rw [parse, ofText?, hf]
    rfl
  cases h with
  | missingColon h =>
    have hcut : Text.cutAt (· == ':') s.toList = none :=
      Text.cutAt_eq_none.2 fun c hc heq => h ((beq_iff_eq.1 heq) ▸ hc)
    rw [ofChars?, hcut]
  | @badDomain d rest hs hd h =>
    have hcut : Text.cutAt (· == ':') s.toList = some (d, rest) := hs ▸ Text.cutAt_append_cons hd _
    rw [ofChars?, hcut]
    simp only [dif_neg h]
  | @noProperty d hs hd =>
    have hcut : Text.cutAt (· == ':') s.toList = some (d, []) :=
      hs ▸ Text.cutAt_append_cons (hd.not_mem (by decide)) _
    rw [ofChars?, hcut]
    simp only [dif_pos hd, if_true]
  | @badProperty ps l h hl =>
    obtain ⟨d, ls, hd, hls, hs, hne⟩ := h.text
    rw [hs]
    refine (ofChars?_eq hd (intercalate_ne_nil (by simp) hne)).1 _ ?_
    rw [pieces_begins h.isProperty h.piece hls,
      readProperties_append List.Pairwise.nil ⟨h.isProperty, h.nodup, by simp⟩, readProperties,
      readProperty_eq_none_iff.2 hl]
  | @duplicateKey ps p h hp hk =>
    obtain ⟨d, ls, hd, hls, hs, hne⟩ := h.text
    have hread : readProperty (propertyChars p) = some (p.1, p.2) := readProperty_eq_some_iff.2 ⟨hp, rfl⟩
    have hfound : (KeyedList.find? p.1 (KeyedList.insertAll [] ps)).isSome := by
      obtain ⟨q, hq, heq⟩ := List.mem_map.1 hk
      rw [KeyedList.find?_isSome_iff, ← heq]
      exact List.mem_map_of_mem ((KeyedList.mem_insertAll List.Pairwise.nil h.nodup (by simp) q).2 (.inr hq))
    rw [hs]
    refine (ofChars?_eq hd (intercalate_ne_nil (by simp) hne)).1 _ ?_
    rw [pieces_begins h.isProperty h.piece hls,
      readProperties_append List.Pairwise.nil ⟨h.isProperty, h.nodup, by simp⟩, readProperties, hread]
    simp only [if_pos hfound]

theorem property?_eq_some_iff {n : ObjectName} {k v : String} : n.property? k = some v ↔ (k, v) ∈ n.properties :=
  KeyedList.find?_eq_some_iff n.ascending.nodup

/-- A name that was read is spelled by the text, with the properties in some order. -/
theorem spells_of_parse {s : String} {n : ObjectName} (h : parse s = .ok n) :
    ∃ ps, Spells s n.domain ps ∧ ∀ p, p ∈ n.properties ↔ p ∈ ps := by
  rcases spells_or_refused s with ⟨d, ps, hs⟩ | ⟨f, hf⟩
  · obtain ⟨n', hn', rfl, hps⟩ := parse_of_spells hs
    rw [h] at hn'
    cases hn'
    exact ⟨ps, hs, hps⟩
  · rw [parse_of_refused hf] at h
    cases h

/-- **A name that was read** has the domain that the text gives, and the properties in some order. -/
theorem perm_of_parse {s d : String} {ps : List (String × String)} {n : ObjectName} (h : parse s = .ok n)
    (hs : Spells s d ps) : n.domain = d ∧ n.properties.Perm ps := by
  obtain ⟨m, hm, hd, hps⟩ := parse_of_spells hs
  cases h.symm.trans hm
  exact ⟨hd, (List.perm_ext_iff_of_nodup (List.Nodup.of_map _ n.ascending.nodup)
    (List.Nodup.of_map _ hs.nodup)).2 hps⟩

/-! ### The canonical spelling -/

theorem spells_text (n : ObjectName) : Spells n.text n.domain n.properties :=
  ⟨by rw [text, String.toList_ofList, chars], n.isWord_domain, n.properties_ne_nil, n.isProperty,
    n.ascending.nodup⟩

/-- **A name is read from its canonical spelling.** -/
theorem parse_text (n : ObjectName) : parse n.text = .ok n := by
  obtain ⟨n', hn', hd, hps⟩ := parse_of_spells n.spells_text
  rw [hn', ext hd (n'.ascending.eq_of_mem_iff n.ascending hps)]

theorem length_intercalate (ls : List (List Char)) :
    (List.intercalate [','] ls).length = ls.flatten.length + (ls.length - 1) := by
  induction ls with
  | nil => rfl
  | cons l ls ih =>
    cases ls with
    | nil => simp
    | cons l' ls =>
      rw [List.intercalate_cons_cons, List.length_append, List.length_append, ih]
      simp only [List.flatten_cons, List.length_append, List.length_cons, List.length_nil]
      omega

/-- **All spellings of a name are of one length.** -/
theorem length_text {s : String} {n : ObjectName} (h : parse s = .ok n) :
    n.text.toList.length = s.toList.length := by
  obtain ⟨ps, hs, -⟩ := spells_of_parse h
  have hperm := (perm_of_parse h hs).2
  rw [n.spells_text.text, hs.text, List.length_append, List.length_append, List.length_cons, List.length_cons,
    length_intercalate, length_intercalate, (hperm.map propertyChars).flatten.length_eq,
    (hperm.map propertyChars).length_eq]

/-- **Reading accepts exactly the grammar, and tells the first rule that is broken.** A text is read just if
it spells a name; the name that is read has the domain and exactly the properties that the text gives. A text
that is not read is reported as it stands, with the first rule that it breaks: a colon is missing, the domain
is malformed, nothing follows the colon, or the first property from the left that is malformed or repeats an
earlier key. -/
theorem parse_grammar (s : String) :
    ((∃ n, parse s = .ok n) ↔ ∃ d ps, Spells s d ps) ∧
      (∀ n, parse s = .ok n ↔
        ∃ ps, Spells s n.domain ps ∧ ∀ k v, n.property? k = some v ↔ (k, v) ∈ ps) ∧
      ∀ e, parse s = .error e ↔ ∃ f, Refused s f ∧ e = .invalidObjectName s f.text := by
  refine ⟨⟨?_, ?_⟩, fun n => ⟨?_, ?_⟩, fun e => ⟨fun h => ?_, ?_⟩⟩
  · rintro ⟨n, h⟩
    obtain ⟨ps, hs, -⟩ := spells_of_parse h
    exact ⟨_, ps, hs⟩
  · rintro ⟨d, ps, hs⟩
    obtain ⟨n, hn, -⟩ := parse_of_spells hs
    exact ⟨n, hn⟩
  · intro h
    obtain ⟨ps, hs, hps⟩ := spells_of_parse h
    exact ⟨ps, hs, fun k v => property?_eq_some_iff.trans (hps (k, v))⟩
  · rintro ⟨ps, hs, hps⟩
    obtain ⟨n', hn', hd, hps'⟩ := parse_of_spells hs
    have hmem : ∀ p, p ∈ n'.properties ↔ p ∈ n.properties := fun p =>
      (hps' p).trans ((hps p.1 p.2).symm.trans property?_eq_some_iff)
    rw [hn', ext hd (n'.ascending.eq_of_mem_iff n.ascending hmem)]
  · rcases spells_or_refused s with ⟨d, ps, hs⟩ | ⟨f, hf⟩
    · obtain ⟨n, hn, -⟩ := parse_of_spells hs
      rw [hn] at h
      cases h
    · rw [parse_of_refused hf] at h
      cases h
      exact ⟨f, hf, rfl⟩
  · rintro ⟨f, hf, rfl⟩
    exact parse_of_refused hf

end ObjectName

end Handoff
