import Handoff.Proofs.Console.FrontEnd
import Handoff.Proofs.Managed.Canonical
import Handoff.Proofs.Managed.Dispatch
import Handoff.Proofs.Managed.Requests

/-! # Spellings of a name are interchangeable

A name has many spellings: its properties may stand in any order. A request is served for the name that a text spells,
and its failures call the object by the canonical spelling, so the text is not seen in the answer. A line cuts the
text off before it reads it; it cuts off any word alike, and if it fails before that then for reasons that the word
has no part in, so lines with two spellings of one name do the same.

* `Registry.namesOnly_of_error`: a failed request calls the object by its canonical spelling, if at all.
* `Console.ByName`: what depends on a text only through the name that it spells.
* `Console.byName_line`: a line about an object is of this kind.
* `Console.spellings_interchangeable`: the statement for requests and for lines.
-/

namespace Handoff

/-! ### Failures about an object -/

namespace Failure

/-- The text by which a failure calls an object, if it does. -/
def object? : Failure → Option String
  | invalidObjectName t _ => some t
  | alreadyRegistered t => some t
  | unknownObject t => some t
  | unknownAttribute t _ => some t
  | unknownOperation t _ => some t
  | _ => none

/-- If a failure calls an object, then by this text. -/
def NamesOnly (t : String) (e : Failure) : Prop := ∀ o ∈ e.object?, o = t

end Failure

namespace Descriptor.Dispatches

variable {σ : Type} {d : Descriptor} {object : String} {x : Access σ} {s : σ} {e : Failure}

theorem namesOnly_of_set (h : Dispatches d object x s) {attr : String} {v : Json}
    (he : (x.set s attr v).1 = .error e) : e.NamesOnly object := by
  by_cases hmem : attr ∈ d.attributeNames
  · obtain ⟨a, ha, rfl⟩ := List.mem_map.1 hmem
    obtain ⟨-, rfl | ⟨reason, rfl⟩⟩ := (h.sets a ha v).of_error he
    · exact fun o ho => by cases ho
    · exact fun o ho => by cases ho
  · rw [h.sets_unlisted attr hmem] at he
    cases he
    exact fun o ho => by cases ho; rfl

theorem namesOnly_of_call (h : Dispatches d object x s) {operation : String} {args : List Json}
    (he : (x.call s operation args).1 = .error e) : e.NamesOnly object := by
  by_cases hmem : operation ∈ d.operationNames
  · obtain ⟨o, ho, rfl⟩ := List.mem_map.1 hmem
    obtain ⟨-, reason, rfl⟩ := (h.calls o ho args).of_error he
    exact fun o ho => by cases ho
  · rw [h.calls_unlisted operation hmem] at he
    cases he
    exact fun o ho => by cases ho; rfl

end Descriptor.Dispatches

namespace Registry

variable {g : Registry} {n : ObjectName} {e : Failure}

theorem error_of_map {α β : Type} {f : α → β} {x : Except Failure α} (h : x.map f = .error e) : x = .error e := by
  cases x with
  | error => exact congrArg Except.error (Except.error.inj h)
  | ok => cases h

/-- Where there is no object, all that can be done is to take one in. -/
theorem serve_of_none (h : g.find? n = none) {q : Request} (hq : ∀ r, q ≠ .register r) :
    (g.serve n q).1 = .error (unknown n) := by
  cases q with
  | register r => exact absurd rfl (hq r)
  | unregister => simp only [serve, unregister, h]; rfl
  | describe => simp only [serve, describe, h]; rfl
  | getAttribute attr => simp only [serve, getAttribute, h]; rfl
  | setAttribute attr value => simp only [serve, setAttribute, h]; rfl
  | invoke operation args => simp only [serve, invoke, h]; rfl

/-- **A failed request calls the object by its canonical spelling**, if at all. -/
theorem namesOnly_of_error {q : Request} (h : (g.serve n q).1 = .error e) : e.NamesOnly n.text := by
  rcases hr : g.find? n with _ | r
  · by_cases hq : ∃ r, q = .register r
    · obtain ⟨r, rfl⟩ := hq
      have he := error_of_map h
      rw [register_of_none hr] at he
      cases he
    · cases (serve_of_none hr (not_exists.1 hq)).symm.trans h
      exact fun o ho => by cases ho; rfl
  · cases q with
    | register r' =>
      have he := error_of_map h
      rw [register_of_isSome (by rw [hr]; rfl)] at he
      cases he
      exact fun o ho => by cases ho; rfl
    | unregister =>
      have he := error_of_map h
      rw [unregister_of_some hr] at he
      cases he
    | describe =>
      have he := error_of_map h
      rw [describe, hr] at he
      cases he
    | getAttribute attr =>
      have he := error_of_map h
      rw [getAttribute_of_some hr] at he
      rcases hv : r.getAttribute? attr with _ | v
      · simp only [hv] at he
        cases he
        exact fun o ho => by cases ho; rfl
      · simp only [hv] at he
        cases he
    | setAttribute attr value => exact (dispatches hr).namesOnly_of_set (error_of_map h)
    | invoke operation args => exact (dispatches hr).namesOnly_of_call (error_of_map h)

end Registry

namespace Console

open Text (isBlank Blank Gap Solid Trimmed)

variable {g : Registry} {t t' : String} {n : ObjectName} {lead gap body rest : List Char}

/-! ### Texts that are only read -/

/-- A text that names an object stands for its name. -/
theorem naming_of_parse {α : Type} (ht : ObjectName.parse t = .ok n)
    (act : ObjectName → Except Failure α × Registry) : naming g t act = act n := by
  rw [naming, ht]

/-- **What depends on a word only through the name that it spells**: it fails whatever the word is, or it is done to
the object that the word names. -/
def ByName (g : Registry) (f : String → Except Failure String × Registry) : Prop :=
  (∃ e, ∀ t : String, IsBare t.toList → f t = (.error e, g)) ∨
    ∃ act, ∀ t : String, IsBare t.toList → f t = naming g t act

theorem ByName.eq {f : String → Except Failure String × Registry} (hf : ByName g f) (hbare : IsBare t.toList)
    (hbare' : IsBare t'.toList) (ht : ObjectName.parse t = .ok n) (ht' : ObjectName.parse t' = .ok n) :
    f t = f t' := by
  rcases hf with ⟨e, he⟩ | ⟨act, hact⟩
  · rw [he t hbare, he t' hbare']
  · rw [hact t hbare, hact t' hbare', naming_of_parse ht, naming_of_parse ht']

theorem ByName.congr {f f' : String → Except Failure String × Registry} (hf : ByName g f)
    (h : ∀ t : String, IsBare t.toList → f' t = f t) : ByName g f' := by
  rcases hf with ⟨e, he⟩ | ⟨act, hact⟩
  · exact .inl ⟨e, fun t ht => (h t ht).trans (he t ht)⟩
  · exact .inr ⟨act, fun t ht => (h t ht).trans (hact t ht)⟩

/-! ### What follows a word -/

/-- A word ends before this text: there is nothing, or white space. -/
def EndsWord (l : List Char) : Prop := ∀ c ∈ l.head?, isBlank c = true

/-- What two parts are does not depend on the first word. -/
theorem exists_twoParts (command : String) (hbody : EndsWord body) :
    ∃ x : Except Failure (List Char), ∀ t, Solid t → twoParts command (t ++ body) = x.map (Prod.mk t) := by
  rcases body with _ | ⟨c, b⟩
  · refine ⟨.error (usage command "<name> <attribute>"), fun t ht => ?_⟩
    rw [List.append_nil, twoParts, Text.cutWord_solid ht]
    rfl
  · have hcut : ∀ {t}, Solid t → Text.cutWord (t ++ c :: b) = some (t, b) := fun ht =>
      Text.cutWord_append ht (hbody c rfl)
    rcases htrim : Text.trim b with _ | ⟨d, l⟩
    · refine ⟨.error (usage command "<name> <attribute>"), fun t ht => ?_⟩
      rw [twoParts, hcut ht]
      simp only [htrim]
      rfl
    · refine ⟨.ok (d :: l), fun t ht => ?_⟩
      rw [twoParts, hcut ht]
      simp only [htrim]
      rfl

/-- The words after the first one do not depend on it. -/
theorem exists_splitWords (hbody : EndsWord body) :
    ∃ x : Option (List (List Char)), ∀ t, IsBare t → splitWords (t ++ body) = x.map (t :: ·) := by
  rcases body with _ | ⟨c, b⟩
  · refine ⟨some [], fun t ht => ?_⟩
    rw [List.append_nil, splitWords_whole ht.whole]
    rfl
  · refine ⟨splitWords b, fun t ht => ?_⟩
    have hgap : Gap [c] := ⟨List.cons_ne_nil _ _, List.forall_mem_singleton.2 (hbody c rfl)⟩
    have hshape : t ++ c :: b = t ++ [c] ++ b := by simp
    rw [hshape, splitWords_whole_append ht.whole hgap]

theorem byName_get (g : Registry) (hbody : EndsWord body) : ByName g fun t => (get g (t.toList ++ body), g) := by
  obtain ⟨x, hx⟩ := exists_twoParts "get" hbody
  cases x with
  | error e =>
    refine .inl ⟨e, fun t ht => ?_⟩
    show (get g (t.toList ++ body), g) = _
    rw [get, hx _ ht.solid]
    rfl
  | ok attr => exact .inr ⟨_, fun t ht => get_of_parts (hx _ ht.solid)⟩

theorem byName_set (g : Registry) (hbody : EndsWord body) : ByName g fun t => set g (t.toList ++ body) := by
  obtain ⟨x, hx⟩ := exists_twoParts "set" hbody
  cases x with
  | error e =>
    refine .inl ⟨e, fun t ht => ?_⟩
    show set g (t.toList ++ body) = _
    rw [set, setWords, hx _ ht.solid]
    rfl
  | ok l =>
    rcases hcut : Text.cutWord l with _ | ⟨attr, raw⟩
    · refine .inl ⟨usage "set" "set <name> <attribute> <value>", fun t ht => ?_⟩
      show set g (t.toList ++ body) = _
      rw [set, setWords, hx _ ht.solid]
      simp only [Except.map, bind, Except.bind, hcut]
      rfl
    · exact .inr ⟨_, fun t ht => set_of_parts (hx _ ht.solid) hcut⟩

theorem byName_invoke (g : Registry) (hbody : EndsWord body) : ByName g fun t => invoke g (t.toList ++ body) := by
  obtain ⟨x, hx⟩ := exists_splitWords hbody
  rcases x with _ | _ | ⟨op, args⟩
  · refine .inl ⟨.invalidArgument "invoke" "unterminated quoted string", fun t ht => ?_⟩
    show invoke g (t.toList ++ body) = _
    rw [invoke, invokeWords, hx _ ht]
    rfl
  · refine .inl ⟨usage "invoke" "invoke <name> <operation> [args]", fun t ht => ?_⟩
    show invoke g (t.toList ++ body) = _
    rw [invoke, invokeWords, hx _ ht]
    rfl
  · exact .inr ⟨_, fun t ht => invoke_of_words (hx _ ht)⟩

/-! ### Lines -/

/-- A line whose first word after the command is a text, with more after it. -/
def namedLine (lead : List Char) (command : String) (gap : List Char) (t : String) (rest : List Char) : String :=
  String.ofList (lead ++ command.toList ++ gap ++ t.toList ++ rest)

/-- What follows the command is the word, and what follows the word up to the last character that is not blank. -/
theorem splitCommand_namedLine (command : String) (hc : command.toList ≠ []) (hs : Solid command.toList)
    (hlead : Blank lead) (hgap : Gap gap) (hrest : EndsWord rest) :
    ∃ body, EndsWord body ∧ ∀ t : String, IsBare t.toList →
      splitCommand (namedLine lead command gap t rest).toList = (command.toList, t.toList ++ body) := by
  obtain ⟨trail, hshape, htrail, hlast⟩ := Text.exists_trimEnd rest
  generalize Text.trimEnd rest = body at hshape hlast
  subst hshape
  refine ⟨body, fun c hc => hrest c ?_, fun t ht => ?_⟩
  · exact List.mem_head?_append_of_mem_head? hc
  · have htrim : Trimmed (t.toList ++ body) := by
      by_cases hne : body = []
      · rw [hne, List.append_nil]
        exact ht.solid.trimmed
      · simpa using Text.trimmed_of_ends ht.solid.trimmed.1 hlast ht.1 hne []
    have hline : namedLine lead command gap t (body ++ trail) =
        line lead command [(gap, t.toList ++ body)] trail := by
      simp [namedLine, line, spread]
    rw [hline, splitCommand_text command hlead htrail hc hs hgap htrim]

/-- **A line depends on its name only through the object that it names**, whatever follows the name. -/
theorem byName_line (g : Registry) {command : String} (hcommand : command ∈ ["get", "set", "invoke"])
    (hlead : Blank lead) (hgap : Gap gap) (hrest : EndsWord rest) :
    ByName g fun t => execute g (namedLine lead command gap t rest) := by
  have hcut : command.toList ≠ [] ∧ Solid command.toList := by
    simp only [List.mem_cons, List.not_mem_nil, or_false] at hcommand
    rcases hcommand with rfl | rfl | rfl <;> decide
  obtain ⟨body, hbody, hsplit⟩ := splitCommand_namedLine command hcut.1 hcut.2 hlead hgap hrest
  simp only [List.mem_cons, List.not_mem_nil, or_false] at hcommand
  rcases hcommand with rfl | rfl | rfl
  · exact (byName_get g hbody).congr fun t ht => (execute_of_splitCommand (hsplit t ht)).2.2.1 rfl
  · exact (byName_set g hbody).congr fun t ht => (execute_of_splitCommand (hsplit t ht)).2.1 rfl
  · exact (byName_invoke g hbody).congr fun t ht => (execute_of_splitCommand (hsplit t ht)).1 rfl

theorem byName_describe (g : Registry) (hlead : Blank lead) (hgap : Gap gap) (hrest : Blank rest) :
    ByName g fun t => execute g (namedLine lead "describe" gap t rest) := by
  refine .inr ⟨fun name => ((g.describe name).map fun d => d.toJson.pretty, g), fun t ht => ?_⟩
  have hline : namedLine lead "describe" gap t rest = line lead "describe" [(gap, t.toList)] rest := by
    simp [namedLine, line, spread]
  show execute g (namedLine lead "describe" gap t rest) = _
  rw [hline, execute_describe_line ht.solid.trimmed hlead hrest hgap]

/-- **Spellings of a name are interchangeable.** Let two texts spell one name.
* They give the domain of the name, and its properties in some order; what spells the name is just what does so.
* Every request about the object that one text names has the same answer and leaves the same registry as with the
  other text. If it fails, the failure calls the object by the canonical spelling, if at all.
* If the texts have no white space and no quotes, a line that has the one for its name has the same answer and leaves
  the same registry as with the other one, whatever follows the name; for `describe` nothing follows it, since all that
  stands there would be the name. -/
theorem spellings_interchangeable (ht : ObjectName.parse t = .ok n) (ht' : ObjectName.parse t' = .ok n)
    (g : Registry) :
    (∃ ps, ObjectName.Spells t n.domain ps ∧
      ∀ s, ObjectName.parse s = .ok n ↔ ∃ qs, ObjectName.Spells s n.domain qs ∧ ps.Perm qs) ∧
    (∀ q : Registry.Request, naming g t (g.serve · q) = naming g t' (g.serve · q) ∧
      naming g t (g.serve · q) = g.serve n q ∧
      ∀ e, (naming g t (g.serve · q)).1 = .error e → e.NamesOnly n.text) ∧
    (IsBare t.toList → IsBare t'.toList → ∀ lead gap, Blank lead → Gap gap → ∀ rest,
      (EndsWord rest → ∀ command ∈ ["get", "set", "invoke"],
        execute g (namedLine lead command gap t rest) = execute g (namedLine lead command gap t' rest)) ∧
      (Blank rest →
        execute g (namedLine lead "describe" gap t rest) = execute g (namedLine lead "describe" gap t' rest))) := by
  refine ⟨?_, fun q => ?_, fun hbare hbare' lead gap hlead hgap rest =>
    ⟨fun hrest command hcommand => ?_, fun hrest => ?_⟩⟩
  · obtain ⟨ps, hs, -⟩ := ObjectName.spells_of_parse ht
    refine ⟨ps, hs, fun s => ⟨fun h => ?_, ?_⟩⟩
    · obtain ⟨qs, hqs, -⟩ := ObjectName.spells_of_parse h
      exact ⟨qs, hqs, ((ObjectName.eq_iff_perm ht h hs hqs).1 rfl).2⟩
    · rintro ⟨qs, hqs, hperm⟩
      obtain ⟨m, hm, -⟩ := ObjectName.parse_of_spells hqs
      obtain rfl : n = m := (ObjectName.eq_iff_perm ht hm hs hqs).2 ⟨rfl, hperm⟩
      exact hm
  · have hserve : naming g t (g.serve · q) = g.serve n q := naming_of_parse ht _
    refine ⟨hserve.trans (naming_of_parse ht' (g.serve · q)).symm, hserve, fun e he => ?_⟩
    rw [hserve] at he
    exact Registry.namesOnly_of_error he
  · exact (byName_line g hcommand hlead hgap hrest).eq hbare hbare' ht ht'
  · exact (byName_describe g hlead hgap hrest).eq hbare hbare' ht ht'

/-- A greeter is asked for its label by either spelling of its name, and for a colour, which it has not; the failure
calls it by the second spelling, which is the canonical one. -/
theorem spellings_interchangeable_greeter :
    let t := "primers:type=Greeter,name=main"
    let t' := "primers:name=main,type=Greeter"
    let g := Registry.empty.put ObjectName.mainGreeter ⟨"hi", 7⟩
    (ObjectName.parse t = .ok ObjectName.mainGreeter ∧ ObjectName.parse t' = .ok ObjectName.mainGreeter) ∧
      (IsBare t.toList ∧ IsBare t'.toList) ∧
      naming g t (g.serve · (.getAttribute "colour")) = (.error (.unknownAttribute t' "colour"), g) ∧
      execute g "get primers:type=Greeter,name=main label" = execute g "get primers:name=main,type=Greeter label" ∧
      execute g "describe primers:type=Greeter,name=main" = execute g "describe primers:name=main,type=Greeter" := by
  intro t t' g
  have ht : ObjectName.parse "primers:type=Greeter,name=main" = .ok ObjectName.mainGreeter := rfl
  have ht' : ObjectName.parse "primers:name=main,type=Greeter" = .ok ObjectName.mainGreeter := rfl
  have hbare : IsBare t.toList := by decide
  have hbare' : IsBare t'.toList := by decide
  have hgap : Gap [' '] := by decide
  have hends : EndsWord (' ' :: "label".toList) := fun c hc => by cases hc; rfl
  have hfind : g.find? ObjectName.mainGreeter = some ⟨"hi", 7⟩ := find?_put ..
  have hcolour : g.serve ObjectName.mainGreeter (.getAttribute "colour") =
      (.error (.unknownAttribute t' "colour"), g) := by
    rw [Registry.serve, Registry.getAttribute_unlisted hfind (by decide)]
    rfl
  obtain ⟨-, hrequests, hlines⟩ := spellings_interchangeable ht ht' g
  obtain ⟨hget, -⟩ := hlines hbare hbare' [] [' '] Text.blank_nil hgap (' ' :: "label".toList)
  obtain ⟨-, hdescribe⟩ := hlines hbare hbare' [] [' '] Text.blank_nil hgap []
  exact ⟨⟨ht, ht'⟩, ⟨hbare, hbare'⟩, (hrequests _).2.1.trans hcolour, hget hends "get" (by decide),
    hdescribe Text.blank_nil⟩

end Console

end Handoff
