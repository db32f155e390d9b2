import Handoff.Proofs.Console.FrontEnd
import Handoff.Proofs.Console.Splitting
import Handoff.Proofs.Managed.Dispatch

/-! # White space between words

A command about an object is a few words. A line shows it with white space before the command, between the words and
after the last one, and what is done does not depend on this white space: it is told from the words alone. Each
command cuts its line in its own way, so each says what its words have to be for that; white space inside a word is
part of it and is kept.

* `Console.Command`, `Console.Command.perform`: a command about an object, and what it does, told from its words.
* `Console.Command.IsSeparable`: words that a line tells apart.
* `Console.Command.Spaced`: white space between the words of a command.
* `Console.Command.execute_line`: a line does what the command does.
* `Console.execute_spaced`: the statement, with what becomes of white space inside words.
-/

namespace Handoff.Console

open Text (Blank Gap Solid Trimmed)

/-- **A command about an object**, in words. -/
inductive Command where
  | describe (name : String)
  | get (name attr : String)
  | set (name attr value : String)
  | invoke (name operation : String) (args : List String)

namespace Command

/-- The word that a line begins with. -/
def keyword : Command → String
  | describe _ => "describe"
  | get .. => "get"
  | set .. => "set"
  | invoke .. => "invoke"

/-- The words after it. -/
def words : Command → List String
  | describe name => [name]
  | get name attr => [name, attr]
  | set name attr value => [name, attr, value]
  | invoke name operation args => name :: operation :: args

/-- The line with a single space between two words. -/
def text (c : Command) : String := " ".intercalate (c.keyword :: c.words)

/-- **What a command does**, told from its words as they are: the texts of values stand for values. -/
def perform (g : Registry) : Command → Except Failure String × Registry
  | describe name => naming g name fun n => ((g.describe n).map fun d => d.toJson.pretty, g)
  | get name attr => naming g name fun n => ((g.getAttribute n attr).map render, g)
  | set name attr value => naming g name fun n =>
    let (answer, after) := g.setAttribute n attr (parseValue value.toList)
    (answer.map fun _ => "ok", after)
  | invoke name operation args => naming g name fun n =>
    let (answer, after) := g.invoke n operation (args.map fun a => parseValue a.toList)
    (answer.map render, after)

/-- **Words that a line tells apart.** White space stands at neither end of any of them, and some have none
inside; `invoke` minds quotes, and its arguments are such as are split into themselves. -/
def IsSeparable : Command → Prop
  | describe name => Trimmed name.toList
  | get name attr => (name.toList ≠ [] ∧ Solid name.toList) ∧ attr.toList ≠ [] ∧ Trimmed attr.toList
  | set name attr value => (name.toList ≠ [] ∧ Solid name.toList) ∧ (attr.toList ≠ [] ∧ Solid attr.toList) ∧
    value.toList ≠ [] ∧ Trimmed value.toList
  | invoke name operation args =>
    IsBare name.toList ∧ IsBare operation.toList ∧ ∀ a ∈ args, splitWords a.toList = some [a.toList]

/-- **White space between the words** of a command: some of it before each word. -/
def Spaced (c : Command) (ws : List (List Char × List Char)) : Prop :=
  (∀ gw ∈ ws, Gap gw.1) ∧ ws.map Prod.snd = c.words.map String.toList

/-! ### Lines -/

variable {c : Command} {g : Registry} {lead trail : List Char} {ws : List (List Char × List Char)}

/-- The first of some words stands after its gap. -/
theorem exists_gap {w : List Char} {vs : List (List Char)} (hgap : ∀ gw ∈ ws, Gap gw.1)
    (hsnd : ws.map Prod.snd = w :: vs) :
    ∃ gap ws', ws = (gap, w) :: ws' ∧ Gap gap ∧ (∀ gw ∈ ws', Gap gw.1) ∧ ws'.map Prod.snd = vs := by
  obtain ⟨⟨gap, _⟩, ws', rfl, rfl, hrest⟩ := List.map_eq_cons_iff.1 hsnd
  obtain ⟨hfirst, hgap'⟩ := List.forall_mem_cons.1 hgap
  exact ⟨gap, ws', rfl, hfirst, hgap', hrest⟩

/-- **A line does what its command does**, whatever white space it has. -/
theorem execute_line (hc : c.IsSeparable) (hlead : Blank lead) (htrail : Blank trail) (hws : c.Spaced ws) :
    execute g (line lead c.keyword ws trail) = c.perform g := by
  obtain ⟨hgaps, hsnd⟩ := hws
  cases c with
  | describe name =>
    obtain ⟨gap, ws, rfl, hgap, -, hnil⟩ := exists_gap hgaps hsnd
    obtain rfl := List.map_eq_nil_iff.1 hnil
    exact execute_describe_line hc hlead htrail hgap
  | get name attr =>
    obtain ⟨gap, ws, rfl, hgap, hgaps, hsnd⟩ := exists_gap hgaps hsnd
    obtain ⟨gap', ws, rfl, hgap', -, hnil⟩ := exists_gap hgaps hsnd
    obtain rfl := List.map_eq_nil_iff.1 hnil
    obtain ⟨⟨hname, hsolid⟩, hattr, htrim⟩ := hc
    exact execute_get_line hsolid hname hlead htrail hgap hgap' htrim hattr
  | set name attr value =>
    obtain ⟨gap, ws, rfl, hgap, hgaps, hsnd⟩ := exists_gap hgaps hsnd
    obtain ⟨gap', ws, rfl, hgap', hgaps, hsnd⟩ := exists_gap hgaps hsnd
    obtain ⟨sep, ws, rfl, hsep, -, hnil⟩ := exists_gap hgaps hsnd
    obtain rfl := List.map_eq_nil_iff.1 hnil
    obtain ⟨⟨hname, hsolid⟩, ⟨hattr, hsolid'⟩, hvalue, htrim⟩ := hc
    exact execute_set_line hsolid hname hlead htrail hgap hgap' hsep hsolid' hattr htrim hvalue
  | invoke name operation args =>
    obtain ⟨gap, ws, rfl, hgap, hgaps, hsnd⟩ := exists_gap hgaps hsnd
    obtain ⟨gap', ws, rfl, hgap', hgaps, hargs⟩ := exists_gap hgaps hsnd
    obtain ⟨hname, hoperation, hwhole⟩ := hc
    have hwords : ∀ gw ∈ ws, Gap gw.1 ∧ IsWhole gw.2 := by
      intro gw hgw
      obtain ⟨a, ha, hword⟩ := List.mem_map.1 (hargs ▸ List.mem_map_of_mem hgw)
      exact ⟨hgaps gw hgw, hword ▸ splitWords_self_iff.1 (hwhole a ha)⟩
    have hvalues : (ws.map Prod.snd).map parseValue = args.map fun a => parseValue a.toList := by
      rw [hargs, List.map_map]
      rfl
    rw [keyword, execute_invoke_line hname hoperation hlead htrail hgap hgap' hwords, hvalues]
    rfl

/-- The words with single spaces. -/
def single (c : Command) : List (List Char × List Char) := c.words.map fun w => ([' '], w.toList)

theorem spaced_single (c : Command) : c.Spaced c.single := by
  refine ⟨List.forall_mem_map.2 fun _ _ => (by decide : Gap [' ']), ?_⟩
  rw [single, List.map_map]
  rfl

theorem text_eq (c : Command) : c.text = line [] c.keyword c.single [] := by
  apply String.toList_injective
  have hwords : (c.keyword :: c.words).map String.toList = c.keyword.toList :: c.words.map String.toList := rfl
  have hspace : " ".toList = [' '] := rfl
  rw [text, String.toList_intercalate, hwords, hspace, intercalate_blank, line, String.toList_ofList, single,
    List.map_map, List.nil_append, List.append_nil]
  rfl

theorem execute_text (hc : c.IsSeparable) : execute g c.text = c.perform g := by
  rw [text_eq]
  exact execute_line hc Text.blank_nil Text.blank_nil c.spaced_single

/-! ### White space inside words -/

section Kept

variable {t : String} {n : ObjectName} {r : Record}

theorem perform_get_unlisted (ht : ObjectName.parse t = .ok n) (hr : g.find? n = some r) {attr : String}
    (hattr : attr ∉ Record.descriptor.attributeNames) :
    (get t attr).perform g = (.error (.unknownAttribute n.text attr), g) := by
  rw [perform, naming, ht]
  simp only [Registry.getAttribute_unlisted hr hattr]
  rfl

theorem perform_set_label (ht : ObjectName.parse t = .ok n) (hr : g.find? n = some r) {value s : String}
    (hvalue : parseValue value.toList = .str s) :
    (set t "label" value).perform g = (.ok "ok", g.put n (r.setLabel s)) := by
  rw [perform, naming, ht]
  simp only [hvalue, setAttribute_label hr]
  rfl

theorem perform_invoke_printGreeting (ht : ObjectName.parse t = .ok n) (hr : g.find? n = some r)
    {arg s : String} (harg : parseValue arg.toList = .str s) :
    (invoke t "print_greeting" [arg]).perform g = (.ok ("hello, " ++ s), g) := by
  have hcall : g.invoke n "print_greeting" [.str s] = (.ok (.str (Record.greeting s)), g) := by
    rw [Registry.invoke_of_some hr, Record.invoke_printGreeting]
    exact congrArg (Prod.mk _) (Registry.put_of_find? hr)
  rw [perform, naming, ht]
  simp only [List.map_cons, List.map_nil, harg, hcall]
  rfl

theorem parseValue_str (s : String) : parseValue (Json.str s).compact.toList = .str s := by
  rw [Json.compact, String.toList_ofList]
  exact parseValue_compactChars (.str s)

/-- A text that is no value stands for itself. -/
theorem parseValue_of_none {value : String} (h : Json.parseChars? value.toList = none) :
    parseValue value.toList = .str value := by
  rw [parseValue, h, Option.getD_none, String.ofList_toList]

end Kept

end Command

theorem execute_blank {l : String} (h : Blank l.toList) (g : Registry) : execute g l = (.ok "", g) := by
  have hsplit := splitCommand_bare h Text.blank_nil (show Solid [] by decide)
  rw [List.append_nil, List.append_nil] at hsplit
  rw [execute, hsplit]
  rfl

/-- **White space between words does not matter, and inside them it is kept.**
* A line that begins with a command and shows its words, with white space before the command, between the words and at
  the end, does what the line with single spaces does: this is told from the words alone.
* An attribute that there is not is named in the failure as it stands. A label is set to a text as it stands if it
  stands for no other value, and a quoted text is the value of a label or an argument, character by character.
* A line of white space has an empty answer and changes nothing. -/
theorem execute_spaced (g : Registry) :
    (∀ c : Command, c.IsSeparable → ∀ lead trail ws, Blank lead → Blank trail → c.Spaced ws →
      execute g (line lead c.keyword ws trail) = execute g c.text ∧ execute g c.text = c.perform g) ∧
    (∀ t n r, ObjectName.parse t = .ok n → g.find? n = some r →
      (∀ attr ∉ Record.descriptor.attributeNames,
        (Command.get t attr).perform g = (.error (.unknownAttribute n.text attr), g)) ∧
      (∀ value : String, Json.parseChars? value.toList = none →
        (Command.set t "label" value).perform g = (.ok "ok", g.put n (r.setLabel value))) ∧
      ∀ s, (Command.set t "label" (Json.str s).compact).perform g = (.ok "ok", g.put n (r.setLabel s)) ∧
        (Command.invoke t "print_greeting" [(Json.str s).compact]).perform g = (.ok ("hello, " ++ s), g)) ∧
    ∀ l : String, Blank l.toList → execute g l = (.ok "", g) := by
  refine ⟨fun c hc lead trail ws hlead htrail hws => ?_, fun t n r ht hr => ⟨?_, ?_, fun s => ⟨?_, ?_⟩⟩,
    fun l hl => execute_blank hl g⟩
  · have htext : execute g c.text = c.perform g := Command.execute_text hc
    exact ⟨(Command.execute_line hc hlead htrail hws).trans htext.symm, htext⟩
  · exact fun attr hattr => Command.perform_get_unlisted ht hr hattr
  · exact fun value hvalue => Command.perform_set_label ht hr (Command.parseValue_of_none hvalue)
  · exact Command.perform_set_label ht hr (Command.parseValue_str s)
  · exact Command.perform_invoke_printGreeting ht hr (Command.parseValue_str s)

/-- A label is set to two words with two spaces between them, by a line with tabs, line ends and an em space; a name
for an attribute that there is not comes back with its space. -/
theorem execute_spaced_label :
    let g := Registry.empty.put plainName ⟨"old", 3⟩
    let c := Command.set "a:b=c" "label" "two  words"
    let ws := [(['\t'], "a:b=c".toList), ([' ', '\n'], "label".toList), (['\u2003'], "two  words".toList)]
    c.IsSeparable ∧ c.Spaced ws ∧ c.text = "set a:b=c label two  words" ∧
      execute g (line [' '] "set" ws ['\r', '\n']) = (.ok "ok", g.put plainName ⟨"two  words", 3⟩) ∧
      execute g c.text = (.ok "ok", g.put plainName ⟨"two  words", 3⟩) ∧
      (Command.get "a:b=c" "no label").perform g = (.error (.unknownAttribute "a:b=c" "no label"), g) ∧
      execute g "\t\u2003" = (.ok "", g) := by
  intro g c ws
  have hc : c.IsSeparable :=
    ⟨by decide, by decide, by decide, Text.trim_eq_self_iff.1 (by decide)⟩
  have hws : c.Spaced ws := ⟨by decide, rfl⟩
  have hname : ObjectName.parse "a:b=c" = .ok plainName := rfl
  obtain ⟨hlines, hkept, hblank⟩ := execute_spaced g
  obtain ⟨hline, htext⟩ := hlines c hc [' '] ['\r', '\n'] ws (by decide) (by decide) hws
  obtain ⟨hget, hset, -⟩ := hkept "a:b=c" plainName ⟨"old", 3⟩ hname (find?_put ..)
  have hlabel := htext.trans (hset "two  words" (by decide +kernel))
  exact ⟨hc, hws, rfl, hline.trans hlabel, hlabel, hget "no label" (by decide), hblank _ (by decide)⟩

end Handoff.Console
