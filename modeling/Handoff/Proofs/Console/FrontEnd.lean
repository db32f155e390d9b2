import Handoff.Console.Command
import Handoff.Proofs.Console.Words

/-! # What a line does is what the registry does

A line that names an object, an operation or an attribute, and values in their compact form, has the
effect and the answer of the registry's own operation on the values. White space between the words and
around them does not matter.

* `Console.line`: a command and its words, with gaps before the words.
* `Console.naming`: what is done to the object that a text names.
* `Console.invoke_of_words`, `Console.set_of_parts`, `Console.get_of_parts`, `Console.describe_words`: what the commands
  do once their lines are cut; `Console.execute_invoke_line` and its like: the lines that are cut so.
* `Console.execute_line_faithful`: the statement for `invoke` and `set`, and what becomes of a label.
-/

namespace Handoff.Console

open Text (Blank Gap Solid Trimmed)
open Json (Plain compactChars)

/-- A line: a command, and words after gaps. -/
def line (lead : List Char) (command : String) (ws : List (List Char × List Char))
    (trail : List Char) : String :=
  String.ofList (lead ++ (command.toList ++ spread ws) ++ trail)

/-- **What is done to the object that a text names.** Nothing is done if it names none. -/
def naming {α : Type} (g : Registry) (t : String)
    (act : ObjectName → Except Failure α × Registry) : Except Failure α × Registry :=
  match ObjectName.parse t with
  | .error e => (.error e, g)
  | .ok name => act name

/-! ### The command of a line -/

/-- A line of a command only. -/
theorem splitCommand_bare {command lead trail : List Char} (hlead : Blank lead) (htrail : Blank trail)
    (hs : Solid command) : splitCommand (lead ++ command ++ trail) = (command, []) := by
  rw [splitCommand, Text.trim_append hlead hs.trimmed htrail, Text.cutWord_solid hs]

/-- A line of a command and a text, which may be empty. -/
theorem splitCommand_text (command : String) {lead trail g m : List Char} (hlead : Blank lead)
    (htrail : Blank trail) (hc : command.toList ≠ []) (hs : Solid command.toList) (hg : Gap g) (hm : Trimmed m) :
    splitCommand (line lead command [(g, m)] trail).toList = (command.toList, m) := by
  have hshape : command.toList ++ spread [(g, m)] = command.toList ++ g ++ m := by simp [spread]
  rw [line, String.toList_ofList, hshape]
  by_cases hne : m = []
  · -- nothing follows the command, and the gap goes with the white space at the end
    have hend : Blank (g ++ trail) := fun c hmem => (List.mem_append.1 hmem).elim (hg.2 c) (htrail c)
    rw [hne, List.append_nil, ← List.append_assoc, List.append_assoc _ g trail]
    exact splitCommand_bare hlead hend hs
  · have htrim : Trimmed (command.toList ++ g ++ m) := Text.trimmed_append hs.trimmed hm hc hne g
    obtain ⟨r, hcut, hr⟩ := Text.cutWord_gap hs hg hm
    rw [splitCommand, Text.trim_append hlead htrim htrail, hcut]
    simp only [hr]

theorem splitCommand_line (command : String) {lead trail g w : List Char}
    {ws : List (List Char × List Char)} (hlead : Blank lead) (htrail : Blank trail)
    (hc : command.toList ≠ [])
    (hs : Solid command.toList) (hg : Gap g) (ht : Trimmed (w ++ spread ws)) :
    splitCommand (line lead command ((g, w) :: ws) trail).toList = (command.toList, w ++ spread ws) := by
  have hline : line lead command ((g, w) :: ws) trail = line lead command [(g, w ++ spread ws)] trail := by
    simp [line, spread]
  rw [hline, splitCommand_text command hlead htrail hc hs hg ht]

theorem execute_of_splitCommand {g : Registry} {l command : String} {rest : List Char}
    (h : splitCommand l.toList = (command.toList, rest)) :
    (command = "invoke" → execute g l = invoke g rest) ∧ (command = "set" → execute g l = set g rest) ∧
      (command = "get" → execute g l = (get g rest, g)) ∧
      (command = "describe" → execute g l = (describe g rest, g)) := by
  rw [execute, h]
  simp only [String.ofList_toList]
  refine ⟨?_, ?_, ?_, ?_⟩ <;> rintro rfl <;> rfl

/-! ### Values -/

theorem parseValue_compactChars {v : Json} (h : Plain Json.maxDepth v) :
    parseValue (compactChars v) = v := by
  rw [parseValue, Json.parseChars_compactChars h]
  rfl

/-! ### `invoke` -/

/-- The words of values, each after its gap. -/
def written (args : List (List Char × Json)) : List (List Char × List Char) :=
  args.map fun a => (a.1, compactChars a.2)

theorem written_whole {args : List (List Char × Json)}
    (h : ∀ a ∈ args, Gap a.1 ∧ Plain Json.maxDepth a.2) : ∀ gw ∈ written args, Gap gw.1 ∧ IsWhole gw.2 := by
  intro gw hgw
  obtain ⟨a, ha, rfl⟩ := List.mem_map.1 hgw
  exact ⟨(h a ha).1, isWhole_compactChars (h a ha).2⟩

theorem parseValue_written {args : List (List Char × Json)}
    (h : ∀ a ∈ args, Gap a.1 ∧ Plain Json.maxDepth a.2) :
    ((written args).map Prod.snd).map parseValue = args.map Prod.snd := by
  rw [written, List.map_map, List.map_map]
  exact List.map_congr_left fun a ha => parseValue_compactChars (h a ha).2

/-- **A call**: the object is named, and the words of the arguments stand for values. -/
theorem invoke_of_words {g : Registry} {t : String} {rest op : List Char} {args : List (List Char)}
    (h : splitWords rest = some (t.toList :: op :: args)) :
    invoke g rest = naming g t fun name =>
      let vs := args.map parseValue
      ((g.invoke name (String.ofList op) vs).1.map render, (g.invoke name (String.ofList op) vs).2) := by
  rw [invoke, invokeWords, h]
  simp only [String.ofList_toList, naming]
  cases ObjectName.parse t with
  | error e => rfl
  | ok name => rfl

theorem invoke_spread {g : Registry} {t op : String} {gap : List Char} {ws : List (List Char × List Char)}
    (ht : IsWhole t.toList) (hop : IsWhole op.toList) (hgap : Gap gap) (hws : ∀ gw ∈ ws, Gap gw.1 ∧ IsWhole gw.2) :
    invoke g (t.toList ++ spread ((gap, op.toList) :: ws)) =
      naming g t fun name =>
        let args := (ws.map Prod.snd).map parseValue
        ((g.invoke name op args).1.map render, (g.invoke name op args).2) := by
  have hwords : ∀ gw ∈ (gap, op.toList) :: ws, Gap gw.1 ∧ IsWhole gw.2 :=
    List.forall_mem_cons.2 ⟨⟨hgap, hop⟩, hws⟩
  rw [invoke_of_words (splitWords_spread ht hwords), String.ofList_toList]

theorem invoke_words {g : Registry} {t op : String} {gap : List Char} {args : List (List Char × Json)}
    (ht : IsWhole t.toList) (hop : IsWhole op.toList) (hgap : Gap gap)
    (h : ∀ a ∈ args, Gap a.1 ∧ Plain Json.maxDepth a.2) :
    invoke g (t.toList ++ spread ((gap, op.toList) :: written args)) =
      naming g t fun name =>
        ((g.invoke name op (args.map Prod.snd)).1.map render, (g.invoke name op (args.map Prod.snd)).2) := by
  rw [invoke_spread ht hop hgap (written_whole h), parseValue_written h]

/-! ### `set`, `get` and `describe` -/

theorem twoParts_words {command : String} {w gap l : List Char} (hw : Solid w) (hgap : Gap gap)
    (hl : Trimmed l) (hne : l ≠ []) : twoParts command (w ++ gap ++ l) = .ok (w, l) := by
  obtain ⟨r, hcut, hr⟩ := Text.cutWord_gap hw hgap hl
  rw [twoParts, hcut]
  simp only [hr]

/-- **A setting**: the object is named, and all that follows the attribute stands for a value. -/
theorem set_of_parts {g : Registry} {t : String} {rest l attr raw : List Char}
    (h : twoParts "set" rest = .ok (t.toList, l)) (hcut : Text.cutWord l = some (attr, raw)) :
    set g rest = naming g t fun name =>
      let value := parseValue (Text.trim raw)
      ((g.setAttribute name (String.ofList attr) value).1.map fun _ => "ok",
        (g.setAttribute name (String.ofList attr) value).2) := by
  rw [set, setWords, h]
  simp only [bind, Except.bind, hcut, String.ofList_toList, naming]
  cases ObjectName.parse t with
  | error e => rfl
  | ok name => rfl

theorem set_spread {g : Registry} {t attr : String} {gap gap' raw : List Char} (ht : Solid t.toList)
    (hattr : Solid attr.toList) (hne : attr.toList ≠ []) (hgap : Gap gap) (hgap' : Gap gap') (hraw : Trimmed raw)
    (hraw_ne : raw ≠ []) :
    set g (t.toList ++ spread [(gap, attr.toList), (gap', raw)]) =
      naming g t fun name =>
        let value := parseValue raw
        ((g.setAttribute name attr value).1.map fun _ => "ok", (g.setAttribute name attr value).2) := by
  have hrest : Trimmed (attr.toList ++ gap' ++ raw) := Text.trimmed_append hattr.trimmed hraw hne hraw_ne _
  have hshape : t.toList ++ spread [(gap, attr.toList), (gap', raw)] =
      t.toList ++ gap ++ (attr.toList ++ gap' ++ raw) := by simp [spread]
  obtain ⟨r, hcut, hr⟩ := Text.cutWord_gap hattr hgap' hraw
  rw [hshape, set_of_parts (twoParts_words ht hgap hrest (by simp [hne])) hcut, hr, String.ofList_toList]

theorem set_words {g : Registry} {t attr : String} {gap gap' : List Char} {v : Json}
    (ht : Solid t.toList) (hattr : Solid attr.toList) (hne : attr.toList ≠ []) (hgap : Gap gap)
    (hgap' : Gap gap') (hv : Plain Json.maxDepth v) :
    set g (t.toList ++ spread [(gap, attr.toList), (gap', compactChars v)]) =
      naming g t fun name =>
        ((g.setAttribute name attr v).1.map fun _ => "ok", (g.setAttribute name attr v).2) := by
  have hvalue := isWhole_compactChars hv
  rw [set_spread ht hattr hne hgap hgap' hvalue.trimmed hvalue.1, parseValue_compactChars hv]

/-- **A reading**: the object is named, and all that follows is the attribute. -/
theorem get_of_parts {g : Registry} {t : String} {rest attr : List Char}
    (h : twoParts "get" rest = .ok (t.toList, attr)) :
    (get g rest, g) = naming g t fun name => ((g.getAttribute name (String.ofList attr)).map render, g) := by
  rw [get, h]
  simp only [bind, Except.bind, String.ofList_toList, naming]
  rcases ObjectName.parse t with e | name
  · rfl
  · rcases hv : g.getAttribute name (String.ofList attr) with e | v <;> simp only [hv] <;> rfl

theorem get_words {g : Registry} {t attr : String} {gap : List Char} (ht : Solid t.toList)
    (hattr : Trimmed attr.toList) (hne : attr.toList ≠ []) (hgap : Gap gap) :
    (get g (t.toList ++ spread [(gap, attr.toList)]), g) =
      naming g t fun name => ((g.getAttribute name attr).map render, g) := by
  have hshape : t.toList ++ spread [(gap, attr.toList)] = t.toList ++ gap ++ attr.toList := by
    simp [spread]
  rw [hshape, get_of_parts (twoParts_words ht hgap hattr hne), String.ofList_toList]

/-- **A description**: all that follows the command is the name. -/
theorem describe_words (g : Registry) (l : List Char) :
    (describe g l, g) = naming g (String.ofList l) fun name =>
      ((g.describe name).map fun d => d.toJson.pretty, g) := by
  rw [describe, naming]
  simp only [bind, Except.bind]
  rcases ObjectName.parse (String.ofList l) with e | name
  · rfl
  · rcases hd : g.describe name with e | d <;> simp only [hd] <;> rfl

/-! ### Lines

What has no white space at its ends is told apart from the gaps around it, so each command asks for no more of its
last part; the parts before it end at their first white space. -/

section Lines

variable {g : Registry} {t : String} {lead trail gap gap' sep : List Char}

theorem execute_invoke_line {op : String} {ws : List (List Char × List Char)} (ht : IsBare t.toList)
    (hop : IsBare op.toList) (hlead : Blank lead) (htrail : Blank trail) (hgap : Gap gap) (hgap' : Gap gap')
    (hws : ∀ gw ∈ ws, Gap gw.1 ∧ IsWhole gw.2) :
    execute g (line lead "invoke" ((gap, t.toList) :: (gap', op.toList) :: ws) trail) =
      naming g t fun name =>
        let args := (ws.map Prod.snd).map parseValue
        ((g.invoke name op args).1.map render, (g.invoke name op args).2) := by
  have hwords : ∀ gw ∈ (gap', op.toList) :: ws, Gap gw.1 ∧ IsWhole gw.2 :=
    List.forall_mem_cons.2 ⟨⟨hgap', hop.whole⟩, hws⟩
  have hsplit := splitCommand_line "invoke" hlead htrail (by decide) (by decide) hgap
    (trimmed_spread ht.whole hwords)
  rw [(execute_of_splitCommand hsplit).1 rfl]
  exact invoke_spread ht.whole hop.whole hgap' hws

theorem execute_invoke (op : String) (args : List (List Char × Json)) (ht : IsBare t.toList)
    (hlead : Blank lead) (htrail : Blank trail) (hgap : Gap gap) (hgap' : Gap gap')
    (hop : IsBare op.toList) (h : ∀ a ∈ args, Gap a.1 ∧ Plain Json.maxDepth a.2) :
    execute g (line lead "invoke" ((gap, t.toList) :: (gap', op.toList) :: written args) trail) =
      naming g t fun name =>
        ((g.invoke name op (args.map Prod.snd)).1.map render, (g.invoke name op (args.map Prod.snd)).2) := by
  rw [execute_invoke_line ht hop hlead htrail hgap hgap' (written_whole h), parseValue_written h]

theorem execute_set_line {attr : String} {raw : List Char} (ht : Solid t.toList) (hne : t.toList ≠ [])
    (hlead : Blank lead) (htrail : Blank trail) (hgap : Gap gap) (hgap' : Gap gap') (hsep : Gap sep)
    (hattr : Solid attr.toList) (hattr_ne : attr.toList ≠ []) (hraw : Trimmed raw) (hraw_ne : raw ≠ []) :
    execute g (line lead "set" [(gap, t.toList), (gap', attr.toList), (sep, raw)] trail) =
      naming g t fun name =>
        let value := parseValue raw
        ((g.setAttribute name attr value).1.map fun _ => "ok", (g.setAttribute name attr value).2) := by
  have hshape : t.toList ++ spread [(gap', attr.toList), (sep, raw)] =
      t.toList ++ (gap' ++ attr.toList ++ sep) ++ raw := by simp [spread]
  have htrim : Trimmed (t.toList ++ spread [(gap', attr.toList), (sep, raw)]) :=
    hshape ▸ Text.trimmed_append ht.trimmed hraw hne hraw_ne _
  have hsplit := splitCommand_line "set" hlead htrail (by decide) (by decide) hgap htrim
  rw [(execute_of_splitCommand hsplit).2.1 rfl]
  exact set_spread ht hattr hattr_ne hgap' hsep hraw hraw_ne

theorem execute_set {attr : String} {v : Json} (ht : IsBare t.toList) (hlead : Blank lead)
    (htrail : Blank trail) (hgap : Gap gap) (hgap' : Gap gap') (hsep : Gap sep)
    (hattr : Solid attr.toList) (hne : attr.toList ≠ []) (hv : Plain Json.maxDepth v) :
    execute g (line lead "set" [(gap, t.toList), (gap', attr.toList), (sep, compactChars v)] trail) =
      naming g t fun name =>
        ((g.setAttribute name attr v).1.map fun _ => "ok", (g.setAttribute name attr v).2) := by
  have hvalue := isWhole_compactChars hv
  rw [execute_set_line ht.solid ht.1 hlead htrail hgap hgap' hsep hattr hne hvalue.trimmed hvalue.1,
    parseValue_compactChars hv]

theorem execute_get_line {attr : String} (ht : Solid t.toList) (hne : t.toList ≠ []) (hlead : Blank lead)
    (htrail : Blank trail) (hgap : Gap gap) (hgap' : Gap gap') (hattr : Trimmed attr.toList)
    (hattr_ne : attr.toList ≠ []) :
    execute g (line lead "get" [(gap, t.toList), (gap', attr.toList)] trail) =
      naming g t fun name => ((g.getAttribute name attr).map render, g) := by
  have hshape : t.toList ++ spread [(gap', attr.toList)] = t.toList ++ gap' ++ attr.toList := by
    simp [spread]
  have htrim : Trimmed (t.toList ++ spread [(gap', attr.toList)]) :=
    hshape ▸ Text.trimmed_append ht.trimmed hattr hne hattr_ne _
  have hsplit := splitCommand_line "get" hlead htrail (by decide) (by decide) hgap htrim
  rw [(execute_of_splitCommand hsplit).2.2.1 rfl]
  exact get_words ht hattr hattr_ne hgap'

theorem execute_get {attr : String} (ht : IsBare t.toList) (hlead : Blank lead)
    (htrail : Blank trail) (hgap : Gap gap) (hgap' : Gap gap') (hattr : Solid attr.toList)
    (hne : attr.toList ≠ []) :
    execute g (line lead "get" [(gap, t.toList), (gap', attr.toList)] trail) =
      naming g t fun name => ((g.getAttribute name attr).map render, g) :=
  execute_get_line ht.solid ht.1 hlead htrail hgap hgap' hattr.trimmed hne

theorem execute_describe_line (ht : Trimmed t.toList) (hlead : Blank lead) (htrail : Blank trail) (hgap : Gap gap) :
    execute g (line lead "describe" [(gap, t.toList)] trail) =
      naming g t fun name => ((g.describe name).map fun d => d.toJson.pretty, g) := by
  have hsplit := splitCommand_text "describe" hlead htrail (by decide) (by decide) hgap ht
  rw [(execute_of_splitCommand hsplit).2.2.2 rfl, describe_words, String.ofList_toList]

end Lines

/-! ### Labels -/

section Labels

variable {g : Registry} {name : ObjectName} {r : Record}

theorem find?_put (g : Registry) (name : ObjectName) (r : Record) :
    (g.put name r).find? name = some r := by
  simp [Registry.put, Registry.find?]

theorem setAttribute_label (h : g.find? name = some r) (s : String) :
    g.setAttribute name "label" (.str s) = (.ok (), g.put name (r.setLabel s)) := by
  rw [Registry.setAttribute, h]
  rfl

theorem invoke_set_label (h : g.find? name = some r) (s : String) :
    g.invoke name "set_label" [.str s] = (.ok .null, g.put name (r.setLabel s)) := by
  rw [Registry.invoke, h]
  rfl

theorem getAttribute_label (h : g.find? name = some r) :
    g.getAttribute name "label" = .ok (.str r.label) := by
  rw [Registry.getAttribute, h]
  rfl

theorem invoke_get_label (h : g.find? name = some r) :
    g.invoke name "get_label" [] = (.ok (.str r.label), g.put name r) := by
  rw [Registry.invoke, h]
  rfl

theorem put_put (g : Registry) (name : ObjectName) (r r' : Record) :
    (g.put name r).put name r' = g.put name r' := by
  simp only [Registry.put, Registry.mk.injEq]
  ext k : 1
  simp only [Std.ExtTreeMap.getElem?_insert]
  split_ifs <;> rfl

end Labels

/-- **The console is a faithful front end of the registry.** A line that calls an operation or sets an
attribute, with plain values in their compact form, has the effect and the failures of the registry's
own operation on these values; a string is answered as it is, any other value in its compact form. A
label that is set to a string, by either command, is answered as that string afterwards. -/
theorem execute_line_faithful (g : Registry) {t : String} {lead trail gap gap' : List Char}
    (ht : IsBare t.toList) (hlead : Blank lead) (htrail : Blank trail) (hgap : Gap gap)
    (hgap' : Gap gap') :
    (∀ (op : String) (args : List (List Char × Json)), IsBare op.toList →
      (∀ a ∈ args, Gap a.1 ∧ Plain Json.maxDepth a.2) →
      execute g (line lead "invoke" ((gap, t.toList) :: (gap', op.toList) :: written args) trail) =
        naming g t fun name =>
          let (answer, after) := g.invoke name op (args.map Prod.snd)
          (answer.map render, after)) ∧
    (∀ (attr : String) (sep : List Char) (v : Json), attr.toList ≠ [] → Solid attr.toList → Gap sep →
      Plain Json.maxDepth v →
      execute g (line lead "set" [(gap, t.toList), (gap', attr.toList), (sep, compactChars v)] trail) =
        naming g t fun name =>
          let (answer, after) := g.setAttribute name attr v
          (answer.map fun _ => "ok", after)) ∧
    ((∀ s, render (.str s) = s) ∧ ∀ v, (∀ s, v ≠ .str s) → render v = String.ofList (compactChars v)) ∧
    (∀ (name : ObjectName) (r : Record) (s : String) (sep : List Char),
      ObjectName.parse t = .ok name → g.find? name = some r → Gap sep →
      let labelled := g.put name (r.setLabel s)
      let value := (sep, compactChars (.str s))
      execute g (line lead "set" [(gap, t.toList), (gap', "label".toList), value] trail) =
        (.ok "ok", labelled) ∧
      execute g (line lead "invoke" [(gap, t.toList), (gap', "set_label".toList), value] trail) =
        (.ok "null", labelled) ∧
      execute labelled (line lead "get" [(gap, t.toList), (gap', "label".toList)] trail) =
        (.ok s, labelled) ∧
      execute labelled (line lead "invoke" [(gap, t.toList), (gap', "get_label".toList)] trail) =
        (.ok s, labelled)) := by
  refine ⟨fun op args hop h => execute_invoke op args ht hlead htrail hgap hgap' hop h,
    fun attr sep v hne hattr hsep hv => execute_set ht hlead htrail hgap hgap' hsep hattr hne hv,
    ⟨fun s => rfl, ?_⟩, ?_⟩
  · intro v hv
    rcases v with _ | b | n | x | s | vs | ms
    case str => exact absurd rfl (hv s)
    all_goals rfl
  · intro name r s sep hname hr hsep
    have hstr : Plain Json.maxDepth (.str s) := .str s
    have hfind : (g.put name (r.setLabel s)).find? name = some (r.setLabel s) := find?_put ..
    refine ⟨?_, ?_, ?_, ?_⟩
    · rw [execute_set ht hlead htrail hgap hgap' hsep (by decide) (by decide) hstr, naming, hname]
      simp only [setAttribute_label hr]
      rfl
    · have hline := execute_invoke (g := g) "set_label" [(sep, .str s)] ht hlead htrail hgap hgap'
        (by decide) (by simpa using ⟨hsep, hstr⟩)
      rw [naming, hname] at hline
      simp only [List.map_cons, List.map_nil, invoke_set_label hr] at hline
      exact hline
    · rw [execute_get ht hlead htrail hgap hgap' (by decide) (by decide), naming, hname]
      simp only [getAttribute_label hfind]
      rfl
    · have hline := execute_invoke (g := g.put name (r.setLabel s)) "get_label" [] ht hlead htrail hgap
        hgap' (by decide) (by simp)
      rw [naming, hname] at hline
      simp only [List.map_nil, invoke_get_label hfind, put_put] at hline
      exact hline

/-- The name `a:b=c`. -/
def plainName : ObjectName where
  domain := "a"
  properties := [("b", "c")]
  isWord_domain := by decide
  properties_ne_nil := by decide
  isProperty := by decide
  ascending := by decide

/-- A label with a quote, a backslash, a line end and an em space is set and read back, by a line whose
words are told apart by tabs. -/
theorem execute_line_faithful_awkwardLabel :
    let g := Registry.empty.put plainName ⟨"old", 3⟩
    let s := "say \"hi\\ \n\u2003"
    (IsBare "a:b=c".toList ∧ Blank ['\u2003'] ∧ Gap ['\t']) ∧
      ∃ after, execute g (line [] "set" [(['\t'], "a:b=c".toList), (['\t'], "label".toList),
          ([' '], compactChars (.str s))] ['\u2003']) = (.ok "ok", after) ∧
        execute after (line [] "get" [(['\t'], "a:b=c".toList), (['\t'], "label".toList)] ['\u2003']) =
          (.ok s, after) := by
  intro g s
  have ht : IsBare "a:b=c".toList := by decide
  have htrail : Blank ['\u2003'] := by decide
  have hgap : Gap ['\t'] := by decide
  have hname : ObjectName.parse "a:b=c" = .ok plainName := rfl
  have hlines := (execute_line_faithful g ht Text.blank_nil htrail hgap hgap).2.2.2 plainName ⟨"old", 3⟩ s
    [' '] hname (find?_put ..) (by decide)
  exact ⟨⟨ht, htrail, hgap⟩, _, hlines.1, hlines.2.2.1⟩

end Handoff.Console
