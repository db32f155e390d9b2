import Handoff.Demo.Console
import Handoff.Proofs.Console.Counting
import Handoff.Proofs.Console.FrontEnd
import Handoff.Proofs.Managed.Entries
import Handoff.Proofs.Managed.Grammar

/-! # Which names can be used from a console

The grammar of names allows white space in values; a console cuts its lines at white space. What is cut off a name is
shorter than the name, so it spells another one, or none, and a console with one object answers with a failure.
`describe` takes all that follows, and is misled only by white space at the end of a name.

* `Console.execute_describe`, `Console.getLine`, `Console.setLine`: the lines.
* `Console.find?_shorter`: a text that is shorter than the one name spells no object.
* `Console.addressed_iff`: exactly the names without white space can be used, and exactly the names that do not end
  in it can be described.
-/

namespace Handoff.Console

open Text (Blank Gap Solid Trimmed)
open Json (Plain compactChars)

/-! ### Lines about one object -/

/-- `describe <name>`. -/
def describeLine (t : String) : String := "describe " ++ t

/-- `get <name> <attribute>`. -/
def getLine (t attr : String) : String := "get " ++ t ++ " " ++ attr

/-- `set <name> <attribute> <value>`. -/
def setLine (t attr : String) (v : Json) : String := "set " ++ t ++ " " ++ attr ++ " " ++ v.compact

theorem getLine_eq (t attr : String) :
    getLine t attr = line [] "get" [([' '], t.toList), ([' '], attr.toList)] [] := by
  apply String.toList_injective
  simp [getLine, line, spread]

theorem setLine_eq (t attr : String) (v : Json) :
    setLine t attr v = line [] "set" [([' '], t.toList), ([' '], attr.toList), ([' '], compactChars v)] [] := by
  apply String.toList_injective
  simp [setLine, line, spread, Json.compact]

/-- **All that follows `describe`** is the name, without the white space around it. -/
theorem execute_describe (t : String) (g : Registry) :
    execute g (describeLine t) = naming g (String.ofList (Text.trim t.toList)) fun name =>
      ((g.describe name).map fun d => d.toJson.pretty, g) := by
  obtain ⟨lead, trail, hl, hlead, htrim, htrail⟩ := Text.exists_trimmed t.toList
  generalize Text.trim t.toList = m at hl htrim ⊢
  have hgap : Gap (' ' :: lead) := ⟨List.cons_ne_nil _ _, List.forall_mem_cons.2 ⟨rfl, hlead⟩⟩
  have hline : describeLine t = line [] "describe" [(' ' :: lead, (String.ofList m).toList)] trail := by
    apply String.toList_injective
    rw [describeLine, String.toList_append, hl]
    simp [line, spread]
  rw [hline, execute_describe_line (by rwa [String.toList_ofList]) Text.blank_nil htrail hgap]

theorem isBlank_of_isWordChar {c : Char} (h : ObjectName.isWordChar c = true) : Text.isBlank c = false := by
  have hrange : 0x2D ≤ c.toNat ∧ c.toNat < 0x80 := by
    have hval : c.toNat = c.val.toNat := rfl
    delta ObjectName.isWordChar Char.isAlphanum Char.isAlpha Char.isUpper Char.isLower Char.isDigit at h
    simp only [Bool.or_eq_true, Bool.and_eq_true, decide_eq_true_eq, beq_iff_eq, ge_iff_le,
      UInt32.le_iff_toNat_le] at h
    rcases h with ((((hupper | hlower) | hdigit) | rfl) | rfl) | rfl
    · have hends : 'A'.val.toNat = 65 ∧ 'Z'.val.toNat = 90 := ⟨rfl, rfl⟩
      omega
    · have hends : 'a'.val.toNat = 97 ∧ 'z'.val.toNat = 122 := ⟨rfl, rfl⟩
      omega
    · have hends : '0'.val.toNat = 48 ∧ '9'.val.toNat = 57 := ⟨rfl, rfl⟩
      omega
    · decide
    · decide
    · decide
  simp [Text.isBlank]
  omega

/-- A name does not begin with white space. -/
theorem head_text (name : ObjectName) : ∃ c r, name.text.toList = c :: r ∧ Text.isBlank c = false := by
  obtain ⟨hne, hword⟩ := name.isWord_domain
  rcases hd : name.domain.toList with - | ⟨c, r⟩
  · exact absurd hd hne
  · refine ⟨c, _, by rw [name.spells_text.text, hd]; rfl, ?_⟩
    exact isBlank_of_isWordChar (hword c (by rw [hd]; exact List.mem_cons_self ..))

/-- A line of a command, a name and a last word. -/
theorem splitCommand_name (name : ObjectName) (command : String) {w : List Char} (hc : command.toList ≠ [])
    (hcommand : Solid command.toList) (hw : Solid w) (hne : w ≠ []) :
    splitCommand (line [] command [([' '], name.text.toList), ([' '], w)] []).toList =
      (command.toList, name.text.toList ++ spread [([' '], w)]) := by
  obtain ⟨c, r, htext, hb⟩ := head_text name
  have htrim : Trimmed (name.text.toList ++ spread [([' '], w)]) := by
    have hshape : name.text.toList ++ spread [([' '], w)] = name.text.toList ++ [' '] ++ w := by simp [spread]
    rw [hshape]
    exact Text.trimmed_of_ends (by simp [htext, hb]) hw.trimmed.2 (by simp [htext]) hne _
  exact splitCommand_line command Text.blank_nil Text.blank_nil hc hcommand (show Gap [' '] by decide) htrim

/-- **What is done by a `get`** about a name, however it is spelled. -/
theorem execute_getLine (name : ObjectName) (g : Registry) {attr : String} (hattr : Solid attr.toList)
    (hne : attr.toList ≠ []) :
    execute g (getLine name.text attr) = (get g (name.text.toList ++ spread [([' '], attr.toList)]), g) := by
  rw [getLine_eq, (execute_of_splitCommand (splitCommand_name name "get" (by decide) (by decide) hattr hne)).2.2.1 rfl]

/-- **An attribute is answered** to a `get` about a name without white space. -/
theorem execute_getLine_found {g : Registry} {name : ObjectName} {r : Record} (hfind : g.find? name = some r)
    (h : Solid name.text.toList) {attr : String} (hattr : Solid attr.toList) (hne : attr.toList ≠ []) {v : Json}
    (hv : r.getAttribute? attr = some v) : execute g (getLine name.text attr) = (.ok (render v), g) := by
  rw [execute_getLine name g hattr hne, get_words h hattr.trimmed hne (by decide), naming, ObjectName.parse_text]
  simp only [Registry.getAttribute_of_some hfind, hv]
  rfl

theorem execute_setLine (name : ObjectName) (g : Registry) {attr : String} {v : Json} (hv : Plain Json.maxDepth v) :
    execute g (setLine name.text attr v) =
      set g (name.text.toList ++ spread [([' '], attr.toList), ([' '], compactChars v)]) := by
  obtain ⟨c, r, htext, hc⟩ := head_text name
  obtain ⟨hne, hspans⟩ := isWhole_compactChars hv
  have htrim : Trimmed (name.text.toList ++ spread [([' '], attr.toList), ([' '], compactChars v)]) := by
    have hshape : name.text.toList ++ spread [([' '], attr.toList), ([' '], compactChars v)] =
        name.text.toList ++ ([' '] ++ attr.toList ++ [' ']) ++ compactChars v := by simp [spread]
    rw [hshape]
    exact Text.trimmed_of_ends (by simp [htext, hc]) (isWhole_compactChars hv).trimmed.2 (by simp [htext]) hne _
  have hsplit := splitCommand_line "set" Text.blank_nil Text.blank_nil (by decide) (by decide)
    (show Gap [' '] by decide) htrim
  rw [setLine_eq, (execute_of_splitCommand hsplit).2.1 rfl]

/-! ### Names that are cut -/

section Shorter

variable {name : ObjectName} {r : Record} {w l : List Char}

/-- **What is shorter than a name** spells no object of a registry that has only this name. -/
theorem find?_shorter (hw : w.length < name.text.toList.length) {n : ObjectName}
    (hparse : ObjectName.parse (String.ofList w) = .ok n) : (Registry.empty.put name r).find? n = none := by
  have hne : name ≠ n := by
    rintro rfl
    have hlength := ObjectName.length_text hparse
    rw [String.toList_ofList] at hlength
    omega
  rw [Registry.find?_put, if_neg hne, Registry.find?_empty]

/-- The first of two parts ends at the first white space. -/
theorem twoParts_append {command : String} {c d : Char} (hw : Solid w) (hc : Text.isBlank c = true) (hd : d ∈ l)
    (hb : Text.isBlank d = false) : twoParts command (w ++ c :: l) = .ok (w, Text.trim l) := by
  have hne := Text.trim_ne_nil hd hb
  rw [twoParts, Text.cutWord_append hw hc]
  simp only

/-- **A name with white space is cut** where something follows it. -/
theorem twoParts_text (hsolid : ¬ Solid name.text.toList) {d : Char} (hd : d ∈ l) (hb : Text.isBlank d = false)
    (command : String) :
    ∃ w l', twoParts command (name.text.toList ++ l) = .ok (w, l') ∧ w.length < name.text.toList.length := by
  obtain ⟨w, c, r, htext, hw, hc⟩ := Text.exists_firstWord hsolid
  have hshape : name.text.toList ++ l = w ++ c :: (r ++ l) := by rw [htext, List.append_assoc, List.cons_append]
  have hlt : w.length < name.text.toList.length := by
    rw [htext, List.length_append, List.length_cons]
    omega
  exact ⟨w, _, hshape ▸ twoParts_append hw hc (List.mem_append_right r hd) hb, hlt⟩

theorem describe_shorter (hw : w.length < name.text.toList.length) :
    ∃ e, naming (Registry.empty.put name r) (String.ofList w) (fun n =>
      (((Registry.empty.put name r).describe n).map fun d => d.toJson.pretty, Registry.empty.put name r)) =
        (.error e, Registry.empty.put name r) := by
  rw [naming]
  rcases hparse : ObjectName.parse (String.ofList w) with e | n
  · exact ⟨e, rfl⟩
  · exact ⟨_, by simp only [Registry.describe, find?_shorter hw hparse]; rfl⟩

theorem get_shorter {rest : List Char} (h : twoParts "get" rest = .ok (w, l))
    (hw : w.length < name.text.toList.length) : ∃ e, get (Registry.empty.put name r) rest = .error e := by
  rw [get, h]
  simp only [bind, Except.bind]
  rcases hparse : ObjectName.parse (String.ofList w) with e | n
  · exact ⟨e, rfl⟩
  · exact ⟨_, by simp only [Registry.getAttribute, find?_shorter hw hparse]; rfl⟩

theorem set_shorter {rest : List Char} (h : twoParts "set" rest = .ok (w, l))
    (hw : w.length < name.text.toList.length) :
    ∃ e, set (Registry.empty.put name r) rest = (.error e, Registry.empty.put name r) := by
  rw [set, setWords, h]
  simp only [bind, Except.bind]
  rcases Text.cutWord l with - | ⟨attr, raw⟩
  · exact ⟨_, rfl⟩
  · simp only
    rcases hparse : ObjectName.parse (String.ofList w) with e | n
    · exact ⟨e, rfl⟩
    · exact ⟨_, by simp only [pure, Except.pure, Registry.setAttribute, find?_shorter hw hparse]; rfl⟩

end Shorter

/-! ### The console of a configuration -/

/-- The console of a configuration starts with one record under the configured name. -/
theorem startConsole_of_validate {c : Config} (h : c.validate = .ok ()) :
    ∃ name, ObjectName.parse c.managed.objectName = .ok name ∧ Demo.startConsole c.managed =
      .ok (name, Registry.empty.put name ⟨c.managed.label, c.managed.counter⟩) := by
  rcases hparse : ObjectName.parse c.managed.objectName with e | name
  · exfalso
    rw [Config.validate, Config.fault?, hparse] at h
    split_ifs at h
  · refine ⟨name, rfl, ?_⟩
    have hregister := Registry.register_of_none (Registry.find?_empty name)
      (⟨c.managed.label, c.managed.counter⟩ : Record)
    simp only [Demo.startConsole, bind, Except.bind, hparse, hregister]
    rfl

section Started

variable (name : ObjectName) (r : Record)

theorem describe_started (h : Trimmed name.text.toList) :
    execute (Registry.empty.put name r) (describeLine name.text) =
      (.ok Record.descriptor.toJson.pretty, Registry.empty.put name r) := by
  have htrim : Text.trim name.text.toList = name.text.toList := Text.trim_eq_self_iff.2 h
  have hfind : (Registry.empty.put name r).find? name = some r := find?_put ..
  rw [execute_describe, htrim, String.ofList_toList, naming, ObjectName.parse_text]
  simp only [Registry.describe, hfind]
  rfl

theorem describe_started_error (h : ¬ Trimmed name.text.toList) :
    ∃ e, execute (Registry.empty.put name r) (describeLine name.text) = (.error e, Registry.empty.put name r) := by
  rw [execute_describe]
  exact describe_shorter (Text.length_trim_lt h)

theorem get_started (h : Solid name.text.toList) (attr : String) (hattr : Solid attr.toList)
    (hne : attr.toList ≠ []) {v : Json} (hv : r.getAttribute? attr = some v) :
    execute (Registry.empty.put name r) (getLine name.text attr) = (.ok (render v), Registry.empty.put name r) :=
  execute_getLine_found (find?_put ..) h hattr hne hv

theorem get_started_error (h : ¬ Solid name.text.toList) (attr : String) (hattr : Solid attr.toList)
    (hne : attr.toList ≠ []) :
    ∃ e, execute (Registry.empty.put name r) (getLine name.text attr) = (.error e, Registry.empty.put name r) := by
  obtain ⟨d, hd⟩ := List.exists_mem_of_ne_nil _ hne
  have hmem : d ∈ spread [([' '], attr.toList)] := by simp [spread, hd]
  obtain ⟨w, l, htwo, hw⟩ := twoParts_text h hmem (hattr d hd) "get"
  obtain ⟨e, he⟩ := get_shorter (r := r) htwo hw
  exact ⟨e, by rw [execute_getLine name _ hattr hne, he]⟩

theorem set_started (h : Solid name.text.toList) (s : String) :
    execute (Registry.empty.put name r) (setLine name.text "label" (.str s)) =
      (.ok "ok", Registry.empty.put name (r.setLabel s)) := by
  have hfind : (Registry.empty.put name r).find? name = some r := find?_put ..
  rw [execute_setLine name _ (.str s), set_words h (by decide) (by decide) (by decide) (by decide) (.str s), naming,
    ObjectName.parse_text]
  simp only [setAttribute_label hfind, put_put]
  rfl

theorem set_started_error (h : ¬ Solid name.text.toList) (s : String) :
    ∃ e, execute (Registry.empty.put name r) (setLine name.text "label" (.str s)) =
      (.error e, Registry.empty.put name r) := by
  have hmem : 'l' ∈ spread [([' '], "label".toList), ([' '], compactChars (.str s))] := by simp [spread]
  obtain ⟨w, l, htwo, hw⟩ := twoParts_text h hmem (by decide) "set"
  obtain ⟨e, he⟩ := set_shorter (r := r) htwo hw
  exact ⟨e, by rw [execute_setLine name _ (.str s), he]⟩

end Started

/-- **Exactly the names without white space can be used from the console.** For every configuration that keeps the
rules the console starts with the configured record under the configured name.
* The name is described by its text just if that does not end in white space.
* The label and the counter are answered, and the label is set, just if the text has no white space at all.
* Otherwise the answer is a failure, and nothing changes. -/
theorem addressed_iff {c : Config} (h : c.validate = .ok ()) :
    ∃ name, ObjectName.parse c.managed.objectName = .ok name ∧
      let r : Record := ⟨c.managed.label, c.managed.counter⟩
      let g := Registry.empty.put name r
      let t := name.text
      Demo.startConsole c.managed = .ok (name, g) ∧
      (Trimmed t.toList → execute g (describeLine t) = (.ok Record.descriptor.toJson.pretty, g)) ∧
      (¬ Trimmed t.toList → ∃ e, execute g (describeLine t) = (.error e, g)) ∧
      (Solid t.toList → execute g (getLine t "label") = (.ok c.managed.label, g) ∧
        execute g (getLine t "counter") = (.ok (toString c.managed.counter.toInt), g) ∧
        ∀ s, execute g (setLine t "label" (.str s)) = (.ok "ok", Registry.empty.put name (r.setLabel s))) ∧
      (¬ Solid t.toList → (∃ e, execute g (getLine t "label") = (.error e, g)) ∧
        (∃ e, execute g (getLine t "counter") = (.error e, g)) ∧
        ∀ s, ∃ e, execute g (setLine t "label" (.str s)) = (.error e, g)) := by
  obtain ⟨name, hparse, hstart⟩ := startConsole_of_validate h
  refine ⟨name, hparse, hstart, describe_started name _, describe_started_error name _, ?used, ?cut⟩
  case used =>
    intro hsolid
    refine ⟨get_started name _ hsolid "label" (by decide) (by decide) rfl, ?_, set_started name _ hsolid⟩
    rw [get_started name _ hsolid "counter" (by decide) (by decide) rfl, render_int]
  case cut =>
    intro hcut
    exact ⟨get_started_error name _ hcut "label" (by decide) (by decide),
      get_started_error name _ hcut "counter" (by decide) (by decide), set_started_error name _ hcut⟩

/-- The name `a:b=c` of a record with a label and a counter. -/
theorem addressed_iff_plainName :
    let c : Config := { managed := { objectName := "a:b=c", label := "hi", counter := 7 } }
    let g := Registry.empty.put plainName ⟨"hi", 7⟩
    c.validate = .ok () ∧ Solid plainName.text.toList ∧ Demo.startConsole c.managed = .ok (plainName, g) ∧
      execute g "describe a:b=c" = (.ok Record.descriptor.toJson.pretty, g) ∧
      execute g "get a:b=c label" = (.ok "hi", g) ∧ execute g "get a:b=c counter" = (.ok "7", g) ∧
      execute g "set a:b=c label \"x\"" = (.ok "ok", Registry.empty.put plainName ⟨"x", 7⟩) := by
  intro c g
  have hname : ObjectName.parse "a:b=c" = .ok plainName := rfl
  have hvalid : c.validate = .ok () := by simp [c, Config.validate, Config.fault?, hname]
  have hsolid : Solid plainName.text.toList := by decide
  obtain ⟨name, hparse, hstart, hdescribed, -, hused, -⟩ := addressed_iff hvalid
  cases hname.symm.trans hparse
  obtain ⟨hlabel, hcounter, hset⟩ := hused hsolid
  have hseven : toString c.managed.counter.toInt = "7" := by decide
  rw [hseven] at hcounter
  exact ⟨hvalid, hsolid, hstart, hdescribed hsolid.trimmed, hlabel, hcounter, hset "x"⟩

/-- The name `a:k=b c`. -/
def spacedName : ObjectName where
  domain := "a"
  properties := [("k", "b c")]
  isWord_domain := plainName.isWord_domain
  properties_ne_nil := List.cons_ne_nil _ _
  isProperty := List.forall_mem_singleton.2 (by decide)
  ascending := List.pairwise_singleton _ _

/-- **A name that is accepted and described, but not found**: `get` looks for what stands before the space. -/
theorem spacedName_not_found :
    let c : Config := { managed := { objectName := "a:k=b c" } }
    let g := Registry.empty.put spacedName ⟨"hello", 0⟩
    c.validate = .ok () ∧ Demo.startConsole c.managed = .ok (spacedName, g) ∧ spacedName.text = "a:k=b c" ∧
      execute g "describe a:k=b c" = (.ok Record.descriptor.toJson.pretty, g) ∧
      ∃ e, execute g "get a:k=b c label" = (.error e, g) := by
  intro c g
  have hname : ObjectName.parse "a:k=b c" = .ok spacedName := rfl
  have hvalid : c.validate = .ok () := by simp [c, Config.validate, Config.fault?, hname]
  obtain ⟨name, hparse, hstart⟩ := startConsole_of_validate hvalid
  cases hname.symm.trans hparse
  have htrim : Trimmed spacedName.text.toList := Text.trim_eq_self_iff.1 (by decide)
  have hsolid : ¬ Solid spacedName.text.toList := by decide
  exact ⟨hvalid, hstart, rfl, describe_started spacedName _ htrim,
    get_started_error spacedName _ hsolid "label" (by decide) (by decide)⟩

end Handoff.Console
