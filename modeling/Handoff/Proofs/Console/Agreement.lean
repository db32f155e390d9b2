import Handoff.Proofs.Console.Addressing
import Handoff.Proofs.Console.Splitting

/-! # `get` and `invoke`

The label and the counter of an object are read as attributes and by operations. The two commands cut a name off
their line in different ways: `get` at the first white space, `invoke` with an eye to quotes, which a value may hold.
Without white space a name is a word of `invoke` if it closes its quoted parts, and then both commands answer alike.
If it leaves one open, the rest of the line falls into that part, and `invoke` refuses the line.

* `Console.callLine`: a line that calls an operation without arguments.
* `Console.execute_callLine_found`, `Console.execute_callLine_open`: what it comes to.
* `Console.invoke_agrees`: both commands side by side.
-/

namespace Handoff.Console

open Text (Gap Solid)

/-- `invoke <name> <operation>`. -/
def callLine (t op : String) : String := "invoke " ++ t ++ " " ++ op

theorem callLine_eq (t op : String) :
    callLine t op = line [] "invoke" [([' '], t.toList), ([' '], op.toList)] [] := by
  apply String.toList_injective
  simp [callLine, line, spread]

section Call

variable {g : Registry} {name : ObjectName} {r : Record} {op : String}

theorem execute_callLine (name : ObjectName) (g : Registry) (hop : IsBare op.toList) :
    execute g (callLine name.text op) = invoke g (name.text.toList ++ spread [([' '], op.toList)]) := by
  rw [callLine_eq, (execute_of_splitCommand
    (splitCommand_name name "invoke" (by decide) (by decide) hop.solid hop.1)).1 rfl]

/-- **The operation is called** where the name is a word. -/
theorem execute_callLine_found (hfind : g.find? name = some r) (hname : IsWord name.text.toList)
    (hop : IsBare op.toList) {v : Json} (hv : r.invoke op [] = (.ok v, r)) :
    execute g (callLine name.text op) = (.ok (render v), g) := by
  have hinvoke : g.invoke name op [] = (.ok v, g) := by
    rw [Registry.invoke_of_some hfind]
    simp only [hv, Registry.put_of_find? hfind]
    rfl
  have hargs : ∀ a ∈ ([] : List (List Char × Json)), Gap a.1 ∧ Json.Plain Json.maxDepth a.2 := by simp
  have hwords := invoke_words (g := g) (isWhole_iff.2 hname) hop.whole (show Gap [' '] by decide) hargs
  rw [naming, ObjectName.parse_text, List.map_nil] at hwords
  simp only [hinvoke] at hwords
  exact (execute_callLine name g hop).trans hwords

/-- Without a quote an open part stays open. -/
theorem Place.after_ne_plain {p : Place} {l : List Char} (hp : p ≠ .plain) (hl : '"' ∉ l) : p.after l ≠ .plain := by
  induction l generalizing p with
  | nil => exact hp
  | cons c l ih =>
    obtain ⟨hc, hl⟩ := not_or.1 (mt List.mem_cons.2 hl)
    have hnext : p.next c ≠ .plain := by
      cases p with
      | plain => exact absurd rfl hp
      | quoted =>
        rw [Place.next]
        split_ifs with hb hq
        · decide
        · exact absurd hq.symm hc
        · decide
      | escaped => exact (by decide : Place.quoted ≠ .plain)
    exact ih hnext hl

theorem LeftOpen.append_of_not_mem {a b : List Char} (h : LeftOpen a) (hb : '"' ∉ b) : LeftOpen (a ++ b) := by
  rw [leftOpen_iff]
  intro hclosed
  have hplain := hclosed.after
  rw [Place.after_append] at hplain
  exact Place.after_ne_plain h.after hb hplain

/-- **The line is refused** where the name leaves a quoted part open. -/
theorem execute_callLine_open (g : Registry) (hname : LeftOpen name.text.toList) (hop : IsBare op.toList) :
    execute g (callLine name.text op) =
      (.error (.invalidArgument "invoke" "unterminated quoted string"), g) := by
  have hquote : '"' ∉ spread [([' '], op.toList)] := by
    have hnot : '"' ∉ op.toList := fun hmem => (hop.2 _ hmem).2 rfl
    simp [spread, hnot]
  rw [execute_callLine name g hop, invoke, invokeWords,
    splitWords_eq_none_iff.2 (hname.append_of_not_mem hquote)]

/-- **`invoke` agrees with `get` about the names that close their quoted parts.** Let an object stand under a name
without white space. `get` answers its label and its counter. If the name closes its quoted parts, `invoke` answers
the same for the operations that read them; otherwise it refuses the line. -/
theorem invoke_agrees (hfind : g.find? name = some r) (hsolid : Solid name.text.toList) :
    let t := name.text
    (execute g (getLine t "label") = (.ok r.label, g) ∧
      execute g (getLine t "counter") = (.ok (toString r.counter.toInt), g)) ∧
    (IsClosed t.toList →
      execute g (callLine t "get_label") = execute g (getLine t "label") ∧
      execute g (callLine t "get_counter") = execute g (getLine t "counter")) ∧
    (LeftOpen t.toList →
      let refused : Except Failure String := .error (.invalidArgument "invoke" "unterminated quoted string")
      execute g (callLine t "get_label") = (refused, g) ∧ execute g (callLine t "get_counter") = (refused, g)) := by
  have hlabel : execute g (getLine name.text "label") = (.ok (render (.str r.label)), g) :=
    execute_getLine_found hfind hsolid (by decide) (by decide) rfl
  have hcounter : execute g (getLine name.text "counter") = (.ok (render (.int r.counter.toInt)), g) :=
    execute_getLine_found hfind hsolid (by decide) (by decide) rfl
  refine ⟨⟨hlabel, ?_⟩, fun hclosed => ?_, fun hopen =>
    ⟨execute_callLine_open g hopen (by decide), execute_callLine_open g hopen (by decide)⟩⟩
  · rw [hcounter, render_int]
  · obtain ⟨c, l, htext, -⟩ := head_text name
    have hname : IsWord name.text.toList := isWord_of_solid (by simp [htext]) hsolid hclosed
    exact ⟨(execute_callLine_found hfind hname (by decide) rfl).trans hlabel.symm,
      (execute_callLine_found hfind hname (by decide) rfl).trans hcounter.symm⟩

end Call

/-- The name `a:k="b\"c"d\`. -/
def quotedName : ObjectName := .single "a" "k" "\"b\\\"c\"d\\" plainName.isWord_domain (by decide)

/-- A name with a quoted part that holds a quote, and with a backslash outside of it. -/
theorem invoke_agrees_quotedName :
    let g := Registry.empty.put quotedName ⟨"hello", 7⟩
    g.find? quotedName = some ⟨"hello", 7⟩ ∧ Solid quotedName.text.toList ∧
      execute g "get a:k=\"b\\\"c\"d\\ label" = (.ok "hello", g) ∧
      execute g "invoke a:k=\"b\\\"c\"d\\ get_label" = (.ok "hello", g) ∧
      execute g "get a:k=\"b\\\"c\"d\\ counter" = (.ok "7", g) ∧
      execute g "invoke a:k=\"b\\\"c\"d\\ get_counter" = (.ok "7", g) := by
  intro g
  have hfind : g.find? quotedName = some ⟨"hello", 7⟩ := find?_put ..
  have hsolid : Solid quotedName.text.toList := by decide
  have hclosed : IsClosed quotedName.text.toList := by
    refine (closed_or_leftOpen _).resolve_right fun hopen => hopen.after ?_
    decide +kernel
  obtain ⟨⟨hlabel, hcounter⟩, hagrees, -⟩ := invoke_agrees hfind hsolid
  obtain ⟨hlabel', hcounter'⟩ := hagrees hclosed
  have hseven : toString (7 : Int64).toInt = "7" := by decide
  rw [hseven] at hcounter
  exact ⟨hfind, hsolid, hlabel, hlabel'.trans hlabel, hcounter, hcounter'.trans hcounter⟩

/-- The name `a:k="b`. -/
def openName : ObjectName := .single "a" "k" "\"b" plainName.isWord_domain (by decide)

/-- **A name that `get` finds, but that `invoke` does not take**: it has a single quote. -/
theorem openName_not_invoked :
    let g := Registry.empty.put openName ⟨"hello", 0⟩
    g.find? openName = some ⟨"hello", 0⟩ ∧ openName.text = "a:k=\"b" ∧ Solid openName.text.toList ∧
      execute g "get a:k=\"b label" = (.ok "hello", g) ∧
      execute g "invoke a:k=\"b get_label" =
        (.error (.invalidArgument "invoke" "unterminated quoted string"), g) := by
  intro g
  have hfind : g.find? openName = some ⟨"hello", 0⟩ := find?_put ..
  have hsolid : Solid openName.text.toList := by decide
  have hopen : LeftOpen openName.text.toList :=
    ⟨"a:k=".toList, "b".toList, by decide, (closed_or_leftOpen _).resolve_right fun h => h.after (by decide),
      .inl (.char (by decide) (by decide) .nil)⟩
  have hlabel : execute g (getLine openName.text "label") = (.ok (render (.str "hello")), g) :=
    execute_getLine_found hfind hsolid (by decide) (by decide) rfl
  have hcall : execute g (callLine openName.text "get_label") =
      (.error (.invalidArgument "invoke" "unterminated quoted string"), g) :=
    execute_callLine_open g hopen (by decide)
  exact ⟨hfind, rfl, hsolid, hlabel, hcall⟩

end Handoff.Console
