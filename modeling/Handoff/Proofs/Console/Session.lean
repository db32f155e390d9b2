import Handoff.Demo.Console
import Handoff.Proofs.Config.Acceptance
import Handoff.Proofs.Console.Framing
import Handoff.Proofs.Console.Lines
import Handoff.Proofs.Console.Spacing

/-! # A session is a fold of its lines

The console executes the lines of its input one after the other on one registry and shows each answer, until a line
ends the session or there are no more. No answer ends it, and no line takes or frees a name, so it always ends with the
one object it began with.

* `Session.heard`: the lines that a session comes to.
* `Session.Shows`, `Session.Dialogue`: what is shown for an answer, and for lines.
* `Session.run_of_dialogue`: a session is the dialogue over the lines it comes to, and a last prompt.
* `Demo.consoleOutput_folds`: the statement for all configurations that keep the rules and all texts.
-/

namespace Handoff

namespace Console.Session

variable {g g' g'' : Registry} {ls ls' : List String} {out out' : String}

/-! ### The lines that a session comes to -/

/-- **The lines that a session comes to**: those before the first one that ends it. -/
def heard (ls : List String) : List String := ls.takeWhile fun line => !quits line

theorem heard_of_forall (hls : ∀ line ∈ ls, quits line = false) (ls' : List String) :
    heard (ls ++ ls') = ls ++ heard ls' :=
  List.takeWhile_append_of_pos fun line hline => by rw [hls line hline]; rfl

theorem heard_self (hls : ∀ line ∈ ls, quits line = false) : heard ls = ls :=
  List.takeWhile_eq_self_iff.2 fun line hline => by rw [hls line hline]; rfl

/-- **What follows a line that ends the session** is not come to. -/
theorem heard_of_exists (hls : ∃ line ∈ ls, quits line = true) (ls' : List String) :
    heard (ls ++ ls') = heard ls := by
  induction ls with
  | nil => simp at hls
  | cons line ls ih =>
    rw [List.cons_append, heard, heard, List.takeWhile_cons, List.takeWhile_cons]
    rcases hline : quits line with _ | _
    · obtain ⟨l, hl, hquits⟩ := hls
      rcases List.mem_cons.1 hl with rfl | hl
      · exact absurd hquits (by rw [hline]; decide)
      · exact congrArg (line :: ·) (ih ⟨l, hl, hquits⟩)
    · rfl

/-! ### Dialogues -/

/-- **What is shown for an answer**: nothing for an empty one. -/
inductive Shows : Except Failure String → String → Prop where
  | silent : Shows (.ok "") ""
  | answer {s : String} (hs : s ≠ "") : Shows (.ok s) (s ++ "\n")
  | failure (e : Failure) : Shows (.error e) ("error: " ++ e.text ++ "\n")

/-- **A dialogue** over lines, with what is shown and the registry afterwards: after each prompt a line is executed and
its answer shown, whatever it is. -/
inductive Dialogue : Registry → List String → String → Registry → Prop where
  | nil (g : Registry) : Dialogue g [] "" g
  | cons {g g' g'' : Registry} {line shown out : String} {ls : List String} {answer : Except Failure String}
      (hexecute : execute g line = (answer, g')) (hshows : Shows answer shown)
      (hrest : Dialogue g' ls out g'') : Dialogue g (line :: ls) ("> " ++ shown ++ out) g''

theorem shows_iff {answer : Except Failure String} {shown : String} :
    Shows answer shown ↔ shown = printed answer := by
  constructor
  · rintro (_ | hs | _)
    · rfl
    · rw [printed]
      exact hs
    · rfl
  · rintro rfl
    rcases answer with e | s
    · exact .failure e
    · by_cases hs : s = ""
      · subst hs
        exact .silent
      · have hprinted : printed (.ok s) = s ++ "\n" := by
          rw [printed]
          exact hs
        rw [hprinted]
        exact .answer hs

theorem exists_dialogue (g : Registry) (ls : List String) : ∃ out, Dialogue g ls out (after g ls) := by
  induction ls generalizing g with
  | nil => exact ⟨_, .nil g⟩
  | cons line ls ih =>
    rcases hexecute : execute g line with ⟨answer, g'⟩
    obtain ⟨out, hout⟩ := ih g'
    rw [after_cons, hexecute]
    exact ⟨_, .cons hexecute (shows_iff.2 rfl) hout⟩

/-- **The lines alone decide** what is shown and what the registry is afterwards. -/
theorem Dialogue.unique (hd : Dialogue g ls out g') (hd' : Dialogue g ls out' g'') : out = out' ∧ g' = g'' := by
  induction hd generalizing out' g'' with
  | nil =>
    cases hd'
    exact ⟨rfl, rfl⟩
  | cons hexecute hshows _ ih =>
    cases hd' with
    | cons hexecute' hshows' hrest' =>
      cases hexecute.symm.trans hexecute'
      obtain ⟨rfl, rfl⟩ := ih hrest'
      exact ⟨by rw [shows_iff.1 hshows, shows_iff.1 hshows'], rfl⟩

/-- **There is one dialogue** over given lines, from any registry. -/
theorem existsUnique_dialogue (g : Registry) (ls : List String) : ∃! r : String × Registry, Dialogue g ls r.1 r.2 := by
  obtain ⟨out, hout⟩ := exists_dialogue g ls
  refine ⟨(out, after g ls), hout, fun r hr => ?_⟩
  obtain ⟨hshown, hafter⟩ := hr.unique hout
  exact Prod.ext hshown hafter

/-- **Dialogues one after the other** are one dialogue. -/
theorem Dialogue.append (hd : Dialogue g ls out g') (hd' : Dialogue g' ls' out' g'') :
    Dialogue g (ls ++ ls') (out ++ out') g'' := by
  induction hd with
  | nil => rwa [List.nil_append, String.empty_append]
  | cons hexecute hshows _ ih =>
    rw [String.append_assoc]
    exact .cons hexecute hshows (ih hd')

theorem Dialogue.eq_after (hd : Dialogue g ls out g') : g' = after g ls := by
  obtain ⟨_, hd'⟩ := exists_dialogue g ls
  exact (hd.unique hd').2

theorem run_cons_of_quits {line : String} (hline : quits line = true) (g : Registry) (lines : List (Option String)) :
    run g (some line :: lines) = (prompt ++ closing g, true) := by
  rw [run, reply, if_pos hline]

theorem run_cons {line : String} (hline : quits line = false) (g : Registry) (lines : List (Option String)) :
    run g (some line :: lines) =
      (prompt ++ printed (execute g line).1 ++ (run (execute g line).2 lines).1, (run (execute g line).2 lines).2) := by
  rw [run, reply, if_neg (by rw [hline]; decide)]

/-- **A session is the dialogue over the lines that it comes to**, and then a last prompt. It comes to its end. -/
theorem run_of_dialogue (hd : Dialogue g (heard ls) out g') :
    run g (ls.map some) = (out ++ "> " ++ closing g', true) := by
  induction ls generalizing g out with
  | nil =>
    cases hd
    rw [String.empty_append]
    rfl
  | cons line ls ih =>
    rw [heard, List.takeWhile_cons] at hd
    rcases hline : quits line with _ | _ <;> rw [hline] at hd
    · cases hd with
      | cons hexecute hshows hrest =>
        rw [List.map_cons, run_cons hline, hexecute, ih hrest, shows_iff.1 hshows]
        simp only [prompt, String.append_assoc]
    · cases hd
      rw [List.map_cons, run_cons_of_quits hline, String.empty_append]
      rfl

theorem closing_eq (h : g.size = 1) : closing g = "1 object(s) still registered\n" := by
  rw [closing, h]
  rfl

end Console.Session

namespace Demo

open Console.Session

variable {c : Config} {name : ObjectName} {g g' : Registry} {s out : String} {ls : List String}

theorem startConsole_of_parse {c : ManagedConfig} (h : ObjectName.parse c.objectName = .ok name) :
    startConsole c = .ok (name, Registry.empty.put name ⟨c.label, c.counter⟩) := by
  have hregister := Registry.register_of_none (Registry.find?_empty name) (⟨c.label, c.counter⟩ : Record)
  simp only [startConsole, h, hregister, bind, Except.bind, pure, Except.pure]

/-- **A configuration that keeps the rules can be started**, with the one object that it describes. -/
theorem exists_start (hc : c.validate = .ok ()) :
    ∃ name g, ObjectName.parse c.managed.objectName = .ok name ∧ startConsole c.managed = .ok (name, g) ∧
      g.names = [name] ∧ g.find? name = some ⟨c.managed.label, c.managed.counter⟩ := by
  obtain ⟨name, hname⟩ := Config.kept_of_validate hc .objectName
  exact ⟨name, _, hname, startConsole_of_parse hname, Registry.names_put_empty name _,
    (Registry.find?_put ..).trans (if_pos rfl)⟩

/-- **A session over a text comes to its end**, and the object that it began with is still there. -/
theorem consoleOutput_eq (hstart : startConsole c.managed = .ok (name, g)) (hnames : g.names = [name])
    (hls : Lined s ls) (hd : Dialogue g (heard ls) out g') :
    consoleOutput c.managed s.toUTF8 = .success (banner name ++ out ++ "> 1 object(s) still registered\n") := by
  have hsize : g'.size = 1 := by
    rw [hd.eq_after, ← Registry.length_names, Console.names_after, hnames, List.length_singleton]
  simp only [consoleOutput, hstart, lines_toUTF8 hls, run_of_dialogue hd, closing_eq hsize, if_true,
    String.append_assoc]
  rfl

/-- **The console is a fold of its lines.** A configuration that keeps the rules is started with the one object that
it describes, and then, for every text that is the input:
* The text has its lines in one way, and there is one dialogue over lines, whatever the answers are.
* What is shown is the heading, the name and the help, the dialogue over the lines before the first one that ends the
  session, a last prompt, and that there is still one object. The run succeeds.
* What follows a line that ends the session makes no difference.
* If no line of a text with a line end at its end ends the session, then what is shown for this text and another one
  is the dialogue of the first text and then that of the other one, from the registry that the first one left. -/
theorem consoleOutput_folds (hc : c.validate = .ok ()) :
    ∃ name g, ObjectName.parse c.managed.objectName = .ok name ∧ startConsole c.managed = .ok (name, g) ∧
      g.names = [name] ∧ g.find? name = some ⟨c.managed.label, c.managed.counter⟩ ∧
      let opening := "=== Management Console ===\nregistered " ++ name.text ++ "\n\n" ++ Console.help ++ "\n\n"
      let ending := "> 1 object(s) still registered\n"
      (∀ s : String, ∃! ls, Lined s ls) ∧
      (∀ (g : Registry) (ls : List String), ∃! r : String × Registry, Dialogue g ls r.1 r.2) ∧
      (∀ (s : String) (ls : List String), Lined s ls → ∃ out,
        Dialogue g (heard ls) out (Console.after g (heard ls)) ∧
        consoleOutput c.managed s.toUTF8 = .success (opening ++ out ++ ending)) ∧
      (∀ (a b : String) (ls : List String), Lined (a ++ "\n") ls → (∃ line ∈ ls, quits line = true) →
        consoleOutput c.managed (a ++ "\n" ++ b).toUTF8 = consoleOutput c.managed (a ++ "\n").toUTF8) ∧
      ∀ (a b : String) (ls ls' : List String), Lined (a ++ "\n") ls → Lined b ls' →
        (∀ line ∈ ls, quits line = false) →
        ∀ out g' out' g'', Dialogue g ls out g' → Dialogue g' (heard ls') out' g'' →
          consoleOutput c.managed (a ++ "\n").toUTF8 = .success (opening ++ out ++ ending) ∧
          consoleOutput c.managed (a ++ "\n" ++ b).toUTF8 = .success (opening ++ (out ++ out') ++ ending) := by
  obtain ⟨name, g, hname, hstart, hnames, hfind⟩ := exists_start hc
  refine ⟨name, g, hname, hstart, hnames, hfind, existsUnique_lined, existsUnique_dialogue, ?fold, ?rest, ?append⟩
  case fold =>
    intro s ls hls
    obtain ⟨out, hout⟩ := exists_dialogue g (heard ls)
    exact ⟨out, hout, consoleOutput_eq hstart hnames hls hout⟩
  case rest =>
    intro a b ls hls hquits
    obtain ⟨ls', hls'⟩ := exists_lined b
    obtain ⟨out, hout⟩ := exists_dialogue g (heard ls)
    have hboth : Dialogue g (heard (ls ++ ls')) out (Console.after g (heard ls)) := by
      rw [heard_of_exists hquits]
      exact hout
    rw [consoleOutput_eq hstart hnames hls hout, consoleOutput_eq hstart hnames (hls.append_lineEnd hls') hboth]
  case append =>
    intro a b ls ls' hls hls' hquits out g' out' g'' hd hd'
    have hfirst : Dialogue g (heard ls) out g' := by rwa [heard_self hquits]
    have hboth : Dialogue g (heard (ls ++ ls')) (out ++ out') g'' := by
      rw [heard_of_forall hquits]
      exact hd.append hd'
    exact ⟨consoleOutput_eq hstart hnames hls hfirst,
      consoleOutput_eq hstart hnames (hls.append_lineEnd hls') hboth⟩

open Console (Command plainName)

/-- A label that is set before a failure is shown after it; what follows a line that ends the session is not. -/
theorem consoleOutput_folds_label :
    let c : Config := { managed := { objectName := "a:b=c" } }
    let a := "set a:b=c label x\nbogus"
    let b := "get a:b=c label"
    let opening := "=== Management Console ===\nregistered a:b=c\n\n" ++ Console.help ++ "\n\n"
    c.validate = .ok () ∧
      consoleOutput c.managed (a ++ "\n" ++ b).toUTF8 =
        .success (opening ++ ("> ok\n> error: unknown console command 'bogus' (try 'help')\n" ++ "> x\n") ++
          "> 1 object(s) still registered\n") ∧
      consoleOutput c.managed (" quit" ++ "\n" ++ b).toUTF8 = consoleOutput c.managed (" quit" ++ "\n").toUTF8 := by
  intro c a b opening
  have hc : c.validate = .ok () := by cbv
  have hparse : ObjectName.parse "a:b=c" = .ok plainName := rfl
  obtain ⟨name, g, hname, hstart, -, hfind, -, -, -, hrest, happend⟩ := consoleOutput_folds hc
  obtain rfl : name = plainName := Except.ok.inj (hname.symm.trans hparse)
  let g' := g.put plainName ⟨"x", 0⟩
  have hset : Console.execute g ("set a:b=c label x" ++ "\n") = (.ok "ok", g') := by
    have hsep : (Command.set "a:b=c" "label" "x").IsSeparable :=
      ⟨by decide, by decide, by decide, Text.trim_eq_self_iff.1 (by decide)⟩
    have hend : Text.Blank ['\n'] := by decide
    exact (Command.execute_line hsep Text.blank_nil hend (Command.spaced_single _)).trans
      (Command.perform_set_label hparse hfind rfl)
  have hbogus : Console.execute g' ("bogus" ++ "\n") = (.error (.unknownCommand "bogus"), g') := rfl
  have hget : Console.execute g' "get a:b=c label" = (.ok "x", g') := by
    have hsep : (Command.get "a:b=c" "label").IsSeparable :=
      ⟨by decide, by decide, Text.trim_eq_self_iff.1 (by decide)⟩
    have hx : g'.getAttribute plainName "label" = .ok (.str "x") :=
      Console.getAttribute_label ((Registry.find?_put ..).trans (if_pos rfl))
    have hperform : (Command.get "a:b=c" "label").perform g' = (.ok "x", g') := by
      rw [Command.perform, Console.naming, hparse]
      simp only [hx]
      rfl
    exact (Command.execute_text hsep).trans hperform
  have hfirst : Dialogue g ["set a:b=c label x" ++ "\n", "bogus" ++ "\n"]
      "> ok\n> error: unknown console command 'bogus' (try 'help')\n" g' :=
    .cons hset (.answer (by decide)) (.cons hbogus (.failure _) (.nil _))
  have hheard : heard [b] = [b] := heard_self (List.forall_mem_singleton.2 (by decide))
  have hsecond : Dialogue g' (heard [b]) "> x\n" g' := by
    rw [hheard]
    exact .cons hget (.answer (by decide)) (.nil _)
  have hlines : Lined (a ++ "\n") ["set a:b=c label x" ++ "\n", "bogus" ++ "\n"] := by
    have ha : a ++ "\n" = "set a:b=c label x" ++ "\n" ++ ("bogus" ++ "\n" ++ "") := rfl
    rw [ha]
    exact .ended (by decide) (.ended (by decide) .nil)
  have hquit : Lined (" quit" ++ "\n") [" quit" ++ "\n"] := by
    rw [← String.append_empty (s := " quit" ++ "\n")]
    exact .ended (by decide) .nil
  have hline : Lined b [b] := .unended (by decide) (by decide)
  have hgoesOn : ∀ line ∈ ["set a:b=c label x" ++ "\n", "bogus" ++ "\n"], quits line = false := by decide
  have hends : quits (" quit" ++ "\n") = true := by decide
  exact ⟨hc, (happend a b _ _ hlines hline hgoesOn _ _ _ _ hfirst hsecond).2,
    hrest " quit" b _ hquit ⟨_, List.mem_singleton_self _, hends⟩⟩

end Demo

end Handoff
