import Handoff.Console.Command
import Handoff.Proofs.Managed.Entries

/-! # What a line can do

A line uses at most one record of the registry, and nothing is written before its last check. So a line that
fails changes nothing, and any other changes at most one field of the object that it names.

* `Console.use?`: the use of a record that a line stands for.
* `Console.execute_of_use?`, `Console.execute_of_none`: this is all that a line does.
* `Console.execute_framed`: the statement for all lines.
-/

namespace Handoff.Console

/-- The command of a line. -/
def commandOf (line : String) : String := String.ofList (splitCommand line.toList).1

/-- The text after the command of a line. -/
def restOf (line : String) : List Char := (splitCommand line.toList).2

/-- The use that the words of `set` stand for. -/
def setUse? (rest : List Char) : Option (ObjectName × Use) :=
  match setWords rest with
  | .ok (name, attr, value) => some (name, .set attr value)
  | .error _ => none

/-- The use that the words of `invoke` stand for. -/
def invokeUse? (rest : List Char) : Option (ObjectName × Use) :=
  match invokeWords rest with
  | .ok (name, operation, args) => some (name, .call operation args)
  | .error _ => none

/-- **The use of a record that a line stands for**, with the name of the record. -/
def use? (line : String) : Option (ObjectName × Use) :=
  if commandOf line = "set" then setUse? (restOf line)
  else if commandOf line = "invoke" then invokeUse? (restOf line)
  else none

/-- How the reply to a use is shown. -/
def shown : Option Json → String
  | none => "ok"
  | some v => render v

/-- The registry after lines. -/
def after (g : Registry) (lines : List String) : Registry := lines.foldl (fun g line => (execute g line).2) g

theorem after_cons (g : Registry) (line : String) (lines : List String) :
    after g (line :: lines) = after (execute g line).2 lines := rfl

section Line

variable {g : Registry} {line : String} {rest : List Char} {name : ObjectName} {u : Use}

theorem set_of_use? (h : setUse? rest = some (name, u)) (g : Registry) :
    set g rest = ((g.use name u).1.map shown, (g.use name u).2) := by
  unfold setUse? at h
  rcases hwords : setWords rest with e | ⟨name', attr, value⟩ <;> rw [hwords] at h <;> cases h
  have hset : set g rest =
      ((g.setAttribute name attr value).1.map fun _ => "ok", (g.setAttribute name attr value).2) := by
    rw [set, hwords]
  rw [hset, ← Registry.setAttribute_eq]
  rcases g.setAttribute name attr value with ⟨e | v, g'⟩ <;> rfl

theorem set_of_none (h : setUse? rest = none) (g : Registry) : ∃ e, set g rest = (.error e, g) := by
  unfold setUse? at h
  rcases hwords : setWords rest with e | ⟨name', attr, value⟩ <;> rw [hwords] at h
  · exact ⟨e, by rw [set, hwords]⟩
  · cases h

theorem invoke_of_use? (h : invokeUse? rest = some (name, u)) (g : Registry) :
    invoke g rest = ((g.use name u).1.map shown, (g.use name u).2) := by
  unfold invokeUse? at h
  rcases hwords : invokeWords rest with e | ⟨name', operation, args⟩ <;> rw [hwords] at h <;> cases h
  have hinvoke : invoke g rest =
      ((g.invoke name operation args).1.map render, (g.invoke name operation args).2) := by
    rw [invoke, hwords]
  rw [hinvoke, ← Registry.invoke_eq]
  rcases g.invoke name operation args with ⟨e | v, g'⟩ <;> rfl

theorem invoke_of_none (h : invokeUse? rest = none) (g : Registry) : ∃ e, invoke g rest = (.error e, g) := by
  unfold invokeUse? at h
  rcases hwords : invokeWords rest with e | ⟨name', operation, args⟩ <;> rw [hwords] at h
  · exact ⟨e, by rw [invoke, hwords]⟩
  · cases h

theorem execute_of_set (h : commandOf line = "set") (g : Registry) : execute g line = set g (restOf line) := by
  unfold execute restOf
  unfold commandOf at h
  generalize splitCommand line.toList = x at h
  simp only [h]

theorem execute_of_invoke (h : commandOf line = "invoke") (g : Registry) :
    execute g line = invoke g (restOf line) := by
  unfold execute restOf
  unfold commandOf at h
  generalize splitCommand line.toList = x at h
  simp only [h]

/-- A line of another command leaves the registry as it is. -/
theorem execute_of_ne (hset : commandOf line ≠ "set") (hinvoke : commandOf line ≠ "invoke") (g : Registry) :
    (execute g line).2 = g := by
  unfold commandOf at hset hinvoke
  unfold execute
  generalize splitCommand line.toList = x at hset hinvoke
  simp only
  split
  case h_6 h => exact absurd h hset
  case h_7 h => exact absurd h hinvoke
  all_goals rfl

/-- **A line that stands for a use is this use.** -/
theorem execute_of_use? (h : use? line = some (name, u)) (g : Registry) :
    execute g line = ((g.use name u).1.map shown, (g.use name u).2) := by
  unfold use? at h
  split_ifs at h with hset hinvoke
  · rw [execute_of_set hset, set_of_use? h]
  · rw [execute_of_invoke hinvoke, invoke_of_use? h]

/-- **Any other line leaves the registry as it is**, and fails if its command is `set` or `invoke`. -/
theorem execute_of_none (h : use? line = none) (g : Registry) :
    (execute g line).2 = g ∧
      (commandOf line = "set" ∨ commandOf line = "invoke" → ∃ e, (execute g line).1 = .error e) := by
  unfold use? at h
  split_ifs at h with hset hinvoke
  · obtain ⟨e, he⟩ := set_of_none h g
    rw [execute_of_set hset, he]
    exact ⟨rfl, fun _ => ⟨e, rfl⟩⟩
  · obtain ⟨e, he⟩ := invoke_of_none h g
    rw [execute_of_invoke hinvoke, he]
    exact ⟨rfl, fun _ => ⟨e, rfl⟩⟩
  · exact ⟨execute_of_ne hset hinvoke g, fun hor => absurd hor (by simp [hset, hinvoke])⟩

/-- A line names what it uses. -/
theorem byName_of_use? (h : use? line = some (name, u)) :
    (∃ attr value, u = .set attr value) ∨ ∃ operation args, u = .call operation args := by
  unfold use? at h
  split_ifs at h
  · unfold setUse? at h
    split at h <;> cases h
    exact .inl ⟨_, _, rfl⟩
  · unfold invokeUse? at h
    split at h <;> cases h
    exact .inr ⟨_, _, rfl⟩

/-- A line takes and frees no name. -/
theorem names_execute (g : Registry) (line : String) : (execute g line).2.names = g.names := by
  rcases h : use? line with _ | ⟨name, u⟩
  · rw [(execute_of_none h g).1]
  · rw [execute_of_use? h]
    exact g.names_use name u

/-- **Lines take and free no names.** -/
theorem names_after (g : Registry) (lines : List String) : (after g lines).names = g.names := by
  induction lines generalizing g with
  | nil => rfl
  | cons line lines ih => exact (ih (execute g line).2).trans (names_execute g line)

end Line

/-- **Lines are atomic, and touch little.** A line that fails, and one of another command than `set` and
`invoke`, leaves the registry as it is. One that succeeds leaves the names and all other objects as they are,
and changes at most one field of the object that it names: the label only by setting the attribute or by the
operation for it, and the counter only by an increment. So the names stay the same over all lines. -/
theorem execute_framed (g : Registry) :
    (∀ line : String,
      ((∃ e, (execute g line).1 = .error e) ∨ commandOf line ≠ "set" ∧ commandOf line ≠ "invoke" →
        (execute g line).2 = g) ∧
      ((∃ s, (execute g line).1 = .ok s) → commandOf line = "set" ∨ commandOf line = "invoke" →
        (execute g line).2.names = g.names ∧
        ∃ name u, use? line = some (name, u) ∧ (∀ k, k ≠ name → (execute g line).2.find? k = g.find? k) ∧
          ∃ r r', g.find? name = some r ∧ (execute g line).2.find? name = some r' ∧
            (r'.label = r.label ∨ r'.counter = r.counter) ∧
            (r'.label ≠ r.label → (∃ v, u = .set "label" v) ∨ ∃ args, u = .call "set_label" args) ∧
            (r'.counter ≠ r.counter → ∃ args, u = .call "increment" args))) ∧
    ∀ lines : List String, (after g lines).names = g.names := by
  refine ⟨fun line => ⟨?_, ?_⟩, names_after g⟩
  · rintro (⟨e, he⟩ | ⟨hset, hinvoke⟩)
    · rcases h : use? line with _ | ⟨name, u⟩
      · exact (execute_of_none h g).1
      · rw [execute_of_use? h] at he ⊢
        rcases hu : (g.use name u).1 with e' | v
        · exact Registry.use_of_error hu
        · rw [hu] at he
          cases he
    · exact execute_of_ne hset hinvoke g
  · rintro ⟨s, hs⟩ hcommand
    refine ⟨names_execute g line, ?_⟩
    rcases h : use? line with _ | ⟨name, u⟩
    · obtain ⟨e, he⟩ := (execute_of_none h g).2 hcommand
      rw [hs] at he
      cases he
    · rw [execute_of_use? h] at hs ⊢
      rcases hr : g.find? name with _ | r
      · rw [Registry.use_of_none hr] at hs
        cases hs
      · obtain ⟨hone, hlabel, hcounter⟩ := r.use_frame u
        refine ⟨name, u, rfl, fun k hk => Registry.find?_use_of_ne hk, r, (r.use u).2, hr,
          Registry.find?_use hr u, hone, fun hne => ?_, fun hne => ?_⟩
        · obtain ⟨s, hset⟩ := hlabel hne
          rcases byName_of_use? h with ⟨attr, value, rfl⟩ | ⟨operation, args, rfl⟩
          · exact .inl ⟨value, by rw [hset.1]⟩
          · exact .inr ⟨args, by rw [hset.1]⟩
        · obtain ⟨n, hadds⟩ := hcounter hne
          rcases byName_of_use? h with ⟨attr, value, rfl⟩ | ⟨operation, args, rfl⟩
          · exact hadds.elim
          · exact ⟨args, by rw [hadds.1]⟩

open Registry (atticLamp cellarLamp)

/-- A line that gives the lamp in the attic another label leaves the one in the cellar as it is. -/
theorem execute_framed_attic :
    let g := (Registry.empty.put cellarLamp ⟨"lit", 7⟩).put atticLamp ⟨"lit", 3⟩
    let line := "set lamps:room=attic label dark"
    (execute g line).1 = .ok "ok" ∧ (execute g line).2.names = g.names ∧
      (execute g line).2.find? cellarLamp = some ⟨"lit", 7⟩ := by
  intro g line
  have huse : use? line = some (atticLamp, .set "label" (.str "dark")) := by
    have hcommand : commandOf line = "set" := by decide +kernel
    have hrest : restOf line = "lamps:room=attic label dark".toList := by decide +kernel
    have hparts : twoParts "set" "lamps:room=attic label dark".toList =
        .ok ("lamps:room=attic".toList, "label dark".toList) := rfl
    have hcut : Text.cutWord "label dark".toList = some ("label".toList, "dark".toList) := rfl
    have hname : ObjectName.parse (String.ofList "lamps:room=attic".toList) = .ok atticLamp := rfl
    have hvalue : parseValue (Text.trim "dark".toList) = .str "dark" := rfl
    rw [use?, if_pos hcommand, hrest]
    simp only [setUse?, setWords, hparts, bind, Except.bind, hcut, hname, hvalue]
    rfl
  have hattic : g.find? atticLamp = some ⟨"lit", 3⟩ := by rw [Registry.find?_put, if_pos rfl]
  have hcellar : g.find? cellarLamp = some ⟨"lit", 7⟩ := by
    rw [Registry.find?_put, if_neg (by decide), Registry.find?_put, if_pos rfl]
  have hok : (execute g line).1 = .ok "ok" := by
    rw [execute_of_use? huse, Registry.use_of_some hattic]
    rfl
  obtain ⟨hnames, name, u, hname, hother, -⟩ := ((execute_framed g).1 line).2 ⟨"ok", hok⟩ (.inl (by decide +kernel))
  rw [huse] at hname
  cases hname
  exact ⟨hok, hnames, (hother cellarLamp (by decide)).trans hcellar⟩

end Handoff.Console
