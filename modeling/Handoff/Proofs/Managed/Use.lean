import Mathlib.Tactic.SplitIfs
import Handoff.Managed.Registry

/-! # The use of a record

All that can be done with a record changes at most its label or its counter. A use that fails changes
nothing, and it fails for a reason of its own, never for a name that is taken or not.

* `Use`, `Record.use`: the uses of a record, by name and directly.
* `Use.SetsLabel`, `Use.Adds`: which uses are meant to change the record.
* `Record.used`: what a use can come to.
-/

namespace Handoff

/-- **A use of a record**: by the name of an attribute or of an operation, or directly. -/
inductive Use where
  | set (attr : String) (value : Json)
  | call (operation : String) (args : List Json)
  | increment (amount : UInt32)
  | relabel (label : String)

/-- The answer to a use, with a value if there is one. -/
abbrev Reply := Except Failure (Option Json)

/-- Whether a failure is about a name, which is taken or not. -/
def Failure.IsAboutName : Failure → Prop
  | .alreadyRegistered _ => True
  | .unknownObject _ => True
  | _ => False

namespace Use

/-- Whether a use gives the record this label, if all goes well. -/
def SetsLabel (s : String) : Use → Prop
  | set attr v => attr = "label" ∧ v = .str s
  | call operation args => operation = "set_label" ∧ args = [.str s]
  | increment _ => False
  | relabel l => l = s

/-- Whether a use adds this number to the counter. -/
def Adds (n : UInt32) : Use → Prop
  | set _ _ => False
  | call operation args => operation = "increment" ∧ ∃ v, args = [v] ∧ Record.countArg operation v = .ok n
  | increment amount => amount = n
  | relabel _ => False

/-- Whether a use is meant to add to the counter. -/
def IsIncrement : Use → Prop
  | call operation _ => operation = "increment"
  | increment _ => True
  | _ => False

end Use

/-! ### One record -/

namespace Record

variable {r : Record}

/-- **The use of a record**, and the record afterwards. -/
def use (r : Record) : Use → Reply × Record
  | .set attr value => ((r.setAttribute attr value).1.map fun _ => none, (r.setAttribute attr value).2)
  | .call operation args => ((r.invoke operation args).1.map some, (r.invoke operation args).2)
  | .increment amount => (.ok (some (.int (r.increment amount).counter.toInt)), r.increment amount)
  | .relabel label => (.ok none, r.setLabel label)

/-- **What a use can come to**: it fails and changes nothing, it shows a value, it gives the record another
label, or it adds to the counter and answers the new one. -/
inductive Used (r : Record) (u : Use) : Reply × Record → Prop where
  | fails {e : Failure} (he : ¬ e.IsAboutName) (hnot : ∀ n, ¬ u.Adds n) : Used r u (.error e, r)
  | shows (v : Json) (hnot : ¬ u.IsIncrement) : Used r u (.ok (some v), r)
  | relabels {s : String} (answer : Option Json) (h : u.SetsLabel s) (hnot : ¬ u.IsIncrement) :
      Used r u (.ok answer, r.setLabel s)
  | counts {n : UInt32} (h : u.Adds n) :
      Used r u (.ok (some (.int (r.increment n).counter.toInt)), r.increment n)

theorem stringArg_eq_ok {operation s : String} {v : Json} (h : stringArg operation v = .ok s) :
    v = .str s := by
  unfold stringArg at h
  cases v <;> simp [Json.str?] at h
  rw [h]

theorem stringArg_eq_error {operation : String} {v : Json} {e : Failure}
    (h : stringArg operation v = .error e) : ¬ e.IsAboutName := by
  unfold stringArg at h
  split at h
  · cases h
  · cases h
    exact id

theorem integerArg_eq_error {operation : String} {v : Json} {e : Failure}
    (h : integerArg operation v = .error e) : ¬ e.IsAboutName := by
  unfold integerArg at h
  split at h
  · cases h
  · cases h
    exact id

theorem countArg_eq_error {operation : String} {v : Json} {e : Failure}
    (h : countArg operation v = .error e) : ¬ e.IsAboutName := by
  unfold countArg at h
  split at h
  · cases h
    exact integerArg_eq_error ‹_›
  · split_ifs at h
    cases h
    exact id

theorem used_set (attr : String) (value : Json) : Used r (.set attr value) (r.use (.set attr value)) := by
  have hnot : ∀ n, ¬ (Use.set attr value).Adds n := fun _ h => h
  rw [use]
  unfold setAttribute
  split
  · rcases hs : stringArg "set label" value with e | s
    · exact .fails (stringArg_eq_error hs) hnot
    · exact .relabels none ⟨rfl, stringArg_eq_ok hs⟩ id
  · exact .fails id hnot
  · exact .fails id hnot

theorem used_call (operation : String) (args : List Json) :
    Used r (.call operation args) (r.use (.call operation args)) := by
  -- an operation of another name adds nothing
  have hother : operation ≠ "increment" → ∀ n, ¬ (Use.call operation args).Adds n :=
    fun hne n h => hne h.1
  rw [use]
  unfold invoke
  split
  · split
    · rename_i v
      rcases hs : stringArg "print_greeting" v with e | s
      · exact .fails (stringArg_eq_error hs) (hother (by simp))
      · exact .shows _ (by simp [Use.IsIncrement])
    · exact .fails id (hother (by simp))
  · split
    · rename_i v
      rcases hn : countArg "increment" v with e | n
      · refine .fails (countArg_eq_error hn) fun n h => ?_
        obtain ⟨v', hv, hok⟩ := h.2
        cases hv
        rw [hn] at hok
        cases hok
      · exact .counts ⟨rfl, v, rfl, hn⟩
    · rename_i hargs
      refine .fails id fun n h => ?_
      obtain ⟨v', hv, -⟩ := h.2
      exact hargs v' hv
  · split
    · rename_i v w
      rcases hx : integerArg "add" v with e | x
      · exact .fails (integerArg_eq_error hx) (hother (by simp))
      · rcases hy : integerArg "add" w with e | y
        · exact .fails (integerArg_eq_error hy) (hother (by simp))
        · exact .shows _ (by simp [Use.IsIncrement])
    · exact .fails id (hother (by simp))
  · split
    · exact .shows _ (by simp [Use.IsIncrement])
    · exact .fails id (hother (by simp))
  · split
    · rename_i v
      rcases hs : stringArg "set_label" v with e | s
      · exact .fails (stringArg_eq_error hs) (hother (by simp))
      · obtain rfl := stringArg_eq_ok hs
        exact .relabels (some .null) ⟨rfl, rfl⟩ (by simp [Use.IsIncrement])
    · exact .fails id (hother (by simp))
  · split
    · exact .shows _ (by simp [Use.IsIncrement])
    · exact .fails id (hother (by simp))
  · rename_i hne _ _ _ _
    exact .fails id (hother hne)

/-- **A use comes to one of these.** -/
theorem used (r : Record) (u : Use) : Used r u (r.use u) := by
  cases u with
  | set attr value => exact used_set attr value
  | call operation args => exact used_call operation args
  | increment amount => exact .counts rfl
  | relabel label => exact .relabels none rfl id

/-- A use that fails does so for a reason of its own. -/
theorem not_isAboutName_of_error {u : Use} {e : Failure} (h : (r.use u).1 = .error e) : ¬ e.IsAboutName := by
  have hused := r.used u
  generalize r.use u = x at h hused
  cases hused with
  | fails he => cases h; exact he
  | _ => cases h

/-- **A use that fails changes nothing.** -/
theorem use_of_error {u : Use} {e : Failure} (h : (r.use u).1 = .error e) : (r.use u).2 = r := by
  have hused := r.used u
  generalize r.use u = x at h hused
  cases hused with
  | fails => rfl
  | _ => cases h

/-- **At most one field changes**, and only by a use that is meant to change it. -/
theorem use_frame (r : Record) (u : Use) :
    ((r.use u).2.label = r.label ∨ (r.use u).2.counter = r.counter) ∧
      ((r.use u).2.label ≠ r.label → ∃ s, u.SetsLabel s) ∧
      ((r.use u).2.counter ≠ r.counter → ∃ n, u.Adds n) := by
  have hused := r.used u
  generalize r.use u = x at hused
  cases hused with
  | fails => exact ⟨.inl rfl, fun h => absurd rfl h, fun h => absurd rfl h⟩
  | shows => exact ⟨.inl rfl, fun h => absurd rfl h, fun h => absurd rfl h⟩
  | relabels _ h => exact ⟨.inr rfl, fun _ => ⟨_, h⟩, fun h => absurd rfl h⟩
  | counts h => exact ⟨.inl rfl, fun h => absurd rfl h, fun _ => ⟨_, h⟩⟩

/-- The record after uses. -/
def useAll (r : Record) (us : List Use) : Record := us.foldl (fun r u => (r.use u).2) r

theorem useAll_append (r : Record) (us vs : List Use) : r.useAll (us ++ vs) = (r.useAll us).useAll vs :=
  List.foldl_append

end Record

end Handoff
