import Mathlib.Data.List.Basic
import Mathlib.Data.Option.Basic
import Mathlib.Logic.ExistsUnique
import Handoff.Console.Session
import Handoff.Proofs.Text.Bytes

/-! # The lines of an input

An input is cut into lines by its bytes, and each line is then read as a text. The byte of a line end is part of no
other character, so the lines of a text are pieces of the text: each ends with a line end, except perhaps the last
one.

* `Session.Lined`: a text and its lines. It has them in one way (`existsUnique_lined`).
* `Session.Lined.append_lineEnd`: the lines of a text behind a line end.
* `Session.lines_toUTF8`: the lines that are cut are the lines of the text.
-/

namespace Handoff.Console.Session

/-- **A text and its lines.** A line is some other characters and then a line end; the last one may lack the line end
if it is not empty. -/
inductive Lined : String → List String → Prop where
  | nil : Lined "" []
  | unended {l : String} (h : '\n' ∉ l.toList) (hne : l ≠ "") : Lined l [l]
  | ended {l r : String} {ls : List String} (h : '\n' ∉ l.toList) (hr : Lined r ls) :
      Lined (l ++ "\n" ++ r) ((l ++ "\n") :: ls)

variable {s t : String} {ls ls' : List String}

/-- A text with a line end has a first line. -/
theorem exists_firstLine (h : '\n' ∈ s.toList) : ∃ l r : String, s = l ++ "\n" ++ r ∧ '\n' ∉ l.toList := by
  obtain ⟨l, r, hs, hl⟩ := List.eq_append_cons_of_mem h
  refine ⟨String.ofList l, String.ofList r, String.toList_injective ?_, by rwa [String.toList_ofList]⟩
  simp only [hs, String.append_assoc, String.toList_append, String.toList_ofList]
  rfl

theorem exists_lined (s : String) : ∃ ls, Lined s ls := by
  -- what follows the first line end is shorter
  induction h : s.length using Nat.strong_induction_on generalizing s with
  | _ n ih =>
    by_cases hmem : '\n' ∈ s.toList
    · obtain ⟨l, r, rfl, hl⟩ := exists_firstLine hmem
      have hlt : r.length < n := by
        have hend : "\n".length = 1 := rfl
        rw [← h, String.length_append, String.length_append, hend]
        omega
      obtain ⟨ls, hls⟩ := ih _ hlt r rfl
      exact ⟨_, .ended hl hls⟩
    · rcases eq_or_ne s "" with rfl | hne
      · exact ⟨_, .nil⟩
      · exact ⟨_, .unended hmem hne⟩

/-- **Behind a line end** a text goes on with new lines. -/
theorem Lined.append (h : Lined s ls) (hs : ∀ c ∈ s.toList.getLast?, c = '\n') (h' : Lined t ls') :
    Lined (s ++ t) (ls ++ ls') := by
  induction h with
  | nil => rwa [String.empty_append]
  | unended hl hne =>
    have hne' := mt String.toList_eq_nil_iff.1 hne
    exact absurd (hs _ (List.getLast?_eq_some_getLast hne') ▸ List.getLast_mem hne') hl
  | ended hl _ ih =>
    rw [String.append_assoc]
    refine .ended hl (ih fun c hc => hs c ?_)
    rw [String.toList_append, List.getLast?_append, Option.mem_def.1 hc]
    rfl

theorem Lined.append_lineEnd (h : Lined (s ++ "\n") ls) (h' : Lined t ls') : Lined (s ++ "\n" ++ t) (ls ++ ls') := by
  refine h.append (fun c hc => ?_) h'
  have hlast : (s ++ "\n").toList.getLast? = some '\n' := by
    rw [String.toList_append]
    exact List.getLast?_concat
  rw [hlast] at hc
  exact (Option.mem_some_iff.1 hc).symm

/-! ### Cutting bytes -/

theorem splitLines_ended {l : List UInt8} (h : 10 ∉ l) (r : List UInt8) :
    splitLines (l ++ 10 :: r) = (l ++ [10]) :: splitLines r := by
  induction l with
  | nil =>
    rw [List.nil_append, splitLines, if_pos rfl]
    rfl
  | cons b l ih =>
    obtain ⟨hb, hl⟩ := List.ne_and_not_mem_of_not_mem_cons h
    rw [List.cons_append, splitLines, if_neg hb.symm, ih hl]
    rfl

theorem splitLines_unended {l : List UInt8} (h : 10 ∉ l) (hne : l ≠ []) : splitLines l = [l] := by
  induction l with
  | nil => exact absurd rfl hne
  | cons b l ih =>
    obtain ⟨hb, hl⟩ := List.ne_and_not_mem_of_not_mem_cons h
    rw [splitLines, if_neg hb.symm]
    rcases eq_or_ne l [] with rfl | hne'
    · rfl
    · rw [ih hl hne']

/-- The bytes of a text are cut where the text is. -/
theorem splitLines_bytes (h : Lined s ls) : splitLines (Text.bytes s) = ls.map Text.bytes := by
  induction h with
  | nil => rfl
  | @unended l hl hne =>
    have hne' : Text.bytes l ≠ [] := fun hnil => hne (Text.bytes_eq_nil_iff.1 hnil)
    exact splitLines_unended (mt Text.lineEnd_mem_bytes_iff.1 hl) hne'
  | @ended l r ls hl _ ih =>
    have hend : Text.bytes "\n" = [10] := rfl
    rw [Text.bytes_append, Text.bytes_append, hend, List.append_assoc, List.singleton_append,
      splitLines_ended (mt Text.lineEnd_mem_bytes_iff.1 hl), ih, List.map_cons, Text.bytes_append, hend]

/-- **The lines that are cut are the lines of the text.** -/
theorem lines_toUTF8 (h : Lined s ls) : lines s.toUTF8 = ls.map some := by
  have hcut : splitLines s.toUTF8.data.toList = ls.map Text.bytes := splitLines_bytes h
  rw [lines, hcut, List.map_map]
  exact List.map_congr_left fun l _ => Text.fromUTF8?_bytes l

theorem Lined.unique (h : Lined s ls) (h' : Lined s ls') : ls = ls' :=
  List.map_injective_iff.2 (Option.some_injective _) ((lines_toUTF8 h).symm.trans (lines_toUTF8 h'))

/-- **A text has its lines in one way.** -/
theorem existsUnique_lined (s : String) : ∃! ls, Lined s ls := by
  obtain ⟨ls, hls⟩ := exists_lined s
  exact ⟨ls, hls, fun _ h => h.unique hls⟩

end Handoff.Console.Session
