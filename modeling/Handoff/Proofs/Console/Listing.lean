import Handoff.Proofs.Console.Framing
import Handoff.Proofs.Managed.Canonical

/-! # What `list` tells

The names are listed with line ends between them, and values may hold line ends as well. Still the names can be told
from the text: each has one colon, and what stands before that has no line end. So what follows a colon, up to the
next one, ends with a line end and the domain of the next name.

* `ObjectName.exists_rest`: a name is its domain, a colon, and a text without colons.
* `Console.listing`: the listing of names; `Console.append_others_inj`: where a name ends in it.
* `Console.listing_injective`: different lists of names are listed differently.
* `Console.list_lossless`: the statement for registries.
-/

namespace Handoff

/-! ### Around a last place -/

namespace Text

/-- The parts around the last place of a character are determined. -/
theorem append_cons_inj_of_last {c : Char} {a a' b b' : List Char} (hb : c ∉ b) (hb' : c ∉ b')
    (h : a ++ c :: b = a' ++ c :: b') : a = a' ∧ b = b' := by
  have hrev := congrArg List.reverse h
  simp only [List.reverse_append, List.reverse_cons, List.append_assoc, List.singleton_append] at hrev
  obtain ⟨hb, ha⟩ := append_cons_inj (by simpa using hb) (by simpa using hb') hrev
  exact ⟨List.reverse_injective ha, List.reverse_injective hb⟩

theorem mem_intercalate {c d : Char} {ls : List (List Char)} (h : d ∈ List.intercalate [c] ls) :
    d = c ∨ ∃ l ∈ ls, d ∈ l := by
  induction ls with
  | nil => simp at h
  | cons l ls ih =>
    cases ls with
    | nil => exact .inr ⟨l, by simp, by simpa using h⟩
    | cons l' ls =>
      rw [List.intercalate_cons_cons, List.append_assoc, List.mem_append, List.mem_append, List.mem_singleton] at h
      rcases h with h | h | h
      · exact .inr ⟨l, by simp, h⟩
      · exact .inl h
      · exact (ih h).imp_right fun ⟨m, hm, hd⟩ => ⟨m, List.mem_cons_of_mem _ hm, hd⟩

end Text

/-! ### Names -/

namespace ObjectName

/-- **A name has one colon**, and no line end before it. -/
theorem exists_rest (n : ObjectName) :
    ∃ rest, n.text.toList = n.domain.toList ++ ':' :: rest ∧ ':' ∉ rest ∧ ':' ∉ n.domain.toList ∧
      '\n' ∉ n.domain.toList := by
  refine ⟨_, n.spells_text.text, fun hmem => ?_, n.isWord_domain.not_mem (by decide),
    n.isWord_domain.not_mem (by decide)⟩
  rcases Text.mem_intercalate hmem with heq | ⟨l, hl, hmem⟩
  · cases heq
  · obtain ⟨p, hp, rfl⟩ := List.mem_map.1 hl
    exact (n.isProperty p hp).not_mem (by decide) (by decide) (by decide) hmem

end ObjectName

namespace Console

/-! ### Lists of names -/

/-- The listing of names: their canonical spellings, with line ends between them. -/
def listing (names : List ObjectName) : List Char := List.intercalate ['\n'] (names.map fun n => n.text.toList)

/-- What follows the first name of a listing. -/
def others (names : List ObjectName) : List Char := if names = [] then [] else '\n' :: listing names

theorem listing_cons (n : ObjectName) (l : List ObjectName) : listing (n :: l) = n.text.toList ++ others l := by
  cases l with
  | nil => simp [listing, others]
  | cons m l => simp [listing, others, List.intercalate_cons_cons]

/-- A listing begins with a domain and a colon. -/
theorem exists_listing {l : List ObjectName} (h : l ≠ []) :
    ∃ d x, listing l = d ++ ':' :: x ∧ ':' ∉ d ∧ '\n' ∉ d := by
  cases l with
  | nil => exact absurd rfl h
  | cons n l =>
    obtain ⟨rest, htext, -, hcolon, hline⟩ := n.exists_rest
    exact ⟨_, _, by rw [listing_cons, htext, List.append_assoc, List.cons_append], hcolon, hline⟩

theorem listing_eq_nil_iff {l : List ObjectName} : listing l = [] ↔ l = [] := by
  refine ⟨fun h => ?_, fun h => by rw [h]; rfl⟩
  by_contra hne
  obtain ⟨d, x, hl, -⟩ := exists_listing hne
  rw [hl] at h
  simp at h

/-- Where no colon follows a name it is the last one. -/
theorem colon_not_mem_others_iff {l : List ObjectName} : ':' ∉ others l ↔ l = [] := by
  refine ⟨fun h => ?_, fun h => by simp [others, h]⟩
  by_contra hne
  obtain ⟨d, x, hl, -⟩ := exists_listing hne
  simp [others, hne, hl] at h

/-- **The end of a name** is told from the names after it. -/
theorem append_others_inj {r r' : List Char} {l l' : List ObjectName} (hr : ':' ∉ r) (hr' : ':' ∉ r')
    (h : r ++ others l = r' ++ others l') : r = r' ∧ listing l = listing l' := by
  have hnone : ∀ {r : List Char} {l : List ObjectName}, ':' ∉ r → (':' ∉ r ++ others l ↔ l = []) := by
    intro r l hr
    rw [List.mem_append, not_or, colon_not_mem_others_iff]
    exact and_iff_right hr
  by_cases hl : l = []
  · obtain rfl : l' = [] := (hnone hr').1 (h ▸ (hnone hr).2 hl)
    subst hl
    exact ⟨List.append_cancel_right h, rfl⟩
  · have hl' : l' ≠ [] := fun hl' => hl ((hnone hr).1 (h ▸ (hnone hr').2 hl'))
    obtain ⟨d, x, hlist, hcolon, hline⟩ := exists_listing hl
    obtain ⟨d', x', hlist', hcolon', hline'⟩ := exists_listing hl'
    -- the first colon is that of the next name, and the last line end before it stands between the names
    have hsplit : ∀ (r d x : List Char), r ++ '\n' :: (d ++ ':' :: x) = (r ++ '\n' :: d) ++ ':' :: x := by simp
    have hbefore : ∀ {r d : List Char}, ':' ∉ r → ':' ∉ d → ':' ∉ r ++ '\n' :: d := fun hr hd => by simp [hr, hd]
    rw [others, others, if_neg hl, if_neg hl', hlist, hlist', hsplit, hsplit] at h
    obtain ⟨hends, rfl⟩ := Text.append_cons_inj (hbefore hr hcolon) (hbefore hr' hcolon') h
    obtain ⟨rfl, rfl⟩ := Text.append_cons_inj_of_last hline hline' hends
    exact ⟨rfl, hlist.trans hlist'.symm⟩

/-- **Different lists of names are listed differently.** -/
theorem listing_injective : Function.Injective listing := by
  intro l l' h
  induction l generalizing l' with
  | nil => exact (listing_eq_nil_iff.1 h.symm).symm
  | cons n l ih =>
    rcases l' with _ | ⟨n', l'⟩
    · exact absurd (listing_eq_nil_iff.1 h) (List.cons_ne_nil n l)
    · obtain ⟨r, htext, hr, hcolon, -⟩ := n.exists_rest
      obtain ⟨r', htext', hr', hcolon', -⟩ := n'.exists_rest
      rw [listing_cons, listing_cons, htext, htext', List.append_assoc, List.append_assoc, List.cons_append,
        List.cons_append] at h
      obtain ⟨hdomain, hafter⟩ := Text.append_cons_inj hcolon hcolon' h
      obtain ⟨rfl, hothers⟩ := append_others_inj hr hr' hafter
      obtain rfl : n = n' := ObjectName.text_injective (String.toList_injective (by rw [htext, htext', hdomain]))
      rw [ih hothers]

/-! ### The command -/

section List

variable {line line' : String}

theorem execute_list (h : commandOf line = "list") (g : Registry) :
    execute g line = (.ok ("\n".intercalate (g.names.map ObjectName.text)), g) := by
  unfold execute
  unfold commandOf at h
  generalize splitCommand line.toList = x at h
  simp only [h]

theorem intercalate_text (l : List ObjectName) :
    "\n".intercalate (l.map ObjectName.text) = String.ofList (listing l) := by
  apply String.toList_injective
  rw [String.toList_ofList, listing, String.toList_intercalate, List.map_map]
  rfl

/-- **Listing loses no name.** A line that lists answers the canonical spellings of the names, in the order of the
registry, with line ends between them, and this is empty just if there are no objects. Registries that answer the same
text have objects under the same names. -/
theorem list_lossless (h : commandOf line = "list") (h' : commandOf line' = "list") (g g' : Registry) :
    execute g line = (.ok ("\n".intercalate (g.names.map ObjectName.text)), g) ∧
    g.names.Pairwise (fun a b => compare a b = .lt) ∧ (∀ k, k ∈ g.names ↔ (g.find? k).isSome) ∧
    ((execute g line).1 = .ok "" ↔ g.isEmpty) ∧
    ((execute g line).1 = (execute g' line').1 → ∀ k, (g.find? k).isSome ↔ (g'.find? k).isSome) := by
  refine ⟨execute_list h g, g.names_ascending, fun k => Registry.mem_names_iff, ?_, ?_⟩
  · rw [execute_list h, intercalate_text, Registry.isEmpty_iff, ← Registry.length_names, List.length_eq_zero_iff,
      ← listing_eq_nil_iff, Except.ok.injEq, ← String.toList_inj, String.toList_ofList]
    rfl
  · intro heq k
    rw [execute_list h, execute_list h', intercalate_text, intercalate_text, Except.ok.injEq] at heq
    have hnames : g.names = g'.names := listing_injective (String.ofList_injective heq)
    rw [← Registry.mem_names_iff, hnames, Registry.mem_names_iff]

end List

/-- The name `books:k=1`, a line end, and `b`. -/
def brokenName : ObjectName := .single "books" "k" "1\nb" (by decide) (by decide)

open Registry (atticLamp)

/-- A name with a line end is listed before another name; the same text is answered after both records changed. -/
theorem list_lossless_brokenName :
    let g := (Registry.empty.put atticLamp ⟨"lit", 3⟩).put brokenName ⟨"x", 1⟩
    let g' := (Registry.empty.put brokenName ⟨"y", 2⟩).put atticLamp ⟨"dark", 4⟩
    (execute g "list").1 = .ok "books:k=1\nb\nlamps:room=attic" ∧
      (execute g' "\tlist all").1 = .ok "books:k=1\nb\nlamps:room=attic" ∧
      ∀ k, (g.find? k).isSome ↔ (g'.find? k).isSome := by
  intro g g'
  have hlist : (execute g "list").1 = .ok "books:k=1\nb\nlamps:room=attic" := rfl
  have hlist' : (execute g' "\tlist all").1 = .ok "books:k=1\nb\nlamps:room=attic" := rfl
  exact ⟨hlist, hlist', (list_lossless (by decide +kernel) (by decide +kernel) g g').2.2.2.2 (hlist.trans hlist'.symm)⟩

end Console

end Handoff
