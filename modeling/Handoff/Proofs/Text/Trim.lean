import Handoff.Text.Blank
import Mathlib.Data.List.Basic
import Mathlib.Data.List.TakeWhile

/-! # White space at the ends of a text

* `Text.Blank`: a text of white space only.
* `Text.Trimmed`: a text that white space neither begins nor ends.
* `Text.trim_append`: trimming takes white space off a trimmed text, and nothing else.
* `Text.exists_trimmed`: every text is a trimmed text with white space around it.
* `Text.cutWord_append`: the first word ends at the first white space.
-/

namespace Handoff.Text

/-- White space only. -/
def Blank (g : List Char) : Prop := ∀ c ∈ g, isBlank c = true

/-- A gap between words: white space, and at least one character of it. -/
def Gap (g : List Char) : Prop := g ≠ [] ∧ Blank g

/-- No white space at either end. -/
def Trimmed (l : List Char) : Prop :=
  (∀ c ∈ l.head?, isBlank c = false) ∧ ∀ c ∈ l.getLast?, isBlank c = false

/-- No white space anywhere. -/
def Solid (l : List Char) : Prop := ∀ c ∈ l, isBlank c = false

instance (g : List Char) : Decidable (Blank g) := decidable_of_bool (g.all isBlank) (by simp [Blank])

instance (g : List Char) : Decidable (Gap g) := by unfold Gap; infer_instance

instance (l : List Char) : Decidable (Solid l) :=
  decidable_of_bool (l.all fun c => !isBlank c) (by simp [Solid])

theorem Solid.trimmed {l : List Char} (h : Solid l) : Trimmed l :=
  ⟨fun c hc => h c (List.mem_of_mem_head? hc), fun c hc => h c (List.mem_of_mem_getLast? hc)⟩

theorem blank_nil : Blank [] := fun _ hc => absurd hc List.not_mem_nil

theorem trimmed_of_ends {a b : List Char} (ha : ∀ c ∈ a.head?, isBlank c = false)
    (hb : ∀ c ∈ b.getLast?, isBlank c = false) (hne : a ≠ []) (hne' : b ≠ []) (m : List Char) :
    Trimmed (a ++ m ++ b) := by
  constructor
  · rw [List.append_assoc, List.head?_append_of_ne_nil _ hne]
    exact ha
  · rw [List.getLast?_append_of_ne_nil _ hne']
    exact hb

theorem trimmed_append {a b : List Char} (ha : Trimmed a) (hb : Trimmed b) (hne : a ≠ [])
    (hne' : b ≠ []) (m : List Char) : Trimmed (a ++ m ++ b) := trimmed_of_ends ha.1 hb.2 hne hne' m

theorem dropWhile_isBlank {g l : List Char} (hg : Blank g) (hl : ∀ c ∈ l.head?, isBlank c = false) :
    (g ++ l).dropWhile isBlank = l := by
  rw [List.dropWhile_append_of_pos hg]
  cases l with
  | nil => rfl
  | cons c r => rw [List.dropWhile_cons, hl c rfl]; rfl

/-- **Trimming takes white space off a trimmed text, and nothing else.** -/
theorem trim_append {g l g' : List Char} (hg : Blank g) (hl : Trimmed l) (hg' : Blank g') :
    trim (g ++ l ++ g') = l := by
  have hrev : Blank g'.reverse := fun c hc => hg' c (List.mem_reverse.1 hc)
  have hlast : ∀ c ∈ l.reverse.head?, isBlank c = false := by
    rw [List.head?_reverse]
    exact hl.2
  cases l with
  | nil =>
    have hall : Blank (g ++ g') := fun c hc => (List.mem_append.1 hc).elim (hg c) (hg' c)
    have hnil : (g ++ g').dropWhile isBlank = [] := by
      simpa using dropWhile_isBlank (l := []) hall (by simp)
    rw [List.append_nil, trim, trimStart, hnil]
    rfl
  | cons c r =>
    rw [trim, trimStart, List.append_assoc, dropWhile_isBlank hg (fun d hd => hl.1 d (by simpa using hd)),
      trimEnd, List.reverse_append, dropWhile_isBlank hrev hlast, List.reverse_reverse]

/-- The first word ends at the first white space. -/
theorem cutWord_append {w r : List Char} {c : Char} (hw : Solid w) (hc : isBlank c = true) :
    cutWord (w ++ c :: r) = some (w, r) :=
  cutAt_eq_some.2 ⟨c, hc, fun x hx => by simp [hw x hx], rfl⟩

theorem cutWord_solid {w : List Char} (hw : Solid w) : cutWord w = none :=
  cutAt_eq_none.2 fun c hc => by simp [hw c hc]

/-- What follows the first word and a gap is there after trimming. -/
theorem cutWord_gap {w g l : List Char} (hw : Solid w) (hg : Gap g) (hl : Trimmed l) :
    ∃ r, cutWord (w ++ g ++ l) = some (w, r) ∧ trim r = l := by
  obtain ⟨hne, hblank⟩ := hg
  cases g with
  | nil => exact absurd rfl hne
  | cons c g =>
    have hg : Blank g := fun d hd => hblank d (by simp [hd])
    have htrim : trim (g ++ l) = l := by
      simpa using trim_append hg hl blank_nil
    have hshape : w ++ c :: g ++ l = w ++ c :: (g ++ l) := by simp
    exact ⟨g ++ l, hshape ▸ cutWord_append hw (hblank c (by simp)), htrim⟩

theorem head_dropWhile (l : List Char) : ∀ c ∈ (l.dropWhile isBlank).head?, isBlank c = false := by
  intro c hc
  have h := List.head?_dropWhile_not isBlank l
  rw [Option.mem_def.1 hc] at h
  exact h

/-- A text is what is left without the white space at its end, and this white space. -/
theorem exists_trimEnd (l : List Char) :
    ∃ trail, l = trimEnd l ++ trail ∧ Blank trail ∧ ∀ c ∈ (trimEnd l).getLast?, isBlank c = false := by
  refine ⟨(l.reverse.takeWhile isBlank).reverse, ?_, ?_, ?_⟩
  · rw [trimEnd, ← List.reverse_append, List.takeWhile_append_dropWhile, List.reverse_reverse]
  · exact fun c hc => List.mem_takeWhile_imp (List.mem_reverse.1 hc)
  · rw [trimEnd, List.getLast?_reverse]
    exact head_dropWhile l.reverse

/-- **Every text** is a trimmed text with white space around it. -/
theorem exists_trimmed (l : List Char) :
    ∃ lead trail, l = lead ++ trim l ++ trail ∧ Blank lead ∧ Trimmed (trim l) ∧ Blank trail := by
  have hstart : l.takeWhile isBlank ++ trimStart l = l := List.takeWhile_append_dropWhile
  obtain ⟨trail, hend, htrail, hlast⟩ := exists_trimEnd (trimStart l)
  refine ⟨l.takeWhile isBlank, trail, ?_, fun c hc => List.mem_takeWhile_imp hc, ⟨?_, hlast⟩, htrail⟩
  · rw [List.append_assoc, trim, ← hend, hstart]
  · intro c hc
    refine head_dropWhile l c ?_
    show c ∈ (trimStart l).head?
    have hne : trim l ≠ [] := fun hnil => by simp [hnil] at hc
    rw [hend, List.head?_append_of_ne_nil _ (show trimEnd (trimStart l) ≠ [] from hne)]
    exact hc

theorem trim_eq_self_iff {l : List Char} : trim l = l ↔ Trimmed l := by
  constructor
  · intro h
    obtain ⟨-, -, -, -, htrim, -⟩ := exists_trimmed l
    rwa [h] at htrim
  · intro h
    simpa using trim_append blank_nil h blank_nil

/-- What is not trimmed gets shorter. -/
theorem length_trim_lt {l : List Char} (h : ¬ Trimmed l) : (trim l).length < l.length := by
  obtain ⟨lead, trail, hl, -, -, -⟩ := exists_trimmed l
  have hlength : l.length = lead.length + (trim l).length + trail.length := by
    rw [← List.length_append, ← List.length_append, ← hl]
  have hends : lead ≠ [] ∨ trail ≠ [] := by
    by_contra hnone
    obtain ⟨rfl, rfl⟩ : lead = [] ∧ trail = [] := by simpa [not_or] using hnone
    rw [List.nil_append, List.append_nil] at hl
    exact h (trim_eq_self_iff.1 hl.symm)
  rcases hends with hne | hne
  · have := List.length_pos_iff.2 hne
    omega
  · have := List.length_pos_iff.2 hne
    omega

theorem trim_ne_nil {l : List Char} {c : Char} (hc : c ∈ l) (hb : isBlank c = false) : trim l ≠ [] := by
  intro hnil
  obtain ⟨lead, trail, hl, hlead, -, htrail⟩ := exists_trimmed l
  rw [hl, hnil, List.append_nil] at hc
  rcases List.mem_append.1 hc with hc | hc
  · simp [hlead c hc] at hb
  · simp [htrail c hc] at hb

/-- A text with white space, up to the first of it. -/
theorem exists_firstWord {l : List Char} (h : ¬ Solid l) :
    ∃ w c r, l = w ++ c :: r ∧ Solid w ∧ isBlank c = true := by
  rcases hcut : cutWord l with - | ⟨w, r⟩
  · exact absurd (fun c hc => by simpa using cutAt_eq_none.1 hcut c hc) h
  · obtain ⟨c, hc, hw, hl⟩ := cutAt_eq_some.1 hcut
    exact ⟨w, c, r, hl, fun d hd => by simpa using hw d hd, hc⟩

end Handoff.Text
