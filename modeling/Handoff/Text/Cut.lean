/-! # Cutting text at characters

Text is cut as a list of characters, so that a statement about the pieces is one about lists.

* `cutAt p l`: what stands before and after the first character with property `p`.
* `pieces p l`: all pieces between the characters with property `p`; never the empty list.
-/

namespace Handoff.Text

/-- The parts before and after the first character with property `p`, if there is one. -/
def cutAt (p : Char → Bool) : List Char → Option (List Char × List Char)
  | [] => none
  | c :: r => if p c then some ([], r) else (cutAt p r).map fun ab => (c :: ab.1, ab.2)

/-- The pieces between the characters with property `p`, empty ones included. -/
def pieces (p : Char → Bool) : List Char → List (List Char)
  | [] => [[]]
  | c :: r =>
    if p c then [] :: pieces p r
    else match pieces p r with
      | [] => [[c]]
      | a :: rest => (c :: a) :: rest

theorem cutAt_eq_none {p : Char → Bool} {l : List Char} : cutAt p l = none ↔ ∀ c ∈ l, ¬ p c := by
  induction l with
  | nil => simp [cutAt]
  | cons c r ih => by_cases h : p c <;> simp [cutAt, h, ih]

/-- A cut loses only the character it cuts at. -/
theorem cutAt_eq_some {p : Char → Bool} {l a b : List Char} :
    cutAt p l = some (a, b) ↔ ∃ c, p c ∧ (∀ x ∈ a, ¬ p x) ∧ l = a ++ c :: b := by
  induction l generalizing a with
  | nil => simp [cutAt]
  | cons c r ih =>
    by_cases h : p c
    · simp only [cutAt, h, if_true, Option.some.injEq, Prod.mk.injEq]
      constructor
      · rintro ⟨rfl, rfl⟩; exact ⟨c, h, by simp, by simp⟩
      · rintro ⟨c', _, ha, he⟩
        cases a with
        | nil => simp at he; simp [he.2]
        | cons x a => simp at he; exact absurd h (he.1 ▸ ha x (by simp))
    · simp only [cutAt, h, Bool.false_eq_true, if_false, Option.map_eq_some_iff, Prod.mk.injEq]
      constructor
      · rintro ⟨⟨a', b'⟩, hc, rfl, rfl⟩
        obtain ⟨c', h', ha, rfl⟩ := ih.1 hc
        exact ⟨c', h', by simpa [h] using ha, by simp⟩
      · rintro ⟨c', h', ha, he⟩
        cases a with
        | nil => simp at he; exact absurd (he.1 ▸ h') h
        | cons x a =>
          simp at he
          exact ⟨(a, b), ih.2 ⟨c', h', fun y hy => ha y (by simp [hy]), he.2⟩, by simp [he.1], rfl⟩

theorem pieces_ne_nil (p : Char → Bool) (l : List Char) : pieces p l ≠ [] := by
  cases l with
  | nil => simp [pieces]
  | cons c r =>
    rw [pieces]
    split
    · simp
    · split <;> simp

end Handoff.Text
