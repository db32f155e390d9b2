/-! # Lists in the order of their keys

A finite map with text keys is kept as a list whose keys strictly ascend, so that two maps with the
same entries are the same list.

* `KeyedList.insert`: a new entry takes its place in the order, or replaces the one with its key.
* `Ascending.insert`: the order is kept.
* `KeyedList.mem_insert`: the entries afterwards are the new one and those with other keys.
-/

namespace Handoff.KeyedList

variable {ν : Type}

/-- The keys strictly ascend, by code points. -/
def Ascending (l : List (String × ν)) : Prop := l.Pairwise (·.1 < ·.1)

instance (l : List (String × ν)) : Decidable (Ascending l) := by
  unfold Ascending; infer_instance

/-- The list with `k` bound to `v`. -/
def insert (k : String) (v : ν) : List (String × ν) → List (String × ν)
  | [] => [(k, v)]
  | (k', v') :: r =>
    if k < k' then (k, v) :: (k', v') :: r
    else if k = k' then (k, v) :: r
    else (k', v') :: insert k v r

/-- The value bound to `k`. -/
def find? (k : String) (l : List (String × ν)) : Option ν := (l.find? (·.1 == k)).map (·.2)

theorem mem_insert_self (k : String) (v : ν) (l : List (String × ν)) : (k, v) ∈ insert k v l := by
  induction l with
  | nil => simp [insert]
  | cons a r ih => grind [insert]

theorem eq_or_mem_of_mem_insert {k : String} {v : ν} {l : List (String × ν)} {e : String × ν}
    (h : e ∈ insert k v l) : e = (k, v) ∨ e ∈ l := by
  induction l with
  | nil => simpa [insert] using h
  | cons a r ih => grind [insert]

/-- **A new entry keeps the order.** -/
theorem Ascending.insert {k : String} {v : ν} {l : List (String × ν)} (h : Ascending l) :
    Ascending (insert k v l) := by
  induction l with
  | nil => simp [KeyedList.insert, Ascending]
  | cons a r ih =>
    obtain ⟨k', v'⟩ := a
    obtain ⟨ha, hr⟩ := List.pairwise_cons.1 h
    rw [KeyedList.insert]
    split
    · next hlt =>
      refine List.pairwise_cons.2 ⟨fun e he => ?_, h⟩
      rcases List.mem_cons.1 he with rfl | he
      · exact hlt
      · exact String.lt_trans hlt (ha e he)
    · split
      · next heq => exact List.pairwise_cons.2 ⟨fun e he => heq ▸ ha e he, hr⟩
      · next hlt hne =>
        refine List.pairwise_cons.2 ⟨fun e he => ?_, ih hr⟩
        rcases eq_or_mem_of_mem_insert he with rfl | he
        · grind
        · exact ha e he

/-- **The entries after an insertion** are the new one and those with other keys. -/
theorem mem_insert {k : String} {v : ν} {l : List (String × ν)} (h : Ascending l)
    {e : String × ν} : e ∈ insert k v l ↔ e = (k, v) ∨ (e ∈ l ∧ e.1 ≠ k) := by
  induction l with
  | nil => simp [insert]
  | cons a r ih =>
    obtain ⟨k', v'⟩ := a
    obtain ⟨ha, hr⟩ := List.pairwise_cons.1 h
    have hall : ∀ e ∈ r, k' < e.1 := ha
    rw [insert]
    split
    · next hlt => grind [String.lt_trans, String.lt_irrefl]
    · split
      · next heq => grind [String.lt_irrefl]
      · next hlt hne => simp only [List.mem_cons, ih hr]; grind

end Handoff.KeyedList
