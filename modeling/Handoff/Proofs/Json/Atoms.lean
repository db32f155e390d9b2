import Handoff.Json.Reader
import Handoff.Json.Writer
import Mathlib.Data.List.Basic
import Mathlib.Tactic.SplitIfs

/-! # Numbers and strings are read as they were written

What follows a number has to end it, which a comma, a bracket or the end of the text does (`Closes`). A
string ends by itself.

* `Numeral.read_toString`: a whole number is taken off the front of a text, and has its value.
* `readString_escaped`: a string is taken off the front of a text, whatever characters it has.
-/

namespace Handoff.Json

/-! ### Digits -/

theorem toDigits_head_ne_zero {n : Nat} (hn : n ≠ 0) : (Nat.toDigits 10 n).head? ≠ some '0' := by
  induction n using Nat.strongRecOn with
  | ind n ih =>
    by_cases hlt : n < 10
    · rw [Nat.toDigits_of_lt_base hlt]
      have hall : ∀ m < 10, m ≠ 0 → [Nat.digitChar m].head? ≠ some '0' := by decide
      exact hall n hlt hn
    · rw [Nat.toDigits_of_base_le (by decide) (Nat.le_of_not_lt hlt),
        List.head?_append_of_ne_nil _ Nat.toDigits_ne_nil]
      exact ih (n / 10) (by omega) (by omega)

theorem isDigit_of_mem_toDigits {n : Nat} {c : Char} (hc : c ∈ Nat.toDigits 10 n) :
    c.isDigit = true :=
  Nat.isDigit_of_mem_toDigits (by decide) (by decide) hc

/-- What follows a value inside a text: nothing, a comma or a closing bracket. -/
def Closes : List Char → Prop
  | [] => True
  | c :: _ => c = ',' ∨ c = ']' ∨ c = '\x7d'

namespace Numeral

theorem digits_append {ds r : List Char} (hds : ∀ c ∈ ds, c.isDigit = true) (hr : Closes r) :
    digits (ds ++ r) = (ds, r) := by
  have hstop : r.takeWhile Char.isDigit = [] ∧ r.dropWhile Char.isDigit = r := by
    cases r with
    | nil => exact ⟨rfl, rfl⟩
    | cons c r => rcases hr with rfl | rfl | rfl <;> exact ⟨rfl, rfl⟩
  rw [digits, List.takeWhile_append_of_pos hds, List.dropWhile_append_of_pos hds, hstop.1, hstop.2,
    List.append_nil]

theorem readWhole_toDigits (n : Nat) {r : List Char} (hr : Closes r) :
    readWhole (Nat.toDigits 10 n ++ r) = some (Nat.toDigits 10 n, r) := by
  have hhead : ∀ c ds, Nat.toDigits 10 n ≠ '0' :: c :: ds := by
    intro c ds h
    by_cases hn : n = 0
    · subst hn; cases h
    · exact toDigits_head_ne_zero hn (by rw [h]; rfl)
  unfold readWhole
  rw [digits_append (fun c => isDigit_of_mem_toDigits) hr]
  generalize hds : Nat.toDigits 10 n = ds at hhead
  split
  · next heq => cases heq; exact absurd hds Nat.toDigits_ne_nil
  · next heq => cases heq; exact absurd rfl (hhead _ _)
  · next heq => cases heq; rfl

theorem readFraction_closes {r : List Char} (hr : Closes r) : readFraction r = some (none, r) := by
  cases r with
  | nil => rfl
  | cons c r => rcases hr with rfl | rfl | rfl <;> rfl

theorem readExponent_closes {r : List Char} (hr : Closes r) : readExponent r = some (none, r) := by
  cases r with
  | nil => rfl
  | cons c r => rcases hr with rfl | rfl | rfl <;> rfl

/-- Digits are taken off the front of a text. -/
theorem read_toDigits (n : Nat) {r : List Char} (hr : Closes r) :
    read (Nat.toDigits 10 n ++ r) = some (⟨false, Nat.toDigits 10 n, none, none⟩, r) := by
  have hsign : ∀ l, Nat.toDigits 10 n ++ r ≠ '-' :: l := by
    intro l h
    cases hds : Nat.toDigits 10 n with
    | nil => exact Nat.toDigits_ne_nil hds
    | cons c ds =>
      have hc := isDigit_of_mem_toDigits (n := n) (c := c) (by rw [hds]; simp)
      rw [hds] at h
      cases h
      cases hc
  unfold read
  split
  next negative l heq =>
  split at heq
  · next l' h => exact absurd h (hsign l')
  · cases heq
    simp [readWhole_toDigits n hr, readFraction_closes hr, readExponent_closes hr]

/-- Digits after a sign are taken off the front of a text. -/
theorem read_minus_toDigits (n : Nat) {r : List Char} (hr : Closes r) :
    read ('-' :: (Nat.toDigits 10 n ++ r)) = some (⟨true, Nat.toDigits 10 n, none, none⟩, r) := by
  simp [read, readWhole_toDigits n hr, readFraction_closes hr, readExponent_closes hr]

theorem natOfDigits_toDigits (n : Nat) : Text.natOfDigits 10 (Nat.toDigits 10 n) = n :=
  Nat.ofDigitChars_toDigits (by decide) (by decide)

theorem value_toDigits {n : Nat} (hn : n < 0x10000000000000000) :
    value ⟨false, Nat.toDigits 10 n, none, none⟩ = some (.int n) := by
  simp [value, natOfDigits_toDigits, hn]

theorem value_minus_toDigits {n : Nat} (hpos : 0 < n) (hn : n ≤ 0x8000000000000000) :
    value ⟨true, Nat.toDigits 10 n, none, none⟩ = some (.int (-n)) := by
  simp [value, natOfDigits_toDigits, hpos, hn]

/-- **A whole number is taken off the front of a text, with its value.** -/
theorem read_toString {n : Int} (hn : IntInRange n) {r : List Char} (hr : Closes r) :
    ∃ m, read ((toString n).toList ++ r) = some (m, r) ∧ m.value = some (.int n) := by
  obtain ⟨hmin, hmax⟩ := hn
  rw [Int.toString_eq_repr, Int.repr_eq_if]
  split_ifs with h
  · rw [Nat.toList_repr]
    refine ⟨_, read_toDigits n.toNat hr, ?_⟩
    rw [value_toDigits (by omega), Int.toNat_of_nonneg h]
  · rw [String.toList_append, Nat.toList_repr]
    refine ⟨_, read_minus_toDigits (-n).toNat hr, ?_⟩
    rw [value_minus_toDigits (by omega) (by omega), Int.toNat_of_nonneg (by omega), Int.neg_neg]

end Numeral

/-! ### Strings -/

/-- A character as a part of a string: the control characters without a letter of their own by their
number. -/
def partOf (c : Char) : Part :=
  if c.toNat < 0x20 ∧ c ≠ '\x08' ∧ c ≠ '\t' ∧ c ≠ '\n' ∧ c ≠ '\x0c' ∧ c ≠ '\r' then .unit c.toNat
  else .char c

theorem hexValue_control {n : Nat} (hn : n < 0x20) :
    Text.hexValue? ['0', '0', Text.hexDigit (n / 16), Text.hexDigit (n % 16)] = some n := by
  have hall : ∀ m < 0x20,
      Text.hexValue? ['0', '0', Text.hexDigit (m / 16), Text.hexDigit (m % 16)] = some m := by decide
  exact hall n hn

/-- A character that is written as itself is read as itself. -/
theorem scan_plain {c : Char} (hq : c ≠ '"') (hb : c ≠ '\\') (hc : ¬ c.toNat < 0x20) (r : List Char) :
    scan (c :: r) = (scan r).map fun x => (.char c :: x.1, x.2) := by
  rw [scan.eq_def]
  split
  · next heq => cases heq
  · next heq => cases heq; exact absurd rfl hq
  · next heq => cases heq; exact absurd rfl hb
  · next heq => cases heq; exact absurd rfl hb
  · next heq => cases heq; rw [if_neg (by simp [hc, hb])]

/-- **A written character is read as one part.** -/
theorem scan_escapeChar (c : Char) (r : List Char) :
    scan (escapeChar c ++ r) = (scan r).map fun x => (partOf c :: x.1, x.2) := by
  unfold escapeChar
  split_ifs with hq hb hbs ht hn hf hr hc
  · subst hq; rfl
  · subst hb; rfl
  · subst hbs; rfl
  · subst ht; rfl
  · subst hn; rfl
  · subst hf; rfl
  · subst hr; rfl
  · have hpart : partOf c = .unit c.toNat := if_pos ⟨hc, hbs, ht, hn, hf, hr⟩
    simp only [List.cons_append, List.nil_append, scan, hexValue_control hc, hpart]
  · have hpart : partOf c = .char c := if_neg fun h => hc h.1
    rw [hpart]
    exact scan_plain hq hb hc r

theorem scan_escaped (l r : List Char) :
    scan (l.flatMap escapeChar ++ '"' :: r) = some (l.map partOf, r) := by
  induction l with
  | nil => rfl
  | cons c l ih =>
    rw [List.flatMap_cons, List.append_assoc, scan_escapeChar, ih]
    rfl

/-- A unit that is no half of a pair is a character. -/
theorem joinUnits_unit {n : Nat} (hn : n < 0x20) (ps : List Part) :
    joinUnits (.unit n :: ps) = (joinUnits ps).map (Char.ofNat n :: ·) := by
  have hhigh : isHighHalf n = false := by simp [isHighHalf]; omega
  have hlow : isLowHalf n = false := by simp [isLowHalf]; omega
  cases ps with
  | nil => simp [joinUnits, hhigh, hlow]
  | cons p ps => cases p <;> simp [joinUnits, hhigh, hlow]

theorem joinUnits_cons (c : Char) (ps : List Part) :
    joinUnits (partOf c :: ps) = (joinUnits ps).map (c :: ·) := by
  unfold partOf
  split_ifs with hc
  · rw [joinUnits_unit hc.1, Char.ofNat_toNat]
  · rw [joinUnits]

theorem joinUnits_partOf (l : List Char) : joinUnits (l.map partOf) = some l := by
  induction l with
  | nil => rfl
  | cons c l ih => rw [List.map_cons, joinUnits_cons, ih]; rfl

/-- **A string is taken off the front of a text as it was written.** -/
theorem readString_escaped (s : String) (r : List Char) :
    readString (s.toList.flatMap escapeChar ++ '"' :: r) = some (s, r) := by
  simp [readString, scan_escaped, joinUnits_partOf]

end Handoff.Json
