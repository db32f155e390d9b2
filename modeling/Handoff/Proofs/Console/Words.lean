import Handoff.Console.Words
import Handoff.Proofs.Json.RoundTrip
import Handoff.Proofs.Text.Trim

/-! # Words that stay whole

A text is one word for a command if it has no white space outside of quotes and closes what it quotes.
Words after gaps are told apart as they stand. The compact text of a plain value is such a word: its
strings are quoted, and a backslash in them takes the same character along for both sides.

* `Console.Spans`: a text without white space outside of quotes, with its places at both ends.
* `Console.splitWords_append`: texts with a gap between them are split one after the other.
* `Console.splitWords_spread`: words with gaps between them are told apart.
* `Console.isWhole_compactChars`: the compact text of a plain value is one word.
-/

namespace Handoff.Console

open Text (isBlank Blank Gap Solid Trimmed)

/-! ### Spans -/

/-- Outside of quotes only a quote leads inside. -/
theorem Place.next_plain {c : Char} (hq : c ≠ '"') : Place.plain.next c = .plain := if_neg hq

/-- Inside only a quote and a backslash change the place. -/
theorem Place.next_quoted {c : Char} (hq : c ≠ '"') (hb : c ≠ '\\') : Place.quoted.next c = .quoted :=
  (if_neg hb).trans (if_neg hq)

/-- `w` leads from the place `p` to the place `q`, without white space outside of quotes. -/
def Spans : Place → List Char → Place → Prop
  | p, [], q => p = q
  | p, c :: r, q => ¬ (p = .plain ∧ isBlank c = true) ∧ Spans (p.next c) r q

/-- **One word**: it begins and ends outside of quotes. -/
def IsWhole (w : List Char) : Prop := w ≠ [] ∧ Spans .plain w .plain

/-- No white space and no quote: a word that needs no quotes. -/
def IsBare (w : List Char) : Prop := w ≠ [] ∧ ∀ c ∈ w, isBlank c = false ∧ c ≠ '"'

instance (w : List Char) : Decidable (IsBare w) :=
  decidable_of_bool (!w.isEmpty && w.all fun c => !isBlank c && c != '"') (by simp [IsBare])

theorem IsBare.solid {w : List Char} (h : IsBare w) : Solid w := fun c hc => (h.2 c hc).1

theorem Spans.append {p q s : Place} {a b : List Char} (ha : Spans p a q) (hb : Spans q b s) :
    Spans p (a ++ b) s := by
  induction a generalizing p with
  | nil => exact (ha : p = q) ▸ hb
  | cons c a ih => exact ⟨ha.1, ih ha.2⟩

theorem spans_of_bare {w : List Char} (h : ∀ c ∈ w, isBlank c = false ∧ c ≠ '"') :
    Spans .plain w .plain := by
  induction w with
  | nil => rfl
  | cons c w ih =>
    obtain ⟨hc, hq⟩ := h c (by simp)
    refine ⟨fun hb => by simp [hc] at hb, ?_⟩
    rw [Place.next_plain hq]
    exact ih fun d hd => h d (by simp [hd])

theorem IsBare.whole {w : List Char} (h : IsBare w) : IsWhole w := ⟨h.1, spans_of_bare h.2⟩

/-- Between quotes all characters stay inside, white space too, but for quotes and backslashes. -/
theorem Spans.inside {c : Char} {r : List Char} {q : Place} (hq : c ≠ '"') (hb : c ≠ '\\')
    (h : Spans .quoted r q) : Spans .quoted (c :: r) q := by
  refine ⟨fun hplain => Place.noConfusion hplain.1, ?_⟩
  rwa [Place.next_quoted hq hb]

theorem Spans.escape {c : Char} {r : List Char} {q : Place} (h : Spans .quoted r q) :
    Spans .quoted ('\\' :: c :: r) q :=
  ⟨fun hplain => Place.noConfusion hplain.1, fun hplain => Place.noConfusion hplain.1, h⟩

theorem Spans.close {r : List Char} {q : Place} (h : Spans .plain r q) :
    Spans .quoted ('"' :: r) q := ⟨fun hplain => Place.noConfusion hplain.1, h⟩

/-- A word does not end with white space. -/
theorem Spans.getLast {p : Place} {w : List Char} (h : Spans p w .plain) :
    ∀ c ∈ w.getLast?, isBlank c = false := by
  induction w generalizing p with
  | nil => simp
  | cons c w ih =>
    intro d hd
    cases w with
    | nil =>
      obtain rfl : c = d := by simpa using hd
      by_contra hb
      have hb : isBlank c = true := by simpa using hb
      have hne : c ≠ '"' := by rintro rfl; cases hb
      -- from outside of quotes the blank would break the word, from inside it stays inside
      have hend : p.next c = .plain := h.2
      cases p with
      | plain => exact h.1 ⟨rfl, hb⟩
      | quoted =>
        rw [Place.next, if_neg hne] at hend
        split_ifs at hend
      | escaped => cases hend
    | cons e w =>
      rw [List.getLast?_cons_cons] at hd
      exact ih h.2 d hd

theorem IsWhole.trimmed {w : List Char} (h : IsWhole w) : Trimmed w := by
  refine ⟨fun c hc => ?_, h.2.getLast⟩
  cases w with
  | nil => cases hc
  | cons d w =>
    obtain rfl : d = c := by simpa using hc
    by_contra hb
    exact h.2.1 ⟨rfl, by simpa using hb⟩

/-! ### Telling words apart -/

theorem wordsFrom_spans {p q : Place} {w : List Char} (h : Spans p w q) (word r : List Char) :
    wordsFrom p word (w ++ r) = wordsFrom q (w.reverse ++ word) r := by
  induction w generalizing p word with
  | nil => rw [(h : p = q)]; rfl
  | cons c w ih =>
    rw [List.cons_append, wordsFrom, if_neg h.1, ih h.2, List.reverse_cons, List.append_assoc]
    rfl

theorem splitWords_blank {g : List Char} (hg : Blank g) (r : List Char) :
    splitWords (g ++ r) = splitWords r := by
  induction g with
  | nil => rfl
  | cons c g ih =>
    have hc : isBlank c = true := hg c (by simp)
    have hrest := ih fun d hd => hg d (by simp [hd])
    rw [splitWords] at hrest ⊢
    rw [List.cons_append, wordsFrom, if_pos ⟨rfl, hc⟩, hrest, finished]
    simp

theorem finished_reverse {w : List Char} (hw : w ≠ []) : finished (w.reverse ++ []) = [w] := by
  rw [List.append_nil]
  cases h : w.reverse with
  | nil => exact absurd (List.reverse_eq_nil_iff.1 h) hw
  | cons c r =>
    have hf : finished (c :: r) = [(c :: r).reverse] := rfl
    rw [hf, ← h, List.reverse_reverse]

theorem splitWords_whole {w : List Char} (hw : IsWhole w) : splitWords w = some [w] := by
  have h := wordsFrom_spans hw.2 [] []
  rw [List.append_nil] at h
  rw [splitWords, h, wordsFrom, if_pos rfl, finished_reverse hw.1]

theorem wordsFrom_append {p : Place} {word a g : List Char} {ws : List (List Char)}
    (h : wordsFrom p word a = some ws) (hg : Gap g) (b : List Char) :
    wordsFrom p word (a ++ g ++ b) = (splitWords b).map (ws ++ ·) := by
  induction a generalizing p word ws with
  | nil =>
    obtain ⟨hne, hblank⟩ := hg
    rw [wordsFrom] at h
    split_ifs at h with hp
    obtain rfl := Option.some.inj h
    cases g with
    | nil => exact absurd rfl hne
    | cons c g =>
      have hrest := splitWords_blank (fun d hd => hblank d (by simp [hd]) : Blank g) b
      rw [splitWords] at hrest
      rw [List.nil_append, List.cons_append, wordsFrom, if_pos ⟨hp, hblank c (by simp)⟩, hrest]
  | cons c a ih =>
    rw [wordsFrom] at h
    rw [List.cons_append, List.cons_append, wordsFrom]
    split_ifs at h ⊢ with hend
    · obtain ⟨vs, hvs, rfl⟩ := Option.map_eq_some_iff.1 h
      rw [ih hvs, Option.map_map]
      refine congrArg (Option.map · (splitWords b)) (funext fun us => ?_)
      exact (List.append_assoc ..).symm
    · exact ih h

/-- **Texts with a gap between them** are split one after the other. -/
theorem splitWords_append {a g : List Char} {ws : List (List Char)} (h : splitWords a = some ws) (hg : Gap g)
    (b : List Char) : splitWords (a ++ g ++ b) = (splitWords b).map (ws ++ ·) := wordsFrom_append h hg b

/-- **A word ends at a gap.** -/
theorem splitWords_whole_append {w g : List Char} (hw : IsWhole w) (hg : Gap g) (r : List Char) :
    splitWords (w ++ g ++ r) = (splitWords r).map (w :: ·) := splitWords_append (splitWords_whole hw) hg r

/-- Words, each after a gap. -/
def spread (ws : List (List Char × List Char)) : List Char := ws.flatMap fun gw => gw.1 ++ gw.2

theorem spread_cons (g w : List Char) (ws : List (List Char × List Char)) :
    spread ((g, w) :: ws) = g ++ w ++ spread ws := rfl

/-- **Words with gaps between them are told apart as they stand.** -/
theorem splitWords_spread {w : List Char} {ws : List (List Char × List Char)} (hw : IsWhole w)
    (hws : ∀ gw ∈ ws, Gap gw.1 ∧ IsWhole gw.2) :
    splitWords (w ++ spread ws) = some (w :: ws.map Prod.snd) := by
  induction ws generalizing w with
  | nil => rw [spread, List.flatMap_nil, List.append_nil, splitWords_whole hw]; rfl
  | cons gw ws ih =>
    obtain ⟨g, v⟩ := gw
    obtain ⟨hg, hv⟩ := hws (g, v) (by simp)
    have hrest := ih hv fun gw hgw => hws gw (by simp [hgw])
    rw [spread_cons, List.append_assoc, ← List.append_assoc, splitWords_whole_append hw hg, hrest]
    rfl

/-- Words after one another begin and end without white space. -/
theorem trimmed_spread {w : List Char} {ws : List (List Char × List Char)} (hw : IsWhole w)
    (hws : ∀ gw ∈ ws, Gap gw.1 ∧ IsWhole gw.2) : Trimmed (w ++ spread ws) := by
  rcases List.eq_nil_or_concat ws with rfl | ⟨ws, ⟨g, v⟩, rfl⟩
  · rw [spread, List.flatMap_nil, List.append_nil]
    exact hw.trimmed
  · obtain ⟨-, hv⟩ := hws (g, v) (by simp)
    have hshape : w ++ spread (ws.concat (g, v)) = w ++ (spread ws ++ g) ++ v := by simp [spread]
    rw [hshape]
    exact Text.trimmed_append hw.trimmed hv.trimmed hw.1 hv.1 _

/-! ### Compact texts -/

open Json (Plain compactChars compactItems compactMembers compactMember quote quoteChars escapeChar)

/-- A written character stays inside the quotes. -/
theorem spans_escapeChar (c : Char) : Spans .quoted (escapeChar c) .quoted := by
  unfold escapeChar
  split_ifs with hq hb
  · exact .escape rfl
  · exact .escape rfl
  · exact .escape rfl
  · exact .escape rfl
  · exact .escape rfl
  · exact .escape rfl
  · exact .escape rfl
  · next hc =>
    have hhex : ∀ n < 16, Text.hexDigit n ≠ '"' ∧ Text.hexDigit n ≠ '\\' := by decide
    obtain ⟨h1, h2⟩ := hhex (c.toNat / 16) (by omega)
    obtain ⟨h3, h4⟩ := hhex (c.toNat % 16) (by omega)
    exact .escape (.inside (by decide) (by decide) (.inside (by decide) (by decide)
      (.inside h1 h2 (.inside h3 h4 rfl))))
  · exact .inside hq hb rfl

theorem spans_quote (s : String) : Spans .plain (quote s) .plain := by
  have hbody : ∀ l : List Char, Spans .quoted (l.flatMap escapeChar) .quoted := by
    intro l
    induction l with
    | nil => rfl
    | cons c l ih =>
      rw [List.flatMap_cons]
      exact (spans_escapeChar c).append ih
  exact ⟨by decide, (hbody s.toList).append (.close rfl)⟩

/-- A character that is neither white space nor a quote leads from outside of quotes to there. -/
theorem Spans.cons {c : Char} {r : List Char} {q : Place} (hc : isBlank c = false) (hq : c ≠ '"')
    (h : Spans .plain r q) : Spans .plain (c :: r) q := by
  refine ⟨fun hb => by simp [hc] at hb, ?_⟩
  rwa [Place.next_plain hq]

theorem spans_toString (n : Int) : Spans .plain (toString n).toList .plain := by
  have hdigit : ∀ c : Char, c.isDigit = true → isBlank c = false ∧ c ≠ '"' := by
    intro c hc
    refine ⟨?_, by rintro rfl; cases hc⟩
    have hc : 48 ≤ c.toNat ∧ c.toNat ≤ 57 := Char.isDigit_iff_toNat.1 hc
    simp [isBlank]
    omega
  have hdigits : ∀ m, Spans .plain (Nat.toDigits 10 m) .plain := fun m =>
    spans_of_bare fun c hc => hdigit c (Json.isDigit_of_mem_toDigits hc)
  rw [Int.toString_eq_repr, Int.repr_eq_if]
  split_ifs
  · rw [Nat.toList_repr]; exact hdigits _
  · rw [String.toList_append, Nat.toList_repr]
    exact .cons (by decide) (by decide) (hdigits _)

theorem spans_compactItems {vs : List Json} (h : ∀ v ∈ vs, Spans .plain (compactChars v) .plain) :
    Spans .plain (compactItems vs) .plain := by
  induction vs with
  | nil => exact .cons (by decide) (by decide) rfl
  | cons v vs ih =>
    rw [Json.compactItems]
    exact .cons (by decide) (by decide) ((h v (by simp)).append (ih fun w hw => h w (by simp [hw])))

theorem spans_compactMember {m : String × Json} (h : Spans .plain (compactChars m.2) .plain) :
    Spans .plain (compactMember m) .plain := by
  obtain ⟨k, v⟩ := m
  rw [Json.compactMember]
  exact (spans_quote k).append (.cons (by decide) (by decide) h)

theorem spans_compactMembers {ms : List (String × Json)}
    (h : ∀ m ∈ ms, Spans .plain (compactChars m.2) .plain) :
    Spans .plain (compactMembers ms) .plain := by
  induction ms with
  | nil => exact .cons (by decide) (by decide) rfl
  | cons m ms ih =>
    rw [Json.compactMembers]
    exact .cons (by decide) (by decide)
      ((spans_compactMember (h m (by simp))).append (ih fun m hm => h m (by simp [hm])))

theorem spans_compactChars {d : Nat} {v : Json} (h : Plain d v) :
    Spans .plain (compactChars v) .plain := by
  have hbare : ∀ {w : List Char}, IsBare w → Spans .plain w .plain := fun hw => hw.whole.2
  induction h with
  | null => exact hbare (by decide)
  | bool b => cases b <;> exact hbare (by decide)
  | int => exact spans_toString _
  | str s => exact spans_quote s
  | @arr _ vs _ ih =>
    cases vs with
    | nil => exact hbare (by decide)
    | cons v vs =>
      rw [Json.compactChars]
      exact .cons (by decide) (by decide)
        ((ih v (by simp)).append (spans_compactItems fun w hw => ih w (by simp [hw])))
  | @obj _ ms _ _ ih =>
    cases ms with
    | nil => exact hbare (by decide)
    | cons m ms =>
      rw [Json.compactChars]
      exact .cons (by decide) (by decide) ((spans_compactMember (ih m (by simp))).append
        (spans_compactMembers fun m hm => ih m (by simp [hm])))

/-- **The compact text of a plain value is one word.** -/
theorem isWhole_compactChars {d : Nat} {v : Json} (h : Plain d v) : IsWhole (compactChars v) :=
  ⟨List.ne_nil_of_length_pos h.length_pos, spans_compactChars h⟩

end Handoff.Console
