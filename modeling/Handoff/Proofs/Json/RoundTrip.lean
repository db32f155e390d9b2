import Handoff.Proofs.Json.Atoms

/-! # Values are read as they were written

A value without doubles, whose objects have their keys in order, is read back from its compact text.

* `Json.Plain`: such values, nested at most so deep.
* `Json.readValue_compactChars`: a plain value is taken off the front of a text. The text's length is
  fuel enough.
* `Json.parseChars_compactChars`: a plain value's compact text stands for the value.
-/

namespace Handoff.Json

/-- **A plain value** has no doubles and only whole numbers that are kept exact, the keys of its objects
ascend, and it is nested at most so deep. -/
inductive Plain : Nat → Json → Prop where
  | null {d : Nat} : Plain d .null
  | bool {d : Nat} (b : Bool) : Plain d (.bool b)
  | int {d : Nat} {n : Int} (h : IntInRange n) : Plain d (.int n)
  | str {d : Nat} (s : String) : Plain d (.str s)
  | arr {d : Nat} {vs : List Json} (h : ∀ v ∈ vs, Plain d v) : Plain (d + 1) (.arr vs)
  | obj {d : Nat} {ms : List (String × Json)} (ha : KeyedList.Ascending ms)
      (h : ∀ m ∈ ms, Plain d m.2) : Plain (d + 1) (.obj ms)

/-! ### The beginning of a text -/

theorem skipGap_cons {c : Char} (hc : isGap c = false) (r : List Char) : skipGap (c :: r) = c :: r := by
  simp [skipGap, hc]

/-- The first character of a number. -/
def StartsNumber (c : Char) : Prop := c = '-' ∨ c.isDigit = true

theorem StartsNumber.ne {c d : Char} (hc : StartsNumber c) (hd : d ≠ '-' ∧ d.isDigit = false) : c ≠ d := by
  rintro rfl
  rcases hc with hc | hc
  · exact hd.1 hc
  · rw [hd.2] at hc; cases hc

theorem StartsNumber.not_isGap {c : Char} (hc : StartsNumber c) : isGap c = false := by
  have h1 := hc.ne (d := ' ') (by decide)
  have h2 := hc.ne (d := '\n') (by decide)
  have h3 := hc.ne (d := '\t') (by decide)
  have h4 := hc.ne (d := '\r') (by decide)
  simp [isGap, h1, h2, h3, h4]

/-- A whole number's text begins as a number does. -/
theorem exists_cons_toString (n : Int) : ∃ c r, (toString n).toList = c :: r ∧ StartsNumber c := by
  rw [Int.toString_eq_repr, Int.repr_eq_if]
  split_ifs with h
  · rw [Nat.toList_repr]
    cases hds : Nat.toDigits 10 n.toNat with
    | nil => exact absurd hds Nat.toDigits_ne_nil
    | cons c r =>
      exact ⟨c, r, rfl, .inr (isDigit_of_mem_toDigits (n := n.toNat) (by rw [hds]; simp))⟩
  · rw [String.toList_append]
    exact ⟨'-', _, rfl, .inl rfl⟩

/-- A plain value's text begins with a character that is neither white space nor a closing bracket. -/
theorem Plain.exists_cons {d : Nat} {v : Json} (h : Plain d v) :
    ∃ c r, compactChars v = c :: r ∧ isGap c = false ∧ c ≠ ']' := by
  cases h with
  | null => exact ⟨_, _, rfl, by decide, by decide⟩
  | bool b => cases b <;> exact ⟨_, _, rfl, by decide, by decide⟩
  | @int _ n =>
    obtain ⟨c, r, hr, hc⟩ := exists_cons_toString n
    exact ⟨c, r, hr, hc.not_isGap, hc.ne (by decide)⟩
  | str s => exact ⟨_, _, rfl, by decide, by decide⟩
  | @arr _ vs => cases vs <;> exact ⟨_, _, rfl, by decide, by decide⟩
  | @obj _ ms _ => cases ms <;> exact ⟨_, _, rfl, by decide, by decide⟩

theorem Plain.length_pos {d : Nat} {v : Json} (h : Plain d v) : 0 < (compactChars v).length := by
  obtain ⟨c, r, hr, -⟩ := h.exists_cons
  rw [hr]
  exact Nat.succ_pos _

/-! ### Members -/

/-- Entries that ascend are taken in as they stand. -/
theorem insert_of_forall_lt {k : String} {v : Json} {l : List (String × Json)}
    (h : ∀ e ∈ l, e.1 < k) : KeyedList.insert k v l = l ++ [(k, v)] := by
  induction l with
  | nil => rfl
  | cons e l ih =>
    obtain ⟨k', v'⟩ := e
    have hlt : k' < k := h (k', v') (by simp)
    have hnot : ¬ k < k' := fun hlt' => String.lt_irrefl k (String.lt_trans hlt' hlt)
    have hne : k ≠ k' := by
      rintro rfl
      exact String.lt_irrefl k hlt
    rw [KeyedList.insert, if_neg hnot, if_neg hne, ih fun e he => h e (by simp [he])]
    rfl

/-- **Members with ascending keys make an object as they stand.** -/
theorem ofMembers_of_ascending {ms : List (String × Json)} (h : KeyedList.Ascending ms) :
    ofMembers ms = .obj ms := by
  have hfold : ∀ l, KeyedList.Ascending (l ++ ms) →
      ms.foldl (fun l kv => KeyedList.insert kv.1 kv.2 l) l = l ++ ms := by
    induction ms with
    | nil => intro l _; simp
    | cons e ms ih =>
      intro l hl
      have hlt : ∀ x ∈ l, x.1 < e.1 := by
        intro x hx
        exact (List.pairwise_append.1 hl).2.2 x hx e (by simp)
      have hmove : l ++ e :: ms = l ++ [e] ++ ms := by simp
      rw [List.foldl_cons, insert_of_forall_lt hlt, hmove]
      rw [hmove] at hl
      exact ih (List.pairwise_cons.1 h).2 _ hl
  rw [ofMembers, hfold [] h, List.nil_append]

/-! ### Values -/

theorem readValue_numeral {c : Char} (hc : StartsNumber c) (fuel d : Nat) (r : List Char) :
    readValue (fuel + 1) d (c :: r) = (do
      let (n, r) ← Numeral.read (c :: r)
      return (← n.value, r)) := by
  rw [readValue, skipGap_cons hc.not_isGap]
  split
  · next heq => cases heq; exact absurd rfl (hc.ne (by decide))
  · next heq => cases heq; exact absurd rfl (hc.ne (by decide))
  · next heq => cases heq; exact absurd rfl (hc.ne (by decide))
  · next heq => cases heq; exact absurd rfl (hc.ne (by decide))
  · next heq => cases heq; exact absurd rfl (hc.ne (by decide))
  · next heq => cases heq; exact absurd rfl (hc.ne (by decide))
  · rfl

theorem readValue_int {n : Int} (hn : IntInRange n) (fuel d : Nat) {r : List Char} (hr : Closes r) :
    readValue (fuel + 1) d ((toString n).toList ++ r) = some (.int n, r) := by
  obtain ⟨c, l, hl, hc⟩ := exists_cons_toString n
  obtain ⟨m, hm, hv⟩ := Numeral.read_toString hn hr
  rw [hl] at hm ⊢
  rw [List.cons_append, readValue_numeral hc, ← List.cons_append, hm]
  simp [hv]

/-- What it is to be taken off the front of a text whole, for all fuel that covers the text. -/
def Reads (d : Nat) (v : Json) : Prop :=
  ∀ fuel r, (compactChars v).length ≤ fuel → Closes r →
    readValue fuel d (compactChars v ++ r) = some (v, r)

theorem closes_compactItems (vs : List Json) (r : List Char) : Closes (compactItems vs ++ r) := by
  cases vs with
  | nil => exact .inr (.inl rfl)
  | cons v vs => exact .inl rfl

theorem closes_compactMembers (ms : List (String × Json)) (r : List Char) :
    Closes (compactMembers ms ++ r) := by
  cases ms with
  | nil => exact .inr (.inr rfl)
  | cons m ms => exact .inl rfl

/-- Items are taken off with their closing bracket. -/
theorem readItems_compact {d : Nat} {v : Json} {vs : List Json} (hv : Reads d v)
    (hvs : ∀ w ∈ vs, Reads d w ∧ 0 < (compactChars w).length) :
    ∀ fuel r, (compactChars v).length + (compactItems vs).length ≤ fuel →
      readItems fuel d (compactChars v ++ (compactItems vs ++ r)) = some (v :: vs, r) := by
  induction vs generalizing v with
  | nil =>
    intro fuel r hfuel
    cases fuel with
    | zero => simp [compactItems] at hfuel
    | succ fuel =>
      have hread := hv fuel (compactItems [] ++ r) (by simp [compactItems] at hfuel; omega)
        (closes_compactItems [] r)
      rw [readItems, hread]
      rfl
  | cons w vs ih =>
    intro fuel r hfuel
    simp only [compactItems, List.length_cons, List.length_append] at hfuel
    cases fuel with
    | zero => omega
    | succ fuel =>
      have hread := hv fuel (compactItems (w :: vs) ++ r) (by omega) (closes_compactItems _ r)
      have hrest := ih (hvs w (by simp)).1 (fun u hu => hvs u (by simp [hu])) fuel r (by omega)
      rw [readItems, hread]
      simp only [compactItems, List.cons_append, List.append_assoc, Option.bind_eq_bind,
        Option.bind_some, skipGap_cons (c := ',') (by decide), hrest]
      rfl

/-- The key of a member is taken off with its colon. -/
theorem readMembers_member (fuel d : Nat) (k : String) (v : Json) (l : List Char) :
    readMembers (fuel + 1) d (compactMember (k, v) ++ l) =
      (readValue fuel d (compactChars v ++ l)).bind fun x =>
        match skipGap x.2 with
        | '\x7d' :: r => some ([(k, x.1)], r)
        | ',' :: r => (readMembers fuel d r).bind fun y => some ((k, x.1) :: y.1, y.2)
        | _ => none := by
  have hshape : compactMember (k, v) ++ l =
      '"' :: (k.toList.flatMap escapeChar ++ '"' :: ':' :: (compactChars v ++ l)) := by
    simp [compactMember, quote, quoteChars]
  rw [hshape, readMembers, skipGap_cons (by decide)]
  simp only [readString_escaped, Option.bind_eq_bind, Option.bind_some,
    skipGap_cons (c := ':') (by decide)]
  rfl

/-- Members are taken off with their closing brace. -/
theorem readMembers_compact {d : Nat} {k : String} {v : Json} {ms : List (String × Json)}
    (hv : Reads d v) (hms : ∀ m ∈ ms, Reads d m.2) :
    ∀ fuel r, (compactMember (k, v)).length + (compactMembers ms).length ≤ fuel →
      readMembers fuel d (compactMember (k, v) ++ (compactMembers ms ++ r)) =
        some ((k, v) :: ms, r) := by
  induction ms generalizing k v with
  | nil =>
    intro fuel r hfuel
    simp only [compactMember, compactMembers, List.length_append, List.length_cons,
      List.length_nil] at hfuel
    cases fuel with
    | zero => omega
    | succ fuel =>
      have hread := hv fuel (compactMembers [] ++ r) (by omega) (closes_compactMembers [] r)
      rw [readMembers_member, hread]
      rfl
  | cons m ms ih =>
    obtain ⟨k', v'⟩ := m
    intro fuel r hfuel
    simp only [compactMembers, List.length_append, List.length_cons] at hfuel
    have hlen : (compactMember (k, v)).length = (quote k).length + ((compactChars v).length + 1) := by
      simp [compactMember]
    cases fuel with
    | zero => omega
    | succ fuel =>
      have hread := hv fuel (compactMembers ((k', v') :: ms) ++ r) (by omega)
        (closes_compactMembers _ r)
      have hrest := ih (k := k') (v := v') (hms (k', v') (by simp)) (fun m hm => hms m (by simp [hm]))
        fuel r (by omega)
      rw [readMembers_member, hread]
      simp only [compactMembers, List.cons_append, List.append_assoc, Option.bind_some,
        skipGap_cons (c := ',') (by decide), hrest]

/-- **A plain value is taken off the front of a text whole.** -/
theorem readValue_compactChars {d : Nat} {v : Json} (h : Plain d v) : Reads d v := by
  induction h with
  | null =>
    intro fuel r hfuel hr
    cases fuel with
    | zero => cases hfuel
    | succ fuel => rfl
  | bool b =>
    intro fuel r hfuel hr
    cases fuel with
    | zero => cases b <;> cases hfuel
    | succ fuel => cases b <;> rfl
  | @int d n hn =>
    intro fuel r hfuel hr
    cases fuel with
    | zero => exact absurd (Plain.int (d := d) hn).length_pos (Nat.not_lt.2 hfuel)
    | succ fuel => exact readValue_int hn fuel d hr
  | str s =>
    intro fuel r hfuel hr
    cases fuel with
    | zero => cases hfuel
    | succ fuel =>
      have hshape : compactChars (.str s) ++ r = '"' :: (s.toList.flatMap escapeChar ++ '"' :: r) := by
        simp [compactChars, atomChars, quote, quoteChars]
      rw [hshape, readValue, skipGap_cons (by decide)]
      simp only [readString_escaped, Option.map_some]
  | @arr d vs h ih =>
    intro fuel r hfuel hr
    cases fuel with
    | zero => cases vs <;> cases hfuel
    | succ fuel =>
      cases vs with
      | nil => rfl
      | cons v vs =>
        have hlen : (compactChars v).length + (compactItems vs).length ≤ fuel := by
          simp only [compactChars, List.length_cons, List.length_append] at hfuel
          omega
        have hitems := readItems_compact (ih v (by simp))
          (fun w hw => ⟨ih w (by simp [hw]), (h w (by simp [hw])).length_pos⟩) fuel r hlen
        have hshape : compactChars (.arr (v :: vs)) ++ r =
            '[' :: (compactChars v ++ (compactItems vs ++ r)) := by simp [compactChars]
        obtain ⟨c, l, hl, hgap, hne⟩ := (h v (by simp)).exists_cons
        rw [hshape, readValue, skipGap_cons (by decide)]
        simp only [hl, List.cons_append] at hitems ⊢
        rw [skipGap_cons hgap]
        split
        · next heq => cases heq; exact absurd rfl hne
        · rw [hitems]; rfl
  | @obj d ms ha h ih =>
    intro fuel r hfuel hr
    cases fuel with
    | zero => cases ms <;> cases hfuel
    | succ fuel =>
      cases ms with
      | nil => rfl
      | cons m ms =>
        obtain ⟨k, v⟩ := m
        have hlen : (compactMember (k, v)).length + (compactMembers ms).length ≤ fuel := by
          simp only [compactChars, List.length_cons, List.length_append] at hfuel
          omega
        have hmembers := readMembers_compact (ih (k, v) (by simp)) (fun m hm => ih m (by simp [hm]))
          fuel r hlen
        have hshape : compactChars (.obj ((k, v) :: ms)) ++ r =
            '\x7b' :: (compactMember (k, v) ++ (compactMembers ms ++ r)) := by simp [compactChars]
        obtain ⟨l, hl⟩ : ∃ l, compactMember (k, v) = '"' :: l := ⟨_, rfl⟩
        rw [hshape, readValue, skipGap_cons (by decide)]
        rw [hl, List.cons_append] at hmembers ⊢
        simp only [skipGap_cons (c := '"') (by decide)]
        split
        · next heq => cases heq
        · rw [hmembers, Option.map_some, ofMembers_of_ascending ha]

/-- **The compact text of a plain value stands for the value.** -/
theorem parseChars_compactChars {v : Json} (h : Plain maxDepth v) :
    parseChars? (compactChars v) = some v := by
  have hread := readValue_compactChars h ((compactChars v).length + 1) [] (Nat.le_succ _) trivial
  rw [List.append_nil] at hread
  rw [parseChars?, hread]
  rfl

end Handoff.Json
