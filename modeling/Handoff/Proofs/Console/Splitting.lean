import Handoff.Proofs.Console.Words

/-! # What splitting a text comes to

A quoted part begins at a quote and ends at the next one that no backslash takes along; outside of quoted parts a
backslash is a character like others. Either every quoted part of a text is closed, or one is left open at the end.
A text of the first kind is a row of words with gaps around them, and these are the words it is split into; a text
of the second kind is not split.

* `Console.Inside`, `Console.Closed`, `Console.LeftOpen`: quoted parts; `Console.closed_or_leftOpen`: every text is
  of one kind.
* `Console.IsWord`, `Console.LaidOut`: words, and texts made of them; `Console.isWhole_iff`: words are what the
  splitter takes for one.
* `Console.splitWords_eq_none_iff`, `Console.splitWords_eq_some_iff`: which texts are split, and into what.
* `Console.splitWords_lays_out`: the statement with what follows for texts after one another.
-/

namespace Handoff.Console

open Text (isBlank Blank Gap Solid)

/-! ### Quoted parts -/

/-- **The inside of a quoted part**: a backslash takes the next character along. -/
inductive Inside : List Char → Prop
  | nil : Inside []
  | char {c : Char} {r : List Char} (hq : c ≠ '"') (hb : c ≠ '\\') (hr : Inside r) : Inside (c :: r)
  | escape {c : Char} {r : List Char} (hr : Inside r) : Inside ('\\' :: c :: r)

/-- **Every quoted part is closed**, and the characters outside are as `ok` says. -/
inductive Closed (ok : Char → Prop) : List Char → Prop
  | nil : Closed ok []
  | plain {c : Char} {r : List Char} (hq : c ≠ '"') (hok : ok c) (hr : Closed ok r) : Closed ok (c :: r)
  | quoted {b r : List Char} (hb : Inside b) (hr : Closed ok r) : Closed ok ('"' :: (b ++ '"' :: r))

/-- Every quoted part is closed, whatever stands outside. -/
abbrev IsClosed : List Char → Prop := Closed fun _ => True

/-- **A quoted part is left open** at the end; a backslash may wait there for the character it takes along. -/
def LeftOpen (l : List Char) : Prop :=
  ∃ a b, l = a ++ '"' :: b ∧ IsClosed a ∧ (Inside b ∨ ∃ b', b = b' ++ ['\\'] ∧ Inside b')

variable {ok : Char → Prop} {a b l r w : List Char}

theorem Closed.mono {ok' : Char → Prop} (h : Closed ok l) (hok : ∀ c ∈ l, ok c → ok' c) : Closed ok' l := by
  induction h with
  | nil => exact .nil
  | plain hq hc _ ih => exact .plain hq (hok _ (by simp) hc) (ih fun d hd => hok d (by simp [hd]))
  | quoted hb _ ih => exact .quoted hb (ih fun d hd => hok d (by simp [hd]))

theorem Closed.append (ha : Closed ok a) (hb : Closed ok b) : Closed ok (a ++ b) := by
  induction ha with
  | nil => exact hb
  | plain hq hc _ ih => exact .plain hq hc ih
  | @quoted b r hin _ ih =>
    rw [List.cons_append, List.append_assoc, List.cons_append]
    exact .quoted hin ih

/-- After an open quote the part is closed later, or left open. -/
theorem exists_inside : ∀ l : List Char,
    (∃ b r, l = b ++ '"' :: r ∧ Inside b) ∨ Inside l ∨ ∃ b, l = b ++ ['\\'] ∧ Inside b
  | [] => .inr (.inl .nil)
  | [c] => by
    by_cases hq : c = '"'
    · exact .inl ⟨[], [], by rw [hq]; rfl, .nil⟩
    · by_cases hb : c = '\\'
      · exact .inr (.inr ⟨[], by rw [hb]; rfl, .nil⟩)
      · exact .inr (.inl (.char hq hb .nil))
  | c :: d :: l => by
    by_cases hq : c = '"'
    · exact .inl ⟨[], d :: l, by rw [hq]; rfl, .nil⟩
    by_cases hb : c = '\\'
    · subst hb
      rcases exists_inside l with ⟨b, r, rfl, hin⟩ | hin | ⟨b, rfl, hin⟩
      · exact .inl ⟨'\\' :: d :: b, r, rfl, .escape hin⟩
      · exact .inr (.inl (.escape hin))
      · exact .inr (.inr ⟨'\\' :: d :: b, rfl, .escape hin⟩)
    · rcases exists_inside (d :: l) with ⟨b, r, hl, hin⟩ | hin | ⟨b, hl, hin⟩
      · exact .inl ⟨c :: b, r, by rw [hl]; rfl, .char hq hb hin⟩
      · exact .inr (.inl (.char hq hb hin))
      · exact .inr (.inr ⟨c :: b, by rw [hl]; rfl, .char hq hb hin⟩)

theorem LeftOpen.append (ha : IsClosed a) (h : LeftOpen b) : LeftOpen (a ++ b) := by
  obtain ⟨a', b', rfl, ha', hopen⟩ := h
  exact ⟨a ++ a', b', by rw [List.append_assoc], ha.append ha', hopen⟩

/-- **Every text closes its quoted parts, or leaves one open.** -/
theorem closed_or_leftOpen (l : List Char) : IsClosed l ∨ LeftOpen l := by
  rcases l with _ | ⟨c, l⟩
  · exact .inl .nil
  by_cases hq : c = '"'
  · subst hq
    rcases exists_inside l with ⟨b, r, rfl, hin⟩ | hopen
    · have hpart : IsClosed ('"' :: (b ++ ['"'])) := .quoted hin .nil
      have hshape : '"' :: (b ++ '"' :: r) = '"' :: (b ++ ['"']) ++ r := by simp
      rcases closed_or_leftOpen r with h | h
      · exact .inl (.quoted hin h)
      · exact .inr (hshape ▸ h.append hpart)
    · exact .inr ⟨[], l, rfl, .nil, hopen⟩
  · rcases closed_or_leftOpen l with h | h
    · exact .inl (.plain hq trivial h)
    · exact .inr (h.append (.plain hq trivial .nil : IsClosed [c]))
termination_by l.length

/-! ### Places -/

/-- The place after a text. -/
def Place.after (p : Place) (l : List Char) : Place := l.foldl Place.next p

theorem Place.after_append (p : Place) (a b : List Char) : p.after (a ++ b) = (p.after a).after b :=
  List.foldl_append

theorem Inside.after (h : Inside b) : Place.quoted.after b = .quoted := by
  induction h with
  | nil => rfl
  | char hq hb _ ih =>
    rw [Place.after, List.foldl_cons, Place.next_quoted hq hb]
    exact ih
  | escape _ ih => exact ih

theorem Closed.after (h : Closed ok l) : Place.plain.after l = .plain := by
  induction h with
  | nil => rfl
  | plain hq _ _ ih =>
    rw [Place.after, List.foldl_cons, Place.next_plain hq]
    exact ih
  | @quoted b r hin _ ih =>
    have hquote : Place.plain.after ('"' :: (b ++ '"' :: r)) = Place.quoted.after (b ++ '"' :: r) := rfl
    rw [hquote, Place.after_append, hin.after]
    exact ih

theorem LeftOpen.after (h : LeftOpen l) : Place.plain.after l ≠ .plain := by
  obtain ⟨a, b, rfl, ha, hopen⟩ := h
  have hquote : Place.plain.after (a ++ '"' :: b) = Place.quoted.after b := by
    rw [Place.after_append, ha.after]
    rfl
  rw [hquote]
  rcases hopen with hin | ⟨b', rfl, hin⟩
  · rw [hin.after]
    decide
  · rw [Place.after_append, hin.after]
    decide

/-- No text does both. -/
theorem leftOpen_iff : LeftOpen l ↔ ¬ IsClosed l :=
  ⟨fun h hl => h.after hl.after, fun h => (closed_or_leftOpen l).resolve_left h⟩

theorem wordsFrom_eq_none_iff {p : Place} {word : List Char} :
    wordsFrom p word l = none ↔ p.after l ≠ .plain := by
  induction l generalizing p word with
  | nil =>
    have hafter : p.after [] = p := rfl
    rw [wordsFrom, hafter]
    split_ifs with hp
    · simp [hp]
    · simp [hp]
  | cons c l ih =>
    have hafter : p.after (c :: l) = (p.next c).after l := rfl
    rw [wordsFrom, hafter]
    split_ifs with hend
    · obtain ⟨rfl, hblank⟩ := hend
      have hq : c ≠ '"' := by
        rintro rfl
        cases hblank
      rw [Option.map_eq_none_iff, ih, Place.next_plain hq]
    · exact ih

/-- **A text is not split just if it leaves a quoted part open.** -/
theorem splitWords_eq_none_iff : splitWords l = none ↔ LeftOpen l := by
  rw [splitWords, wordsFrom_eq_none_iff]
  refine ⟨fun h => (closed_or_leftOpen l).resolve_left fun hl => h hl.after, LeftOpen.after⟩

/-! ### Words -/

/-- **A word**: not empty, with its quoted parts closed, and without white space outside of them. -/
def IsWord (w : List Char) : Prop := w ≠ [] ∧ Closed (fun c => isBlank c = false) w

theorem Inside.spans_append_iff {q : Place} (h : Inside b) : Spans .quoted (b ++ r) q ↔ Spans .quoted r q := by
  have hskip : ∀ {p : Place} {c : Char} {l : List Char}, p ≠ .plain → (Spans p (c :: l) q ↔ Spans (p.next c) l q) :=
    fun hp => ⟨And.right, fun h => ⟨fun hplain => hp hplain.1, h⟩⟩
  induction h with
  | nil => rfl
  | char hq hb _ ih =>
    rw [List.cons_append, hskip (by decide), Place.next_quoted hq hb]
    exact ih
  | @escape c s _ ih =>
    have hescaped : Place.quoted.next '\\' = .escaped := rfl
    have hquoted : Place.escaped.next c = .quoted := rfl
    rw [List.cons_append, List.cons_append, hskip (by decide), hescaped, hskip (by decide), hquoted]
    exact ih

theorem Spans.after {p q : Place} (h : Spans p w q) : p.after w = q := by
  induction w generalizing p with
  | nil => exact h
  | cons c w ih => exact ih h.2

theorem spans_of_closed (h : Closed (fun c => isBlank c = false) w) : Spans .plain w .plain := by
  induction h with
  | nil => rfl
  | plain hq hok _ ih => exact .cons hok hq ih
  | quoted hin _ ih => exact ⟨by decide, hin.spans_append_iff.2 (.close ih)⟩

theorem closed_of_spans (h : Spans .plain w .plain) : Closed (fun c => isBlank c = false) w := by
  have hclosed : IsClosed w := (closed_or_leftOpen w).resolve_right fun hopen => hopen.after h.after
  induction hclosed with
  | nil => exact .nil
  | @plain c r hq _ _ ih =>
    have hrest : Spans (Place.plain.next c) r .plain := h.2
    rw [Place.next_plain hq] at hrest
    exact .plain hq (by simpa using h.1) (ih hrest)
  | quoted hin _ ih => exact .quoted hin (ih (hin.spans_append_iff.1 h.2).2)

/-- **Words are what the splitter takes for one.** -/
theorem isWhole_iff : IsWhole w ↔ IsWord w :=
  and_congr_right fun _ => ⟨closed_of_spans, spans_of_closed⟩

/-- A text without white space is a word if it closes its quoted parts. -/
theorem isWord_of_solid (hne : w ≠ []) (hsolid : Solid w) (h : IsClosed w) : IsWord w :=
  ⟨hne, h.mono fun c hc _ => hsolid c hc⟩

/-! ### Words and gaps -/

/-- **A text is words with gaps around them**: each word after its gap, and a gap after the last one. Only the first
gap and the last one may be empty. -/
structure LaidOut (l : List Char) (ws : List (List Char × List Char)) (trail : List Char) : Prop where
  text : l = spread ws ++ trail
  word : ∀ gw ∈ ws, Blank gw.1 ∧ IsWord gw.2
  apart : ∀ gw ∈ ws.tail, gw.1 ≠ []
  trail : Blank trail

theorem closed_of_blank {g : List Char} (h : Blank g) : IsClosed g := by
  induction g with
  | nil => exact .nil
  | cons c g ih =>
    refine .plain ?_ trivial (ih fun d hd => h d (by simp [hd]))
    rintro rfl
    exact absurd (h '"' (by simp)) (by decide)

section LaidOut

variable {ws : List (List Char × List Char)} {trail : List Char}

/-- **Gaps stand outside of quoted parts**: what is before them closes its own. -/
theorem LaidOut.closed (h : LaidOut l ws trail) {pre : List (List Char × List Char)} (hpre : pre <+: ws) :
    IsClosed (spread pre) := by
  have hword : ∀ gw ∈ pre, Blank gw.1 ∧ IsWord gw.2 := fun gw hgw => h.word gw (hpre.subset hgw)
  clear hpre
  induction pre with
  | nil => exact .nil
  | cons gw pre ih =>
    obtain ⟨g, w⟩ := gw
    obtain ⟨hg, hw⟩ := hword (g, w) (by simp)
    rw [spread_cons]
    exact ((closed_of_blank hg).append (hw.2.mono fun _ _ _ => trivial)).append
      (ih fun gw hgw => hword gw (by simp [hgw]))

/-- More white space in front belongs to the first gap. -/
theorem LaidOut.blank_cons {c : Char} (hc : isBlank c = true) (h : LaidOut l ws trail) :
    ∃ ws' trail', LaidOut (c :: l) ws' trail' ∧ ws'.map Prod.snd = ws.map Prod.snd ∧ ∀ gw ∈ ws', gw.1 ≠ [] := by
  have hcons : ∀ {g : List Char}, Blank g → Blank (c :: g) := fun hg => List.forall_mem_cons.2 ⟨hc, hg⟩
  rcases ws with _ | ⟨⟨g, w⟩, ws⟩
  · have htext : c :: l = spread [] ++ c :: trail := by rw [h.text]; rfl
    exact ⟨[], c :: trail, ⟨htext, by simp, by simp, hcons h.trail⟩, rfl, by simp⟩
  · obtain ⟨⟨hg, hw⟩, hrest⟩ := List.forall_mem_cons.1 h.word
    have htext : c :: l = spread ((c :: g, w) :: ws) ++ trail := by rw [h.text]; rfl
    exact ⟨(c :: g, w) :: ws, trail, ⟨htext, List.forall_mem_cons.2 ⟨⟨hcons hg, hw⟩, hrest⟩, h.apart, h.trail⟩, rfl,
      List.forall_mem_cons.2 ⟨List.cons_ne_nil c g, h.apart⟩⟩

/-- A word in front of a gap. -/
theorem LaidOut.word_append (hw : IsWord w) (h : LaidOut l ws trail) (hgap : ∀ gw ∈ ws, gw.1 ≠ []) :
    LaidOut (w ++ l) (([], w) :: ws) trail :=
  ⟨by rw [spread_cons, List.nil_append, List.append_assoc, ← h.text],
    List.forall_mem_cons.2 ⟨⟨Text.blank_nil, hw⟩, h.word⟩, hgap, h.trail⟩

end LaidOut

/-- What the splitter answers after the characters of a word is the layout of them and the rest. -/
theorem exists_laidOut {p : Place} {word : List Char} {vs : List (List Char)}
    (h : wordsFrom p word l = some vs) (hword : Spans .plain word.reverse p) :
    ∃ ws trail, LaidOut (word.reverse ++ l) ws trail ∧ ws.map Prod.snd = vs := by
  induction l generalizing p word vs with
  | nil =>
    rw [wordsFrom] at h
    split_ifs at h with hp
    obtain rfl := Option.some.inj h
    subst hp
    have hnil : LaidOut [] [] [] := ⟨rfl, by simp, by simp, Text.blank_nil⟩
    cases word with
    | nil => exact ⟨[], [], hnil, rfl⟩
    | cons c word =>
      have hw : IsWord (c :: word).reverse := ⟨by simp, closed_of_spans hword⟩
      exact ⟨_, _, hnil.word_append hw (by simp), rfl⟩
  | cons c l ih =>
    rw [wordsFrom] at h
    split_ifs at h with hend
    · obtain ⟨rfl, hc⟩ := hend
      obtain ⟨us, hus, rfl⟩ := Option.map_eq_some_iff.1 h
      obtain ⟨ws, trail, hlaid, rfl⟩ := ih hus rfl
      obtain ⟨ws', trail', hlaid', hsnd, hgap⟩ := hlaid.blank_cons hc
      rw [List.reverse_nil, List.nil_append] at hlaid'
      cases word with
      | nil => exact ⟨ws', trail', hlaid', hsnd⟩
      | cons d word =>
        have hw : IsWord (d :: word).reverse := ⟨by simp, closed_of_spans hword⟩
        exact ⟨_, _, hlaid'.word_append hw hgap, by rw [List.map_cons, hsnd]; rfl⟩
    · have hstep : Spans .plain (c :: word).reverse (p.next c) := by
        rw [List.reverse_cons]
        exact hword.append ⟨hend, rfl⟩
      simpa using ih h hstep

theorem splitWords_append_blank {g : List Char} {vs : List (List Char)} (h : splitWords a = some vs)
    (hg : Blank g) : splitWords (a ++ g) = some vs := by
  by_cases hne : g = []
  · rw [hne, List.append_nil, h]
  · have happend := splitWords_append h ⟨hne, hg⟩ []
    rw [List.append_nil] at happend
    rw [happend]
    simp [splitWords, wordsFrom, finished]

/-- A text that is laid out as words is split into these. -/
theorem LaidOut.splitWords_eq {ws : List (List Char × List Char)} {trail : List Char} (h : LaidOut l ws trail) :
    splitWords l = some (ws.map Prod.snd) := by
  rw [h.text]
  refine splitWords_append_blank ?_ h.trail
  rcases ws with _ | ⟨⟨g, w⟩, ws⟩
  · rfl
  · obtain ⟨⟨hg, hw⟩, hrest⟩ := List.forall_mem_cons.1 h.word
    rw [spread_cons, List.append_assoc, splitWords_blank hg]
    exact splitWords_spread (isWhole_iff.2 hw) fun gw hgw =>
      ⟨⟨h.apart gw hgw, (hrest gw hgw).1⟩, isWhole_iff.2 (hrest gw hgw).2⟩

/-- **The words that a text is split into** are those it is laid out of. -/
theorem splitWords_eq_some_iff {vs : List (List Char)} :
    splitWords l = some vs ↔ ∃ ws trail, LaidOut l ws trail ∧ ws.map Prod.snd = vs := by
  constructor
  · intro h
    have hstart : Spans .plain ([] : List Char).reverse .plain := rfl
    exact exists_laidOut h hstart
  · rintro ⟨ws, trail, h, rfl⟩
    exact h.splitWords_eq

/-- A text is one word just if it is split into itself. -/
theorem splitWords_self_iff : splitWords w = some [w] ↔ IsWhole w := by
  refine ⟨fun h => ?_, splitWords_whole⟩
  obtain ⟨ws, trail, hlaid, hsnd⟩ := splitWords_eq_some_iff.1 h
  obtain ⟨gw, rfl, rfl⟩ := List.map_eq_singleton_iff.1 hsnd
  exact isWhole_iff.2 (hlaid.word gw (List.mem_singleton_self gw)).2

/-! ### Texts after one another -/

theorem intercalate_blank (w : List Char) (ws : List (List Char)) :
    List.intercalate [' '] (w :: ws) = w ++ spread (ws.map fun v => ([' '], v)) := by
  induction ws generalizing w with
  | nil => simp [spread]
  | cons v ws ih => rw [List.intercalate_cons_cons, ih, List.map_cons, spread_cons]; simp

/-- The words of a text are split again where single blanks are put between them. -/
theorem splitWords_intercalate {vs : List (List Char)} (h : splitWords l = some vs) :
    splitWords (List.intercalate [' '] vs) = some vs := by
  obtain ⟨ws, trail, hlaid, rfl⟩ := splitWords_eq_some_iff.1 h
  have hwhole : ∀ v ∈ ws.map Prod.snd, IsWhole v := by
    intro v hv
    obtain ⟨gw, hgw, rfl⟩ := List.mem_map.1 hv
    exact isWhole_iff.2 (hlaid.word gw hgw).2
  generalize ws.map Prod.snd = vs at hwhole
  cases vs with
  | nil => rfl
  | cons w vs =>
    obtain ⟨hw, hvs⟩ := List.forall_mem_cons.1 hwhole
    have hspread : ∀ gw ∈ vs.map (fun v => ([' '], v)), Gap gw.1 ∧ IsWhole gw.2 :=
      List.forall_mem_map.2 fun v hv => ⟨(by decide : Gap [' ']), hvs v hv⟩
    rw [intercalate_blank, splitWords_spread hw hspread, List.map_map]
    exact congrArg (fun us => some (w :: us)) (List.map_id vs)

/-- **Splitting finds the words that a text is made of.**
* A text is not split just if it leaves a quoted part open.
* It is split into some words just if it is these words with gaps around them: white space, with some of it between
  two words.
* The gaps stand outside of quoted parts.
* If a text is split, then with a gap and another text after it the words of both are answered, unless the other text
  is not split; and the words with single blanks between them are split into the same words. -/
theorem splitWords_lays_out (l : List Char) :
    (splitWords l = none ↔ LeftOpen l) ∧
    (∀ vs, splitWords l = some vs ↔ ∃ ws trail, LaidOut l ws trail ∧ ws.map Prod.snd = vs) ∧
    (∀ ws trail, LaidOut l ws trail → ∀ pre, pre <+: ws → IsClosed (spread pre)) ∧
    ∀ vs, splitWords l = some vs →
      (∀ g b, Gap g → splitWords (l ++ g ++ b) = (splitWords b).map (vs ++ ·)) ∧
      splitWords (List.intercalate [' '] vs) = some vs :=
  ⟨splitWords_eq_none_iff, fun _ => splitWords_eq_some_iff, fun _ _ h _ hpre => h.closed hpre,
    fun _ h => ⟨fun _ b hg => splitWords_append h hg b, splitWords_intercalate h⟩⟩

/-- A word with a quoted part in its middle, which holds white space and a quote, and words after it. -/
theorem splitWords_lays_out_quoted :
    let vs := ["a".toList, "b\"c \\\" d\"e\\".toList]
    splitWords " a\tb\"c \\\" d\"e\\".toList = some vs ∧
      splitWords (" a\tb\"c \\\" d\"e\\".toList ++ ['\u2003'] ++ "\"f".toList) = none ∧
      splitWords (" a\tb\"c \\\" d\"e\\".toList ++ ['\u2003'] ++ "\"f\"".toList) = some (vs ++ ["\"f\"".toList]) ∧
      splitWords "a b\"c \\\" d\"e\\".toList = some vs := by
  intro vs
  have h : splitWords " a\tb\"c \\\" d\"e\\".toList = some vs := by decide +kernel
  have hgap : Gap ['\u2003'] := by decide
  obtain ⟨happend, hjoin⟩ := (splitWords_lays_out _).2.2.2 vs h
  refine ⟨h, ?_, ?_, hjoin⟩
  · rw [happend _ _ hgap]
    rfl
  · rw [happend _ _ hgap]
    rfl

end Handoff.Console
