import Mathlib.Algebra.BigOperators.Group.List.Basic
import Handoff.Proofs.Console.Framing
import Handoff.Proofs.Managed.Whereabouts

/-! # The counter is the total of its increments

Whatever lines a console reads, and whatever a program does with a registry and with the objects that it has
taken out of it, the counter of an object is where it started and all that was added to it since, or the
greatest number. It does not matter in which order the amounts were added, or what else was done meanwhile.

* `Json.inRange_parseChars`: a whole number that is read is kept exactly.
* `Console.usesOf`: the uses of an object that lines stand for.
* `Console.counter_total`: the statement for lines, for programs and for a record alone.
-/

namespace Handoff

/-! ### Numbers that are read -/

namespace Json

theorem inRange_value {m : Numeral} {n : Int} (h : m.value = some (.int n)) : IntInRange n := by
  unfold Numeral.value at h
  split at h
  · simp only at h
    split_ifs at h with h₁ h₂ h₃
    · cases h
      simp only [Bool.and_eq_true, decide_eq_true_eq] at h₂
      exact ⟨by omega, by omega⟩
    · obtain ⟨x, -, hx⟩ := Option.map_eq_some_iff.1 h
      cases hx
    · cases h
      exact ⟨by omega, by omega⟩
    · obtain ⟨x, -, hx⟩ := Option.map_eq_some_iff.1 h
      cases hx
  · obtain ⟨x, -, hx⟩ := Option.map_eq_some_iff.1 h
    cases hx

theorem inRange_readValue {fuel depth : Nat} {l r : List Char} {n : Int}
    (h : readValue fuel depth l = some (.int n, r)) : IntInRange n := by
  cases fuel with
  | zero => simp [readValue] at h
  | succ fuel =>
    rw [readValue] at h
    split at h
    case h_5 | h_6 =>
      -- an array or an object
      split at h
      · cases h
      · split at h
        · cases h
        · obtain ⟨x, -, hx⟩ := Option.map_eq_some_iff.1 h
          simp [ofMembers] at hx
    case h_7 =>
      obtain ⟨⟨m, r'⟩, hm, h⟩ := Option.bind_eq_some_iff.1 h
      obtain ⟨v, hv, h⟩ := Option.bind_eq_some_iff.1 h
      cases h
      exact inRange_value hv
    all_goals
      obtain ⟨x, -, hx⟩ := Option.map_eq_some_iff.1 h
      cases hx

/-- **A whole number that is read is kept exactly.** -/
theorem inRange_parseChars {l : List Char} {n : Int} (h : parseChars? l = some (.int n)) : IntInRange n := by
  obtain ⟨⟨v, r⟩, hread, h⟩ := Option.bind_eq_some_iff.1 h
  simp only at h
  split_ifs at h
  cases h
  exact inRange_readValue hread

end Json

namespace Console

theorem inRange_parseValue {l : List Char} {n : Int} (h : parseValue l = .int n) : Json.IntInRange n := by
  unfold parseValue at h
  rcases hv : Json.parseChars? l with _ | v <;> rw [hv] at h
  · cases h
  · obtain rfl : v = .int n := h
    exact Json.inRange_parseChars hv

/-- The arguments of a call are read from words. -/
theorem args_of_invokeWords {rest : List Char} {name : ObjectName} {operation : String} {args : List Json}
    (h : invokeWords rest = .ok (name, operation, args)) : ∃ words : List (List Char), args = words.map parseValue := by
  unfold invokeWords at h
  split at h
  · cases h
  · rename_i word _ words _
    rcases hname : ObjectName.parse (String.ofList word) with e | n
    · rw [hname] at h
      cases h
    · rw [hname] at h
      cases h
      exact ⟨words, rfl⟩
  · cases h

/-- The whole numbers that a line gives to an operation are kept exactly. -/
theorem inRange_of_use? {line : String} {name : ObjectName} {u : Use} (h : use? line = some (name, u)) :
    u.InRange := by
  rcases byName_of_use? h with ⟨attr, value, rfl⟩ | ⟨operation, args, rfl⟩
  · trivial
  · unfold use? at h
    split_ifs at h with hset hinvoke
    · unfold setUse? at h
      split at h <;> cases h
    · unfold invokeUse? at h
      rcases hwords : invokeWords (restOf line) with e | ⟨n, o, as⟩ <;> rw [hwords] at h <;> cases h
      obtain ⟨words, rfl⟩ := args_of_invokeWords hwords
      intro n hn
      obtain ⟨word, -, hword⟩ := List.mem_map.1 hn
      exact inRange_parseValue hword

/-! ### Lines -/

/-- **The uses of an object that lines stand for.** -/
def usesOf (name : ObjectName) (lines : List String) : List Use :=
  lines.filterMap fun line => (use? line).bind fun nu => if nu.1 = name then some nu.2 else none

theorem inRange_usesOf (name : ObjectName) (lines : List String) : ∀ u ∈ usesOf name lines, u.InRange := by
  intro u hu
  obtain ⟨line, -, hline⟩ := List.mem_filterMap.1 hu
  obtain ⟨⟨n, u'⟩, huse, hn⟩ := Option.bind_eq_some_iff.1 hline
  split_ifs at hn
  cases hn
  exact inRange_of_use? huse

/-- **All that happens to an object over lines are the uses of it that they stand for.** -/
theorem find?_after {g : Registry} {name : ObjectName} {r : Record} (h : g.find? name = some r)
    (lines : List String) : (after g lines).find? name = some (r.useAll (usesOf name lines)) := by
  induction lines generalizing g r with
  | nil => exact h
  | cons line lines ih =>
    show (after (execute g line).2 lines).find? name = _
    rw [usesOf, List.filterMap_cons]
    rcases huse : use? line with _ | ⟨n, u⟩
    · rw [(execute_of_none huse g).1]
      exact ih h
    · rw [execute_of_use? huse, Option.bind_some]
      by_cases hn : n = name
      · subst hn
        rw [if_pos rfl]
        exact ih (Registry.find?_use h u)
      · rw [if_neg hn]
        exact ih ((Registry.find?_use_of_ne (Ne.symm hn)).trans h)

theorem render_int (n : Int) : render (.int n) = toString n := by
  simp [render, Json.compact, Json.compactChars, Json.atomChars]

section Total

variable {g : Registry} {name : ObjectName} {r : Record}

/-- **The counter of an object** after lines, and the answer to the line that follows. -/
theorem counter_after (h : g.find? name = some r) (lines : List String) :
    (∃ r', (after g lines).find? name = some r' ∧ r.counter.toInt ≤ r'.counter.toInt ∧
      r'.counter.toInt = countedUp r.counter.toInt ((usesOf name lines).filterMap Use.amount?)) ∧
    ∀ line u, use? line = some (name, u) →
      (∀ args, u = .call "increment" args → ((∃ s, (execute (after g lines) line).1 = .ok s) ↔
        ∃ n : Nat, n < 2 ^ 32 ∧ args = [.int n])) ∧
      ∀ a, u.amount? = some a → (execute (after g lines) line).1 =
        .ok (toString (countedUp r.counter.toInt ((usesOf name lines).filterMap Use.amount? ++ [a]))) := by
  have hend := find?_after h lines
  have hus := inRange_usesOf name lines
  have hcounter := r.counter_useAll hus
  refine ⟨⟨_, hend, by rw [hcounter]; exact le_countedUp _ _, hcounter⟩, fun line u hline => ?_⟩
  obtain ⟨hsuccess, hanswer⟩ := r.answer_useAll hus (inRange_of_use? hline)
  rw [execute_of_use? hline, Registry.use_of_some hend]
  refine ⟨fun args hargs => ?_, fun a ha => ?_⟩
  · rw [← hsuccess args hargs]
    rcases ((r.useAll (usesOf name lines)).use u).1 with e | v <;> simp [Except.mapError, Except.map]
  · rw [hanswer a ha]
    exact congrArg Except.ok (render_int _)

end Total

/-- **The counter is the total of its increments**, or the greatest number. So it is for an object over the lines
of a console, for an object that a program uses in a registry and out of it, wherever it is, and for a record by
itself. Each increment answers the total so far, and succeeds just if it is given one whole number that fits into
32 bits without sign. The order of the amounts does not matter, nor does anything else. -/
theorem counter_total :
    (∀ (g : Registry) (name : ObjectName) (r : Record) (lines : List String), g.find? name = some r →
      let amounts := (usesOf name lines).filterMap Use.amount?
      (∃ r', (after g lines).find? name = some r' ∧ r.counter.toInt ≤ r'.counter.toInt ∧
        r'.counter.toInt = countedUp r.counter.toInt amounts) ∧
      (∀ line u, use? line = some (name, u) →
        (∀ args, u = .call "increment" args → ((∃ s, (execute (after g lines) line).1 = .ok s) ↔
          ∃ n : Nat, n < 2 ^ 32 ∧ args = [.int n])) ∧
        ∀ a, u.amount? = some a →
          (execute (after g lines) line).1 = .ok (toString (countedUp r.counter.toInt (amounts ++ [a])))) ∧
      ∀ lines', amounts.Perm ((usesOf name lines').filterMap Use.amount?) →
        ((after g lines').find? name).map Record.counter = ((after g lines).find? name).map Record.counter) ∧
    (∀ (w : Workshop Registry) (p q : Workshop.Whereabouts) (r : Record) (ops : List Workshop.Operation)
        (us : List Use),
      w.record? p = some r → (∀ op ∈ ops, op.InRange) → w.follow p ops = some (q, us) →
      let amounts := us.filterMap Use.amount?
      (∃ r', (w.acts ops).record? q = some r' ∧ r.counter.toInt ≤ r'.counter.toInt ∧
        r'.counter.toInt = countedUp r.counter.toInt amounts) ∧
      (∀ op u, op.InRange → op.useAt? q = some u →
        (∀ args, u = .call "increment" args → ((∃ v, ((w.acts ops).act op).1 = .reply (.ok v)) ↔
          ∃ n : Nat, n < 2 ^ 32 ∧ args = [.int n])) ∧
        ∀ a, u.amount? = some a → ((w.acts ops).act op).1 =
          .reply (.ok (some (.int (countedUp r.counter.toInt (amounts ++ [a])))))) ∧
      ∀ q' ops' us', (∀ op ∈ ops', op.InRange) → w.follow p ops' = some (q', us') →
        amounts.Perm (us'.filterMap Use.amount?) →
        ((w.acts ops').record? q').map Record.counter = ((w.acts ops).record? q).map Record.counter) ∧
    ∀ (r : Record) (us : List Use), (∀ u ∈ us, u.InRange) →
      r.counter.toInt ≤ (r.useAll us).counter.toInt ∧
      (r.useAll us).counter.toInt = countedUp r.counter.toInt (us.filterMap Use.amount?) ∧
      ∀ u a, u.InRange → u.amount? = some a → ((r.useAll us).use u).1 =
        .ok (some (.int (countedUp r.counter.toInt (us.filterMap Use.amount? ++ [a])))) := by
  refine ⟨?_, ?_, ?_⟩
  · intro g name r lines h amounts
    obtain ⟨hcounter, hanswer⟩ := counter_after h lines
    refine ⟨hcounter, hanswer, fun lines' hperm => ?_⟩
    obtain ⟨r₁, hr₁, -, hc₁⟩ := hcounter
    obtain ⟨⟨r₂, hr₂, -, hc₂⟩, -⟩ := counter_after h lines'
    rw [hr₁, hr₂, Option.map_some, Option.map_some, counter_congr hc₁ hc₂ hperm]
  · intro w p q r ops us h hops hq amounts
    obtain ⟨hcounter, hanswer⟩ := Workshop.counter_acts h hops hq
    refine ⟨hcounter, hanswer, fun q' ops' us' hops' hq' hperm => ?_⟩
    obtain ⟨r₁, hr₁, -, hc₁⟩ := hcounter
    obtain ⟨⟨r₂, hr₂, -, hc₂⟩, -⟩ := Workshop.counter_acts h hops' hq'
    rw [hr₁, hr₂, Option.map_some, Option.map_some, counter_congr hc₁ hc₂ hperm]
  · intro r us hus
    have hcounter := r.counter_useAll hus
    refine ⟨by rw [hcounter]; exact le_countedUp _ _, hcounter, fun u a hu ha => ?_⟩
    exact (r.answer_useAll hus hu).2 a ha

/-! ### A counter that is nearly full -/

open Registry (atticLamp)

/-- A line that adds five. -/
theorem use?_increment :
    use? "invoke lamps:room=attic increment 5" = some (atticLamp, .call "increment" [.int 5]) := by
  have hcommand : commandOf "invoke lamps:room=attic increment 5" = "invoke" := by decide +kernel
  have hrest : restOf "invoke lamps:room=attic increment 5" = "lamps:room=attic increment 5".toList := by
    decide +kernel
  have hsplit : splitWords "lamps:room=attic increment 5".toList =
      some ["lamps:room=attic".toList, "increment".toList, "5".toList] := by decide +kernel
  have hname : ObjectName.parse (String.ofList "lamps:room=attic".toList) = .ok atticLamp := rfl
  have hvalue : parseValue "5".toList = .int 5 := rfl
  rw [use?, if_neg (by rw [hcommand]; decide), if_pos hcommand, hrest, invokeUse?, invokeWords, hsplit]
  simp only [hname, List.map_cons, List.map_nil, hvalue, bind, Except.bind]
  rfl

/-- Five is added twice to a counter that is nearly full, by two lines; and once to an object that is taken out
of the registry. -/
theorem counter_total_nearlyFull :
    let g := Registry.empty.put atticLamp ⟨"lit", 9223372036854775800⟩
    let line := "invoke lamps:room=attic increment 5"
    let ops : List Workshop.Operation := [.unregister atticLamp, .useRemoved 0 (.increment 5)]
    ((execute (after g [line]) line).1 = .ok "9223372036854775807" ∧
      ∃ r, (after g [line, line]).find? atticLamp = some r ∧ r.counter.toInt = 9223372036854775807) ∧
    ∃ r, (Workshop.acts ⟨g, []⟩ ops).record? (.removed 0) = some r ∧
      r.counter.toInt = 9223372036854775805 := by
  intro g line ops
  have hfind : g.find? atticLamp = some ⟨"lit", 9223372036854775800⟩ := by rw [Registry.find?_put, if_pos rfl]
  have hamounts : ∀ n, (usesOf atticLamp (List.replicate n line)).filterMap Use.amount? =
      List.replicate n 5 := by
    intro n
    induction n with
    | zero => rfl
    | succ n ih =>
      rw [List.replicate_succ, usesOf, List.filterMap_cons, use?_increment]
      exact congrArg (5 :: ·) ih
  have hone : (usesOf atticLamp [line]).filterMap Use.amount? = [5] := hamounts 1
  have htwo : (usesOf atticLamp [line, line]).filterMap Use.amount? = [5, 5] := hamounts 2
  have hops : ∀ op ∈ ops, op.InRange := by
    refine List.forall_mem_cons.2 ⟨fun p u hu => ?_, List.forall_mem_singleton.2 fun p u hu => ?_⟩
    · cases p <;> cases hu
    · cases p with
      | registered name => cases hu
      | removed k =>
        have hu : (if 0 = k then some (Use.increment 5) else none) = some u := hu
        split_ifs at hu
        cases hu
        trivial
  obtain ⟨-, hanswer, -⟩ := counter_total.1 g atticLamp _ [line] hfind
  obtain ⟨⟨r, hr, -, hcounter⟩, -, -⟩ := counter_total.1 g atticLamp _ [line, line] hfind
  obtain ⟨⟨r', hr', -, hcounter'⟩, -, -⟩ := counter_total.2.1 ⟨g, []⟩ (.registered atticLamp) (.removed 0) _
    ops [.increment 5] hfind hops rfl
  refine ⟨⟨?_, r, hr, ?_⟩, r', hr', ?_⟩
  · rw [(hanswer line _ use?_increment).2 5 rfl, hone]
    rfl
  · rw [hcounter, htwo]
    rfl
  · rw [hcounter']
    rfl

end Console

end Handoff
