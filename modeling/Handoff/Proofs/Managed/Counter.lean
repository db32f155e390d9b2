import Mathlib.Algebra.Group.Int.Defs
import Mathlib.Algebra.GroupWithZero.Nat
import Mathlib.Tactic.SplitIfs
import Handoff.Proofs.Managed.Use

/-! # The counter of a record

Each use adds something to the counter or nothing, and the counter stops at the greatest number. Stopping at
every step comes to the same as stopping once at the end, since the counter never goes down.

* `Use.amount?`: what a use adds, told by its arguments alone.
* `Record.counted`: this is what the record adds, and answers.
* `Record.counter_useAll`: the counter after uses.
-/

namespace Handoff

/-- The number that a list of arguments is, if it is one whole number that fits into 32 bits without sign. -/
def countOf? : List Json → Option Nat
  | [.int n] => if 0 ≤ n ∧ n < 0x100000000 then some n.toNat else none
  | _ => none

namespace Use

/-- **What a use adds to the counter**, if it adds something. -/
def amount? : Use → Option Nat
  | call operation args => if operation = "increment" then countOf? args else none
  | increment amount => some amount.toNat
  | _ => none

/-- The whole numbers that a use is given are such as are kept exactly. -/
def InRange : Use → Prop
  | call _ args => ∀ n, .int n ∈ args → Json.IntInRange n
  | _ => True

end Use

/-- What the counter shows if all of this has been added to a number. -/
def countedUp (start : Int) (amounts : List Nat) : Int := min (2 ^ 63 - 1) (start + amounts.sum)

theorem countedUp_nil (c : Int64) : countedUp c.toInt [] = c.toInt := by
  have := c.toInt_lt
  rw [countedUp, List.sum_nil]
  omega

/-- Stopping in between comes to the same as stopping at the end. -/
theorem countedUp_append (start : Int) (as bs : List Nat) :
    countedUp (countedUp start as) bs = countedUp start (as ++ bs) := by
  rw [countedUp, countedUp, countedUp, List.sum_append]
  omega

/-- The order of the amounts does not matter. -/
theorem countedUp_perm {as bs : List Nat} (h : as.Perm bs) (start : Int) :
    countedUp start as = countedUp start bs := by
  rw [countedUp, countedUp, h.sum_nat]

/-- Counters that have come to the same amounts are the same. -/
theorem counter_congr {c c' : Int64} {start : Int} {as bs : List Nat} (h : c.toInt = countedUp start as)
    (h' : c'.toInt = countedUp start bs) (hperm : as.Perm bs) : c = c' := by
  rw [← Int64.toInt_inj, h, h', countedUp_perm hperm]

theorem le_countedUp (c : Int64) (as : List Nat) : c.toInt ≤ countedUp c.toInt as := by
  have := c.toInt_lt
  rw [countedUp]
  omega

theorem toInt_clampInt64 {n : Int} (h : -2 ^ 63 ≤ n) : (clampInt64 n).toInt = min (2 ^ 63 - 1) n := by
  unfold clampInt64
  split_ifs with h₁ h₂
  · omega
  · have hmax : Int64.maxValue.toInt = 2 ^ 63 - 1 := rfl
    rw [hmax]
    omega
  · rw [Int64.toInt_ofInt_of_le h (by omega)]
    omega

namespace Record

variable {r : Record} {u : Use} {a : Nat}

theorem counter_increment (r : Record) (n : UInt32) :
    (r.increment n).counter.toInt = countedUp r.counter.toInt [n.toNat] := by
  have := r.counter.le_toInt
  rw [increment, toInt_clampInt64 (by omega), countedUp, List.sum_singleton]

/-- A number in range is a count if and only if it fits into 32 bits without sign. -/
theorem countArg_eq_ok_iff {operation : String} {v : Json} {n : UInt32}
    (hv : ∀ m, v = .int m → Json.IntInRange m) :
    countArg operation v = .ok n ↔ countOf? [v] = some n.toNat := by
  cases v with
  | int m =>
    have hrange := (hv m rfl).1
    by_cases hm : m < 0x8000000000000000
    · have harg : integerArg operation (.int m) = .ok (Int64.ofInt m) := by
        rw [integerArg, Json.int64?, if_pos hm]
      have hto : (Int64.ofInt m).toInt = m := Int64.toInt_ofInt_of_le hrange hm
      rw [countArg, harg]
      simp only [hto, countOf?]
      by_cases hcount : 0 ≤ m ∧ m < 0x100000000
      · rw [if_pos hcount, if_pos hcount]
        have hlt : m.toNat < 2 ^ 32 := by omega
        rw [Except.ok.injEq, Option.some_inj, ← UInt32.toNat_inj, UInt32.toNat_ofNat_of_lt' hlt]
      · rw [if_neg hcount, if_neg hcount]
        simp
    · have harg : integerArg operation (.int m) =
          .error (.invalidArgument operation ("expected an integer, got " ++ (Json.int m).compact)) := by
        rw [integerArg, Json.int64?, if_neg hm]
      rw [countArg, harg, countOf?, if_neg (by omega)]
      simp
  | _ => simp [countArg, integerArg, Json.int64?, countOf?]

theorem adds_iff (hu : u.InRange) {n : UInt32} : u.Adds n ↔ u.amount? = some n.toNat := by
  cases u with
  | call operation args =>
    by_cases hop : operation = "increment"
    · rw [Use.amount?, if_pos hop]
      constructor
      · rintro ⟨-, v, rfl, hv⟩
        exact (countArg_eq_ok_iff fun m hm => hu m (by simp [hm])).1 hv
      · intro hcount
        rcases args with _ | ⟨v, _ | ⟨w, args⟩⟩
        · cases hcount
        · exact ⟨hop, v, rfl, (countArg_eq_ok_iff fun m hm => hu m (by simp [hm])).2 hcount⟩
        · simp [countOf?] at hcount
    · simp [Use.Adds, Use.amount?, hop]
  | increment amount => simp [Use.Adds, Use.amount?, UInt32.toNat_inj]
  | _ => simp [Use.Adds, Use.amount?]

theorem amount_lt (ha : u.amount? = some a) : a < 2 ^ 32 := by
  cases u with
  | call operation args =>
    rw [Use.amount?] at ha
    split_ifs at ha
    unfold countOf? at ha
    split at ha
    · split_ifs at ha with hn
      cases ha
      omega
    · cases ha
  | increment amount =>
    cases ha
    exact amount.toNat_lt
  | _ => cases ha

theorem exists_adds (hu : u.InRange) (ha : u.amount? = some a) : ∃ n : UInt32, u.Adds n := by
  have hto : (UInt32.ofNat a).toNat = a := UInt32.toNat_ofNat_of_lt' (amount_lt ha)
  exact ⟨UInt32.ofNat a, (adds_iff hu).2 (by rw [hto, ha])⟩

theorem amount?_eq_none (h : ¬ u.IsIncrement) : u.amount? = none := by
  cases u with
  | call operation args => exact if_neg h
  | increment amount => exact absurd trivial h
  | _ => rfl

/-- An increment adds something just if it is given one whole number that fits into 32 bits without sign. -/
theorem exists_amount_iff {args : List Json} :
    (∃ a, (Use.call "increment" args).amount? = some a) ↔ ∃ n : Nat, n < 2 ^ 32 ∧ args = [.int n] := by
  constructor
  · rintro ⟨a, ha⟩
    rw [Use.amount?, if_pos rfl] at ha
    unfold countOf? at ha
    split at ha
    · rename_i n
      split_ifs at ha with hn
      refine ⟨n.toNat, by omega, ?_⟩
      rw [Int.toNat_of_nonneg hn.1]
    · cases ha
  · rintro ⟨n, hn, rfl⟩
    refine ⟨n, ?_⟩
    rw [Use.amount?, if_pos rfl, countOf?, if_pos (by omega), Int.toNat_natCast]

/-- **What a use adds** is seen in the answer and in the counter, and an increment succeeds just if it adds
something. -/
theorem counted (r : Record) (hu : u.InRange) :
    (r.use u).2.counter.toInt = countedUp r.counter.toInt u.amount?.toList ∧
      (∀ a, u.amount? = some a → (r.use u).1 = .ok (some (.int (countedUp r.counter.toInt [a])))) ∧
      (u.IsIncrement → ((∃ v, (r.use u).1 = .ok v) ↔ ∃ a, u.amount? = some a)) := by
  have hused := r.used u
  generalize r.use u = x at hused
  -- where nothing is added
  have hnone : u.amount? = none → ∀ r' : Record, r'.counter = r.counter →
      r'.counter.toInt = countedUp r.counter.toInt u.amount?.toList := by
    intro hnone r' hr'
    rw [hnone, hr']
    exact (countedUp_nil r.counter).symm
  cases hused with
  | fails he hnot =>
    have hamount : u.amount? = none := by
      refine Option.eq_none_iff_forall_ne_some.2 fun a ha => ?_
      obtain ⟨n, hn⟩ := exists_adds hu ha
      exact hnot n hn
    exact ⟨hnone hamount r rfl, by simp [hamount], by simp [hamount]⟩
  | shows v hnot =>
    have hamount := amount?_eq_none hnot
    exact ⟨hnone hamount r rfl, by simp [hamount], fun h => absurd h hnot⟩
  | relabels answer h hnot =>
    have hamount := amount?_eq_none hnot
    exact ⟨hnone hamount _ rfl, by simp [hamount], fun h => absurd h hnot⟩
  | @counts n h =>
    have hamount := (adds_iff hu).1 h
    rw [hamount]
    refine ⟨counter_increment r n, ?_, by simp⟩
    rintro a ⟨⟩
    rw [counter_increment]

/-- **The counter after uses.** -/
theorem counter_useAll (r : Record) {us : List Use} (hus : ∀ u ∈ us, u.InRange) :
    (r.useAll us).counter.toInt = countedUp r.counter.toInt (us.filterMap Use.amount?) := by
  induction us generalizing r with
  | nil => exact (countedUp_nil r.counter).symm
  | cons u us ih =>
    obtain ⟨hu, hus⟩ := List.forall_mem_cons.1 hus
    have hrest := ih (r.use u).2 hus
    rw [(r.counted hu).1, countedUp_append] at hrest
    rw [List.filterMap_cons]
    rcases ha : u.amount? with _ | a <;> rw [ha] at hrest <;> exact hrest

/-- **The answer to a use after uses**, if it is an increment. -/
theorem answer_useAll (r : Record) {us : List Use} (hus : ∀ u ∈ us, u.InRange) (hu : u.InRange) :
    (∀ args, u = .call "increment" args →
      ((∃ v, ((r.useAll us).use u).1 = .ok v) ↔ ∃ n : Nat, n < 2 ^ 32 ∧ args = [.int n])) ∧
    ∀ a, u.amount? = some a → ((r.useAll us).use u).1 =
      .ok (some (.int (countedUp r.counter.toInt (us.filterMap Use.amount? ++ [a])))) := by
  obtain ⟨-, hanswer, hsuccess⟩ := (r.useAll us).counted hu
  refine ⟨?_, fun a ha => ?_⟩
  · rintro args rfl
    rw [hsuccess rfl, exists_amount_iff]
  · rw [hanswer a ha, counter_useAll r hus, countedUp_append]

end Record

end Handoff
