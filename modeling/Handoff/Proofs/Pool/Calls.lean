import Handoff.Proofs.Pool.Turn

/-! # Programs that use pools by calls

Clients and jobs do not close an intake or move a pool on to another phase by themselves. They call
`Program.shutdown`, `Program.awaitTermination` and `Program.letGo`, and other threads act in between the
instructions of such a call. What matters for the life of a pool is one thing about the calls: a pool is
moved on to terminated only right after all its workers were seen to be gone.

* `Program.Calls`: the programs that are made of calls.
* `Program.Careful`: a program marks a pool as terminated only right after it has seen its end.
* `Calls.careful`, `Careful.after`: programs made of calls are careful, and stay so.
-/

namespace Handoff.Pool

variable {ν : Type}

namespace Program

/-- **A program that uses pools by calls**, and offers only such programs as jobs. What it ends with can be
disposed of. -/
inductive Calls : Program ν → Prop where
  | finish {e : Ending ν} (he : e.IsDisposable) : Calls (.finish e)
  | submit {p : Nat} {holds : List Nat} {job : Program ν} {next : Except Failure Nat → Program ν}
      (hj : Calls job) (hn : ∀ r, Calls (next r)) : Calls (.submit p holds job next)
  | receive {t : Nat} {limit : Option Duration} {next : Except Failure ν → Program ν}
      (hn : ∀ r, Calls (next r)) : Calls (.receive t limit next)
  | discard {t : Nat} {next : Bool → Program ν} (hn : ∀ b, Calls (next b)) : Calls (.discard t next)
  | shutdown {p : Nat} {next : Program ν} (hn : Calls next) : Calls (shutdown p next)
  | awaitTermination {p : Nat} {limit : Option Duration} {next : Bool → Program ν}
      (hn : ∀ b, Calls (next b)) : Calls (awaitTermination p limit next)
  | readPhase {p : Nat} {next : Phase → Program ν} (hn : ∀ f, Calls (next f)) :
      Calls (.readPhase p next)
  | awaitCount {p n : Nat} {limit : Option Duration} {next : Nat → Program ν}
      (hn : ∀ n, Calls (next n)) : Calls (.awaitCount p n limit next)
  | retain {p : Nat} {next : Program ν} (hn : Calls next) : Calls (.retain p next)
  | letGo {p : Nat} {next : Program ν} (hn : Calls next) : Calls (letGo p next)
  | openGate {g : String} {next : Program ν} (hn : Calls next) : Calls (.openGate g next)
  | awaitGate {g : String} {next : Program ν} (hn : Calls next) : Calls (.awaitGate g next)
  | record {v : ν} {next : Program ν} (hn : Calls next) : Calls (.record v next)
  | threadName {next : Option String → Program ν} (hn : ∀ s, Calls (next s)) :
      Calls (.threadName next)

/-- A program that marks a pool as terminated only right after it has seen all its workers gone. `seen`
is the pool of which it has just seen this. -/
def Careful : Option Nat → Program ν → Prop
  | _, finish _ => True
  | _, submit _ _ job next => job.Careful none ∧ ∀ r, (next r).Careful none
  | _, receive _ _ next => ∀ r, (next r).Careful none
  | _, discard _ next => ∀ b, (next b).Careful none
  | _, closeIntake _ next => ∀ b, (next b).Careful none
  | _, markShuttingDown _ next => next.Careful none
  | _, mayAwait _ next => ∀ b, (next b).Careful none
  | _, awaitExit p _ next => (next true).Careful (some p) ∧ (next false).Careful none
  | seen, markTerminated p next => seen = some p ∧ next.Careful none
  | _, readPhase _ next => ∀ f, (next f).Careful none
  | _, awaitCount _ _ _ next => ∀ n, (next n).Careful none
  | _, retain _ next => next.Careful none
  | _, release _ next => ∀ b, (next b).Careful none
  | _, openGate _ next => next.Careful none
  | _, awaitGate _ next => next.Careful none
  | _, record _ next => next.Careful none
  | _, threadName next => ∀ s, (next s).Careful none

/-- What is left of a careful program is careful, and it has just seen the end of a pool only if that
was the answer. -/
theorem Careful.after {f g : Program ν} {seen : Option Nat} {a : Answer ν} (h : f.Careful seen)
    (ha : f.after? a = some g) :
    g.Careful none ∨
      ∃ p limit next, f = .awaitExit p limit next ∧ a = .flag true ∧ g.Careful (some p) := by
  cases f <;> cases a <;> simp only [after?, reduceCtorEq, Option.some.injEq] at ha <;> subst ha
  case awaitExit.flag b =>
    cases b
    · exact Or.inl h.2
    · exact Or.inr ⟨_, _, _, rfl, rfl, h.1⟩
  case submit => exact Or.inl (h.2 _)
  case markTerminated => exact Or.inl h.2
  all_goals first | exact Or.inl (h _) | exact Or.inl h

theorem Careful.shutdown {p : Nat} {next : Program ν} (h : next.Careful none) :
    (Program.shutdown p next).Careful none := by
  rintro (_ | _)
  · exact h
  · exact h

theorem Careful.awaitTermination {p : Nat} {limit : Option Duration} {next : Bool → Program ν}
    (h : ∀ b, (next b).Careful none) : (Program.awaitTermination p limit next).Careful none := by
  rintro (_ | _)
  · exact h false
  · exact ⟨⟨rfl, h true⟩, h false⟩

theorem Careful.letGo {p : Nat} {next : Program ν} (h : next.Careful none) :
    (Program.letGo p next).Careful none := by
  have hdown : (Program.shutdownAndWait p fun _ => next).Careful none :=
    .shutdown (.awaitTermination fun _ => h)
  rintro (_ | _)
  · exact h
  · rintro (_ | _ | _)
    · exact hdown
    · exact hdown
    · exact h

/-- **Programs made of calls are careful.** -/
theorem Calls.careful {f : Program ν} (h : f.Calls) : f.Careful none := by
  induction h with
  | finish => trivial
  | submit _ _ ihj ihn => exact ⟨ihj, ihn⟩
  | shutdown _ ih => exact .shutdown ih
  | awaitTermination _ ih => exact .awaitTermination ih
  | letGo _ ih => exact .letGo ih
  | receive _ ih | discard _ ih | readPhase _ ih | awaitCount _ ih | threadName _ ih => exact ih
  | retain _ ih | openGate _ ih | awaitGate _ ih | record _ ih => exact ih

theorem Calls.harmless {f : Program ν} (h : f.Calls) : f.Harmless := by
  induction h with
  | finish he => exact he
  | submit _ _ ihj ihn => exact ⟨ihj, ihn⟩
  | shutdown _ ih => exact .shutdown ih
  | awaitTermination _ ih => exact .awaitTermination ih
  | letGo _ ih => exact .letGo ih
  | receive _ ih | discard _ ih | readPhase _ ih | awaitCount _ ih | threadName _ ih => exact ih
  | retain _ ih | openGate _ ih | awaitGate _ ih | record _ ih => exact ih

theorem calls_yield (v : ν) : (yield v).Calls := .finish trivial

theorem Calls.forget {t : Nat} {next : Program ν} (h : next.Calls) : (Program.forget t next).Calls := by
  refine .discard fun disposed => ?_
  cases disposed
  · exact .finish Payload.noConfusion
  · exact h

theorem Calls.join {t : Nat} {limit : Option Duration} {next : Except Failure ν → Program ν}
    (h : ∀ r, (next r).Calls) : (Program.join t limit next).Calls := by
  refine .receive fun r => ?_
  split
  · exact .forget (h _)
  · exact h r

theorem Calls.shutdownAndWait {p : Nat} {next : Bool → Program ν} (h : ∀ b, (next b).Calls) :
    (Program.shutdownAndWait p next).Calls :=
  .shutdown (.awaitTermination h)

end Program

end Handoff.Pool
