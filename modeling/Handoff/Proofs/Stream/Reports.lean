import Handoff.Proofs.Stream.Delivery
import Mathlib.Data.List.Forall2

/-! # What is reported of a stream

A stream that has ended holds its signals and nothing comes after them. To drive it is to tell the items
before the first last signal, and then once how the stream ended: as that signal says, or truncated if there
is none. What stands after a last signal is never told.

* `Report`, `Report.IsOf`: the items of a stream and how it ended; `Report.ofSignals` finds them.
* `driveWith`: the loop that drives a stream, for any subscriber; `drive_eq` is the one for logs.
* `driveWith_eq`: any subscriber is told just the calls of the report.
* `driveEach_eq_reports`: streams that are driven one after another, all into one log (`Reported`, `AddsUp`).
-/

namespace Handoff

variable {α : Type}

/-- The fault with which a stream ended, if it was not completed. -/
def Ending.fault? : Ending → Option StreamFault
  | complete => none
  | error e => some e
  | drop => some .truncated

@[simp] theorem Ending.fault?_complete : complete.fault? = none := rfl

@[simp] theorem Ending.fault?_error (e : StreamFault) : (error e).fault? = some e := rfl

@[simp] theorem Ending.fault?_drop : drop.fault? = some .truncated := rfl

/-- **What there is to report of a stream.** -/
structure Report (α : Type) where
  items : List α
  ending : Ending

namespace Report

/-- **What is told**: the items in their order, and then once how the stream ended. -/
def calls (r : Report α) : List (Signal α) := r.items.map .next ++ [r.ending.call]

/-- The summary that is due. -/
def summary (r : Report α) : Summary := ⟨r.items.length, r.ending = .complete, r.ending ≠ .complete⟩

/-- **The report is of the stream that holds these signals**: its items stand before the first last signal,
and the stream ended with that signal, or without one. -/
def IsOf (r : Report α) (signals : List (Signal α)) : Prop :=
  ∃ rest, signals = r.items.map .next ++ rest ∧ rest.head? = r.ending.signal?

/-- The report with one more item in front. -/
def cons (a : α) (r : Report α) : Report α := { r with items := a :: r.items }

/-- **The report of a stream that holds these signals.** -/
def ofSignals : List (Signal α) → Report α
  | [] => ⟨[], .drop⟩
  | .next a :: signals => (ofSignals signals).cons a
  | .complete :: _ => ⟨[], .complete⟩
  | .error e :: _ => ⟨[], .error e⟩

theorem ofSignals_isOf (signals : List (Signal α)) : (ofSignals signals).IsOf signals := by
  induction signals with
  | nil => exact ⟨[], rfl, rfl⟩
  | cons s signals ih =>
    cases s with
    | next a =>
      obtain ⟨rest, hsignals, hrest⟩ := ih
      exact ⟨rest, congrArg (Signal.next a :: ·) hsignals, hrest⟩
    | complete => exact ⟨.complete :: signals, rfl, rfl⟩
    | error e => exact ⟨.error e :: signals, rfl, rfl⟩

/-- **A stream ended without a last signal** if and only if it holds none. -/
theorem IsOf.drop_iff {r : Report α} {signals : List (Signal α)} (h : r.IsOf signals) :
    r.ending = .drop ↔ ∀ s ∈ signals, s.isLast = false := by
  obtain ⟨rest, rfl, hrest⟩ := h
  have hitems : ∀ s ∈ r.items.map Signal.next, s.isLast = false := by
    intro s hs
    obtain ⟨a, -, rfl⟩ := List.mem_map.1 hs
    rfl
  rw [List.forall_mem_append, and_iff_right hitems]
  cases hending : r.ending <;> rw [hending] at hrest
  case drop =>
    rw [List.head?_eq_none_iff.1 hrest]
    simp
  case complete | error =>
    obtain ⟨rest', rfl⟩ := List.head?_eq_some_iff.1 hrest
    simp [Signal.isLast]

end Report

/-! ### One stream -/

/-- **The loop that drives a stream which has ended**, for a subscriber that is any state and becomes another
one when it is told a signal. -/
def driveWith {σ : Type} (tell : σ → Signal α → σ) (l : σ) (m : Summary) : List (Signal α) → σ × Summary
  | [] => (tell l (.error .truncated), m.count (.error .truncated : Signal α))
  | s :: signals =>
    if s.isLast then (tell l s, m.count s) else driveWith tell (tell l s) (m.count s) signals

/-- **Any subscriber is told just the calls of the report**, in their order, and they are what is counted. -/
theorem driveWith_eq_foldl {σ : Type} (tell : σ → Signal α → σ) (l : σ) (m : Summary)
    (signals : List (Signal α)) :
    driveWith tell l m signals =
      ((Report.ofSignals signals).calls.foldl tell l, (Report.ofSignals signals).calls.foldl .count m) := by
  induction signals generalizing l m with
  | nil => rfl
  | cons s signals ih =>
    cases s with
    | next a => exact ih (tell l (.next a)) (m.count (.next a))
    | complete => rfl
    | error e => rfl

theorem Report.foldl_count_calls (r : Report α) : r.calls.foldl .count {} = r.summary := by
  rw [calls, List.foldl_append, Exchange.foldl_count_items]
  cases he : r.ending <;> simp [summary, Summary.count, Ending.call, he]

theorem driveWith_eq {σ : Type} (tell : σ → Signal α → σ) (l : σ) (signals : List (Signal α)) :
    driveWith tell l {} signals =
      ((Report.ofSignals signals).calls.foldl tell l, (Report.ofSignals signals).summary) := by
  rw [driveWith_eq_foldl, Report.foldl_count_calls]

/-- To drive a stream into a log is to drive it with the log as its subscriber. -/
theorem Drive.close_hearAll (d : Drive α) (hd : d.summary.isOver = false) (signals : List (Signal α)) :
    (d.hearAll signals).close =
      ⟨(driveWith Log.tell d.log d.summary signals).1, (driveWith Log.tell d.log d.summary signals).2⟩ := by
  induction signals generalizing d with
  | nil => simp [hearAll, close, hd, hear, driveWith]
  | cons s signals ih =>
    rw [hearAll, driveWith]
    cases s with
    | next a => exact ih (d.hear (.next a)) hd
    | complete | error e => simp [Signal.isLast, close, hear, Summary.count, Summary.isOver]

theorem drive_eq (l : Log α) (signals : List (Signal α)) :
    drive l signals false =
      ⟨(Report.ofSignals signals).calls.foldl .tell l, (Report.ofSignals signals).summary⟩ := by
  have hclose := (Drive.start l).close_hearAll rfl signals
  rw [Drive.start, driveWith_eq] at hclose
  exact hclose

/-! ### Streams one after another -/

/-- **The stream has ended**: it is there, and nothing comes after what it holds. -/
def Channel.HasEnded (c : Channel α) : Prop :=
  c.receiver ≠ .dropped ∧ ¬ (c.emitting = true ∧ c.receiver = .listening)

theorem Channel.HasEnded.drive?_eq {c : Channel α} (h : c.HasEnded) (l : Log α) :
    c.drive? l = some (⟨(Report.ofSignals c.queue).calls.foldl .tell l, (Report.ofSignals c.queue).summary⟩,
      c.withoutStream) := by
  unfold Channel.drive?
  rw [if_neg h.1, decide_eq_false h.2]
  exact congrArg (fun d => some (d, c.withoutStream)) (drive_eq l c.queue)

/-- **Drives streams one after another**, all into one log: their summaries, and the log afterwards. Nothing is
driven if one of them is gone. -/
def driveEach? (l : Log α) : List (Channel α) → Option (List Summary × Log α)
  | [] => some ([], l)
  | c :: cs =>
    (c.drive? l).bind fun d => (driveEach? d.1.log cs).map fun r => (d.1.summary :: r.1, r.2)

/-- **The log and the summaries add up** to these reports. -/
structure AddsUp (rs : List (Report α)) (ms : List Summary) (l : Log α) : Prop where
  summaries : ms = rs.map Report.summary
  received : l.received.toList = rs.flatMap Report.items
  completions : l.completions = (ms.filter Summary.completed).length
  errors : l.errors.toList = rs.filterMap fun r => r.ending.fault?
  total : l.completions + l.errors.size = rs.length

theorem Report.foldl_tell_calls (r : Report α) (l : Log α) :
    r.calls.foldl .tell l =
      ⟨l.received ++ r.items, l.completions + if r.ending = .complete then 1 else 0,
        l.errors ++ r.ending.fault?.toList⟩ := by
  rw [calls, List.foldl_append, Exchange.foldl_tell_items]
  cases he : r.ending <;> simp [Log.tell, Ending.call]

/-- What streams that have ended add to a log. -/
theorem driveEach?_eq (cs : List (Channel α)) (h : ∀ c ∈ cs, c.HasEnded) (l : Log α) :
    let rs := cs.map fun c => Report.ofSignals c.queue
    driveEach? l cs = some (rs.map Report.summary,
      ⟨l.received ++ rs.flatMap Report.items, l.completions + (rs.filter (·.ending = .complete)).length,
        l.errors ++ rs.filterMap fun r => r.ending.fault?⟩) := by
  induction cs generalizing l with
  | nil => simp [driveEach?]
  | cons c cs ih =>
    obtain ⟨hc, hcs⟩ := List.forall_mem_cons.1 h
    rw [driveEach?, hc.drive?_eq, Option.bind_some, ih hcs, Report.foldl_tell_calls]
    have hassoc : ∀ as bs : List α, l.received ++ as ++ bs = l.received ++ (as ++ bs) := fun as bs =>
      Array.toList_inj.1 (by simp)
    cases he : (Report.ofSignals c.queue).ending <;> simp [he, hassoc, Nat.add_assoc, Nat.add_comm 1]

/-- Of streams each is completed or has a fault. -/
theorem length_completed_add_faults (rs : List (Report α)) :
    (rs.filter (·.ending = .complete)).length + (rs.filterMap fun r => r.ending.fault?).length = rs.length := by
  induction rs with
  | nil => rfl
  | cons r rs ih => cases he : r.ending <;> simp [he] <;> omega

/-- **The stream of a channel is reported**: whoever the subscriber is, it is told the calls of the report and
nothing else, a log among them, and the summary says the same. -/
structure Reported (c : Channel α) (r : Report α) : Prop where
  isOf : r.IsOf c.queue
  truncated : r.ending = .drop ↔ ∀ s ∈ c.queue, s.isLast = false
  told : ∀ (σ : Type) (tell : σ → Signal α → σ) (l : σ),
    driveWith tell l {} c.queue = (r.calls.foldl tell l, r.summary)
  logged : ∀ l, c.drive? l = some (⟨(driveWith .tell l {} c.queue).1, r.summary⟩, c.withoutStream)

theorem Channel.HasEnded.reported {c : Channel α} (h : c.HasEnded) :
    Reported c (Report.ofSignals c.queue) where
  isOf := Report.ofSignals_isOf c.queue
  truncated := (Report.ofSignals_isOf c.queue).drop_iff
  told _ tell l := driveWith_eq tell l c.queue
  logged l := by rw [h.drive?_eq, driveWith_eq]

/-- **Each drive tells the items before the first last signal and then one end**, whatever its stream holds.
Streams that are driven one after another add up in the log. -/
theorem driveEach_eq_reports (cs : List (Channel α)) (h : ∀ c ∈ cs, c.HasEnded) :
    ∃ rs ms l, List.Forall₂ Reported cs rs ∧ driveEach? {} cs = some (ms, l) ∧ AddsUp rs ms l := by
  refine ⟨cs.map fun c => Report.ofSignals c.queue, _, _, ?_, driveEach?_eq cs h {}, ?_⟩
  · exact List.forall₂_map_right_iff.2 (List.forall₂_same.2 fun c hc => (h c hc).reported)
  · generalize cs.map (fun c => Report.ofSignals c.queue) = rs
    refine ⟨rfl, by simp, ?_, by simp, ?_⟩
    · rw [List.filter_map, List.length_map]
      simp [Function.comp_def, Report.summary]
    · simpa using length_completed_add_faults rs

/-- A stream with signals after its completion, one that was closed while its emitter was held, and one that
failed at once. -/
def threeStreams : List (Channel Nat) :=
  [⟨4, [.next 1, .next 2, .complete, .next 9], false, .listening⟩, ⟨1, [.next 3], true, .closed⟩,
    ⟨2, [.error (.producer "no more")], false, .listening⟩]

/-- They have three ends together, one of them a completion, and what stands after that is not told. -/
theorem driveEach_eq_reports_threeStreams : (∀ c ∈ threeStreams, c.HasEnded) ∧
    ∃ rs ms l, List.Forall₂ Reported threeStreams rs ∧ driveEach? {} threeStreams = some (ms, l) ∧
      l = ⟨#[1, 2, 3], 1, #[.truncated, .producer "no more"]⟩ ∧ rs.length = 3 := by
  have h : ∀ c ∈ threeStreams, c.HasEnded := by simp [threeStreams, Channel.HasEnded]
  obtain ⟨rs, ms, l, hrs, hdrive, hadds⟩ := driveEach_eq_reports threeStreams h
  have hl : l = ⟨#[1, 2, 3], 1, #[.truncated, .producer "no more"]⟩ := by
    cases hdrive
    rfl
  refine ⟨h, rs, ms, l, hrs, hdrive, hl, ?_⟩
  rw [← hadds.total, hl]
  rfl

end Handoff
