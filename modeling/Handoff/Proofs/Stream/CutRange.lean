import Handoff.Proofs.Stream.Cutting

/-! # A range cut at any point

The range publisher with any number of reads before the rest is driven, or the stream dropped. The first reads are
the items and the completion, in their order, and the rest is what was not read: where the completion was read, too,
that is nothing but a truncated stream.

* `Script.rangeAnswer`: what each read is answered.
* `Exchange.Rest`: what is driven after the reads.
* `Exchange.RangeCut`: all that holds at any time.
* `Exchange.publishRange?_cut`: it holds in every run, for every count, capacity and number of reads.
-/

namespace Handoff

/-- What the `i`-th read of a range is answered. -/
def Script.rangeAnswer (count i : Nat) : Answer Nat :=
  if i < count then .signal (.next i) else if i = count then .signal .complete else .closed

theorem Script.signals_range (count : Nat) :
    (Script.range count).signals = (List.range count).map .next ++ [.complete] := rfl

theorem Script.answer_range (count i : Nat) : (Script.range count).answer i = rangeAnswer count i := by
  rw [answer, signals_range, rangeAnswer]
  rcases Nat.lt_trichotomy i count with h | rfl | h
  · rw [if_pos h, List.getElem?_append_left (by simpa using h)]
    simp [h]
  · simp
  · rw [if_neg (by omega), if_neg (by omega), List.getElem?_eq_none (by simpa using Nat.succ_le_of_lt h)]

/-- What there is to report where items stand in front. -/
theorem Report.ofSignals_append {α : Type} (items : List α) (signals : List (Signal α)) :
    ofSignals (items.map .next ++ signals) = ⟨items ++ (ofSignals signals).items, (ofSignals signals).ending⟩ := by
  induction items with
  | nil => rfl
  | cons a items ih => exact congrArg (Report.cons a) ih

/-- **What is left of a range** after so many reads: the other items and the completion. -/
theorem Report.ofSignals_range_of_le {count reads : Nat} (h : reads ≤ count) :
    ofSignals ((Script.range count).signals.drop reads) = ⟨List.range' reads (count - reads), .complete⟩ := by
  have hdrop : (List.range count).drop reads = List.range' reads (count - reads) := by
    rw [List.range_eq_range', List.drop_range', Nat.zero_add, Nat.mul_one]
  rw [Script.signals_range, List.drop_append_of_le_length (by simpa using h), ← List.map_drop, hdrop,
    ofSignals_append]
  simp [ofSignals]

/-- Nothing is left where the completion was read. -/
theorem Report.ofSignals_range_of_lt {count reads : Nat} (h : count < reads) :
    ofSignals ((Script.range count).signals.drop reads) = ⟨[], .drop⟩ := by
  rw [List.drop_eq_nil_iff.2 (by simpa [Script.signals_range] using Nat.succ_le_of_lt h)]
  rfl

namespace Exchange

/-- **What is driven of a range** after so many reads. -/
def Rest (count reads : Nat) : Drive Nat :=
  if reads ≤ count then ⟨⟨(List.range' reads (count - reads)).toArray, 1, #[]⟩, ⟨count - reads, true, false⟩⟩
  else ⟨⟨#[], 0, #[.truncated]⟩, ⟨0, false, true⟩⟩

/-- **A range of which so many signals are read first**, at any time. -/
structure RangeCut (count capacity reads : Nat) (dropping : Bool) (x : Exchange Nat) : Prop where
  bounded : x.channel.queue.length ≤ max capacity 1
  taken_le : x.taken.size ≤ reads
  /-- The reads are the items, the completion, and then the end of the stream. -/
  taken : x.taken.toList = (List.range x.taken.size).map (Script.rangeAnswer count)
  sent_le : x.sent ≤ count
  /-- What the consumer has got are the first items that were accepted … -/
  itemsRead : x.itemsRead <+: List.range x.sent
  /-- … and all of them but as many as there is room for. -/
  backlog : x.sent ≤ x.itemsRead.length + max capacity 1
  /-- As long as not both tasks are done, one of them has a step. -/
  goesOn : (∃ y, x.Step y) ∨
    x.producing = false ∧ if dropping then x.consumer = .left else ∃ m, x.consumer = .finished m
  finished : ∀ m, x.consumer = .finished m → x.taken.size = reads ∧ ⟨x.log, m⟩ = Rest count reads
  left : x.consumer = .left → x.taken.size = reads ∧ x.log = {} ∧ x.Abandoned

section

variable {count capacity reads : Nat} {l : List (Signal Nat)} {x : Exchange Nat}

theorem Cut.taken_le (h : Cut (.range count) capacity reads l x) : x.taken.size ≤ reads := by
  have hc := h.consumer
  generalize x.consumer = c at hc
  cases hc with
  | reads hk => omega
  | drives hk | served hk | left hk => exact Nat.le_of_eq hk

/-- Where the consumer is finished, it has driven the rest. -/
theorem Cut.rest (h : Cut (.range count) capacity reads l x) {m : Summary} (hm : x.consumer = .finished m) :
    x.taken.size = reads ∧ ⟨x.log, m⟩ = Rest count reads := by
  have hc := h.consumer
  have hlog := h.log
  rw [hm] at hc
  cases hc with
  | served hk _ hm' hl _ =>
    refine ⟨hk, ?_⟩
    rw [hlog, hm', hl, h.same, Report.foldl_tell_calls, Report.foldl_count_calls, Rest]
    by_cases hle : reads ≤ count
    · rw [if_pos hle, Report.ofSignals_range_of_le hle]
      simp [Report.summary]
    · rw [if_neg hle, Report.ofSignals_range_of_lt (Nat.lt_of_not_le hle)]
      rfl

theorem Cut.rangeCut (h : Cut (.range count) capacity reads l x) :
    RangeCut count capacity reads x.dropping x where
  bounded := h.bounded
  taken_le := h.taken_le
  taken := by
    have hanswer : (Script.range count).answer = Script.rangeAnswer count := funext (Script.answer_range count)
    rw [h.taken, h.same, hanswer]
  sent_le := by have hle := h.sent_le; rwa [h.same] at hle
  itemsRead := by have hp := h.itemsRead; rw [h.same] at hp; rwa [← List.map_id (List.range x.sent)]
  backlog := h.backlog
  goesOn := h.exists_step
  finished _ hm := h.rest hm
  left hx := by
    have hc := h.consumer
    have hlog := h.log
    rw [hx] at hc
    cases hc with
    | left hk _ hl hr hq => exact ⟨hk, by rw [hlog, hl]; rfl, abandoned_of_left hx (by rw [hr]; decide) hq⟩

end

/-- **A range may be cut at any point.** Whatever the count, the capacity, the number of reads and the
interleaving: the reads are the first signals of the range and then the end of the stream, the producer is ahead by
no more items than there is room for, and every run ends. The rest is driven just as it was left; or it is
dropped, and then nothing more is accepted and the producer stops. -/
theorem publishRange?_cut (count capacity reads : Nat) (dropping : Bool) (h : capacity ≤ Channel.maxCapacity) :
    ∃ x₀, publishRange? count capacity reads dropping = some x₀ ∧ ∀ n l x, x₀.Run n l x →
      n ≤ 2 * count + reads + 4 ∧ RangeCut count capacity reads dropping x := by
  obtain ⟨c, hc⟩ := (Channel.exists_open?_iff (α := Nat)).2 h
  refine ⟨_, by rw [publishRange?, hc]; rfl, fun n l x hr => ⟨?_, ?_⟩⟩
  · have hle := hr.add_weight_le
    obtain ⟨-, rfl⟩ := Channel.open?_eq_some_iff.1 hc
    simp only [weight, start, Consumer.weight, Script.range, List.length_nil, if_true] at hle
    omega
  · have hcut := (hr.cut hc).rangeCut
    rwa [hr.dropping_eq] at hcut

/-- Three items over the least channel: one is read and the next one queued, and then the stream is dropped while the
producer waits with the third. -/
theorem publishRange?_cut_waitingProducer : 0 ≤ Channel.maxCapacity ∧ ∃ x₀ n l x,
    publishRange? 3 0 1 true = some x₀ ∧ x₀.Run n l x ∧ n = 4 ∧ x.consumer = .left ∧ x.producing = true ∧
      x.sent = 2 ∧ x.taken = #[.signal (.next 0)] ∧ x.Abandoned := by
  obtain ⟨x₀, hx₀, h⟩ := publishRange?_cut 3 0 1 true (Nat.zero_le _)
  cases hx₀
  have hrun := ((((Run.refl (x := start (.range 3) ⟨1, [], true, .listening⟩ 1 true)).produced rfl).consumed
    rfl).produced rfl).consumed rfl
  exact ⟨Nat.zero_le _, _, _, _, _, rfl, hrun, rfl, rfl, rfl, rfl, rfl, ((h _ _ _ hrun).2.left rfl).2.2⟩

end Exchange

end Handoff
