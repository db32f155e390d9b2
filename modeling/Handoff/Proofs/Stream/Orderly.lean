import Handoff.Proofs.Stream.Operations

/-! # One operation after another on a channel

The ends of a channel are used in any order, each operation being tried once and without waiting. What
was done is read off the transcript, which holds every operation with its answer.

* `Channel.Orderly`: a channel after operations. Nothing is lost, doubled or overtaken, the capacity is
  kept, and no signal follows a last one.
* `Channel.Answers`: what the next operation is answered, in terms of the operations before it.
* `Channel.orderly_applyAll`: both hold after all operations, for every capacity.
-/

namespace Handoff

variable {α : Type}

namespace Channel

/-! ### What all operations keep -/

/-- **A channel after operations**, the first of which found it as `c`: nothing is lost, doubled or
overtaken, the capacity is kept, and no signal follows a last one. -/
structure Orderly (capacity : Nat) (c : Channel α) (os : List (Operation α)) : Prop where
  size : (c.after os).capacity = max capacity 1
  /-- No more signals are queued than the capacity allows. -/
  bounded : (c.after os).queue.length ≤ max capacity 1
  /-- The emitter is there until an operation has used it up. -/
  emitting : (c.after os).emitting = true ↔ ∀ o ∈ os, ¬ o.UsesUp
  /-- Signals are taken until an operation has stopped that. -/
  listening : (c.after os).receiver = .listening ↔ ∀ o ∈ os, ¬ o.Stops
  dropped : (c.after os).receiver = .dropped ↔ .dropStream ∈ os
  /-- Until the stream is dropped, what was read and what is queued is what was accepted. -/
  conserved : .dropStream ∉ os →
    received (c.transcript os) ++ (c.after os).queue = accepted (c.transcript os)
  /-- What was read is what was accepted first. -/
  prefixed : received (c.transcript os) <+: accepted (c.transcript os)
  /-- Items come first, and at most one last signal after them; none as long as there is an
  emitter. -/
  shape : ∃ (items : List α) (last : Option (Signal α)),
    accepted (c.transcript os) = items.map .next ++ last.toList ∧
      (∀ s ∈ last, s.isLast = true) ∧ ((c.after os).emitting = true → last = none)
  /-- Where the stream is gone, nothing is queued. -/
  emptied : (c.after os).receiver = .dropped → (c.after os).queue = []

section

variable {capacity : Nat} {c : Channel α} {os : List (Operation α)} {o : Operation α}

theorem after_concat : c.after (os ++ [o]) = ((c.after os).apply o).2 := after_append c os [o]

theorem transcript_concat :
    c.transcript (os ++ [o]) = c.transcript os ++ [(o, ((c.after os).apply o).1)] :=
  transcript_append c os [o]

theorem accepted_append (h k : List (Operation α × Answer α)) :
    accepted (h ++ k) = accepted h ++ accepted k := List.filterMap_append

theorem received_append (h k : List (Operation α × Answer α)) :
    received (h ++ k) = received h ++ received k := List.filterMap_append

theorem accepted_singleton (e : Operation α × Answer α) : accepted [e] = (acceptedBy e).toList := by
  unfold accepted
  cases h : acceptedBy e <;> simp [h]

theorem received_singleton (e : Operation α × Answer α) : received [e] = (receivedBy e).toList := by
  unfold received
  cases h : receivedBy e <;> simp [h]

theorem forall_mem_concat {P : Operation α → Prop} :
    (∀ p ∈ os ++ [o], P p) ↔ (∀ p ∈ os, P p) ∧ P o := by
  simp [or_imp, forall_and]

theorem orderly_nil (hc : open? α capacity = some c) : Orderly capacity c [] := by
  unfold open? at hc
  split_ifs at hc
  cases hc
  exact {
    size := rfl
    bounded := Nat.zero_le _
    emitting := by simp
    listening := by simp
    dropped := by simp
    conserved := fun _ => rfl
    prefixed := List.prefix_rfl
    shape := ⟨[], none, rfl, by simp, fun _ => rfl⟩
    emptied := fun _ => rfl }

/-- Accepted signals keep their shape when an operation is tried. -/
theorem Orderly.shape_concat (h : Orderly capacity c os) : ∃ (items : List α) (last : Option (Signal α)),
    accepted (c.transcript (os ++ [o])) = items.map .next ++ last.toList ∧
      (∀ s ∈ last, s.isLast = true) ∧ ((c.after (os ++ [o])).emitting = true → last = none) := by
  have ht := tried_apply (c.after os) o
  obtain ⟨items, last, hacc, hlast, hopen⟩ := h.shape
  rw [transcript_concat, accepted_append, accepted_singleton, after_concat, hacc]
  cases hs : acceptedBy (o, ((c.after os).apply o).1) with
  | none => exact ⟨items, last, by simp, hlast, fun he => hopen (ht.emitting.1 he).1⟩
  | some s =>
    obtain ⟨he, he'⟩ := ht.of_acceptedBy hs
    rw [hopen he]
    cases s with
    | next x =>
      exact ⟨items ++ [x], none, by simp, by simp, fun _ => rfl⟩
    | complete | error e =>
      refine ⟨items, some _, by simp; rfl, by simp [Signal.isLast], fun hd => ?_⟩
      rw [he'] at hd
      cases hd

/-- **Every operation keeps a channel in order.** -/
theorem Orderly.concat (h : Orderly capacity c os) : Orderly capacity c (os ++ [o]) := by
  have ht := tried_apply (c.after os) o
  have hconserved : .dropStream ∉ os ++ [o] →
      received (c.transcript (os ++ [o])) ++ (c.after (os ++ [o])).queue =
        accepted (c.transcript (os ++ [o])) := by
    intro hnot
    obtain ⟨hos, ho⟩ : .dropStream ∉ os ∧ o ≠ .dropStream := by
      simpa [eq_comm] using hnot
    rw [after_concat, transcript_concat, accepted_append, received_append, accepted_singleton,
      received_singleton, ← h.conserved hos, List.append_assoc, ht.queue ho, List.append_assoc]
  refine {
    size := by rw [after_concat, ht.capacity, h.size]
    bounded := ?_
    emitting := by rw [after_concat, ht.emitting, h.emitting, forall_mem_concat]
    listening := by rw [after_concat, ht.listening, h.listening, forall_mem_concat]
    dropped := by rw [after_concat, ht.dropped, h.dropped]; simp [eq_comm]
    conserved := hconserved
    prefixed := ?_
    shape := h.shape_concat
    emptied := fun hr => ?_ }
  · have hb := ht.bounded (by rw [h.size]; exact h.bounded)
    rwa [ht.capacity, h.size, ← after_concat] at hb
  · by_cases hmem : .dropStream ∈ os ++ [o]
    · have hr : (c.after os).receiver = .dropped ∨ o = .dropStream := by
        rw [h.dropped]; simpa [eq_comm] using hmem
      have hl : (c.after os).receiver ≠ .listening ∨ o.Stops := by
        rcases hr with hr | rfl
        · exact .inl (by rw [hr]; simp)
        · exact .inr trivial
      rw [transcript_concat, accepted_append, received_append, accepted_singleton,
        received_singleton, ht.acceptedBy_eq_none hl, ht.receivedBy_eq_none hr]
      simpa using h.prefixed
    · exact ⟨_, hconserved hmem⟩
  · rw [after_concat] at hr ⊢
    exact ht.emptied h.emptied hr

theorem Orderly.append (h : Orderly capacity c os) (ps : List (Operation α)) :
    Orderly capacity c (os ++ ps) := by
  induction ps generalizing os with
  | nil => rwa [List.append_nil]
  | cons p ps ih =>
    have hp := ih (h.concat (o := p))
    rwa [List.append_assoc] at hp

/-! ### The next operation -/

/-- Where signals are no longer taken, none is accepted any more. -/
theorem accepted_transcript (hr : c.receiver ≠ .listening) : accepted (c.transcript os) = [] := by
  induction os generalizing c with
  | nil => rfl
  | cons o os ih =>
    have ht := tried_apply c o
    have hd : (c.apply o).2.receiver ≠ .listening := fun hd => hr (ht.listening.1 hd).1
    rw [transcript_cons, ← List.singleton_append, accepted_append, accepted_singleton,
      ht.acceptedBy_eq_none (.inl hr), ih hd]
    rfl

/-- **What was queued when the stream was closed is still read**, and only then is it at its end. -/
theorem applyAll_recv (hr : c.receiver = .closed) (n : Nat) :
    (c.applyAll (List.replicate (c.queue.length + n) .recv)).1 =
      c.queue.map .signal ++ List.replicate n .closed := by
  obtain ⟨k, q, e, r⟩ := c
  cases hr
  induction q with
  | cons s q ih =>
    rw [List.length_cons, Nat.add_right_comm, List.replicate_succ]
    exact congrArg (Answer.signal s :: ·) ih
  | nil =>
    rw [List.length_nil, Nat.zero_add]
    induction n with
    | zero => rfl
    | succ n ih =>
      have hclosed : (Channel.mk k ([] : List (Signal α)) e .closed).apply .recv =
          (.closed, ⟨k, [], e, .closed⟩) := by
        simp [apply, ifReadable, recv]
      rw [List.replicate_succ, applyAll, hclosed]
      exact congrArg (Answer.closed :: ·) ih

/-- **What the next operation is answered**, after operations the first of which found the channel
as `c`. -/
structure Answers (capacity : Nat) (c : Channel α) (os : List (Operation α)) : Prop where
  /-- A signal is accepted exactly if the emitter is live, the stream open and the queue not full. -/
  accepts : ∀ o : Operation α, o.signal?.isSome = true → (((c.after os).apply o).1 = .done ↔
    (∀ p ∈ os, ¬ p.UsesUp) ∧ (∀ p ∈ os, ¬ p.Stops) ∧
      (c.after os).queue.length < max capacity 1)
  /-- Once the stream was closed or dropped, a live emitter is refused every signal. -/
  refused : (∃ p ∈ os, p.Stops) → (∀ p ∈ os, ¬ p.UsesUp) →
    ∀ o : Operation α, o.signal?.isSome = true → ((c.after os).apply o).1 = .refused
  /-- From then on no signal is accepted. -/
  stopped : ∀ before p rest, os = before ++ p :: rest → p.Stops →
    accepted (c.transcript os) = accepted (c.transcript before)
  /-- What was queued when the stream was closed is still read. -/
  kept : .close ∈ os → .dropStream ∉ os → ∀ n,
    ((c.after os).applyAll (List.replicate ((c.after os).queue.length + n) .recv)).1 =
      (c.after os).queue.map .signal ++ List.replicate n .closed
  /-- A send has to wait only if the queue is full and the stream open. Then nothing is queued, and
  a last signal has used up the emitter all the same. -/
  pending : ∀ o : Operation α, o.signal?.isSome = true → ((c.after os).apply o).1 = .pending →
    (c.after os).queue.length = max capacity 1 ∧ (∀ p ∈ os, ¬ p.Stops) ∧
      ((c.after os).apply o).2.queue = (c.after os).queue ∧
      (((c.after os).apply o).2.emitting = true ↔ ¬ o.UsesUp)
  /-- A signal is read exactly if one is queued, and then the oldest. -/
  read : ∀ s, ((c.after os).apply .recv).1 = .signal s ↔ (c.after os).queue.head? = some s
  /-- The end is told exactly if nothing is queued and the emitter was used up or the stream
  closed. -/
  closed : ((c.after os).apply .recv).1 = .closed ↔ .dropStream ∉ os ∧ (c.after os).queue = [] ∧
    ((∃ p ∈ os, p.UsesUp) ∨ .close ∈ os)

theorem Orderly.exists_stops (h : Orderly capacity c os) :
    (c.after os).receiver ≠ .listening ↔ ∃ p ∈ os, p.Stops := by
  rw [ne_eq, h.listening]
  simp

theorem Orderly.exists_usesUp (h : Orderly capacity c os) :
    (c.after os).emitting = false ↔ ∃ p ∈ os, p.UsesUp := by
  rw [← Bool.not_eq_true, h.emitting]
  simp

theorem Orderly.closed (h : Orderly capacity c os) :
    (c.after os).receiver = .closed ↔ .close ∈ os ∧ .dropStream ∉ os := by
  have hl := h.exists_stops
  have hd := h.dropped
  constructor
  · intro hr
    rw [hr] at hl hd
    obtain ⟨p, hp, hs⟩ := hl.1 (by simp)
    have hnot : .dropStream ∉ os := fun hm => by cases hd.2 hm
    refine ⟨?_, hnot⟩
    cases p <;> first | exact hs.elim | exact hp | exact absurd hp hnot
  · rintro ⟨hc, hnot⟩
    have hne := hl.2 ⟨_, hc, trivial⟩
    cases hr : (c.after os).receiver with
    | listening => exact absurd hr hne
    | closed => rfl
    | dropped => exact absurd (hd.1 hr) hnot

theorem Orderly.answers (h : Orderly capacity c os) : Answers capacity c os where
  accepts o ho := by
    obtain ⟨s, hs⟩ := Option.isSome_iff_exists.1 ho
    have ht := tried_apply (c.after os) o
    rw [← h.emitting, ← h.listening, ← h.size]
    generalize ((c.after os).apply o).1 = a, ((c.after os).apply o).2 = d at ht ⊢
    cases ht with
    | noEmitter _ he => simp [he]
    | refused _ _ hr => simp [hr]
    | accepted _ he hr hq => simp [he, hr, hq]
    | full _ _ _ hq => simp [Nat.not_lt.2 hq]
    | noStream hne => exact absurd (.of_signal hs) hne
    | emitterDropped | read | waiting | ended | closed | streamDropped => cases hs
  refused hstops huses o ho := by
    have he := h.emitting.2 huses
    have hr := h.exists_stops.2 hstops
    obtain ⟨s, hs⟩ := Option.isSome_iff_exists.1 ho
    rw [apply_of_signal he hs, send, if_pos hr]
  stopped before p rest hos hp := by
    have ht := tried_apply (c.after before) p
    have hr : ((c.after before).apply p).2.receiver ≠ .listening := fun hr => (ht.listening.1 hr).2 hp
    rw [hos, transcript_append, accepted_append, transcript_cons, ← List.singleton_append,
      accepted_append, accepted_singleton, ht.acceptedBy_eq_none (.inr hp), accepted_transcript hr]
    simp
  kept hc hd n := applyAll_recv (h.closed.2 ⟨hc, hd⟩) n
  pending o ho hpending := by
    obtain ⟨s, hs⟩ := Option.isSome_iff_exists.1 ho
    have ht := tried_apply (c.after os) o
    rw [hpending] at ht
    generalize hd : ((c.after os).apply o).2 = d at ht ⊢
    cases ht with
    | full hs' he hr hq =>
      have hbound := h.bounded
      rw [h.size] at hq
      refine ⟨by omega, h.listening.1 hr, rfl, ?_⟩
      simp [Operation.usesUp_iff_of_signal hs']
    | waiting => cases hs
  read s := by
    have ht := tried_apply (c.after os) .recv
    generalize ((c.after os).apply .recv).1 = a, ((c.after os).apply .recv).2 = d at ht ⊢
    cases ht with
    | noEmitter ho => exact ho.elim
    | refused hs | accepted hs | full hs => cases hs
    | noStream _ hr => simp [h.emptied hr]
    | read _ hq => simp [hq]
    | waiting _ _ hq => simp [hq]
    | ended _ hq => simp [hq]
  closed := by
    have hd := h.dropped
    have hc := h.closed
    have hu := h.exists_usesUp
    have ht := tried_apply (c.after os) .recv
    generalize ((c.after os).apply .recv).1 = a, ((c.after os).apply .recv).2 = d at ht ⊢
    cases ht with
    | noEmitter ho => exact ho.elim
    | refused hs | accepted hs | full hs => cases hs
    | noStream _ hr => simp [hd.1 hr]
    | read _ hq => simp [hq]
    | waiting he hr hq =>
      have hnot : ¬ ∃ p ∈ os, p.Stops := fun hs => h.exists_stops.2 hs hr
      have hnot' : .close ∉ os := fun hm => hnot ⟨_, hm, trivial⟩
      rw [← hu, he]
      simp [hnot']
    | ended hr hq hend =>
      have hnot : .dropStream ∉ os := fun hm => hr (hd.2 hm)
      rw [hu, hc] at hend
      exact ⟨fun _ => ⟨hnot, hq, hend.imp id And.left⟩, fun _ => rfl⟩

end

/-- **A channel over every run of operations**, each tried once and without waiting: the channel is in
order after every one of them, and what the next one is answered is known from those before it. -/
theorem orderly_applyAll (capacity : Nat) (h : capacity ≤ maxCapacity) :
    ∃ c, open? α capacity = some c ∧ ∀ os, Orderly capacity c os ∧ Answers capacity c os := by
  have hmax : max capacity 1 ≤ maxCapacity := Nat.max_le.2 ⟨h, by decide⟩
  have hopen : open? α capacity = some _ := if_pos hmax
  refine ⟨_, hopen, fun os => ?_⟩
  have hos := (orderly_nil hopen).append os
  exact ⟨hos, hos.answers⟩

/-- In a channel of the least capacity, a completion that finds the queue full is lost with the
emitter. -/
theorem orderly_applyAll_lostCompletion : 0 ≤ maxCapacity ∧
    ∃ c, open? Nat 0 = some c ∧ accepted (c.transcript [.next 7, .complete, .recv]) = [.next 7] ∧
      ((c.after [.next 7, .complete, .recv]).apply .recv).1 = .closed := by
  obtain ⟨c, hc, h⟩ := orderly_applyAll (α := Nat) 0 (Nat.zero_le _)
  refine ⟨Nat.zero_le _, c, hc, ?_, ?_⟩
  · cases hc
    rfl
  · obtain ⟨-, hnext⟩ := h [.next 7, .complete, .recv]
    refine hnext.closed.2 ⟨by simp, ?_, .inl ⟨.complete, by simp, trivial⟩⟩
    cases hc
    rfl

end Channel

end Handoff
