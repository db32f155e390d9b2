import Handoff.Stream.Channel
import Mathlib.Data.List.Basic
import Mathlib.Tactic.SplitIfs

/-! # Single operations on a channel

Every operation is tried once and without waiting. What it can lead to is said once, and all that an
operation keeps is read off that.

* `Channel.Tried`: the ways in which one operation can end.
* `Channel.tried_apply`: an operation ends in one of these ways.
* `Channel.accepted`, `Channel.received`: the signals that a transcript has seen enter and leave.
* `Channel.Tried.queue`: signals enter at the end and leave at the front.
-/

namespace Handoff

variable {α : Type}

namespace Operation

/-- The signal that an operation sends, if it sends one. -/
def signal? : Operation α → Option (Signal α)
  | next x => some (.next x)
  | complete => some .complete
  | error e => some (.error e)
  | _ => none

/-- The operation takes the emitter away. -/
def UsesUp : Operation α → Prop
  | complete | error _ | dropEmitter => True
  | _ => False

/-- The operation ends the taking of signals. -/
def Stops : Operation α → Prop
  | close | dropStream => True
  | _ => False

/-- The operation needs the emitter. -/
def OfEmitter : Operation α → Prop
  | next _ | complete | error _ | dropEmitter => True
  | _ => False

theorem OfEmitter.of_signal {o : Operation α} {s : Signal α} (hs : o.signal? = some s) :
    o.OfEmitter := by
  cases o <;> trivial

theorem not_stops_of_signal {o : Operation α} {s : Signal α} (hs : o.signal? = some s) :
    ¬ o.Stops := by
  cases o <;> first | exact id | cases hs

/-- Of the operations that send, those with a last signal use up the emitter. -/
theorem usesUp_iff_of_signal {o : Operation α} {s : Signal α} (hs : o.signal? = some s) :
    o.UsesUp ↔ s.isLast = true := by
  cases o <;> cases hs <;> simp [UsesUp, Signal.isLast]

end Operation

namespace Channel

/-! ### What an operation can lead to -/

/-- **What one operation can lead to**: the answer, and the channel afterwards. -/
inductive Tried (c : Channel α) : Operation α → Answer α → Channel α → Prop where
  | noEmitter {o : Operation α} (ho : o.OfEmitter) (he : c.emitting = false) : Tried c o .gone c
  | refused {o : Operation α} {s : Signal α} (hs : o.signal? = some s) (he : c.emitting = true)
      (hr : c.receiver ≠ .listening) : Tried c o .refused { c with emitting := !s.isLast }
  | accepted {o : Operation α} {s : Signal α} (hs : o.signal? = some s) (he : c.emitting = true)
      (hr : c.receiver = .listening) (hq : c.queue.length < c.capacity) :
      Tried c o .done { c with queue := c.queue ++ [s], emitting := !s.isLast }
  | full {o : Operation α} {s : Signal α} (hs : o.signal? = some s) (he : c.emitting = true)
      (hr : c.receiver = .listening) (hq : c.capacity ≤ c.queue.length) :
      Tried c o .pending { c with emitting := !s.isLast }
  | emitterDropped (he : c.emitting = true) : Tried c .dropEmitter .done { c with emitting := false }
  | noStream {o : Operation α} (ho : ¬ o.OfEmitter) (hr : c.receiver = .dropped) : Tried c o .gone c
  | read {s : Signal α} {r : List (Signal α)} (hr : c.receiver ≠ .dropped) (hq : c.queue = s :: r) :
      Tried c .recv (.signal s) { c with queue := r }
  | waiting (he : c.emitting = true) (hr : c.receiver = .listening) (hq : c.queue = []) :
      Tried c .recv .pending c
  | ended (hr : c.receiver ≠ .dropped) (hq : c.queue = [])
      (hend : c.emitting = false ∨ c.receiver = .closed) : Tried c .recv .closed c
  | closed (hr : c.receiver ≠ .dropped) : Tried c .close .done { c with receiver := .closed }
  | streamDropped (hr : c.receiver ≠ .dropped) :
      Tried c .dropStream .done { c with queue := [], receiver := .dropped }

theorem tried_send (c : Channel α) {o : Operation α} {s : Signal α} (hs : o.signal? = some s)
    (he : c.emitting = true) :
    Tried c o (c.send s).1 { (c.send s).2 with emitting := !s.isLast } := by
  unfold send
  split_ifs with hr hq
  · exact .refused hs he hr
  · exact .accepted hs he (not_not.1 hr) hq
  · exact .full hs he (not_not.1 hr) (Nat.le_of_not_lt hq)

theorem tried_recv (c : Channel α) (hr : c.receiver ≠ .dropped) :
    Tried c .recv c.recv.1 c.recv.2 := by
  unfold recv
  split
  · next s r hq => exact .read hr hq
  · next hq =>
    split_ifs with h
    · exact .waiting h.1 h.2 hq
    · refine .ended hr hq ?_
      cases he : c.emitting
      · exact .inl rfl
      · cases hl : c.receiver
        · exact absurd ⟨he, hl⟩ h
        · exact .inr rfl
        · exact absurd hl hr

theorem apply_of_not_emitting {c : Channel α} (he : c.emitting = false) {o : Operation α}
    (ho : o.OfEmitter) : c.apply o = (.gone, c) := by
  cases o <;> first | exact ho.elim | simp [apply, ifEmitting, he]

theorem apply_of_dropped {c : Channel α} (hr : c.receiver = .dropped) {o : Operation α}
    (ho : ¬ o.OfEmitter) : c.apply o = (.gone, c) := by
  cases o <;> first | exact absurd trivial ho | simp [apply, ifReadable, hr]

/-- A send is what the channel makes of the signal; a last one uses up the emitter. -/
theorem apply_of_signal {c : Channel α} (he : c.emitting = true) {o : Operation α} {s : Signal α}
    (hs : o.signal? = some s) :
    c.apply o = ((c.send s).1, { (c.send s).2 with emitting := !s.isLast }) := by
  have hkeep : (c.send s).2.emitting = true := by
    unfold send
    split_ifs <;> exact he
  cases o <;> cases hs <;> simp only [apply, ifEmitting, he, if_true]
  · rw [Signal.isLast, Bool.not_false, ← hkeep]
  · rfl
  · rfl

/-- **Every operation leads to what it can lead to.** -/
theorem tried_apply (c : Channel α) (o : Operation α) : Tried c o (c.apply o).1 (c.apply o).2 := by
  by_cases ho : o.OfEmitter
  · cases he : c.emitting with
    | false => rw [apply_of_not_emitting he ho]; exact .noEmitter ho he
    | true =>
      cases hs : o.signal? with
      | some s => rw [apply_of_signal he hs]; exact tried_send c hs he
      | none =>
        cases o <;> cases hs
        · exact ho.elim
        · exact ho.elim
        · simp only [apply, ifEmitting, he, if_true]; exact .emitterDropped he
        · exact ho.elim
  · by_cases hr : c.receiver = .dropped
    · rw [apply_of_dropped hr ho]; exact .noStream ho hr
    · cases o <;> first | exact absurd trivial ho | simp only [apply, ifReadable, hr, if_false]
      · exact tried_recv c hr
      · exact .closed hr
      · exact .streamDropped hr

/-! ### Transcripts -/

/-- The signal that has entered the queue, if one has. -/
def acceptedBy : Operation α × Answer α → Option (Signal α)
  | (o, .done) => o.signal?
  | _ => none

/-- The signal that has left the queue, if one has. -/
def receivedBy : Operation α × Answer α → Option (Signal α)
  | (_, .signal s) => some s
  | _ => none

/-- **The signals that were accepted**, in their order. -/
def accepted (h : List (Operation α × Answer α)) : List (Signal α) := h.filterMap acceptedBy

/-- **The signals that were read**, in their order. -/
def received (h : List (Operation α × Answer α)) : List (Signal α) := h.filterMap receivedBy

/-- The channel after operations. -/
def after (c : Channel α) (os : List (Operation α)) : Channel α := (c.applyAll os).2

/-- The operations, each with its answer. -/
def transcript (c : Channel α) (os : List (Operation α)) : List (Operation α × Answer α) :=
  os.zip (c.applyAll os).1

@[simp] theorem after_nil (c : Channel α) : c.after [] = c := rfl

@[simp] theorem after_cons (c : Channel α) (o : Operation α) (os : List (Operation α)) :
    c.after (o :: os) = (c.apply o).2.after os := rfl

@[simp] theorem transcript_nil (c : Channel α) : c.transcript [] = [] := rfl

@[simp] theorem transcript_cons (c : Channel α) (o : Operation α) (os : List (Operation α)) :
    c.transcript (o :: os) = (o, (c.apply o).1) :: (c.apply o).2.transcript os := rfl

theorem after_append (c : Channel α) (os ps : List (Operation α)) :
    c.after (os ++ ps) = (c.after os).after ps := by
  induction os generalizing c with
  | nil => rfl
  | cons o os ih => exact ih _

theorem transcript_append (c : Channel α) (os ps : List (Operation α)) :
    c.transcript (os ++ ps) = c.transcript os ++ (c.after os).transcript ps := by
  induction os generalizing c with
  | nil => rfl
  | cons o os ih => rw [List.cons_append, transcript_cons, ih, transcript_cons]; rfl

/-! ### What one operation keeps -/

section Tried

variable {c d : Channel α} {o : Operation α} {a : Answer α}

theorem Tried.capacity (h : Tried c o a d) : d.capacity = c.capacity := by
  cases h <;> rfl

theorem Tried.emitting (h : Tried c o a d) :
    d.emitting = true ↔ c.emitting = true ∧ ¬ o.UsesUp := by
  cases h with
  | noEmitter _ he => simp [he]
  | refused hs he | accepted hs he | full hs he => simp [he, Operation.usesUp_iff_of_signal hs]
  | emitterDropped => simp [Operation.UsesUp]
  | noStream ho =>
    have hu : ¬ o.UsesUp := by
      intro hu
      cases o <;> first | exact ho trivial | exact hu
    simp [hu]
  | read | waiting | ended | closed | streamDropped => simp [Operation.UsesUp]

theorem Tried.listening (h : Tried c o a d) :
    d.receiver = .listening ↔ c.receiver = .listening ∧ ¬ o.Stops := by
  cases h with
  | noEmitter ho =>
    have hs : ¬ o.Stops := by
      intro hs
      cases o <;> first | exact ho | exact hs
    simp [hs]
  | refused hs | accepted hs | full hs => simp [Operation.not_stops_of_signal hs]
  | noStream _ hr => simp [hr]
  | emitterDropped | read | waiting | ended | closed | streamDropped => simp [Operation.Stops]

theorem Tried.dropped (h : Tried c o a d) :
    d.receiver = .dropped ↔ c.receiver = .dropped ∨ o = .dropStream := by
  cases h with
  | noEmitter ho =>
    have hne : o ≠ .dropStream := by rintro rfl; exact ho
    simp [hne]
  | refused hs | accepted hs | full hs =>
    have hne : o ≠ .dropStream := by rintro rfl; cases hs
    simp [hne]
  | noStream _ hr => simp [hr]
  | closed hr => simp [hr]
  | emitterDropped | read | waiting | ended | streamDropped => simp

theorem Tried.bounded (h : Tried c o a d) (hc : c.queue.length ≤ c.capacity) :
    d.queue.length ≤ d.capacity := by
  cases h with
  | accepted _ _ _ hq => simp only [List.length_append, List.length_singleton]; omega
  | read _ hq =>
    rw [hq, List.length_cons] at hc
    exact Nat.le_of_succ_le hc
  | streamDropped => exact Nat.zero_le _
  | _ => exact hc

/-- **Signals enter at the end and leave at the front**, unless the stream is dropped. -/
theorem Tried.queue (h : Tried c o a d) (ho : o ≠ .dropStream) :
    (receivedBy (o, a)).toList ++ d.queue = c.queue ++ (acceptedBy (o, a)).toList := by
  cases h with
  | accepted hs => simp [receivedBy, acceptedBy, hs]
  | read _ hq => simp [receivedBy, acceptedBy, hq]
  | streamDropped => exact absurd rfl ho
  | _ => simp [receivedBy, acceptedBy, Operation.signal?]

/-- Without a stream that takes signals, none is accepted. -/
theorem Tried.acceptedBy_eq_none (h : Tried c o a d) (hr : c.receiver ≠ .listening ∨ o.Stops) :
    acceptedBy (o, a) = none := by
  cases h with
  | accepted hs _ hl =>
    rcases hr with hr | hr
    · exact absurd hl hr
    · exact absurd hr (Operation.not_stops_of_signal hs)
  | _ => rfl

/-- From a stream that is gone nothing is read. -/
theorem Tried.receivedBy_eq_none (h : Tried c o a d) (hr : c.receiver = .dropped ∨ o = .dropStream) :
    receivedBy (o, a) = none := by
  cases h with
  | read hl =>
    rcases hr with hr | hr
    · exact absurd hr hl
    · cases hr
  | _ => rfl

/-- With the stream goes what is queued. -/
theorem Tried.emptied (h : Tried c o a d) (hc : c.receiver = .dropped → c.queue = [])
    (hr : d.receiver = .dropped) : d.queue = [] := by
  cases h with
  | accepted _ _ hl => rw [hl] at hr; cases hr
  | read hl => exact absurd hr hl
  | closed => cases hr
  | streamDropped => rfl
  | _ => exact hc hr

/-- A signal is accepted from a live emitter, and a last one uses it up. -/
theorem Tried.of_acceptedBy (h : Tried c o a d) {s : Signal α} (hs : acceptedBy (o, a) = some s) :
    c.emitting = true ∧ d.emitting = !s.isLast := by
  cases h with
  | accepted hs' he =>
    obtain rfl : _ = s := Option.some.inj (hs'.symm.trans hs)
    exact ⟨he, rfl⟩
  | _ => cases hs

end Tried

end Channel

end Handoff
