import Handoff.Proofs.Stream.Range
import Handoff.Proofs.Stream.Reports

/-! # A stream cut at any point

A consumer reads a number of signals first, and then drives the rest of the stream or drops it, while the
producer is anywhere within the room that the channel leaves it. As long as the stream is there, what was told,
followed by what is queued, is what was sent without what was read first; from this all else follows.

* `Script.answer`: what each read is answered.
* `Exchange.itemsRead`: the items that the consumer has got, by reading or by driving.
* `Exchange.Cut`: what every step keeps (`Cut.produce`, `Cut.consume`).
* `Exchange.Cut.exists_step`: no exchange is stuck before both tasks are done.
* `Exchange.Abandoned`: once the stream is dropped, nothing more is accepted and the producer stops.
-/

namespace Handoff

variable {α : Type}

/-- The item of a signal, if it is one. -/
def Signal.item? : Signal α → Option α
  | next a => some a
  | _ => none

/-- The items among signals. -/
def itemsOf (l : List (Signal α)) : List α := l.filterMap Signal.item?

/-- The item that was read, if one was. -/
def Answer.item? : Answer α → Option α
  | signal s => s.item?
  | _ => none

theorem itemsOf_append (l l' : List (Signal α)) : itemsOf (l ++ l') = itemsOf l ++ itemsOf l' :=
  List.filterMap_append

theorem length_itemsOf_le (l : List (Signal α)) : (itemsOf l).length ≤ l.length :=
  List.length_filterMap_le _ _

theorem itemsOf_eq_nil_of_isLast {s : Signal α} (hs : s.isLast = true) : itemsOf [s] = [] := by
  cases s with
  | next a => cases hs
  | complete | error e => rfl

namespace Ending

theorem isLast_of_signal? {e : Ending} {s : Signal α} (h : e.signal? = some s) : s.isLast = true := by
  cases e <;> cases h <;> rfl

end Ending

namespace Script

/-- All the signals of a script. -/
def signals (s : Script α) : List (Signal α) := s.front s.length ++ s.ending.signal?.toList

/-- **What the `k`-th read is answered**: the `k`-th signal of the script, and after all of them that the
stream is at its end. -/
def answer (s : Script α) (k : Nat) : Answer α :=
  match s.signals[k]? with
  | some a => .signal a
  | none => .closed

end Script

namespace Report

/-- **Signals up to a last one** are the calls that are reported. -/
theorem calls_ofSignals_of_isLast {l r : List (Signal α)} {s : Signal α} (hl : ∀ t ∈ l, t.isLast = false)
    (hs : s.isLast = true) : (ofSignals (l ++ s :: r)).calls = l ++ [s] := by
  induction l with
  | nil =>
    cases s with
    | next a => cases hs
    | complete | error e => rfl
  | cons t l ih =>
    obtain ⟨ht, hrest⟩ := List.forall_mem_cons.1 hl
    cases t with
    | next a => exact congrArg (Signal.next a :: ·) (ih hrest)
    | complete | error e => cases ht

/-- Signals without a last one are reported as truncated. -/
theorem calls_ofSignals_of_not_isLast {l : List (Signal α)} (hl : ∀ t ∈ l, t.isLast = false) :
    (ofSignals l).calls = l ++ [.error .truncated] := by
  induction l with
  | nil => rfl
  | cons t l ih =>
    obtain ⟨ht, hrest⟩ := List.forall_mem_cons.1 hl
    cases t with
    | next a => exact congrArg (Signal.next a :: ·) (ih hrest)
    | complete | error e => cases ht

end Report

namespace Exchange

/-- **The items that the consumer has got**, those read first and those driven. -/
def itemsRead (x : Exchange α) : List α := x.taken.toList.filterMap Answer.item? ++ x.log.received.toList

/-! ### What every step keeps -/

/-- **The stream is there**: what was told and what is queued is what was sent without what was read first, and
the items that were read and those that are queued are the items that were sent. -/
structure Open (x : Exchange α) (l : List (Signal α)) : Prop where
  listening : x.channel.receiver = .listening
  queue : l ++ x.channel.queue = x.signals.drop x.taken.size
  within : x.producing = true → x.taken.size ≤ x.sent
  sent : x.producing = false → x.sent = x.script.length
  items : x.itemsRead ++ itemsOf x.channel.queue = (List.range x.sent).map x.script.item

/-- Where the consumer is, which is to read so many signals first, when the subscriber was told `l`. -/
inductive Placed (x : Exchange α) (reads : Nat) (l : List (Signal α)) : Consumer → Prop where
  | reads {left : Nat} (hk : x.taken.size + left = reads) (hl : l = []) (ho : x.Open l) :
      Placed x reads l (.reading left)
  | drives {m : Summary} (hk : x.taken.size = reads) (hd : x.dropping = false) (hm : m = l.foldl .count {})
      (hl : ∀ s ∈ l, s.isLast = false) (ho : x.Open l) : Placed x reads l (.driving m)
  | served {m : Summary} (hk : x.taken.size = reads) (hd : x.dropping = false) (hm : m = l.foldl .count {})
      (hl : l = (Report.ofSignals (x.script.signals.drop reads)).calls) (hp : x.producing = false) :
      Placed x reads l (.finished m)
  | left (hk : x.taken.size = reads) (hd : x.dropping = true) (hl : l = [])
      (hr : x.channel.receiver = .dropped) (hq : x.channel.queue = []) : Placed x reads l .left

/-- **An exchange in which so many signals are read first**, and in which the subscriber was told `l`. -/
structure Cut (script : Script α) (capacity reads : Nat) (l : List (Signal α)) (x : Exchange α) : Prop where
  same : x.script = script
  size : x.channel.capacity = max capacity 1
  bounded : x.channel.queue.length ≤ max capacity 1
  emitting : x.channel.emitting = x.producing
  sent_le : x.sent ≤ x.script.length
  log : x.log = l.foldl .tell {}
  taken : x.taken.toList = (List.range x.taken.size).map x.script.answer
  backlog : x.sent ≤ x.itemsRead.length + max capacity 1
  itemsRead : x.itemsRead <+: (List.range x.sent).map x.script.item
  consumer : Placed x reads l x.consumer

section

variable {script : Script α} {capacity reads : Nat} {l : List (Signal α)} {x y : Exchange α}

theorem signals_eq (hp : x.producing = false) (hs : x.sent = x.script.length) :
    x.signals = x.script.signals := by
  simp [signals, Script.signals, hp, hs]

theorem length_signals_of_producing (hp : x.producing = true) : x.signals.length = x.sent := by
  simp [signals_of_producing hp, Script.front]

/-- What was sent so far is the beginning of what is sent. -/
theorem Open.prefix_signals (h : x.Open l) (hle : x.sent ≤ x.script.length) :
    x.signals <+: x.script.signals := by
  cases hp : x.producing with
  | true =>
    rw [signals_of_producing hp]
    exact (x.script.front_prefix_front hle).trans (List.prefix_append _ _)
  | false => simp only [signals_eq hp (h.sent hp), List.prefix_rfl]

/-- What is read next is what the script says. -/
theorem Open.answer_cons (h : x.Open []) (hle : x.sent ≤ x.script.length) {s : Signal α}
    {r : List (Signal α)} (hq : x.channel.queue = s :: r) : x.script.answer x.taken.size = .signal s := by
  have hdrop := h.queue
  rw [List.nil_append, hq] at hdrop
  have hget : x.signals[x.taken.size]? = some s := by
    rw [← List.head?_drop, ← hdrop, List.head?_cons]
  obtain ⟨rest, hrest⟩ := h.prefix_signals hle
  have hlt := (List.getElem?_eq_some_iff.1 hget).1
  rw [Script.answer, ← hrest, List.getElem?_append_left hlt, hget]

/-- At the end of the stream the script has been read to its end. -/
theorem Open.answer_nil (h : x.Open []) (hp : x.producing = false) (hq : x.channel.queue = []) :
    x.script.answer x.taken.size = .closed := by
  have hdrop := h.queue
  rw [List.nil_append, hq, signals_eq hp (h.sent hp)] at hdrop
  rw [Script.answer, List.getElem?_eq_none (List.drop_eq_nil_iff.1 hdrop.symm)]

/-- The items read are the first that were sent. -/
theorem Open.itemsRead_prefix (h : x.Open l) : x.itemsRead <+: (List.range x.sent).map x.script.item :=
  ⟨_, h.items⟩

/-- **What is sent is queued**, and the stream is there as before. -/
theorem Open.send {s : List (Signal α)} (h : x.Open l) (hp : x.producing = true) (hscript : y.script = x.script)
    (htaken : y.taken = x.taken) (hlog : y.log = x.log) (hr : y.channel.receiver = x.channel.receiver)
    (hq : y.channel.queue = x.channel.queue ++ s) (hs : y.signals = x.signals ++ s) (hle : x.sent ≤ y.sent)
    (hsent : y.producing = false → y.sent = y.script.length)
    (hitems : (List.range x.sent).map x.script.item ++ itemsOf s = (List.range y.sent).map x.script.item) :
    y.Open l := by
  have hwithin := h.within hp
  refine ⟨hr.trans h.listening, ?_, fun _ => by rw [htaken]; omega, hsent, ?_⟩
  · rw [hq, hs, htaken, ← List.append_assoc, h.queue, List.drop_append_of_le_length]
    rwa [length_signals_of_producing hp]
  · rw [itemsRead, htaken, hlog, hq, itemsOf_append, ← List.append_assoc, hscript, ← hitems, ← h.items, itemsRead]

/-- The consumer stays where it is when something is sent. -/
theorem Placed.send (hp : x.producing = true) (h : Placed x reads l x.consumer)
    (hr : x.channel.receiver = .listening) (hc : y.consumer = x.consumer) (hd : y.dropping = x.dropping)
    (ht : y.taken = x.taken) (ho : x.Open l → y.Open l) : Placed y reads l y.consumer := by
  rw [hc]
  generalize x.consumer = c at h
  cases h with
  | reads hk hl hopen => exact .reads (by rw [ht, hk]) hl (ho hopen)
  | drives hk hd' hm hl hopen => exact .drives (by rw [ht, hk]) (hd.trans hd') hm hl (ho hopen)
  | served _ _ _ _ hp' => cases hp.symm.trans hp'
  | left _ _ _ hr' => cases hr.symm.trans hr'

/-- What was sent was got or is queued. -/
theorem Open.sent_le (h : x.Open l) : x.sent ≤ x.itemsRead.length + x.channel.queue.length := by
  have hlength := congrArg List.length h.items
  have hitems := length_itemsOf_le x.channel.queue
  rw [List.length_append, List.length_map, List.length_range] at hlength
  omega

/-- As long as something can be sent, the stream is there. -/
theorem Placed.isOpen (h : Placed x reads l x.consumer) (hp : x.producing = true)
    (hr : x.channel.receiver = .listening) : x.Open l := by
  generalize x.consumer = c at h
  cases h with
  | reads _ _ ho => exact ho
  | drives _ _ _ _ ho => exact ho
  | served _ _ _ _ hp' => cases hp.symm.trans hp'
  | left _ _ _ hr' => cases hr.symm.trans hr'

/-- A producer that is refused stops, and all else stays as it is. -/
theorem Cut.stop (h : Cut script capacity reads l x) (hp : x.producing = true)
    (hr : x.channel.receiver ≠ .listening) : Cut script capacity reads l x.stopProducing := by
  refine { h with emitting := rfl, consumer := ?_ }
  show Placed _ reads l x.consumer
  have hc := h.consumer
  generalize x.consumer = c at hc
  cases hc with
  | reads _ _ ho => exact absurd ho.listening hr
  | drives _ _ _ _ ho => exact absurd ho.listening hr
  | served _ _ _ _ hp' => cases hp.symm.trans hp'
  | left hk hd hl hr hq => exact .left hk hd hl hr hq

/-- **Every step of the producer keeps the cut.** -/
theorem Cut.produce (h : Cut script capacity reads l x) (hs : x.produce? = some y) :
    Cut script capacity reads l y := by
  have hsize := h.size
  have hbounded := h.bounded
  cases produces_of_produce hs with
  | item hp hlt hr hq =>
    have hsent := (h.consumer.isOpen hp hr).sent_le
    have hprefix : (List.range x.sent).map x.script.item <+: (List.range (x.sent + 1)).map x.script.item := by
      rw [List.range_succ, List.map_append]
      exact List.prefix_append _ _
    refine { h with bounded := ?_, sent_le := hlt, backlog := ?_, itemsRead := ?_, consumer := ?_ }
    · simp only [queued, List.length_append, List.length_singleton]
      omega
    · show x.sent + 1 ≤ x.itemsRead.length + max capacity 1
      omega
    · exact h.itemsRead.trans hprefix
    · refine h.consumer.send hp hr rfl rfl rfl fun ho => ?_
      refine ho.send (s := [.next (x.script.item x.sent)]) hp rfl rfl rfl rfl rfl ?_ (Nat.le_succ _)
        (fun hp' => ?_) ?_
      · rw [signals_of_producing hp, signals_of_producing (x := { queued x _ with sent := _ }) hp]
        exact x.script.front_succ x.sent
      · cases hp.symm.trans hp'
      · simp [itemsOf, Signal.item?, List.range_succ]
  | @last s hp hle he hr hq =>
    have hsent : x.sent = x.script.length := Nat.le_antisymm h.sent_le hle
    refine { h with bounded := ?_, emitting := rfl, consumer := ?_ }
    · simp only [queued, stopProducing, Channel.withoutEmitter, List.length_append, List.length_singleton]
      omega
    · refine h.consumer.send hp hr rfl rfl rfl fun ho => ?_
      refine ho.send (s := [s]) hp rfl rfl rfl rfl rfl ?_ (Nat.le_refl _) (fun _ => hsent) ?_
      · rw [signals_of_producing hp]
        simp [signals, stopProducing, queued, he]
      · rw [itemsOf_eq_nil_of_isLast (Ending.isLast_of_signal? he), List.append_nil]
        rfl
  | dropped hp hle he =>
    have hsent : x.sent = x.script.length := Nat.le_antisymm h.sent_le hle
    by_cases hr : x.channel.receiver = .listening
    · refine { h with emitting := rfl, consumer := ?_ }
      refine h.consumer.send hp hr rfl rfl rfl fun ho => ?_
      refine ho.send (s := []) hp rfl rfl rfl rfl (List.append_nil _).symm ?_ (Nat.le_refl _) (fun _ => hsent) ?_
      · rw [signals_of_producing hp]
        simp [signals, stopProducing, he]
      · exact List.append_nil _
    · exact h.stop hp hr
  | refused hp hr => exact h.stop hp hr

/-! ### Steps of the consumer -/

/-- The stream is there as before where nothing is sent, and what is got was queued. -/
theorem Open.receive {l' : List (Signal α)} (h : x.Open l) (hscript : y.script = x.script) (hsent : y.sent = x.sent)
    (hp : y.producing = x.producing) (hr : y.channel.receiver = x.channel.receiver)
    (hqueue : l' ++ y.channel.queue = x.signals.drop y.taken.size)
    (hwithin : x.producing = true → y.taken.size ≤ x.sent)
    (hitems : y.itemsRead ++ itemsOf y.channel.queue = x.itemsRead ++ itemsOf x.channel.queue) : y.Open l' := by
  have hsignals : y.signals = x.signals := by rw [signals, signals, hscript, hsent, hp]
  refine ⟨hr.trans h.listening, by rw [hsignals, hqueue], fun hp' => ?_, fun hp' => ?_, ?_⟩
  · rw [hsent]
    exact hwithin (hp.symm.trans hp')
  · rw [hsent, hscript]
    exact h.sent (hp.symm.trans hp')
  · rw [hitems, hscript, hsent, h.items]

/-- The exchange after the consumer has read the answer `a` and `k` reads are left. -/
def took (x : Exchange α) (a : Answer α) (c : Channel α) (k : Nat) : Exchange α :=
  { x with channel := c, consumer := .reading k, taken := x.taken.push a }

theorem size_took {a : Answer α} {c : Channel α} {k : Nat} : (x.took a c k).taken.size = x.taken.size + 1 :=
  Array.size_push a

theorem itemsRead_took {a : Answer α} {c : Channel α} {k : Nat} (hlog : x.log.received.toList = []) :
    (x.took a c k).itemsRead = x.itemsRead ++ a.item?.toList := by
  simp only [itemsRead, took, hlog, List.append_nil, Array.toList_push, List.filterMap_append]
  cases h : a.item? <;> simp [h]

/-- **A signal that is queued is read**, and the stream is there as before. -/
theorem Open.took_signal {s : Signal α} {r : List (Signal α)} {k : Nat} (h : x.Open [])
    (hlog : x.log.received.toList = []) (hq : x.channel.queue = s :: r) :
    (x.took (.signal s) { x.channel with queue := r } k).Open [] := by
  have hdrop : s :: r = x.signals.drop x.taken.size := by rw [← hq]; exact h.queue
  refine h.receive rfl rfl rfl rfl ?_ (fun hp => ?_) ?_
  · rw [size_took, ← List.tail_drop, ← hdrop]
    rfl
  · have hlt : x.taken.size < x.signals.length := List.length_lt_of_drop_ne_nil (by rw [← hdrop]; simp)
    rw [length_signals_of_producing hp] at hlt
    rw [size_took]
    exact hlt
  · rw [itemsRead_took hlog, hq, List.append_assoc]
    cases s <;> rfl

/-- At the end of the stream one can read on, and is told so. -/
theorem Open.took_closed {k : Nat} (h : x.Open []) (hlog : x.log.received.toList = []) (hp : x.producing = false)
    (hq : x.channel.queue = []) : (x.took .closed x.channel k).Open [] := by
  have hend : x.signals.drop x.taken.size = [] := by rw [← h.queue, hq]; rfl
  refine h.receive rfl rfl rfl rfl ?_ (fun hp' => ?_) ?_
  · rw [size_took, List.drop_eq_nil_iff.2 (Nat.le_succ_of_le (List.drop_eq_nil_iff.1 hend))]
    exact hq
  · cases hp.symm.trans hp'
  · rw [itemsRead_took hlog]
    simp [took, Answer.item?]

/-- **To read keeps the cut.** -/
theorem Cut.took {k : Nat} {a : Answer α} {c : Channel α} (h : Cut script capacity reads l x)
    (hx : x.consumer = .reading (k + 1)) (ha : x.channel.recv = (a, c)) (hne : a ≠ .pending) :
    Cut script capacity reads l (x.took a c k) := by
  have hplaced := h.consumer
  rw [hx] at hplaced
  cases hplaced with
  | reads hk hl ho =>
    subst hl
    have hlog : x.log.received.toList = [] := by rw [h.log]; rfl
    -- it is enough to know what is answered, and that the stream is there as before
    have hkeep : c.capacity = x.channel.capacity → c.queue.length ≤ x.channel.queue.length →
        c.emitting = x.channel.emitting → x.script.answer x.taken.size = a → (x.took a c k).Open [] →
        Cut script capacity reads [] (x.took a c k) := by
      intro hsize hlength hemitting hanswer hopen
      have hbounded : c.queue.length ≤ max capacity 1 := Nat.le_trans hlength h.bounded
      refine { h with
        size := hsize.trans h.size
        bounded := hbounded
        emitting := hemitting.trans h.emitting
        taken := ?_
        backlog := Nat.le_trans hopen.sent_le (Nat.add_le_add_left hbounded _)
        itemsRead := hopen.itemsRead_prefix
        consumer := .reads (by rw [size_took, ← hk]; omega) rfl hopen }
      rw [size_took, List.range_succ, List.map_append, took, Array.toList_push, h.taken, ← hanswer]
      rfl
    cases hq : x.channel.queue with
    | cons s r =>
      rw [Channel.recv_cons hq] at ha
      cases ha
      exact hkeep rfl (by rw [hq]; exact Nat.le_succ _) rfl (ho.answer_cons h.sent_le hq) (ho.took_signal hlog hq)
    | nil =>
      by_cases he : x.channel.emitting = true ∧ x.channel.receiver = .listening
      · rw [Channel.recv_pending hq he] at ha
        cases ha
        exact absurd rfl hne
      · rw [Channel.recv_closed hq he] at ha
        cases ha
        have hp : x.producing = false := by
          rw [← h.emitting]
          simpa [ho.listening] using he
        exact hkeep rfl (Nat.le_refl _) rfl (ho.answer_nil hp hq) (ho.took_closed hlog hp hq)

/-- **An item that is queued is told**, and the stream is there as before. -/
theorem Open.hear {s : Signal α} {r : List (Signal α)} {m : Summary} (h : x.Open l) (hq : x.channel.queue = s :: r)
    (hs : s.isLast = false) : ((x.unqueued r).hear m s).Open (l ++ [s]) := by
  unfold Exchange.hear
  rw [if_neg (by rw [hs]; decide)]
  refine h.receive rfl rfl rfl rfl ?_ h.within ?_
  · have hqueue := h.queue
    rw [hq] at hqueue
    rw [List.append_assoc]
    exact hqueue
  · cases s with
    | next a => simp [itemsRead, unqueued, Log.tell, itemsOf, Signal.item?, hq]
    | complete | error e => cases hs

/-- What is told is what is logged. -/
theorem Cut.tell (h : Cut script capacity reads l x) (s : Signal α) : x.log.tell s = (l ++ [s]).foldl .tell {} := by
  rw [List.foldl_append, h.log]
  rfl

/-- With the last call the exchange is over, if that is what there is to report of the rest. -/
theorem Cut.finish (h : Cut script capacity reads l x) {s : Signal α} {m : Summary} (hk : x.taken.size = reads)
    (hd : x.dropping = false) (hm : m = l.foldl .count {}) (hs : s.isLast = true) (hp : x.producing = false)
    (hl : l ++ [s] = (Report.ofSignals (x.script.signals.drop reads)).calls) :
    Cut script capacity reads (l ++ [s]) (x.hear m s) := by
  have hreceived : (x.log.tell s).received = x.log.received := by
    cases s with
    | next a => cases hs
    | complete | error e => rfl
  have hitems : (x.hear m s).itemsRead = x.itemsRead := by
    unfold hear
    rw [if_pos hs]
    simp only [Exchange.itemsRead, hreceived]
  have hbacklog : x.sent ≤ (x.hear m s).itemsRead.length + max capacity 1 := by rw [hitems]; exact h.backlog
  have hprefix : (x.hear m s).itemsRead <+: (List.range x.sent).map x.script.item := by
    rw [hitems]
    exact h.itemsRead
  have hlog := h.tell s
  unfold hear at hbacklog hprefix ⊢
  simp only [if_pos hs] at hbacklog hprefix ⊢
  refine { h with bounded := Nat.zero_le _, log := hlog, backlog := hbacklog, itemsRead := hprefix, consumer := ?_ }
  exact .served hk hd (by rw [List.foldl_append, hm]; rfl) hl hp

/-- A last signal that is read is not read before the producer is done. -/
theorem Open.not_producing {s : Signal α} {r : List (Signal α)} (h : x.Open l) (hq : x.channel.queue = s :: r)
    (hs : s.isLast = true) : x.producing = false := by
  cases hp : x.producing with
  | false => rfl
  | true =>
    have hqueue := h.queue
    rw [hq, signals_of_producing hp] at hqueue
    have hm : s ∈ x.script.front x.sent := List.mem_of_mem_drop (i := x.taken.size) (by rw [← hqueue]; simp)
    rw [Script.not_isLast_of_mem_front hm] at hs
    cases hs

/-- **Every step of the consumer keeps the cut.** -/
theorem Cut.consume (h : Cut script capacity reads l x) (hs : x.consume? = some y) :
    Cut script capacity reads (l ++ x.call?.toList) y := by
  have hc := h.consumer
  cases consumes_of_consume hs with
  | reads hx ha hne =>
    have hcall : x.call? = none := by simp [call?, hx]
    rw [hcall, Option.toList_none, List.append_nil]
    exact h.took hx ha hne
  | leaves hx hd =>
    have hcall : x.call? = none := by simp [call?, hx]
    rw [hcall, Option.toList_none, List.append_nil]
    rw [hx] at hc
    cases hc with
    | reads hk hl ho => exact { h with bounded := Nat.zero_le _, consumer := .left hk hd hl rfl rfl }
  | drives hx hd =>
    have hcall : x.call? = none := by simp [call?, hx]
    rw [hcall, Option.toList_none, List.append_nil]
    rw [hx] at hc
    cases hc with
    | reads hk hl ho =>
      subst hl
      exact { h with consumer := .drives hk hd rfl (by simp) (ho.receive rfl rfl rfl rfl ho.queue ho.within rfl) }
  | @hears m s r hx hq =>
    have hcall : x.call? = some s := by simp [call?, hx, Channel.recv_cons hq]
    rw [hcall, Option.toList_some]
    rw [hx] at hc
    cases hc with
    | drives hk hd hm hl ho =>
      have hqueue := ho.queue
      rw [hq, hk] at hqueue
      cases hlast : s.isLast with
      | true =>
        have hp := ho.not_producing hq hlast
        have hsame : (x.unqueued r).hear m s = x.hear m s := by
          unfold hear
          rw [if_pos hlast, if_pos hlast]; rfl
        rw [signals_eq hp (ho.sent hp)] at hqueue
        rw [hsame]
        exact h.finish hk hd hm hlast hp (by rw [← hqueue, Report.calls_ofSignals_of_isLast hl hlast])
      | false =>
        have hopen := ho.hear (m := m) hq hlast
        have hnone : ∀ t ∈ l ++ [s], t.isLast = false := by
          intro t ht
          rcases List.mem_append.1 ht with ht | ht
          · exact hl t ht
          · rw [List.mem_singleton.1 ht]; exact hlast
        have hbounded : r.length ≤ max capacity 1 := by
          have hb := h.bounded
          rw [hq, List.length_cons] at hb
          omega
        unfold hear at hopen ⊢
        rw [if_neg (by rw [hlast]; decide)] at hopen ⊢
        exact { h with
          bounded := hbounded
          log := h.tell s
          backlog := Nat.le_trans hopen.sent_le (Nat.add_le_add_left hbounded _)
          itemsRead := hopen.itemsRead_prefix
          consumer := .drives hk hd (by rw [List.foldl_append, hm]; rfl) hnone hopen }
  | @ends m hx hq he =>
    have hcall : x.call? = some (.error .truncated) := by
      simp [call?, hx, Channel.recv_closed hq he]
    rw [hcall, Option.toList_some]
    rw [hx] at hc
    cases hc with
    | drives hk hd hm hl ho =>
      have hp : x.producing = false := by
        rw [← h.emitting]
        simpa [ho.listening] using he
      have hqueue := ho.queue
      rw [hq, List.append_nil, hk, signals_eq hp (ho.sent hp)] at hqueue
      exact h.finish hk hd hm rfl hp (by rw [← hqueue, Report.calls_ofSignals_of_not_isLast hl])

theorem cut_start {c : Channel α} {dropping : Bool} (hc : Channel.open? α capacity = some c) :
    Cut script capacity reads [] (start script c reads dropping) := by
  obtain ⟨-, rfl⟩ := Channel.open?_eq_some_iff.1 hc
  exact {
    same := rfl
    size := rfl
    bounded := Nat.zero_le _
    emitting := rfl
    sent_le := Nat.zero_le _
    log := rfl
    taken := rfl
    backlog := Nat.zero_le _
    itemsRead := List.prefix_rfl
    consumer := .reads (Nat.zero_add _) rfl
      ⟨rfl, by simp [signals, start, Script.front], fun _ => Nat.le_refl _, fun hp => (by cases hp), rfl⟩ }

theorem Run.cut {c : Channel α} {dropping : Bool} {n : Nat} (hr : (start script c reads dropping).Run n l x)
    (hc : Channel.open? α capacity = some c) : Cut script capacity reads l x := by
  induction hr with
  | refl => exact cut_start hc
  | produced _ h ih => exact ih.produce h
  | consumed _ h ih => exact ih.consume h

theorem Run.dropping_eq {n : Nat} (hr : y.Run n l x) : x.dropping = y.dropping := by
  induction hr with
  | refl => rfl
  | produced _ h ih => rw [← ih]; cases produces_of_produce h <;> rfl
  | consumed _ h ih =>
    rw [← ih]
    cases consumes_of_consume h with
    | hears | ends => unfold hear; split_ifs <;> rfl
    | _ => rfl

/-! ### No exchange is stuck -/

/-- The producer's step is an item, a last signal or the end of the stream without one. -/
theorem produce?_eq (hp : x.producing = true) : x.produce? =
    if x.sent < x.script.length then x.sendItem?
    else (x.script.ending.signal?.map x.sendLast?).getD (some x.stopProducing) := by
  rw [produce?, hp, Bool.not_true, if_neg Bool.false_ne_true]
  cases x.script.ending <;> rfl

/-- A producer that is refused stops at once. -/
theorem produce?_of_refused (hp : x.producing = true) (hr : x.channel.receiver ≠ .listening) :
    x.produce? = some x.stopProducing := by
  have hsend : ∀ s, x.channel.send s = (.refused, x.channel) := fun s => if_pos hr
  have hlast : ∀ s, x.sendLast? s = some x.stopProducing := fun s => by
    rw [sendLast?, hsend]
    rfl
  rw [produce?_eq hp, sendItem?, hsend, ite_eq_left_iff]
  intro _
  cases x.script.ending.signal? with
  | none => rfl
  | some s => exact hlast s

/-- A producer that finds room need not wait. -/
theorem exists_produce (hp : x.producing = true) (hq : x.channel.queue.length < x.channel.capacity) :
    ∃ y, x.produce? = some y := by
  by_cases hr : x.channel.receiver = .listening
  · have hsend : ∀ s, x.channel.send s = (.done, { x.channel with queue := x.channel.queue ++ [s] }) := by
      intro s
      rw [Channel.send, if_neg (not_not.2 hr), if_pos hq]
    rw [produce?_eq hp, sendItem?, hsend]
    split_ifs
    · exact ⟨_, rfl⟩
    · cases x.script.ending.signal? with
      | none => exact ⟨_, rfl⟩
      | some s => exact ⟨_, by rw [Option.map_some, Option.getD_some, sendLast?, hsend]⟩
  · exact ⟨_, produce?_of_refused hp hr⟩

/-- A consumer that reads or drives has a step unless it waits at an empty queue. -/
theorem consume?_eq_none (h : x.consume? = none) :
    (∃ m, x.consumer = .finished m) ∨ x.consumer = .left ∨
      x.channel.queue = [] ∧ x.channel.emitting = true ∧ x.channel.receiver = .listening := by
  by_cases hwait : x.channel.queue = [] ∧ x.channel.emitting = true ∧ x.channel.receiver = .listening
  · exact .inr (.inr hwait)
  · have hrecv : (∃ s c, x.channel.recv = (.signal s, c)) ∨ ∃ c, x.channel.recv = (.closed, c) := by
      cases hq : x.channel.queue with
      | cons s r => exact .inl ⟨s, _, Channel.recv_cons hq⟩
      | nil => exact .inr ⟨_, Channel.recv_closed hq fun he => hwait ⟨hq, he⟩⟩
    cases hc : x.consumer with
    | finished m => exact .inl ⟨m, rfl⟩
    | left => exact .inr (.inl rfl)
    | driving m =>
      have h : x.drive? m = none := by rwa [consume?, hc] at h
      rcases hrecv with ⟨s, c, hs⟩ | ⟨c, hs⟩ <;> rw [drive?, hs] at h <;> cases h
    | reading k =>
      cases k with
      | zero =>
        rw [consume?, hc] at h
        cases h
      | succ k =>
        have h : x.read? k = none := by rwa [consume?, hc] at h
        rcases hrecv with ⟨s, c, hs⟩ | ⟨c, hs⟩ <;> rw [read?, hs] at h <;> cases h

/-- **No exchange is stuck**: as long as not both tasks are done, one of them has a step. -/
theorem Cut.exists_step (h : Cut script capacity reads l x) :
    (∃ y, x.Step y) ∨
      x.producing = false ∧ if x.dropping then x.consumer = .left else ∃ m, x.consumer = .finished m := by
  cases hx : x.consume? with
  | some y => exact .inl ⟨y, .consumer hx⟩
  | none =>
    have hwaits := consume?_eq_none hx
    cases hp : x.producing with
    | true =>
      -- the consumer waits only where there is room, and it is gone or done otherwise
      have hroom : x.channel.queue.length < x.channel.capacity ∨ x.channel.receiver ≠ .listening := by
        have hsize := h.size
        have hc := h.consumer
        rcases hwaits with ⟨m, hm⟩ | hleft | ⟨hq, -, -⟩
        · rw [hm] at hc
          cases hc with
          | served _ _ _ _ hp' => cases hp.symm.trans hp'
        · rw [hleft] at hc
          cases hc with
          | left _ _ _ hr => exact .inr (by rw [hr]; decide)
        · exact .inl (by rw [hq, hsize, List.length_nil]; omega)
      obtain ⟨y, hy⟩ : ∃ y, x.produce? = some y := hroom.elim (exists_produce hp) fun hr =>
        ⟨_, produce?_of_refused hp hr⟩
      exact .inl ⟨y, .producer hy⟩
    | false =>
      refine .inr ⟨rfl, ?_⟩
      have hc := h.consumer
      rcases hwaits with ⟨m, hm⟩ | hleft | ⟨-, he, -⟩
      · rw [hm] at hc
        cases hc with
        | served _ hd => simp [hd, hm]
      · rw [hleft] at hc
        cases hc with
        | left _ hd => simp [hd, hleft]
      · cases hp.symm.trans (h.emitting.symm.trans he)

/-! ### Once the stream is dropped -/

/-- **The stream was dropped**: the consumer is gone, the producer stops at its next step and nothing else
happens, so nothing is accepted any more. -/
structure Abandoned (x : Exchange α) : Prop where
  stops : x.producing = true → x.produce? = some x.stopProducing
  only : ∀ y, x.Step y → x.producing = true ∧ y = x.stopProducing
  accepted : ∀ y, x.Reachable y → y.sent = x.sent ∧ y.channel.queue = []

/-- A producer that has stopped has no step. -/
theorem produce?_stopped (hp : x.producing = false) : x.produce? = none := by
  simp [produce?, hp]

theorem abandoned_of_left (hc : x.consumer = .left) (hr : x.channel.receiver ≠ .listening)
    (hq : x.channel.queue = []) : x.Abandoned := by
  have hconsume : x.consume? = none := by rw [consume?, hc]
  have honly : ∀ y, x.Step y → x.producing = true ∧ y = x.stopProducing := by
    intro y hy
    cases hy with
    | consumer hy => cases hconsume.symm.trans hy
    | producer hy =>
      cases hp : x.producing with
      | false => cases (produce?_stopped hp).symm.trans hy
      | true => exact ⟨rfl, (Option.some.inj ((produce?_of_refused hp hr).symm.trans hy)).symm⟩
  refine ⟨fun hp => produce?_of_refused hp hr, honly, fun y hy => ?_⟩
  -- there is at most one step, after which neither task has another
  suffices y = x ∨ y = x.stopProducing by rcases this with rfl | rfl <;> exact ⟨rfl, hq⟩
  induction hy with
  | refl => exact .inl rfl
  | tail _ hs ih =>
    rcases ih with rfl | rfl
    · exact .inr (honly _ hs).2
    · cases hs with
      | producer hs => cases (produce?_stopped rfl).symm.trans hs
      | consumer hs =>
        rw [stopProducing, consume?, hc] at hs
        cases hs

end

end Exchange

end Handoff
