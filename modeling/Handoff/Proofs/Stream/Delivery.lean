import Handoff.Stream.Exchange
import Mathlib.Data.List.Basic
import Mathlib.Tactic.SplitIfs

/-! # What is delivered, whatever the interleaving

A producer sends its script through a channel, and a consumer drives the stream to its end. At any time
what the subscriber was told, followed by what is queued, is what was sent so far; from this all else
follows. The subscriber is told the whole script and how it ended, and neither the capacity nor the
interleaving can be seen from that.

* `Exchange.call?`, `Exchange.Run`: a run with its number of steps and what the subscriber was told.
* `Exchange.Underway`: what every step keeps (`Underway.produce`, `Underway.consume`).
* `Exchange.Delivered`: the end of a run.
* `Exchange.delivery_independent`: every run comes to this end.
-/

namespace Handoff

variable {α : Type}

/-! ### Scripts -/

/-- The signal that the producer sends last, if it sends one. -/
def Ending.signal? : Ending → Option (Signal α)
  | complete => some .complete
  | error e => some (.error e)
  | drop => none

/-- What the subscriber is told last. -/
def Ending.call : Ending → Signal α
  | complete => .complete
  | error e => .error e
  | drop => .error .truncated

namespace Script

/-- The first items of a script, as signals. -/
def front (s : Script α) (n : Nat) : List (Signal α) := (List.range n).map fun i => .next (s.item i)

/-- The items of a script. -/
def items (s : Script α) : List α := (List.range s.length).map s.item

/-- **What the subscriber is to be told**: the items in their order, and then how the stream ended. -/
def calls (s : Script α) : List (Signal α) := s.items.map .next ++ [s.ending.call]

/-- **The summary that is due.** -/
def summary (s : Script α) : Summary := ⟨s.length, s.ending = .complete, s.ending ≠ .complete⟩

theorem front_succ (s : Script α) (n : Nat) : s.front (n + 1) = s.front n ++ [.next (s.item n)] := by
  simp [front, List.range_succ]

theorem front_prefix_front (s : Script α) {n m : Nat} (h : n ≤ m) : s.front n <+: s.front m := by
  have htake : s.front n = (s.front m).take n := by
    rw [front, front, ← List.map_take, List.take_range, Nat.min_eq_left h]
  rw [htake]
  exact List.take_prefix n _

theorem not_isLast_of_mem_front {s : Script α} {n : Nat} {a : Signal α} (ha : a ∈ s.front n) :
    a.isLast = false := by
  simp only [front, List.mem_map] at ha
  obtain ⟨i, -, rfl⟩ := ha
  rfl

theorem calls_eq (s : Script α) : s.calls = s.front s.length ++ [s.ending.call] := by
  simp [calls, items, front]

end Script

/-! ### Reading from a channel -/

namespace Channel

variable {c : Channel α}

theorem recv_cons {s : Signal α} {r : List (Signal α)} (hq : c.queue = s :: r) :
    c.recv = (.signal s, { c with queue := r }) := by
  unfold recv; rw [hq]

theorem recv_pending (hq : c.queue = []) (h : c.emitting = true ∧ c.receiver = .listening) :
    c.recv = (.pending, c) := by
  unfold recv; rw [hq]; simp only [if_pos h]

theorem recv_closed (hq : c.queue = []) (h : ¬ (c.emitting = true ∧ c.receiver = .listening)) :
    c.recv = (.closed, c) := by
  unfold recv; rw [hq]; simp only [if_neg h]

end Channel

/-! ### Runs -/

namespace Exchange

/-- What the consumer's next step tells the subscriber, if it drives and need not wait. -/
def call? (x : Exchange α) : Option (Signal α) :=
  match x.consumer with
  | .driving _ =>
    match x.channel.recv.1 with
    | .signal s => some s
    | .pending => none
    | _ => some (.error .truncated)
  | _ => none

/-- **A run** with its number of steps, and what the subscriber was told on the way. -/
inductive Run (x : Exchange α) : Nat → List (Signal α) → Exchange α → Prop where
  | refl : Run x 0 [] x
  | produced {n : Nat} {l : List (Signal α)} {y z : Exchange α} (hr : Run x n l y)
      (h : y.produce? = some z) : Run x (n + 1) l z
  | consumed {n : Nat} {l : List (Signal α)} {y z : Exchange α} (hr : Run x n l y)
      (h : y.consume? = some z) : Run x (n + 1) (l ++ y.call?.toList) z

/-- **A run has no more steps than its start has weight.** -/
theorem Run.add_weight_le {x y : Exchange α} {n : Nat} {l : List (Signal α)} (h : x.Run n l y) :
    n + y.weight ≤ x.weight := by
  induction h with
  | refl => omega
  | produced _ h ih => have := weight_produce h; omega
  | consumed _ h ih => have := weight_consume h; omega

/-- **Every run can be carried on to its end.** -/
theorem Run.exists_end {x y : Exchange α} {n : Nat} {l : List (Signal α)} (h : x.Run n l y) :
    ∃ n' l' z, x.Run n' l' z ∧ ¬ ∃ z', z.Step z' := by
  by_cases hs : ∃ z, y.Step z
  · obtain ⟨z, hz⟩ := hs
    have hlt := weight_lt hz
    cases hz with
    | producer hz => exact (h.produced hz).exists_end
    | consumer hz => exact (h.consumed hz).exists_end
  · exact ⟨n, l, y, h, hs⟩
termination_by y.weight

/-! ### What a step can do -/

/-- The exchange with one more signal queued. -/
def queued (x : Exchange α) (s : Signal α) : Exchange α :=
  { x with channel := { x.channel with queue := x.channel.queue ++ [s] } }

/-- The exchange with `r` left in the queue. -/
def unqueued (x : Exchange α) (r : List (Signal α)) : Exchange α :=
  { x with channel := { x.channel with queue := r } }

/-- **What a step of the producer can do.** -/
inductive Produces (x : Exchange α) : Exchange α → Prop where
  | item (hp : x.producing = true) (hs : x.sent < x.script.length)
      (hr : x.channel.receiver = .listening) (hq : x.channel.queue.length < x.channel.capacity) :
      Produces x { x.queued (.next (x.script.item x.sent)) with sent := x.sent + 1 }
  | last {s : Signal α} (hp : x.producing = true) (hs : x.script.length ≤ x.sent)
      (he : x.script.ending.signal? = some s) (hr : x.channel.receiver = .listening)
      (hq : x.channel.queue.length < x.channel.capacity) : Produces x (x.queued s).stopProducing
  | dropped (hp : x.producing = true) (hs : x.script.length ≤ x.sent)
      (he : (x.script.ending.signal? : Option (Signal α)) = none) : Produces x x.stopProducing
  | refused (hp : x.producing = true) (hr : x.channel.receiver ≠ .listening) :
      Produces x x.stopProducing

/-- **What a step of the consumer can do.** -/
inductive Consumes (x : Exchange α) : Exchange α → Prop where
  | reads {k : Nat} {a : Answer α} {c : Channel α} (hc : x.consumer = .reading (k + 1))
      (ha : x.channel.recv = (a, c)) (hne : a ≠ .pending) :
      Consumes x { x with channel := c, consumer := .reading k, taken := x.taken.push a }
  | leaves (hc : x.consumer = .reading 0) (hd : x.dropping = true) :
      Consumes x { x with consumer := .left, channel := x.channel.withoutStream }
  | drives (hc : x.consumer = .reading 0) (hd : x.dropping = false) :
      Consumes x { x with consumer := .driving {} }
  | hears {m : Summary} {s : Signal α} {r : List (Signal α)} (hc : x.consumer = .driving m)
      (hq : x.channel.queue = s :: r) : Consumes x ((x.unqueued r).hear m s)
  | ends {m : Summary} (hc : x.consumer = .driving m) (hq : x.channel.queue = [])
      (he : ¬ (x.channel.emitting = true ∧ x.channel.receiver = .listening)) :
      Consumes x (x.hear m (.error .truncated))

theorem produces_of_sendLast {x y : Exchange α} {s : Signal α} (hp : x.producing = true)
    (hs : x.script.length ≤ x.sent) (he : x.script.ending.signal? = some s)
    (h : x.sendLast? s = some y) : x.Produces y := by
  unfold sendLast? Channel.send at h
  split_ifs at h with hr hq
  · cases h; exact .refused hp hr
  · cases h; exact .last hp hs he (not_not.1 hr) hq

theorem produces_of_produce {x y : Exchange α} (h : x.produce? = some y) : x.Produces y := by
  unfold produce? at h
  split_ifs at h with hp hs
  · have hp : x.producing = true := by simpa using hp
    unfold sendItem? Channel.send at h
    split_ifs at h with hr hq
    · cases h; exact .refused hp hr
    · cases h; exact .item hp hs (not_not.1 hr) hq
  · have hp : x.producing = true := by simpa using hp
    have hs : x.script.length ≤ x.sent := Nat.le_of_not_lt hs
    split at h
    · next he => exact produces_of_sendLast hp hs (by rw [he]; rfl) h
    · next e he => exact produces_of_sendLast hp hs (by rw [he]; rfl) h
    · next he => cases h; exact .dropped hp hs (by rw [he]; rfl)

theorem consumes_of_consume {x y : Exchange α} (h : x.consume? = some y) : x.Consumes y := by
  unfold consume? at h
  split at h
  · next k hc =>
    unfold read? at h
    split at h
    · cases h
    · next a c hne ha =>
      cases h
      exact .reads hc ha hne
  · next hc =>
    cases h
    split_ifs with hd
    · exact .leaves hc hd
    · exact .drives hc (by simpa using hd)
  · next m hc =>
    unfold drive? at h
    cases hq : x.channel.queue with
    | cons s r =>
      rw [Channel.recv_cons hq] at h
      cases h
      exact .hears hc hq
    | nil =>
      by_cases he : x.channel.emitting = true ∧ x.channel.receiver = .listening
      · rw [Channel.recv_pending hq he] at h
        cases h
      · rw [Channel.recv_closed hq he] at h
        cases h
        exact .ends hc hq he
  · cases h
  · cases h

/-! ### What every step keeps -/

/-- The signals that were sent so far. -/
def signals (x : Exchange α) : List (Signal α) :=
  x.script.front x.sent ++ if x.producing then [] else x.script.ending.signal?.toList

/-- Where the consumer is when the subscriber was told `l`: before it drives, while it does, or after
that. Until the end, what was told and what is queued is what was sent. -/
inductive Attends (x : Exchange α) (l : List (Signal α)) : Consumer → Prop where
  | waits (hl : l = []) (hr : x.channel.receiver = .listening)
      (hq : l ++ x.channel.queue = x.signals) : Attends x l (.reading 0)
  | drives {m : Summary} (hm : m = l.foldl .count {}) (hl : ∀ s ∈ l, s.isLast = false)
      (hr : x.channel.receiver = .listening) (hq : l ++ x.channel.queue = x.signals) :
      Attends x l (.driving m)
  | served {m : Summary} (hm : m = l.foldl .count {}) (hl : l = x.script.calls)
      (hp : x.producing = false) : Attends x l (.finished m)

/-- **An exchange under way**, in which the subscriber was told `l`. -/
structure Underway (script : Script α) (capacity : Nat) (l : List (Signal α)) (x : Exchange α) :
    Prop where
  same : x.script = script
  dropping : x.dropping = false
  size : x.channel.capacity = max capacity 1
  bounded : x.channel.queue.length ≤ max capacity 1
  emitting : x.channel.emitting = x.producing
  sent_le : x.sent ≤ x.script.length
  sent : x.producing = false → x.sent = x.script.length
  log : x.log = l.foldl .tell {}
  consumer : Attends x l x.consumer

section

variable {script : Script α} {capacity : Nat} {l : List (Signal α)} {x y : Exchange α}

theorem Underway.listening (h : Underway script capacity l x) (hp : x.producing = true) :
    x.channel.receiver = .listening := by
  have hc := h.consumer
  generalize x.consumer = c at hc
  cases hc with
  | waits _ hr => exact hr
  | drives _ _ hr => exact hr
  | served _ _ hp' => rw [hp] at hp'; cases hp'

theorem signals_of_producing (hp : x.producing = true) : x.signals = x.script.front x.sent := by
  simp [signals, hp]

theorem Underway.signals_of_not_producing (h : Underway script capacity l x)
    (hp : x.producing = false) :
    x.signals = x.script.front x.script.length ++ x.script.ending.signal?.toList := by
  simp [signals, hp, h.sent hp]

/-- The consumer attends as before where as many signals are sent as are queued. -/
theorem Attends.queue {s : List (Signal α)} (hp : x.producing = true)
    (hc : Attends x l x.consumer) (hx : y.consumer = x.consumer)
    (hr : y.channel.receiver = x.channel.receiver) (hq : y.channel.queue = x.channel.queue ++ s)
    (hs : y.signals = x.signals ++ s) : Attends y l y.consumer := by
  rw [hx]
  generalize x.consumer = c at hc
  cases hc with
  | waits hl hr' hq' => exact .waits hl (hr.trans hr') (by rw [hq, hs, ← List.append_assoc, hq'])
  | drives hm hl hr' hq' =>
    exact .drives hm hl (hr.trans hr') (by rw [hq, hs, ← List.append_assoc, hq'])
  | served _ _ hp' => rw [hp] at hp'; cases hp'

/-- **Every step of the producer keeps the exchange under way**, and it is never refused. -/
theorem Underway.produce (h : Underway script capacity l x) (hs : x.produce? = some y) :
    Underway script capacity l y := by
  have hsize := h.size
  cases produces_of_produce hs with
  | item hp hlt hr hq =>
    refine { h with bounded := ?_, sent_le := hlt, sent := fun hp' => ?_, consumer := ?_ }
    · simp only [queued, List.length_append, List.length_singleton]
      omega
    · cases hp.symm.trans hp'
    · refine h.consumer.queue hp rfl rfl rfl ?_
      rw [signals_of_producing hp, signals_of_producing (x := { queued x _ with sent := _ }) hp]
      exact x.script.front_succ x.sent
  | @last s hp hle he hr hq =>
    have hsent : x.sent = x.script.length := Nat.le_antisymm h.sent_le hle
    refine { h with bounded := ?_, emitting := rfl, sent := fun _ => hsent, consumer := ?_ }
    · simp only [queued, stopProducing, Channel.withoutEmitter, List.length_append,
        List.length_singleton]
      omega
    · refine h.consumer.queue hp rfl rfl rfl ?_
      rw [signals_of_producing hp]
      simp [signals, stopProducing, queued, he]
  | dropped hp hle he =>
    have hsent : x.sent = x.script.length := Nat.le_antisymm h.sent_le hle
    refine { h with emitting := rfl, sent := fun _ => hsent, consumer := ?_ }
    refine h.consumer.queue (s := []) hp rfl rfl (List.append_nil _).symm ?_
    rw [signals_of_producing hp]
    simp [signals, stopProducing, he]
  | refused hp hr => exact absurd (h.listening hp) hr

/-- A last signal that is read is that of the script, and everything was told before it. -/
theorem Underway.calls_of_isLast (h : Underway script capacity l x) {s : Signal α}
    {r : List (Signal α)} (hq : l ++ s :: r = x.signals) (hs : s.isLast = true) :
    x.producing = false ∧ l ++ [s] = x.script.calls := by
  have hnot : ∀ n, s ∉ x.script.front n := by
    intro n hm
    rw [Script.not_isLast_of_mem_front hm] at hs
    cases hs
  cases hp : x.producing with
  | true =>
    rw [signals_of_producing hp] at hq
    have hm : s ∈ x.script.front x.sent := by rw [← hq]; simp
    exact absurd hm (hnot _)
  | false =>
    refine ⟨rfl, ?_⟩
    rw [h.signals_of_not_producing hp] at hq
    rw [Script.calls_eq]
    -- the last signal of all that was sent is that of the ending, if there is one
    rcases List.eq_nil_or_concat r with rfl | ⟨r', z, rfl⟩
    · cases he : x.script.ending with
      | drop =>
        rw [he, Ending.signal?, Option.toList_none, List.append_nil] at hq
        have hm : s ∈ x.script.front x.script.length := by rw [← hq]; simp
        exact absurd hm (hnot _)
      | complete | error e => rw [he] at hq; exact hq
    · exfalso
      have hm : s ∈ x.script.front x.script.length := by
        cases he : x.script.ending with
        | drop =>
          rw [he, Ending.signal?, Option.toList_none, List.append_nil] at hq
          rw [← hq]; simp
        | complete | error e =>
          rw [he, List.concat_eq_append, ← List.cons_append, ← List.append_assoc] at hq
          rw [← List.append_inj_left' hq rfl]; simp
      exact hnot _ hm

/-- A stream that is at its end without a last signal was not ended by one. -/
theorem Underway.calls_of_empty (h : Underway script capacity l x) (hp : x.producing = false)
    (hl : ∀ s ∈ l, s.isLast = false) (hq : l = x.signals) :
    l ++ [.error .truncated] = x.script.calls := by
  rw [h.signals_of_not_producing hp] at hq
  rw [Script.calls_eq]
  cases he : x.script.ending with
  | drop =>
    rw [he, Ending.signal?, Option.toList_none, List.append_nil] at hq
    rw [hq]; rfl
  | complete | error e =>
    rw [he] at hq
    have hlast := hl _ (by rw [hq]; exact List.mem_append_right _ (List.mem_singleton_self _))
    cases hlast

/-- With the last call the exchange is over. -/
theorem Underway.finish (h : Underway script capacity l x) {s : Signal α} {m : Summary}
    (hm : m = l.foldl .count {}) (hs : s.isLast = true) (hp : x.producing = false)
    (hl : l ++ [s] = x.script.calls) : Underway script capacity (l ++ [s]) (x.hear m s) := by
  have hlog : x.log.tell s = (l ++ [s]).foldl .tell {} := by rw [List.foldl_append, h.log]; rfl
  unfold hear
  rw [if_pos hs]
  refine { h with bounded := Nat.zero_le _, log := hlog, consumer := ?_ }
  exact .served (by rw [List.foldl_append, hm]; rfl) hl hp

/-- **Every step of the consumer keeps the exchange under way.** -/
theorem Underway.consume (h : Underway script capacity l x) (hs : x.consume? = some y) :
    Underway script capacity (l ++ x.call?.toList) y := by
  have hc := h.consumer
  cases consumes_of_consume hs with
  | reads hx =>
    rw [hx] at hc
    cases hc
  | leaves _ hd => cases h.dropping.symm.trans hd
  | drives hx hd =>
    have hcall : x.call? = none := by simp [call?, hx]
    rw [hx] at hc
    cases hc with
    | waits hl hr hq =>
      subst hl
      rw [hcall]
      exact { h with consumer := .drives rfl (by simp) hr hq }
  | @hears m s r hx hq =>
    have hcall : x.call? = some s := by simp [call?, hx, Channel.recv_cons hq]
    rw [hcall]
    rw [hx] at hc
    cases hc with
    | drives hm hl hr hq' =>
      rw [hq] at hq'
      cases hlast : s.isLast with
      | true =>
        obtain ⟨hp, hcalls⟩ := h.calls_of_isLast hq' hlast
        have hsame : (x.unqueued r).hear m s = x.hear m s := by
          unfold hear
          rw [if_pos hlast, if_pos hlast]; rfl
        rw [hsame]
        exact h.finish hm hlast hp hcalls
      | false =>
        have hbound : r.length ≤ max capacity 1 := by
          have hb := h.bounded
          rw [hq, List.length_cons] at hb
          omega
        have hlog : x.log.tell s = (l ++ [s]).foldl .tell {} := by
          rw [List.foldl_append, h.log]; rfl
        have hnone : ∀ t ∈ l ++ [s], t.isLast = false := by
          intro t ht
          rcases List.mem_append.1 ht with ht | ht
          · exact hl t ht
          · rw [List.mem_singleton.1 ht]; exact hlast
        have hqueue : l ++ [s] ++ r = x.signals := by rw [← hq', List.append_assoc]; rfl
        unfold hear
        rw [if_neg (by rw [hlast]; decide)]
        refine { h with bounded := hbound, log := hlog, consumer := ?_ }
        exact .drives (by rw [Option.toList_some, List.foldl_append, hm]; rfl) hnone hr hqueue
  | @ends m hx hq he =>
    have hcall : x.call? = some (.error .truncated) := by
      simp [call?, hx, Channel.recv_closed hq he]
    rw [hcall]
    rw [hx] at hc
    cases hc with
    | drives hm hl hr hq' =>
      have hp : x.producing = false := by
        rw [← h.emitting]
        simpa [hr] using he
      rw [hq, List.append_nil] at hq'
      exact h.finish hm rfl hp (h.calls_of_empty hp hl hq')

theorem underway_start {c : Channel α} (hc : Channel.open? α capacity = some c) :
    Underway script capacity [] (start script c 0 false) := by
  unfold Channel.open? at hc
  split_ifs at hc
  cases hc
  exact {
    same := rfl
    dropping := rfl
    size := rfl
    bounded := Nat.zero_le _
    emitting := rfl
    sent_le := Nat.zero_le _
    sent := fun hp => by cases hp
    log := rfl
    consumer := .waits rfl rfl (by simp [signals, start, Script.front]) }

theorem Run.underway {c : Channel α} {n : Nat} (hr : (start script c 0 false).Run n l x)
    (hc : Channel.open? α capacity = some c) : Underway script capacity l x := by
  induction hr with
  | refl => exact underway_start hc
  | produced _ h ih => exact ih.produce h
  | consumed _ h ih => exact ih.consume h

/-- What was told is the beginning of what is to be told. -/
theorem Underway.prefix_calls (h : Underway script capacity l x) : l <+: script.calls := by
  have hc := h.consumer
  have hsignals : x.signals <+: script.calls := by
    rw [← h.same, Script.calls_eq]
    cases hp : x.producing with
    | true =>
      rw [signals_of_producing hp]
      exact (x.script.front_prefix_front h.sent_le).trans (List.prefix_append _ _)
    | false =>
      rw [h.signals_of_not_producing hp]
      cases x.script.ending with
      | complete | error e => exact List.prefix_rfl
      | drop => exact (List.prefix_append_right_inj _).2 List.nil_prefix
  generalize x.consumer = c at hc
  cases hc with
  | waits hl => rw [hl]; exact List.nil_prefix
  | drives _ _ _ hq => exact (hq ▸ List.prefix_append _ _ : l <+: x.signals).trans hsignals
  | served _ hl => simp only [hl, h.same, List.prefix_rfl]

/-! ### The end -/

/-- **The script was delivered**: the subscriber was told all of it and how it ended, and nothing
else; the summary says so, and both tasks are done. -/
structure Delivered (script : Script α) (l : List (Signal α)) (x : Exchange α) : Prop where
  calls : l = script.calls
  consumer : x.consumer = .finished script.summary
  producing : x.producing = false
  sent : x.sent = script.length
  received : x.log.received.toList = script.items
  completions : x.log.completions = if script.ending = .complete then 1 else 0
  errors : x.log.errors.toList = match script.ending with
    | .complete => []
    | .error e => [e]
    | .drop => [.truncated]

theorem foldl_count_items (items : List α) (m : Summary) :
    (items.map .next).foldl .count m = { m with items := m.items + items.length } := by
  induction items generalizing m with
  | nil => rfl
  | cons a items ih =>
    rw [List.map_cons, List.foldl_cons, ih, List.length_cons, Summary.count]
    simp only [Nat.add_assoc, Nat.add_comm 1]

theorem foldl_tell_items (items : List α) (g : Log α) :
    (items.map .next).foldl .tell g = { g with received := g.received ++ items } := by
  induction items generalizing g with
  | nil => simp
  | cons a items ih => rw [List.map_cons, List.foldl_cons, ih, Log.tell]; simp

theorem foldl_count_calls (script : Script α) : script.calls.foldl .count {} = script.summary := by
  rw [Script.calls, List.foldl_append, foldl_count_items]
  cases he : script.ending <;>
    simp [Script.summary, Script.items, Summary.count, Ending.call, he]

/-- Where the consumer is finished, everything was delivered. -/
theorem Underway.delivered (h : Underway script capacity l x) {m : Summary}
    (hm : x.consumer = .finished m) : Delivered script l x := by
  have hc := h.consumer
  have hlog := h.log
  have hsent := h.sent
  rw [hm] at hc
  rw [h.same] at hsent
  cases hc with
  | served hm' hl hp =>
    rw [h.same] at hl
    subst hl
    rw [Script.calls, List.foldl_append, foldl_tell_items] at hlog
    refine ⟨rfl, by rw [hm, hm', foldl_count_calls], hp, hsent hp, ?_, ?_, ?_⟩ <;>
      cases he : script.ending <;> simp [hlog, Log.tell, Ending.call, he]

/-- **No exchange is stuck**: as long as the consumer is not finished, one of the tasks has a
step. -/
theorem Underway.exists_step (h : Underway script capacity l x) :
    (∃ y, x.Step y) ∨ Delivered script l x := by
  have hc := h.consumer
  cases hx : x.consume? with
  | some y => exact .inl ⟨y, .consumer hx⟩
  | none =>
    generalize hcon : x.consumer = c at hc
    cases hc with
    | waits => simp [consume?, hcon] at hx
    | served => exact .inr (h.delivered hcon)
    | drives _ _ hr =>
      -- the consumer waits only for an empty queue, which leaves the producer room
      simp only [consume?, hcon, drive?] at hx
      cases hq : x.channel.queue with
      | cons s r => simp [Channel.recv_cons hq] at hx
      | nil =>
        by_cases he : x.channel.emitting = true ∧ x.channel.receiver = .listening
        · have hroom : x.channel.queue.length < x.channel.capacity := by
            rw [hq, h.size, List.length_nil]; omega
          have hsend : ∀ s, (x.channel.send s).1 = .done := by
            intro s
            unfold Channel.send
            rw [if_neg (not_not.2 hr), if_pos hroom]
          left
          cases hp : x.produce? with
          | some y => exact ⟨y, .producer hp⟩
          | none =>
            exfalso
            rw [h.emitting] at he
            unfold produce? sendItem? sendLast? at hp
            simp only [he.1] at hp
            grind
        · simp [Channel.recv_closed hq he] at hx

end

/-- **What a run keeps to**: the capacity, that no send is refused, and the order of what the
subscriber is told. It can go on, or the script was delivered. -/
structure Faithful (script : Script α) (capacity : Nat) (l : List (Signal α)) (x : Exchange α) :
    Prop where
  bounded : x.channel.queue.length ≤ max capacity 1
  accepted : x.producing = true → ∀ s, (x.channel.send s).1 ≠ .refused
  ordered : l <+: script.calls
  log : x.log = l.foldl .tell {}
  goesOn : (∃ y, x.Step y) ∨ Delivered script l x
  finished : ∀ m, x.consumer = .finished m → Delivered script l x

theorem Underway.faithful {script : Script α} {capacity : Nat} {l : List (Signal α)} {x : Exchange α}
    (h : Underway script capacity l x) : Faithful script capacity l x where
  bounded := h.bounded
  accepted hp s hs := by
    unfold Channel.send at hs
    rw [if_neg (not_not.2 (h.listening hp))] at hs
    split_ifs at hs
  ordered := h.prefix_calls
  log := h.log
  goesOn := h.exists_step
  finished _ hm := h.delivered hm

/-- **What is delivered does not depend on the interleaving or the capacity.** Every run of a script
over a new channel keeps to the rules, ends, and ends with the whole script delivered; so two runs, over
channels of any capacities, show the subscriber the same. -/
theorem delivery_independent (script : Script α) :
    (∀ capacity ≤ Channel.maxCapacity, ∃ c, Channel.open? α capacity = some c ∧
      ∀ n l x, (start script c 0 false).Run n l x →
        n ≤ 2 * script.length + 4 ∧ Faithful script capacity l x) ∧
    ∀ capacity capacity' c c', Channel.open? α capacity = some c →
      Channel.open? α capacity' = some c' → ∀ n n' l l' x x',
        (start script c 0 false).Run n l x → (¬ ∃ y, x.Step y) →
        (start script c' 0 false).Run n' l' x' → (¬ ∃ y, x'.Step y) →
          l = l' ∧ x.consumer = x'.consumer ∧ x.log = x'.log := by
  refine ⟨fun capacity h => ?_, fun capacity capacity' c c' hc hc' n n' l l' x x' hr hx hr' hx' => ?_⟩
  · have hmax : max capacity 1 ≤ Channel.maxCapacity := Nat.max_le.2 ⟨h, by decide⟩
    refine ⟨_, if_pos hmax, fun n l x hr => ⟨?_, (hr.underway (if_pos hmax)).faithful⟩⟩
    have hle := hr.add_weight_le
    simp only [weight, start, Consumer.weight, List.length_nil, if_true] at hle
    omega
  · have hd := (hr.underway hc).exists_step.resolve_left hx
    have hd' := (hr'.underway hc').exists_step.resolve_left hx'
    have hl : l = l' := hd.calls.trans hd'.calls.symm
    refine ⟨hl, hd.consumer.trans hd'.consumer.symm, ?_⟩
    rw [(hr.underway hc).log, (hr'.underway hc').log, hl]

/-- Two items and a failure, over a channel with room for one signal and over one with room for
five. -/
theorem delivery_independent_tight :
    ∃ c c' : Channel Nat, Channel.open? Nat 0 = some c ∧ Channel.open? Nat 5 = some c' ∧
      ∃ n l x n' l' x', (start ⟨2, id, .error .truncated⟩ c 0 false).Run n l x ∧
        (start ⟨2, id, .error .truncated⟩ c' 0 false).Run n' l' x' ∧
          n ≤ 8 ∧ l = [.next 0, .next 1, .error .truncated] ∧ l = l' ∧ x.log = x'.log := by
  obtain ⟨hruns, hsame⟩ := delivery_independent (⟨2, id, .error .truncated⟩ : Script Nat)
  obtain ⟨c, hc, h⟩ := hruns 0 (Nat.zero_le _)
  obtain ⟨c', hc', -⟩ := hruns 5 (by decide)
  obtain ⟨n, l, x, hr, hx⟩ := (Run.refl (x := start ⟨2, id, .error .truncated⟩ c 0 false)).exists_end
  obtain ⟨n', l', x', hr', hx'⟩ :=
    (Run.refl (x := start ⟨2, id, .error .truncated⟩ c' 0 false)).exists_end
  obtain ⟨hn, hf⟩ := h n l x hr
  obtain ⟨hl, -, hlog⟩ := hsame 0 5 c c' hc hc' n n' l l' x x' hr hx hr' hx'
  exact ⟨c, c', hc, hc', n, l, x, n', l', x', hr, hr', hn, (hf.goesOn.resolve_left hx).calls, hl, hlog⟩

end Exchange

end Handoff
