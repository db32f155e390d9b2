import Handoff.Proofs.Managed.Counter
import Handoff.Proofs.Managed.Custody

/-! # Following an object

An object is under a name or in the program's hands, and goes to and fro. What becomes of it is told by the uses
that are addressed to it on its way, and by nothing else.

* `Whereabouts`, `Workshop.record?`: where an object is.
* `Workshop.follow`: where an object gets to in a run, with the uses that are addressed to it.
* `Workshop.record_acts`: these uses are all that happens to it.
* `Workshop.counter_acts`: its counter.
-/

namespace Handoff

namespace Workshop

/-- **Where an object is**: under a name in the registry, or in the program's hands. -/
inductive Whereabouts where
  | registered (name : ObjectName)
  | removed (object : Nat)

namespace Operation

/-- The use that an operation makes of the object at a place. -/
def useAt? (op : Operation) : Whereabouts → Option Use
  | .registered name => op.use?.bind fun nu => if nu.1 = name then some nu.2 else none
  | .removed object => op.directUse? object

/-- Where the object at a place is after an operation, unless it is given away in vain. -/
def moves? (w : Workshop Registry) (op : Operation) : Whereabouts → Option Whereabouts
  | .registered name =>
    match op with
    | unregister n => some (if n = name then .removed w.removed.length else .registered name)
    | _ => some (.registered name)
  | .removed object =>
    match op with
    | reregister n k =>
      if k = object then if (w.registry.find? n).isSome then none else some (.registered n)
      else some (.removed object)
    | _ => some (.removed object)

/-- The whole numbers that an operation is given are such as are kept exactly. -/
def InRange (op : Operation) : Prop := ∀ p u, op.useAt? p = some u → u.InRange

end Operation

/-- The record at a place. -/
def record? (w : Workshop Registry) : Whereabouts → Option Record
  | .registered name => w.registry.find? name
  | .removed object => w.held? object

/-- **Where an object gets to in a run**, with the uses that are addressed to it, unless it is given away in
vain. -/
def follow (w : Workshop Registry) (p : Whereabouts) : List Operation → Option (Whereabouts × List Use)
  | [] => some (p, [])
  | op :: ops =>
    (op.moves? w p).bind fun q =>
      ((w.act op).2.follow q ops).map fun found => (found.1, (op.useAt? p).toList ++ found.2)

section Follow

variable {w : Workshop Registry} {op : Operation} {p q : Whereabouts} {r : Record} {name : ObjectName}
  {u : Use}

theorem useAt_of_asks_ne {n : ObjectName} (hop : op.asks? = some n) (hne : n ≠ name) :
    op.useAt? (.registered name) = none := by
  cases op <;> cases hop <;> first | rfl | exact if_neg hne

/-- Under a name an object stays what it was, apart from what is done to it there. -/
theorem record_act_registered (hr : w.registry.find? name = some r)
    (hq : op.moves? w (.registered name) = some q) :
    (w.act op).2.record? q = some (r.useAll (op.useAt? (.registered name)).toList) := by
  have hacted := w.acted op
  generalize w.act op = x at hacted
  cases hacted with
  | refused | dropped | handled =>
    cases hq
    exact hr
  | @registered n r' h | @returned n _ r' _ h =>
    cases hq
    have hne : n ≠ name := by
      rintro rfl
      rw [h] at hr
      cases hr
    exact (Registry.find?_put ..).trans ((if_neg hne).trans hr)
  | @removed n r' h =>
    cases hq
    by_cases hn : n = name
    · subst hn
      rw [hr] at h
      cases h
      rw [if_pos rfl, record?, held?, List.getElem?_concat_length]
      rfl
    · rw [if_neg hn]
      exact (Registry.find?_erase ..).trans ((if_neg hn).trans hr)
  | @missed op n a hop h =>
    have hne : n ≠ name := by
      rintro rfl
      rw [h] at hr
      cases hr
    have hplace : q = .registered name := by
      cases op <;> cases hop <;> cases hq <;> first | rfl | exact if_neg hne
    rw [hplace, useAt_of_asks_ne hop hne]
    exact hr
  | @used op n u r' hop h =>
    have hplace : q = .registered name := by
      cases op <;> cases hop <;> cases hq <;> rfl
    rw [hplace]
    by_cases hn : n = name
    · subst hn
      have hat : op.useAt? (.registered n) = some u := by
        rw [Operation.useAt?, hop]
        exact if_pos rfl
      rw [hat]
      exact Registry.find?_use hr u
    · rw [useAt_of_asks_ne (asks_of_use hop) hn]
      exact (Registry.find?_use_of_ne (Ne.symm hn)).trans hr
  | shown hop =>
    have hplace : q = .registered name ∧ op.useAt? (.registered name) = none := by
      cases op <;> first | exact hop.elim | (cases hq; exact ⟨rfl, rfl⟩)
    rw [hplace.1, hplace.2]
    exact hr

/-- In the program's hands an object stays what it was, apart from what is done to it there. -/
theorem record_act_removed {k : Nat} (hr : w.held? k = some r) (hq : op.moves? w (.removed k) = some q) :
    (w.act op).2.record? q = some (r.useAll (op.useAt? (.removed k)).toList) := by
  by_cases hop : op.Offers k
  · obtain ⟨n, rfl⟩ : ∃ n, op = .reregister n k := by
      cases op with
      | reregister n j => exact ⟨n, congrArg (Operation.reregister n) hop⟩
      | _ => exact hop.elim
    rw [Operation.moves?, if_pos rfl] at hq
    split_ifs at hq with htaken
    cases hq
    have hfree : w.registry.find? n = none := by simpa using htaken
    have hact : (w.act (.reregister n k)).2.registry = w.registry.put n r := by
      show (w.handle k _).2.registry = _
      rw [handle_of_some hr, service_register, Registry.register_of_none hfree]
    show (w.act (.reregister n k)).2.registry.find? n = some r
    rw [hact, Registry.find?_put, if_pos rfl]
  · have hplace : q = .removed k := by
      cases op with
      | reregister n j =>
        have hne : j ≠ k := hop
        rw [Operation.moves?, if_neg hne] at hq
        cases hq
        rfl
      | _ => cases hq; rfl
    rw [hplace]
    exact held_act hr hop

theorem record_act (hr : w.record? p = some r) (hq : op.moves? w p = some q) :
    (w.act op).2.record? q = some (r.useAll (op.useAt? p).toList) := by
  cases p with
  | registered name => exact record_act_registered hr hq
  | removed k => exact record_act_removed hr hq

/-- **All that happens to an object in a run are the uses that are addressed to it.** -/
theorem record_acts {ops : List Operation} {us : List Use} (hr : w.record? p = some r)
    (hq : w.follow p ops = some (q, us)) : (w.acts ops).record? q = some (r.useAll us) := by
  induction ops generalizing w p r us with
  | nil =>
    cases hq
    exact hr
  | cons op ops ih =>
    obtain ⟨p', hp', hrest⟩ := Option.bind_eq_some_iff.1 hq
    obtain ⟨⟨q', us'⟩, hfollow, hfound⟩ := Option.map_eq_some_iff.1 hrest
    cases hfound
    rw [Record.useAll_append]
    exact ih (record_act hr hp') hfollow

/-- A use of an object succeeds as the record's own use does, with the same answer. -/
theorem reply_of_useAt (hr : w.record? p = some r) (hu : op.useAt? p = some u) (v : Option Json) :
    (w.act op).1 = .reply (.ok v) ↔ (r.use u).1 = .ok v := by
  cases p with
  | registered name =>
    have hr : w.registry.find? name = some r := hr
    obtain ⟨⟨n, u'⟩, huse, hn⟩ := Option.bind_eq_some_iff.1 hu
    split_ifs at hn with hname
    obtain rfl : n = name := hname
    obtain rfl : u' = u := Option.some_inj.1 hn
    have hact : (w.act op).1 = .reply (w.registry.use n u').1 := by
      cases op <;> cases huse
      · rw [← Registry.setAttribute_eq]
        rfl
      · rw [← Registry.invoke_eq]
        rfl
    rw [hact, Registry.use_of_some hr]
    rcases (r.use u').1 with e | v' <;> simp [Except.mapError]
  | removed k =>
    have hr : w.held? k = some r := hr
    cases op with
    | useRemoved j u' =>
      rw [Operation.useAt?, Operation.directUse?] at hu
      split_ifs at hu with hj
      cases hu
      subst hj
      have hact : (w.act (.useRemoved j u)).1 = .reply (r.use u).1 := by
        rw [act, perform, handle_of_some hr]
      rw [hact, Answer.reply.injEq]
    | _ => cases hu

/-! ### Its counter -/

/-- The uses that are addressed to an object are those of operations. -/
theorem inRange_follow {ops : List Operation} {us : List Use} (hops : ∀ op ∈ ops, op.InRange)
    (hq : w.follow p ops = some (q, us)) : ∀ u ∈ us, u.InRange := by
  induction ops generalizing w p us with
  | nil =>
    cases hq
    simp
  | cons op ops ih =>
    obtain ⟨hop, hops⟩ := List.forall_mem_cons.1 hops
    obtain ⟨p', hp', hrest⟩ := Option.bind_eq_some_iff.1 hq
    obtain ⟨⟨q', us'⟩, hfollow, hfound⟩ := Option.map_eq_some_iff.1 hrest
    cases hfound
    refine List.forall_mem_append.2 ⟨fun u hu => hop p u ?_, ih hops hfollow⟩
    simpa using hu

/-- **The counter of an object** after a run, and the answer to the use that follows. -/
theorem counter_acts {ops : List Operation} {us : List Use} (hr : w.record? p = some r)
    (hops : ∀ op ∈ ops, op.InRange) (hq : w.follow p ops = some (q, us)) :
    (∃ r', (w.acts ops).record? q = some r' ∧ r.counter.toInt ≤ r'.counter.toInt ∧
      r'.counter.toInt = countedUp r.counter.toInt (us.filterMap Use.amount?)) ∧
    ∀ op u, op.InRange → op.useAt? q = some u →
      (∀ args, u = .call "increment" args → ((∃ v, ((w.acts ops).act op).1 = .reply (.ok v)) ↔
        ∃ n : Nat, n < 2 ^ 32 ∧ args = [.int n])) ∧
      ∀ a, u.amount? = some a → ((w.acts ops).act op).1 =
        .reply (.ok (some (.int (countedUp r.counter.toInt (us.filterMap Use.amount? ++ [a]))))) := by
  have hend := record_acts hr hq
  have hus := inRange_follow hops hq
  have hcounter := r.counter_useAll hus
  refine ⟨⟨r.useAll us, hend, by rw [hcounter]; exact le_countedUp _ _, hcounter⟩, fun op u hop hu => ?_⟩
  obtain ⟨hsuccess, hanswer⟩ := r.answer_useAll hus (hop q u hu)
  refine ⟨fun args hargs => ?_, fun a ha => (reply_of_useAt hend hu _).2 (hanswer a ha)⟩
  rw [← hsuccess args hargs]
  exact exists_congr fun v => reply_of_useAt hend hu v

end Follow

end Workshop

end Handoff
