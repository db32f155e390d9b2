import Mathlib.Data.List.Forall2
import Handoff.Proofs.Managed.Counter
import Handoff.Proofs.Managed.Entries

/-! # The descriptor tells the truth

An object is used by the names of its attributes and operations. What its descriptor says of them is told apart from
what is done with them, so that both agree is a statement. Setting an attribute and calling an operation come to one
of a few things, and what is listed tells which.

* `Access`: the use of an object by names; `Record.access`, `Registry.access`: of a record, and of one in a registry.
* `Descriptor.Sets`, `Descriptor.Calls`: what setting an attribute and calling an operation come to.
* `Descriptor.Truthful`: a descriptor tells the truth about an object; `Descriptor.Dispatches.truthful`: it does if
  the uses come to these things.
* `Record.dispatches`, `Registry.dispatches`: so it is for records, and in a registry.
* `Registry.descriptor_truthful`: the statement for both.
-/

namespace Handoff

/-! ### Use by names -/

/-- **The use of an object by names**: what an attribute shows, and what setting one and calling an operation come
to. -/
structure Access (σ : Type) where
  get : σ → String → Option Json
  set : σ → String → Json → Except Failure Unit × σ
  call : σ → String → List Json → Except Failure Json × σ

/-- The use of a record. -/
def Record.access : Access Record := ⟨getAttribute?, setAttribute, invoke⟩

/-- The use of the object under a name. -/
def Registry.access (name : ObjectName) : Access Registry where
  get g attr := (g.getAttribute name attr).toOption
  set g attr value := g.setAttribute name attr value
  call g operation args := g.invoke name operation args

/-- Arguments that an operation is declared to take: as many as it has parameters, each of the parameter's type. -/
def OperationInfo.Takes (o : OperationInfo) (args : List Json) : Prop :=
  List.Forall₂ (fun p v => p.type.Holds v) o.params args

/-- Whether a value is a whole number only if it is one that is kept as such; all others are kept as fractions. -/
def Json.IsExact (v : Json) : Prop := ∀ n, v = .int n → IntInRange n

namespace Descriptor

variable {σ : Type}

/-- The names of the attributes. -/
def attributeNames (d : Descriptor) : List String := d.attributes.map AttributeInfo.name

/-- The names of the operations. -/
def operationNames (d : Descriptor) : List String := d.operations.map OperationInfo.name

/-- **A descriptor tells the truth about an object**, which failures call `object`.
* An attribute has a value just if it is listed, and the value is of the declared type.
* An attribute is set just if it is listed as writable and the value is of its type, and then it shows this value.
  Others that are listed can only be read, and those that are not listed are unknown.
* An operation is unknown just if it is not listed. One that is listed takes just the arguments that it is declared to
  take, and answers a value of the declared type; other arguments are refused. Whole numbers among the arguments are
  such as a value can be.
* What fails changes nothing. -/
structure Truthful (d : Descriptor) (object : String) (x : Access σ) (s : σ) : Prop where
  get_iff : ∀ attr, (∃ v, x.get s attr = some v) ↔ attr ∈ d.attributeNames
  get_holds : ∀ a ∈ d.attributes, ∀ v, x.get s a.name = some v → a.type.Holds v
  set_iff : ∀ attr v, (x.set s attr v).1 = .ok () ↔
    ∃ a ∈ d.attributes, a.name = attr ∧ a.writable = true ∧ a.type.Holds v
  get_set : ∀ attr v, (x.set s attr v).1 = .ok () → x.get (x.set s attr v).2 attr = some v
  set_readOnly : ∀ a ∈ d.attributes, a.writable = false → ∀ v,
    (x.set s a.name v).1 = .error (.readOnlyAttribute a.name)
  set_unlisted : ∀ attr ∉ d.attributeNames, ∀ v, (x.set s attr v).1 = .error (.unknownAttribute object attr)
  call_iff : ∀ o ∈ d.operations, ∀ args, (∀ v ∈ args, v.IsExact) →
    ((∃ v, (x.call s o.name args).1 = .ok v) ↔ o.Takes args)
  call_holds : ∀ o ∈ d.operations, ∀ args v, (x.call s o.name args).1 = .ok v → o.returns.Holds v
  call_refused : ∀ o ∈ d.operations, ∀ args, (∀ v ∈ args, v.IsExact) → ¬ o.Takes args →
    ∃ reason, (x.call s o.name args).1 = .error (.invalidArgument o.name reason)
  call_unknown_iff : ∀ operation args,
    (x.call s operation args).1 = .error (.unknownOperation object operation) ↔ operation ∉ d.operationNames
  set_failed : ∀ attr v e, (x.set s attr v).1 = .error e → (x.set s attr v).2 = s
  call_failed : ∀ operation args e, (x.call s operation args).1 = .error e → (x.call s operation args).2 = s

/-! ### What uses come to -/

/-- **What setting an attribute comes to**, told by what is listed of it. -/
inductive Sets (x : Access σ) (s : σ) (a : AttributeInfo) (v : Json) : Except Failure Unit × σ → Prop where
  | done (hw : a.writable = true) (hv : a.type.Holds v) {s' : σ} (hget : x.get s' a.name = some v) :
      Sets x s a v (.ok (), s')
  | mistyped (hw : a.writable = true) (hv : ¬ a.type.Holds v) (reason : String) :
      Sets x s a v (.error (.invalidArgument ("set " ++ a.name) reason), s)
  | readOnly (hw : a.writable = false) : Sets x s a v (.error (.readOnlyAttribute a.name), s)

/-- **What calling an operation comes to**, told by what is listed of it. -/
inductive Calls (s : σ) (o : OperationInfo) (args : List Json) : Except Failure Json × σ → Prop where
  | taken (hargs : (∀ v ∈ args, v.IsExact) → o.Takes args) {v : Json} (hv : o.returns.Holds v) (s' : σ) :
      Calls s o args (.ok v, s')
  | refused (hargs : ¬ o.Takes args) (reason : String) :
      Calls s o args (.error (.invalidArgument o.name reason), s)

section Outcomes

variable {x : Access σ} {s : σ} {a : AttributeInfo} {o : OperationInfo} {v : Json} {args : List Json}

theorem Sets.ok_iff {y : Except Failure Unit × σ} (h : Sets x s a v y) :
    y.1 = .ok () ↔ a.writable = true ∧ a.type.Holds v := by
  cases h with
  | done hw hv => exact iff_of_true rfl ⟨hw, hv⟩
  | mistyped _ hv => exact iff_of_false (by simp) fun hboth => hv hboth.2
  | readOnly hw => exact iff_of_false (by simp) (by simp [hw])

theorem Sets.get_of_ok {y : Except Failure Unit × σ} (h : Sets x s a v y) (hok : y.1 = .ok ()) :
    x.get y.2 a.name = some v := by
  cases h with
  | done _ _ hget => exact hget
  | _ => cases hok

theorem Sets.of_readOnly {y : Except Failure Unit × σ} (h : Sets x s a v y) (hw : a.writable = false) :
    y.1 = .error (.readOnlyAttribute a.name) := by
  cases h with
  | readOnly => rfl
  | done hw' => rw [hw] at hw'; cases hw'
  | mistyped hw' => rw [hw] at hw'; cases hw'

theorem Sets.of_error {y : Except Failure Unit × σ} (h : Sets x s a v y) {e : Failure} (he : y.1 = .error e) :
    y.2 = s ∧ (e = .readOnlyAttribute a.name ∨ ∃ reason, e = .invalidArgument ("set " ++ a.name) reason) := by
  cases h with
  | done => cases he
  | mistyped _ _ reason => cases he; exact ⟨rfl, .inr ⟨reason, rfl⟩⟩
  | readOnly => cases he; exact ⟨rfl, .inl rfl⟩

theorem Calls.ok_iff {y : Except Failure Json × σ} (h : Calls s o args y) (hexact : ∀ v ∈ args, v.IsExact) :
    (∃ v, y.1 = .ok v) ↔ o.Takes args := by
  cases h with
  | taken hargs => exact iff_of_true ⟨_, rfl⟩ (hargs hexact)
  | refused hargs => exact iff_of_false (by simp) hargs

theorem Calls.holds_of_ok {y : Except Failure Json × σ} (h : Calls s o args y) (hok : y.1 = .ok v) :
    o.returns.Holds v := by
  cases h with
  | taken _ hv => cases hok; exact hv
  | refused => cases hok

theorem Calls.of_not_takes {y : Except Failure Json × σ} (h : Calls s o args y) (hexact : ∀ v ∈ args, v.IsExact)
    (hnot : ¬ o.Takes args) : ∃ reason, y.1 = .error (.invalidArgument o.name reason) := by
  cases h with
  | taken hargs => exact absurd (hargs hexact) hnot
  | refused _ reason => exact ⟨reason, rfl⟩

theorem Calls.of_error {y : Except Failure Json × σ} (h : Calls s o args y) {e : Failure} (he : y.1 = .error e) :
    y.2 = s ∧ ∃ reason, e = .invalidArgument o.name reason := by
  cases h with
  | taken => cases he
  | refused _ reason => cases he; exact ⟨rfl, reason, rfl⟩

end Outcomes

/-- **The uses of an object by names come to what the descriptor tells.** -/
structure Dispatches (d : Descriptor) (object : String) (x : Access σ) (s : σ) : Prop where
  shows : ∀ a ∈ d.attributes, ∃ v, x.get s a.name = some v ∧ a.type.Holds v
  hides : ∀ attr ∉ d.attributeNames, x.get s attr = none
  sets : ∀ a ∈ d.attributes, ∀ v, Sets x s a v (x.set s a.name v)
  sets_unlisted : ∀ attr ∉ d.attributeNames, ∀ v, x.set s attr v = (.error (.unknownAttribute object attr), s)
  calls : ∀ o ∈ d.operations, ∀ args, Calls s o args (x.call s o.name args)
  calls_unlisted : ∀ operation ∉ d.operationNames, ∀ args,
    x.call s operation args = (.error (.unknownOperation object operation), s)

section Dispatches

variable {d : Descriptor} {object : String} {x : Access σ} {s : σ}

/-- An attribute that was set is listed. -/
theorem Dispatches.exists_attribute (h : Dispatches d object x s) {attr : String} {v : Json}
    (hok : (x.set s attr v).1 = .ok ()) : ∃ a ∈ d.attributes, a.name = attr := by
  by_contra hnot
  rw [h.sets_unlisted attr (fun hmem => hnot (List.mem_map.1 hmem)) v] at hok
  cases hok

/-- **Then the descriptor tells the truth.** -/
theorem Dispatches.truthful (h : Dispatches d object x s) : d.Truthful object x s where
  get_iff attr := by
    constructor
    · rintro ⟨v, hv⟩
      by_contra hnot
      rw [h.hides attr hnot] at hv
      cases hv
    · intro hmem
      obtain ⟨a, ha, rfl⟩ := List.mem_map.1 hmem
      obtain ⟨v, hv, -⟩ := h.shows a ha
      exact ⟨v, hv⟩
  get_holds a ha v hv := by
    obtain ⟨w, hw, hholds⟩ := h.shows a ha
    cases hv.symm.trans hw
    exact hholds
  set_iff attr v := by
    constructor
    · intro hok
      obtain ⟨a, ha, rfl⟩ := h.exists_attribute hok
      exact ⟨a, ha, rfl, (h.sets a ha v).ok_iff.1 hok⟩
    · rintro ⟨a, ha, rfl, hset⟩
      exact (h.sets a ha v).ok_iff.2 hset
  get_set attr v hok := by
    obtain ⟨a, ha, rfl⟩ := h.exists_attribute hok
    exact (h.sets a ha v).get_of_ok hok
  set_readOnly a ha hw v := (h.sets a ha v).of_readOnly hw
  set_unlisted attr hnot v := congrArg Prod.fst (h.sets_unlisted attr hnot v)
  call_iff o ho args hexact := (h.calls o ho args).ok_iff hexact
  call_holds o ho args v hok := (h.calls o ho args).holds_of_ok hok
  call_refused o ho args hexact hnot := (h.calls o ho args).of_not_takes hexact hnot
  call_unknown_iff operation args := by
    constructor
    · intro he hmem
      obtain ⟨o, ho, rfl⟩ := List.mem_map.1 hmem
      obtain ⟨-, reason, hreason⟩ := (h.calls o ho args).of_error he
      cases hreason
    · intro hnot
      rw [h.calls_unlisted operation hnot args]
  set_failed attr v e he := by
    by_cases hmem : attr ∈ d.attributeNames
    · obtain ⟨a, ha, rfl⟩ := List.mem_map.1 hmem
      exact ((h.sets a ha v).of_error he).1
    · rw [h.sets_unlisted attr hmem v]
  call_failed operation args e he := by
    by_cases hmem : operation ∈ d.operationNames
    · obtain ⟨o, ho, rfl⟩ := List.mem_map.1 hmem
      exact ((h.calls o ho args).of_error he).1
    · rw [h.calls_unlisted operation hmem args]

end Dispatches

end Descriptor

/-! ### Arguments -/

namespace Record

open Descriptor (Calls Sets)

variable {r : Record} {operation : String}

/-- **What reading an argument comes to**: it is of the type, or it is refused. -/
inductive Reads {α : Type} (t : ValueType) (operation : String) (v : Json) : Except Failure α → Prop where
  | taken (a : α) (hv : v.IsExact → t.Holds v) : Reads t operation v (.ok a)
  | refused (hv : ¬ t.Holds v) (reason : String) : Reads t operation v (.error (.invalidArgument operation reason))

theorem reads_stringArg (operation : String) (v : Json) : Reads .string operation v (stringArg operation v) := by
  cases v with
  | str s => exact .taken s fun _ => trivial
  | _ => exact .refused id _

theorem reads_integerArg (operation : String) (v : Json) : Reads .integer operation v (integerArg operation v) := by
  cases v with
  | int n =>
    rw [integerArg, Json.int64?]
    split_ifs with hn
    · exact .taken _ fun hexact => ⟨(hexact n rfl).1, hn⟩
    · refine .refused ?_ _
      rintro ⟨-, hlt⟩
      exact hn hlt
  | _ => exact .refused id _

theorem reads_countArg (operation : String) (v : Json) : Reads .count operation v (countArg operation v) := by
  cases v with
  | int n =>
    rw [countArg, integerArg, Json.int64?]
    split_ifs with hn
    · simp only
      split_ifs with hcount
      · refine .taken _ fun hexact => ?_
        rwa [Int64.toInt_ofInt_of_le (hexact n rfl).1 hn] at hcount
      · refine .refused ?_ _
        rintro ⟨hpos, hlt⟩
        rw [Int64.toInt_ofInt_of_le (by omega) hn] at hcount
        exact hcount ⟨hpos, hlt⟩
    · refine .refused ?_ _
      rintro ⟨-, hlt⟩
      omega
  | _ => exact .refused id _

theorem holds_toInt (c : Int64) : ValueType.integer.Holds (.int c.toInt) := ⟨c.le_toInt, c.toInt_lt⟩

/-! ### Operations by the number of their parameters -/

section Operations

variable {t : ValueType} {p q : Parameter} {α β : Type} {args : List Json}

theorem takes_nullary : OperationInfo.Takes ⟨operation, [], t⟩ args ↔ args = [] := List.forall₂_nil_left_iff

theorem takes_unary :
    OperationInfo.Takes ⟨operation, [p], t⟩ args ↔ ∃ v, args = [v] ∧ p.type.Holds v := by
  simp only [OperationInfo.Takes, List.forall₂_cons_left_iff, List.forall₂_nil_left_iff]
  constructor
  · rintro ⟨v, _, hv, rfl, rfl⟩
    exact ⟨v, rfl, hv⟩
  · rintro ⟨v, rfl, hv⟩
    exact ⟨v, _, hv, rfl, rfl⟩

theorem takes_binary : OperationInfo.Takes ⟨operation, [p, q], t⟩ args ↔
    ∃ v w, args = [v, w] ∧ p.type.Holds v ∧ q.type.Holds w := by
  simp only [OperationInfo.Takes, List.forall₂_cons_left_iff, List.forall₂_nil_left_iff]
  constructor
  · rintro ⟨v, _, hv, ⟨w, _, hw, rfl, rfl⟩, rfl⟩
    exact ⟨v, w, rfl, hv, hw⟩
  · rintro ⟨v, w, rfl, hv, hw⟩
    exact ⟨v, _, hv, ⟨w, _, hw, rfl, rfl⟩, rfl⟩

/-- An operation without parameters. -/
def nullary (operation : String) (r : Record) (w : Json) : List Json → Except Failure Json × Record
  | [] => (.ok w, r)
  | args => (.error (arityFailure operation 0 args), r)

/-- An operation that reads its one argument, and then acts. -/
def unary (operation : String) (r : Record) (read : String → Json → Except Failure α) (act : α → Json × Record) :
    List Json → Except Failure Json × Record
  | [v] => match read operation v with
    | .error e => (.error e, r)
    | .ok a => (.ok (act a).1, (act a).2)
  | args => (.error (arityFailure operation 1 args), r)

/-- An operation that reads its two arguments, and then acts. -/
def binary (operation : String) (r : Record) (read : String → Json → Except Failure α)
    (act : α → α → Json × Record) : List Json → Except Failure Json × Record
  | [v, w] => match read operation v with
    | .error e => (.error e, r)
    | .ok a => match read operation w with
      | .error e => (.error e, r)
      | .ok b => (.ok (act a b).1, (act a b).2)
  | args => (.error (arityFailure operation 2 args), r)

theorem calls_nullary {w : Json} (hw : t.Holds w) (args : List Json) :
    Calls r ⟨operation, [], t⟩ args (nullary operation r w args) := by
  cases args with
  | nil => exact .taken (fun _ => takes_nullary.2 rfl) hw r
  | cons v args => exact .refused (mt takes_nullary.1 (by simp)) _

theorem calls_unary {read : String → Json → Except Failure α} (hread : ∀ v, Reads p.type operation v (read operation v))
    {act : α → Json × Record} (hact : ∀ a, t.Holds (act a).1) (args : List Json) :
    Calls r ⟨operation, [p], t⟩ args (unary operation r read act args) := by
  rcases args with _ | ⟨v, _ | ⟨w, args⟩⟩
  · exact .refused (mt takes_unary.1 (by simp)) _
  · have hv := hread v
    rw [unary]
    generalize read operation v = x at hv
    cases hv with
    | taken a hv =>
      refine .taken (fun hexact => takes_unary.2 ⟨v, rfl, ?_⟩) (hact a) _
      exact hv (hexact v (by simp))
    | refused hv reason => exact .refused (mt takes_unary.1 (by simpa using hv)) reason
  · exact .refused (mt takes_unary.1 (by simp)) _

theorem calls_binary {read : String → Json → Except Failure α}
    (hread : ∀ v, Reads p.type operation v (read operation v))
    (hread' : ∀ v, Reads q.type operation v (read operation v))
    {act : α → α → Json × Record} (hact : ∀ a b, t.Holds (act a b).1) (args : List Json) :
    Calls r ⟨operation, [p, q], t⟩ args (binary operation r read act args) := by
  rcases args with _ | ⟨v, _ | ⟨w, _ | ⟨z, args⟩⟩⟩
  · exact .refused (mt takes_binary.1 (by simp)) _
  · exact .refused (mt takes_binary.1 (by simp)) _
  · have hv := hread v
    have hw := hread' w
    rw [binary]
    generalize read operation v = x at hv
    generalize read operation w = x' at hw
    cases hv with
    | refused hv reason => exact .refused (mt takes_binary.1 (by simp [hv])) reason
    | taken a hv =>
      cases hw with
      | refused hw reason => exact .refused (mt takes_binary.1 (by simp [hw])) reason
      | taken b hw =>
        refine .taken (fun hexact => takes_binary.2 ⟨v, w, rfl, ?_, ?_⟩) (hact a b) _
        · exact hv (hexact v (by simp))
        · exact hw (hexact w (by simp))
  · exact .refused (mt takes_binary.1 (by simp)) _

end Operations

/-! ### Operations by their names -/

theorem invoke_printGreeting (args : List Json) : r.invoke "print_greeting" args =
    unary "print_greeting" r stringArg (fun s => (.str (greeting s), r)) args := by
  rcases args with _ | ⟨v, _ | ⟨w, args⟩⟩
  · rfl
  · cases h : stringArg "print_greeting" v <;> simp only [invoke, unary, h]
  · rfl

theorem invoke_increment (args : List Json) : r.invoke "increment" args =
    unary "increment" r countArg (fun n => (.int (r.increment n).counter.toInt, r.increment n)) args := by
  rcases args with _ | ⟨v, _ | ⟨w, args⟩⟩
  · rfl
  · cases h : countArg "increment" v <;> simp only [invoke, unary, h]
  · rfl

theorem invoke_add (args : List Json) : r.invoke "add" args =
    binary "add" r integerArg (fun m n => (.int (add m n).toInt, r)) args := by
  rcases args with _ | ⟨v, _ | ⟨w, _ | ⟨z, args⟩⟩⟩
  · rfl
  · rfl
  · cases hv : integerArg "add" v <;> cases hw : integerArg "add" w <;> simp only [invoke, binary, hv, hw]
  · rfl

theorem invoke_getLabel (args : List Json) : r.invoke "get_label" args =
    nullary "get_label" r (.str r.label) args := by
  cases args <;> rfl

theorem invoke_setLabel (args : List Json) : r.invoke "set_label" args =
    unary "set_label" r stringArg (fun s => (.null, r.setLabel s)) args := by
  rcases args with _ | ⟨v, _ | ⟨w, args⟩⟩
  · rfl
  · cases h : stringArg "set_label" v <;> simp only [invoke, unary, h]
  · rfl

theorem invoke_getCounter (args : List Json) : r.invoke "get_counter" args =
    nullary "get_counter" r (.int r.counter.toInt) args := by
  cases args <;> rfl

/-- **A call of a listed operation** comes to what is listed of it. -/
theorem calls_listed (r : Record) : ∀ o ∈ descriptor.operations, ∀ args, Calls r o args (r.invoke o.name args) := by
  intro o ho args
  simp only [descriptor, List.mem_cons, List.not_mem_nil, or_false] at ho
  rcases ho with rfl | rfl | rfl | rfl | rfl | rfl
  · rw [invoke_printGreeting]
    exact calls_unary (reads_stringArg _) (fun _ => by exact trivial) args
  · rw [invoke_increment]
    exact calls_unary (reads_countArg _) (fun _ => holds_toInt _) args
  · rw [invoke_add]
    exact calls_binary (reads_integerArg _) (reads_integerArg _) (fun _ _ => holds_toInt _) args
  · rw [invoke_getLabel]
    exact calls_nullary (by exact trivial) args
  · rw [invoke_setLabel]
    exact calls_unary (reads_stringArg _) (fun _ => by exact trivial) args
  · rw [invoke_getCounter]
    exact calls_nullary (holds_toInt _) args

theorem invoke_unlisted (r : Record) : ∀ operation ∉ descriptor.operationNames, ∀ args,
    r.invoke operation args = (.error (.unknownOperation kindName operation), r) := by
  intro operation hnot args
  unfold invoke
  split
  case h_7 => rfl
  all_goals exact absurd (by decide) hnot

/-- **Setting a listed attribute** comes to what is listed of it. -/
theorem sets_listed (r : Record) : ∀ a ∈ descriptor.attributes, ∀ v, Sets access r a v (r.setAttribute a.name v) := by
  intro a ha v
  simp only [descriptor, List.mem_cons, List.not_mem_nil, or_false] at ha
  rcases ha with rfl | rfl
  · cases v with
    | str s => exact .done rfl (by exact trivial) rfl
    | _ => exact .mistyped rfl id _
  · exact .readOnly rfl

theorem getAttribute?_unlisted (r : Record) : ∀ attr ∉ descriptor.attributeNames, r.getAttribute? attr = none := by
  intro attr hnot
  unfold getAttribute?
  split
  case h_3 => rfl
  all_goals exact absurd (by decide) hnot

theorem setAttribute_unlisted (r : Record) : ∀ attr ∉ descriptor.attributeNames, ∀ v,
    r.setAttribute attr v = (.error (.unknownAttribute kindName attr), r) := by
  intro attr hnot v
  unfold setAttribute
  split
  case h_3 => rfl
  all_goals exact absurd (by decide) hnot

/-- **The uses of a record by names come to what its descriptor tells.** -/
theorem dispatches (r : Record) : descriptor.Dispatches kindName access r where
  shows := by
    simp only [descriptor, List.forall_mem_cons]
    exact ⟨⟨_, rfl, trivial⟩, ⟨_, rfl, holds_toInt r.counter⟩, by simp⟩
  hides := r.getAttribute?_unlisted
  sets := r.sets_listed
  sets_unlisted := r.setAttribute_unlisted
  calls := r.calls_listed
  calls_unlisted := r.invoke_unlisted

end Record

/-! ### In a registry -/

namespace Registry

open Descriptor (Calls Sets)

variable {g : Registry} {name : ObjectName} {r : Record}

/-- Under its name, an object shows what it shows by itself. -/
theorem access_get (h : g.find? name = some r) (attr : String) : (access name).get g attr = r.getAttribute? attr := by
  show (g.getAttribute name attr).toOption = _
  rw [getAttribute_of_some h]
  cases r.getAttribute? attr <;> rfl

theorem access_get_put (g : Registry) (name : ObjectName) (r : Record) (attr : String) :
    (access name).get (g.put name r) attr = r.getAttribute? attr :=
  access_get ((find?_put ..).trans (if_pos rfl)) attr

/-- Setting an attribute of an object under its name comes to what it comes to by itself. -/
theorem sets_of_some (h : g.find? name = some r) {a : AttributeInfo} {v : Json}
    (hr : Sets Record.access r a v (r.setAttribute a.name v)) :
    Sets (access name) g a v (g.setAttribute name a.name v) := by
  rw [setAttribute_of_some h]
  generalize r.setAttribute a.name v = y at hr
  cases hr with
  | done hw hv hget => exact .done hw hv ((access_get_put ..).trans hget)
  | mistyped hw hv reason => exact (put_of_find? h).symm ▸ .mistyped hw hv reason
  | readOnly hw => exact (put_of_find? h).symm ▸ .readOnly hw

/-- Calling an operation of an object under its name comes to what it comes to by itself. -/
theorem calls_of_some (h : g.find? name = some r) {o : OperationInfo} {args : List Json}
    (hr : Calls r o args (r.invoke o.name args)) : Calls g o args (g.invoke name o.name args) := by
  rw [invoke_of_some h]
  generalize r.invoke o.name args = y at hr
  cases hr with
  | taken hargs hv s' => exact .taken hargs hv _
  | refused hargs reason => exact (put_of_find? h).symm ▸ .refused hargs reason

/-- **The uses of an object under its name come to what its descriptor tells**, and failures call it by its name. -/
theorem dispatches (h : g.find? name = some r) :
    Record.descriptor.Dispatches name.text (access name) g where
  shows a ha := by
    rw [access_get h]
    exact r.dispatches.shows a ha
  hides attr hnot := (access_get h attr).trans (r.dispatches.hides attr hnot)
  sets a ha v := sets_of_some h (r.sets_listed a ha v)
  sets_unlisted attr hnot v := by
    show g.setAttribute name attr v = _
    rw [setAttribute_of_some h, r.setAttribute_unlisted attr hnot, put_of_find? h]
    rfl
  calls o ho args := calls_of_some h (r.calls_listed o ho args)
  calls_unlisted operation hnot args := by
    show g.invoke name operation args = _
    rw [invoke_of_some h, r.invoke_unlisted operation hnot, put_of_find? h]
    rfl

theorem getAttribute_unlisted (h : g.find? name = some r) {attr : String}
    (hnot : attr ∉ Record.descriptor.attributeNames) :
    g.getAttribute name attr = .error (.unknownAttribute name.text attr) := by
  rw [getAttribute_of_some h, r.getAttribute?_unlisted attr hnot]
  rfl

/-- **What is described is what is done.** The descriptor of a record tells the truth about every record. An object in
a registry is described by it, and it tells the truth about its use under its name, failures with that name included;
so does the failure to read an attribute that is not listed. -/
theorem descriptor_truthful :
    (∀ r : Record, Record.descriptor.Truthful Record.kindName Record.access r) ∧
    ∀ (g : Registry) (name : ObjectName) (r : Record), g.find? name = some r →
      g.describe name = .ok Record.descriptor ∧ Record.descriptor.Truthful name.text (access name) g ∧
        ∀ attr ∉ Record.descriptor.attributeNames,
          g.getAttribute name attr = .error (.unknownAttribute name.text attr) := by
  refine ⟨fun r => r.dispatches.truthful, fun g name r h => ⟨describe_of_some h, (dispatches h).truthful, ?_⟩⟩
  exact fun attr hnot => getAttribute_unlisted h hnot

/-- The lamp in the attic: its label is set, numbers are added, it is not incremented by `-1`, and it has no colour. -/
theorem descriptor_truthful_lamp :
    let g := empty.put atticLamp ⟨"lit", 3⟩
    g.find? atticLamp = some ⟨"lit", 3⟩ ∧
      (access atticLamp).get (g.setAttribute atticLamp "label" (.str "dim")).2 "label" = some (.str "dim") ∧
      (∃ v, (g.invoke atticLamp "add" [.int 1, .int 2]).1 = .ok v) ∧
      (∃ reason, (g.invoke atticLamp "increment" [.int (-1)]).1 = .error (.invalidArgument "increment" reason)) ∧
      g.getAttribute atticLamp "colour" = .error (.unknownAttribute atticLamp.text "colour") := by
  intro g
  have hattic : g.find? atticLamp = some ⟨"lit", 3⟩ := by rw [find?_put, if_pos rfl]
  obtain ⟨-, htruth, hunlisted⟩ := descriptor_truthful.2 g atticLamp _ hattic
  have hlabel : ⟨"label", .string, true⟩ ∈ Record.descriptor.attributes := by decide
  have hadd : ⟨"add", [⟨"x", .integer⟩, ⟨"y", .integer⟩], .integer⟩ ∈ Record.descriptor.operations := by decide
  have hincrement : ⟨"increment", [⟨"by", .count⟩], .integer⟩ ∈ Record.descriptor.operations := by decide
  have hexact : ∀ n, Json.IntInRange n → (Json.int n).IsExact := by
    rintro n hn _ ⟨⟩
    exact hn
  refine ⟨hattic, ?_, ?_, ?_, hunlisted "colour" (by decide)⟩
  · exact htruth.get_set _ _ ((htruth.set_iff _ _).2 ⟨_, hlabel, rfl, rfl, trivial⟩)
  · refine (htruth.call_iff _ hadd _ ?_).2 (Record.takes_binary.2 ⟨_, _, rfl, ?_, ?_⟩)
    · simp only [List.forall_mem_cons]
      exact ⟨hexact 1 (by decide), hexact 2 (by decide), by simp⟩
    · exact ⟨by decide, by decide⟩
    · exact ⟨by decide, by decide⟩
  · refine htruth.call_refused _ hincrement _ ?_ (mt Record.takes_unary.1 ?_)
    · simp only [List.forall_mem_cons]
      exact ⟨hexact (-1) (by decide), by simp⟩
    · rintro ⟨_, ⟨⟩, hpos, -⟩
      exact absurd hpos (by decide)

end Registry

end Handoff
