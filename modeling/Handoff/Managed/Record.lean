import Handoff.Json.Writer
import Handoff.Managed.Descriptor

/-! # Managed records

A record has a label that can be changed and a counter that only grows. It can be used directly
(`increment`, `greeting`, …) or by the names of its attributes and operations (`getAttribute?`,
`setAttribute`, `invoke`), as a console does. An operation answers its result or a failure, and the
record afterwards.
-/

namespace Handoff

/-- The 64-bit number nearest to `n`. -/
def clampInt64 (n : Int) : Int64 :=
  if n < -0x8000000000000000 then Int64.minValue
  else if 0x8000000000000000 ≤ n then Int64.maxValue
  else Int64.ofInt n

/-- A record: a label and a counter. -/
structure Record where
  label : String
  counter : Int64
deriving DecidableEq, Repr

namespace Record

/-! ### Direct use -/

/-- The record with another label. -/
def setLabel (r : Record) (label : String) : Record := { r with label }

/-- The record with a greater counter. The counter stops at the largest 64-bit number. -/
def increment (r : Record) (amount : UInt32) : Record :=
  { r with counter := clampInt64 (r.counter.toInt + amount.toNat) }

/-- A greeting for `name`. -/
def greeting (name : String) : String := "hello, " ++ name

/-- The sum of two numbers, kept within 64 bits. -/
def add (x y : Int64) : Int64 := clampInt64 (x.toInt + y.toInt)

/-! ### Use by name -/

/-- The name that failures give to the kind of object. -/
def kindName : String := "ManagedRecord"

/-- What can be done with a record. -/
def descriptor : Descriptor where
  description := "Mutable label with an increment-only counter"
  attributes := [⟨"label", .string, true⟩, ⟨"counter", .integer, false⟩]
  operations := [
    ⟨"print_greeting", [⟨"name", .string⟩], .string⟩,
    ⟨"increment", [⟨"by", .count⟩], .integer⟩,
    ⟨"add", [⟨"x", .integer⟩, ⟨"y", .integer⟩], .integer⟩,
    ⟨"get_label", [], .string⟩,
    ⟨"set_label", [⟨"label", .string⟩], .null⟩,
    ⟨"get_counter", [], .integer⟩]

/-- The value of an attribute. -/
def getAttribute? (r : Record) : String → Option Json
  | "label" => some (.str r.label)
  | "counter" => some (.int r.counter.toInt)
  | _ => none

/-- A string argument. -/
def stringArg (operation : String) (v : Json) : Except Failure String :=
  match v.str? with
  | some s => .ok s
  | none => .error (.invalidArgument operation ("expected a string, got " ++ v.compact))

/-- A 64-bit argument. -/
def integerArg (operation : String) (v : Json) : Except Failure Int64 :=
  match v.int64? with
  | some n => .ok n
  | none => .error (.invalidArgument operation ("expected an integer, got " ++ v.compact))

/-- A 32-bit argument without sign. -/
def countArg (operation : String) (v : Json) : Except Failure UInt32 :=
  match integerArg operation v with
  | .error e => .error e
  | .ok n =>
    if 0 ≤ n.toInt ∧ n.toInt < 0x100000000 then .ok (UInt32.ofNat n.toInt.toNat)
    else .error (.invalidArgument operation
      (toString n.toInt ++ " must be between 0 and 4294967295"))

/-- The failure of an operation that takes `expected` arguments and got others. -/
def arityFailure (operation : String) (expected : Nat) (args : List Json) : Failure :=
  .invalidArgument operation
    ("expected " ++ toString expected ++ " argument(s), got " ++ toString args.length)

/-- Sets an attribute. -/
def setAttribute (r : Record) (attr : String) (value : Json) : Except Failure Unit × Record :=
  match attr with
  | "label" =>
    match stringArg "set label" value with
    | .error e => (.error e, r)
    | .ok s => (.ok (), r.setLabel s)
  | "counter" => (.error (.readOnlyAttribute attr), r)
  | _ => (.error (.unknownAttribute kindName attr), r)

/-- **Calls an operation** by its name. -/
def invoke (r : Record) (operation : String) (args : List Json) : Except Failure Json × Record :=
  match operation with
  | "print_greeting" =>
    match args with
    | [v] =>
      match stringArg operation v with
      | .error e => (.error e, r)
      | .ok name => (.ok (.str (greeting name)), r)
    | _ => (.error (arityFailure operation 1 args), r)
  | "increment" =>
    match args with
    | [v] =>
      match countArg operation v with
      | .error e => (.error e, r)
      | .ok n => (.ok (.int (r.increment n).counter.toInt), r.increment n)
    | _ => (.error (arityFailure operation 1 args), r)
  | "add" =>
    match args with
    | [v, w] =>
      match integerArg operation v with
      | .error e => (.error e, r)
      | .ok x =>
        match integerArg operation w with
        | .error e => (.error e, r)
        | .ok y => (.ok (.int (add x y).toInt), r)
    | _ => (.error (arityFailure operation 2 args), r)
  | "get_label" =>
    match args with
    | [] => (.ok (.str r.label), r)
    | _ => (.error (arityFailure operation 0 args), r)
  | "set_label" =>
    match args with
    | [v] =>
      match stringArg operation v with
      | .error e => (.error e, r)
      | .ok s => (.ok .null, r.setLabel s)
    | _ => (.error (arityFailure operation 1 args), r)
  | "get_counter" =>
    match args with
    | [] => (.ok (.int r.counter.toInt), r)
    | _ => (.error (arityFailure operation 0 args), r)
  | _ => (.error (.unknownOperation kindName operation), r)

instance : Managed Record where
  describe _ := descriptor
  getAttribute? := getAttribute?
  setAttribute := setAttribute
  invoke := invoke

end Record

end Handoff
