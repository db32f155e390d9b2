import Handoff.Proofs.Managed.Entries

/-! # Objects in a registry and out of it

A program takes objects into a registry and out of it again. What it has taken out it holds in its own hands:
it can use it directly, and offer it to the registry again under any name. An object that is offered is given
away, also if it is refused.

* `Service`: what a registry offers; `Registry.service` is the registry's own.
* `Operation`, `Answer`: what a program can do, and what it sees of it.
* `Workshop.perform`, `Workshop.run`, `Workshop.answers`: a program at work.
-/

namespace Handoff

/-- **What a registry offers**, whatever it is kept in. -/
structure Service (σ : Type) where
  register : σ → ObjectName → Record → Except Failure Unit × σ
  unregister : σ → ObjectName → Except Failure Record × σ
  names : σ → List ObjectName
  size : σ → Nat
  isEmpty : σ → Bool
  describe : σ → ObjectName → Except Failure Descriptor
  getAttribute : σ → ObjectName → String → Except Failure Json
  setAttribute : σ → ObjectName → String → Json → Except Failure Unit × σ
  invoke : σ → ObjectName → String → List Json → Except Failure Json × σ

/-- What a registry offers. -/
def Registry.service : Service Registry where
  register := register
  unregister := unregister
  names := names
  size := size
  isEmpty := isEmpty
  describe := describe
  getAttribute := getAttribute
  setAttribute := setAttribute
  invoke := invoke

namespace Workshop

/-- **What a program can do.** Objects that were taken out have numbers, in the order in which they were. -/
inductive Operation where
  | register (name : ObjectName) (r : Record)
  | unregister (name : ObjectName)
  /-- Offers an object that was taken out. -/
  | reregister (name : ObjectName) (object : Nat)
  | names
  | size
  | isEmpty
  | describe (name : ObjectName)
  | getAttribute (name : ObjectName) (attr : String)
  | setAttribute (name : ObjectName) (attr : String) (value : Json)
  | invoke (name : ObjectName) (operation : String) (args : List Json)
  /-- Uses an object that was taken out. -/
  | useRemoved (object : Nat) (u : Use)
  /-- Reads an attribute of an object that was taken out. -/
  | readRemoved (object : Nat) (attr : String)

/-- What a program sees of an operation. -/
inductive Answer where
  | done (result : Except Failure Unit)
  | removed (result : Except Failure Record)
  | names (names : List ObjectName)
  | size (n : Nat)
  | isEmpty (b : Bool)
  | descriptor (result : Except Failure Descriptor)
  | value (result : Except Failure Json)
  | reply (result : Reply)
  | read (value : Option Json)
  /-- There is no such object in the program's hands. -/
  | nothing

namespace Answer

/-- The failure of a result. -/
def failureOf {α : Type} : Except Failure α → Option Failure
  | .error e => some e
  | .ok _ => none

/-- **The failure that an answer tells of.** -/
def failure? : Answer → Option Failure
  | done r => failureOf r
  | removed r => failureOf r
  | descriptor r => failureOf r
  | value r => failureOf r
  | reply r => failureOf r
  | _ => none

end Answer

end Workshop

/-- **A registry and the objects that were taken out of it.** In the place of one that was given away there is
nothing. -/
structure Workshop (σ : Type) where
  registry : σ
  removed : List (Option Record)

namespace Workshop

variable {σ : Type}

/-- An object in the program's hands. -/
def held? (w : Workshop σ) (object : Nat) : Option Record := w.removed[object]?.join

/-- Keeps what was taken out. -/
def keep (w : Workshop σ) : Except Failure Record × σ → Answer × Workshop σ
  | (.ok r, g) => (.removed (.ok r), ⟨g, w.removed ++ [some r]⟩)
  | (.error e, g) => (.removed (.error e), ⟨g, w.removed⟩)

/-- Does something with an object in the program's hands. -/
def handle (w : Workshop σ) (object : Nat) (f : Record → Answer × Workshop σ) : Answer × Workshop σ :=
  match w.held? object with
  | none => (.nothing, w)
  | some r => f r

/-- **Performs an operation**, and what there is afterwards. -/
def perform (s : Service σ) (w : Workshop σ) : Operation → Answer × Workshop σ
  | .register name r =>
    (.done (s.register w.registry name r).1, { w with registry := (s.register w.registry name r).2 })
  | .unregister name => w.keep (s.unregister w.registry name)
  | .reregister name object => w.handle object fun r =>
    (.done (s.register w.registry name r).1,
      ⟨(s.register w.registry name r).2, w.removed.set object none⟩)
  | .names => (.names (s.names w.registry), w)
  | .size => (.size (s.size w.registry), w)
  | .isEmpty => (.isEmpty (s.isEmpty w.registry), w)
  | .describe name => (.descriptor (s.describe w.registry name), w)
  | .getAttribute name attr => (.value (s.getAttribute w.registry name attr), w)
  | .setAttribute name attr value =>
    (.reply ((s.setAttribute w.registry name attr value).1.map fun _ => none),
      { w with registry := (s.setAttribute w.registry name attr value).2 })
  | .invoke name operation args =>
    (.reply ((s.invoke w.registry name operation args).1.map some),
      { w with registry := (s.invoke w.registry name operation args).2 })
  | .useRemoved object u => w.handle object fun r =>
    (.reply (r.use u).1, { w with removed := w.removed.set object (some (r.use u).2) })
  | .readRemoved object attr => w.handle object fun r => (.read (r.getAttribute? attr), w)

/-- **What there is after a run.** -/
def run (s : Service σ) (w : Workshop σ) (ops : List Operation) : Workshop σ :=
  ops.foldl (fun w op => (w.perform s op).2) w

/-- **The answers in a run.** -/
def answers (s : Service σ) (w : Workshop σ) : List Operation → List Answer
  | [] => []
  | op :: ops => (w.perform s op).1 :: (w.perform s op).2.answers s ops

end Workshop

end Handoff
