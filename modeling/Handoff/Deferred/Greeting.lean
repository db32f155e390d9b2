import Handoff.Config.Basic
import Handoff.Deferred.Executor

/-! # The greeting in two halves

Both halves of a greeting are produced side by side, each after the same delay, and then joined.
-/

namespace Handoff.Deferred

/-- Makes the tasks of a greeting; the number of the one that yields it. -/
def Executor.greet {ν : Type} (x : Executor ν) (head tail : ν) (delay : Nat) (join : ν → ν → ν) :
    Nat × Executor ν :=
  let (h, x) := x.make (.spawn ⟨delay, .ok head⟩)
  let (t, x) := x.make (.spawn ⟨delay, .ok tail⟩)
  x.make (.combine h t fun a b => .ok (join a b))

/-- Makes the tasks of the configured greeting. -/
def composeGreeting (x : Executor String) (c : DeferredConfig) : Nat × Executor String :=
  x.greet c.head c.tail c.delayMs (· ++ ·)

end Handoff.Deferred
