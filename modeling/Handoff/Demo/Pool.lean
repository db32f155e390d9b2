import Handoff.Config.Basic
import Handoff.Demo.Output
import Handoff.Pool.Greeting

/-! # The demonstration of worker pools

An outer job waits for an inner job, first across two pools, and then on one pool with one worker,
where the inner job cannot run until the outer one has given up.
-/

namespace Handoff.Demo

open Pool

/-- What is written about the greeting across two pools; nothing on a failure. -/
def greetingText : Option (Except Failure NestedGreeting) → String
  | some (.ok g) => "Inner result: " ++ g.inner ++ "\n" ++ "Outer result: " ++ g.outer ++ "\n" ++
      "Pools terminated: " ++ toString g.poolsTerminated ++ "\n"
  | _ => ""

/-- What the jobs on one pool yield: a text, or why there is none. -/
abbrev Answered := Except Failure String

/-- A job that offers another one to its own pool, whose number is 0, and waits for it. -/
def starvingJob : Program Answered :=
  .submit 0 [] (.yield (.ok "hello")) fun
    | .error e => .letGo 0 (.yield (.error e))
    | .ok t => .join t (some (.ofMillis 100)) fun r => .letGo 0 (.yield (r >>= id))

/-- The line on what the outer job has yielded: an inner result is not expected. -/
def unexpectedText : Answered → String
  | .ok s => "Unexpectedly got: " ++ s ++ "\n"
  | .error _ => ""

/-- The client of one pool. It ends with what it writes. -/
def starvingClient : Program Answered :=
  .retain 0 (.submit 0 [0] starvingJob fun
    | .error e => .letGo 0 (.letGo 0 (.yield (.error e)))
    | .ok t => .join t none fun r => .shutdownAndWait 0 fun _ => .readPhase 0 fun a =>
        let line := "Pool state: " ++ a.name ++ "\n"
        .letGo 0 (.yield (.ok (unexpectedText (r >>= id) ++ line))))

/-- What is written about one pool with one worker. -/
def starvingText : String :=
  let w : World Answered :=
    { pools := [.start Answered "single" 1], clients := [starvingClient] }
  let s : Schedule Answered := { world := w }
  match (s.runWithin 0 100).world.ending? 0 with
  | some (.value (.ok t)) => t
  | _ => ""

/-- **The demonstration**, on a machine with so many processors. -/
def poolOutput (c : PoolConfig) (processors : Nat) : Output :=
  let outer := c.outerWorkers.getD (max processors 2)
  let greeting := nestedGreeting? outer c.innerWorkers (c.joinTimeoutMs.map .ofMillis)
  .success <| heading "Nested Submission Across Two Pools" ++ "\n" ++
    "outer workers: " ++ toString outer ++ ", inner workers: " ++ toString c.innerWorkers ++ "\n" ++
    greetingText greeting ++ "\n" ++
    heading "Same Pool, One Worker" ++ starvingText ++
    keyPoints ["Blocking on a job from inside the same full pool starves it",
      "Separate pools (or a timeout) break the cycle",
      "shutdown() stops intake; await_termination() drains and joins"]

end Handoff.Demo
