import Handoff.Main
import Handoff.Proofs.Pool.History
import Handoff.Proofs.Pool.Turn
import Handoff.Proofs.Pool.Life
import Handoff.Proofs.Pool.Termination
import Handoff.Proofs.Pool.Ledger
import Handoff.Proofs.Pool.ExactlyOnce
import Handoff.Proofs.Pool.Calls
import Handoff.Proofs.Pool.Lifecycle
import Handoff.Proofs.Pool.Nesting
import Handoff.Proofs.Pool.SelfDeadlock
import Handoff.Proofs.Pool.Shutdown
import Handoff.Proofs.Pool.Schedule
import Handoff.Proofs.Json.Atoms
import Handoff.Proofs.Json.RoundTrip
import Handoff.Proofs.Stream.Delivery
import Handoff.Proofs.Stream.Operations
import Handoff.Proofs.Stream.Orderly
import Handoff.Proofs.Stream.Reports
import Handoff.Proofs.Stream.CutRange
import Handoff.Proofs.Console.Words
import Handoff.Proofs.Console.FrontEnd
import Handoff.Proofs.Deferred.Meaning
import Handoff.Proofs.Deferred.Moves
import Handoff.Proofs.Deferred.Account
import Handoff.Proofs.Deferred.Settling
import Handoff.Proofs.Deferred.Program
import Handoff.Proofs.Deferred.Timeline
import Handoff.Proofs.Deferred.Calls
import Handoff.Proofs.Deferred.Composition
import Handoff.Proofs.Deferred.Propagation
import Handoff.Proofs.Deferred.Observing
import Handoff.Proofs.Deferred.Laws
import Handoff.Proofs.Managed.Use
import Handoff.Proofs.Managed.Entries
import Handoff.Proofs.Managed.Workshop
import Handoff.Proofs.Managed.Custody
import Handoff.Proofs.Managed.FiniteMap
import Handoff.Proofs.Managed.Counter
import Handoff.Proofs.Managed.Whereabouts
import Handoff.Proofs.Console.Framing
import Handoff.Proofs.Console.Counting
import Handoff.Proofs.Config.Sections
import Handoff.Proofs.Managed.Grammar
import Handoff.Proofs.Config.Acceptance
import Handoff.Proofs.Config.Runnable
import Handoff.Proofs.Console.Addressing
import Handoff.Proofs.Text.Bytes
import Handoff.Proofs.Managed.Canonical
import Handoff.Proofs.Console.Splitting
import Handoff.Proofs.Console.Agreement
import Handoff.Proofs.Console.Listing
import Handoff.Proofs.Managed.Requests
import Handoff.Proofs.Managed.Dispatch
import Handoff.Proofs.Console.Spacing
import Handoff.Proofs.Console.Spellings
import Handoff.Proofs.Pool.Joining
import Handoff.Proofs.Pool.LastShare
import Handoff.Proofs.Pool.GivingUp
import Handoff.Proofs.Console.Session
import Handoff.Proofs.Managed.Order
