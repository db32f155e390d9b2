import Handoff.Duration

/-! # What can go wrong

Every failure of the library is one value of `Failure`; `Failure.text` is its wording.
-/

namespace Handoff

/-- How a stream of signals can end other than by completion. -/
inductive StreamFault where
  /-- The producer reported a failure. -/
  | producer (text : String)
  /-- The producer went away without a last signal. -/
  | truncated
deriving DecidableEq, Repr

/-- The wording of a stream's fault. -/
def StreamFault.text : StreamFault → String
  | producer t => "producer failed: " ++ t
  | truncated => "producer went away without completing the stream"

/-- Why a configuration cannot be used. -/
inductive ConfigFault where
  /-- The file could not be read. -/
  | read (path reason : String)
  /-- The text is no document of the format, or not of the configuration's shape. Only in the
  second case is there a message. -/
  | parse (message : Option String)
  /-- A value breaks a rule. -/
  | invalid (field reason : String)
deriving DecidableEq, Repr

/-- The wording of a configuration's fault. -/
def ConfigFault.text : ConfigFault → String
  | read path reason => "Failed to read config file " ++ path ++ ": " ++ reason
  | parse message => "Failed to parse config file: " ++ message.getD "malformed document"
  | invalid field reason => "invalid value for '" ++ field ++ "': " ++ reason

/-- Every failure the library reports. -/
inductive Failure where
  /-- The task ended by a panic. -/
  | taskFailed (text : String)
  /-- The task was lost before it had a result. -/
  | taskDropped
  /-- No result came within the span. -/
  | timeout (after : Duration)
  /-- The pool takes no more jobs. -/
  | poolShutdown (pool : String)
  /-- A pool was asked for without workers. -/
  | emptyPool (pool : String)
  /-- A worker thread could not be started. -/
  | spawn (reason : String)
  /-- Nobody reads the stream any more. -/
  | subscriberGone
  /-- The stream failed. -/
  | stream (fault : StreamFault)
  /-- The text is no object name. -/
  | invalidObjectName (name reason : String)
  /-- The name is taken. -/
  | alreadyRegistered (name : String)
  /-- The name is not taken. -/
  | unknownObject (name : String)
  /-- The object has no such attribute. -/
  | unknownAttribute (object attr : String)
  /-- The attribute cannot be set. -/
  | readOnlyAttribute (attr : String)
  /-- The object has no such operation. -/
  | unknownOperation (object operation : String)
  /-- An argument is not one the operation takes. -/
  | invalidArgument (operation reason : String)
  /-- The console has no such command. -/
  | unknownCommand (command : String)
  /-- The configuration cannot be used. -/
  | config (fault : ConfigFault)
deriving DecidableEq, Repr

namespace Failure

/-- The wording of a failure. -/
def text : Failure → String
  | taskFailed t => "task failed: " ++ t
  | taskDropped => "task was dropped before it produced a result"
  | timeout d => "timed out after " ++ d.text ++ " waiting for a result"
  | poolShutdown p => "pool '" ++ p ++ "' is shut down and rejects new jobs"
  | emptyPool p => "pool '" ++ p ++ "' needs at least one worker"
  | spawn r => "failed to spawn worker thread: " ++ r
  | subscriberGone => "subscriber is gone"
  | stream f => "stream failed: " ++ f.text
  | invalidObjectName n r => "invalid object name '" ++ n ++ "': " ++ r
  | alreadyRegistered n => "object '" ++ n ++ "' is already registered"
  | unknownObject n => "no object registered as '" ++ n ++ "'"
  | unknownAttribute o a => "'" ++ o ++ "' has no attribute '" ++ a ++ "'"
  | readOnlyAttribute a => "attribute '" ++ a ++ "' is read-only"
  | unknownOperation o p => "'" ++ o ++ "' has no operation '" ++ p ++ "'"
  | invalidArgument o r => "invalid argument for '" ++ o ++ "': " ++ r
  | unknownCommand c => "unknown console command '" ++ c ++ "' (try 'help')"
  | config f => f.text

/-- The name of a failure's kind. -/
def kind : Failure → String
  | taskFailed _ => "TaskFailed"
  | taskDropped => "TaskDropped"
  | timeout _ => "Timeout"
  | poolShutdown _ => "PoolShutdown"
  | emptyPool _ => "EmptyPool"
  | spawn _ => "Spawn"
  | subscriberGone => "SubscriberGone"
  | stream _ => "Stream"
  | invalidObjectName _ _ => "InvalidObjectName"
  | alreadyRegistered _ => "AlreadyRegistered"
  | unknownObject _ => "UnknownObject"
  | unknownAttribute _ _ => "UnknownAttribute"
  | readOnlyAttribute _ => "ReadOnlyAttribute"
  | unknownOperation _ _ => "UnknownOperation"
  | invalidArgument _ _ => "InvalidArgument"
  | unknownCommand _ => "UnknownCommand"
  | config _ => "Config"

/-- The failure of a task that was called off. -/
def cancelled : Failure := taskFailed "task was cancelled"

end Failure

end Handoff
