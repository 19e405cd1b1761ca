import Queuey.Core.Retry

/-!
# Queue configurations and errors

What a queue is declared with, and the two error types: `Error` for the infrastructure,
generic in the transport's own error, and `JobError` for what a handler returns. The
text of a handler's error comes from user code, so rendering it may panic.
-/
namespace Queuey

structure QueueConfig where
  name : String
  prefetch : UInt16
  retry : RetryPolicy
  durable : Bool
  messageTtl : Option Duration
  maxPriority : Option UInt8
deriving DecidableEq

/-- `DEFAULT_MAX_PRIORITY`. -/
def defaultMaxPriority : UInt8 := 10

/-- Sixteen unacknowledged messages, durable, no retries, ten priority levels. -/
def QueueConfig.new (name : String) : QueueConfig where
  name := name
  prefetch := 16
  retry := default
  durable := true
  messageTtl := none
  maxPriority := some defaultMaxPriority

inductive Error (B : Type) where
  | serde (text : String)
  | backend (source : B)
  | unknownQueue (queue : String)
  | noHandler (jobType : String)
  | duplicateHandler (jobType : String)
  | shutDown
  | consumerStopped (queue : String)
deriving DecidableEq

def Error.display {B : Type} (text : B → String) : Error B → String
  | serde t => "serialization error: " ++ t
  | backend source => "backend error: " ++ text source
  | unknownQueue queue => "unknown queue `" ++ queue ++ "`"
  | noHandler jobType => "no handler registered for job type `" ++ jobType ++ "`"
  | duplicateHandler jobType => "handler for job type `" ++ jobType ++ "` registered twice"
  | shutDown => "worker is shut down"
  | consumerStopped queue => "consumer for queue `" ++ queue ++ "` stopped unexpectedly"

/-- An error value of user code, known by what its `Display` does. -/
structure BoxedError where
  display : Except Panic String
deriving DecidableEq

inductive JobError where
  | retryable (source : BoxedError)
  | fatal (source : BoxedError)
  | deferred (delay : Duration) (reason : String)
deriving DecidableEq

end Queuey
