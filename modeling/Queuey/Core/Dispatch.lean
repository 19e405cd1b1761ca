import Queuey.Core.Envelope
import Queuey.Core.Queue
import Queuey.Library.Interaction

/-!
# Processing one delivery

What the worker does with a delivery, as a program over what it asks of the user's code,
the clock and the broker. User code that runs inside a spawned task reports a panic as the
task's result. Where it runs on the dispatch path itself, a panic ends the program, and
the delivery is dropped with it.
-/
namespace Queuey.Dispatch
open Interaction

/-- A registered handler: what the macros declared for its job type. -/
structure Handler where
  name : String
  queue : String
  config : QueueConfig
  retryPolicy : Option RetryPolicy
deriving DecidableEq

def Handler.declaredPolicy (handler : Handler) : RetryPolicy :=
  handler.retryPolicy.getD handler.config.retry

def Handler.deferPriority (handler : Handler) : UInt8 := handler.config.maxPriority.getD 0

structure JobContext where
  jobId : Uuid
  jobType : String
  queue : String
  attempt : UInt32
  maxAttempts : UInt32
  deferrals : UInt32
  priority : UInt8
  age : Duration
  correlationId : Option String
deriving DecidableEq

inductive DeadLetterCause where
  | noHandler
  | decode
  | fatal
  | exhausted
deriving DecidableEq

structure DeadLetter (V : Type) where
  envelope : Envelope V
  cause : DeadLetterCause
  reason : String
  maxAttempts : Option UInt32
deriving DecidableEq

/-- How a handler's task ends; `cancelled` carries the text of the `JoinError`. -/
inductive Joined where
  | returned (result : Except JobError Unit)
  | panicked
  | cancelled (text : String)

inductive Op (V J : Type) where
  | decode (handler : Handler) (payload : V)
  | setRetryPolicy (handler : Handler) (job : J)
  | nowMs
  | spawn (handler : Handler) (job : J) (ctx : JobContext)
  | join
  | joinWithin (limit : Duration)
  | abort
  | joinAborted
  | onDeadLetter (dead : DeadLetter V)
  | ack
  | deadLetter (reason : String)
  | retry (next : Envelope V) (delay : Duration)
  | defer (next : Envelope V) (delay : Duration)
  | countFailure
deriving DecidableEq

/-- `decode` answers the text of the serialization error, `joinWithin` nothing once the
time is up, `onDeadLetter` whether the hook panicked in its task. -/
@[reducible] def Ans (B : Type) {V J : Type} : Op V J → Type
  | .decode _ _ => Except Panic (Except String J)
  | .setRetryPolicy _ _ => Except Panic (Option RetryPolicy)
  | .nowMs => UInt64
  | .spawn _ _ _ => Unit
  | .join => Joined
  | .joinWithin _ => Option Joined
  | .abort => Unit
  | .joinAborted => Joined
  | .onDeadLetter _ => Except Panic Unit
  | .ack | .deadLetter _ | .retry _ _ | .defer _ _ => Except (Error B) Unit
  | .countFailure => Unit

/-- The call settles the delivery. -/
def Op.settles {V J : Type} : Op V J → Bool
  | .ack | .deadLetter _ | .retry _ _ | .defer _ _ => true
  | _ => false

/-- The call settles the delivery or runs the hook. -/
def Op.visible {V J : Type} : Op V J → Bool
  | .onDeadLetter _ => true
  | op => op.settles

inductive JobOutcome where
  | success
  | decode (text : String)
  | retryable (text : String)
  | fatal (text : String)
  | deferred (delay : Duration) (reason : String)
deriving DecidableEq

/-- What a worker dispatches with, and how the crate was built. -/
structure Worker where
  build : Build
  floats : Floats
  rng : Rng
  handlers : String → Option Handler
  policies : String → Option RetryPolicy
  /-- A dead-letter hook is registered. -/
  hook : Bool
  jobTimeout : Option Duration

variable {V J B : Type}

abbrev Io (V J B : Type) := ExceptT Panic (Prog (Op V J) (Ans B))

def ask (op : Op V J) : Io V J B (Ans B op) := liftM (Prog.perform op : Prog (Op V J) (Ans B) _)

/-- A call on the dispatch path itself: its panic unwinds the caller. -/
def unwinding {α : Type} : Except Panic α → Io V J B α
  | .ok a => pure a
  | .error p => throw p

/-- What a joined task's result comes to. Rendering an error is user code. -/
def JobOutcome.ofJoined : Joined → Except Panic JobOutcome
  | .returned (.ok ()) => .ok .success
  | .returned (.error (.retryable e)) => e.display.map .retryable
  | .returned (.error (.fatal e)) => e.display.map .fatal
  | .returned (.error (.deferred delay reason)) => .ok (.deferred delay reason)
  | .panicked => .ok (.retryable "handler panicked")
  | .cancelled text => .ok (.retryable ("handler task failed: " ++ text))

/-- The task is awaited, up to the timeout; one that exceeds it is aborted and awaited. -/
def awaitTask (timeout : Option Duration) : Io V J B JobOutcome := do
  match timeout with
  | some limit =>
    match ← ask (.joinWithin limit) with
    | some joined => unwinding (JobOutcome.ofJoined joined)
    | none =>
      ask .abort
      let _ ← ask .joinAborted
      return .retryable ("job timed out after " ++ limit.debug)
  | none => unwinding (JobOutcome.ofJoined (← ask .join))

/-- The context a run of the handler gets; `now` is the clock in milliseconds. -/
def jobContext (handler : Handler) (envelope : Envelope V) (policy : RetryPolicy) (now : UInt64) :
    JobContext where
  jobId := envelope.jobId
  jobType := handler.name
  queue := handler.queue
  attempt := envelope.attempt
  maxAttempts := policy.maxAttempts
  deferrals := envelope.deferrals
  priority := envelope.priority
  age := .fromMillis (UInt64.ofNat (now.toNat - envelope.enqueuedAtMs.toNat))
  correlationId := envelope.correlationId

/-- `ErasedJobHandler::run`: the outcome, with the policy it is judged by. -/
def runHandler (handler : Handler) (envelope : Envelope V) (timeout : Option Duration)
    (configured : RetryPolicy) : Io V J B (JobOutcome × RetryPolicy) := do
  match ← unwinding (← ask (.decode handler envelope.payload)) with
  | .error text =>
    return (.decode ((Error.serde text : Error Empty).display Empty.elim), configured)
  | .ok job =>
    let policy := (← unwinding (← ask (.setRetryPolicy handler job))).getD configured
    let now ← ask .nowMs
    ask (.spawn handler job (jobContext handler envelope policy now))
    return (← awaitTask timeout, policy)

/-- `settle`: an error is counted and goes no further. -/
def settle (result : Except (Error B) Unit) : Io V J B Unit :=
  match result with
  | .ok () => pure ()
  | .error _ => ask .countFailure

def notifyDead (hook : Bool) (envelope : Envelope V) (cause : DeadLetterCause) (reason : String)
    (maxAttempts : Option UInt32) : Io V J B Unit := do
  if hook then
    let _ ← ask (.onDeadLetter ⟨envelope, cause, reason, maxAttempts⟩)

def deadLettered (hook : Bool) (envelope : Envelope V) (cause : DeadLetterCause)
    (reason : String) (maxAttempts : Option UInt32) : Io V J B Unit := do
  notifyDead hook envelope cause reason maxAttempts
  settle (← ask (.deadLetter reason))

def settleOutcome (worker : Worker) (handler : Handler) (envelope : Envelope V)
    (policy : RetryPolicy) : JobOutcome → Io V J B Unit
  | .success => do settle (← ask .ack)
  | .decode e =>
    deadLettered worker.hook envelope .decode ("decode error: " ++ e) (some policy.maxAttempts)
  | .fatal e =>
    deadLettered worker.hook envelope .fatal ("fatal error: " ++ e) (some policy.maxAttempts)
  | .deferred delay _ => do
    let next ← unwinding (envelope.deferred worker.build handler.deferPriority)
    settle (← ask (.defer next delay))
  | .retryable e => do
    match ← unwinding (policy.decide worker.floats worker.rng envelope.attempt) with
    | .retry delay =>
      let next ← unwinding (envelope.nextAttempt worker.build)
      settle (← ask (.retry next delay))
    | .giveUp =>
      deadLettered worker.hook envelope .exhausted
        ("max attempts (" ++ toString policy.maxAttempts.toNat ++ ") exhausted after attempt " ++
          toString envelope.attempt.toNat ++ ": " ++ e) (some policy.maxAttempts)

/-- `process`: `dispatch` of the delivered envelope. -/
def process (worker : Worker) (envelope : Envelope V) : Io V J B Unit :=
  match worker.handlers envelope.jobType with
  | none =>
    deadLettered worker.hook envelope .noHandler
      ("no handler for job type `" ++ envelope.jobType ++ "`") none
  | some handler => do
    let configured := (worker.policies envelope.jobType).getD handler.declaredPolicy
    let (outcome, policy) ← runHandler handler envelope worker.jobTimeout configured
    settleOutcome worker handler envelope policy outcome

end Queuey.Dispatch
