import Queuey.Library.Interaction
import Queuey.Rabbit.Codec

/-!
# Publishing

The publisher and the settle operations of a delivery, as programs over what they ask of
the client library and of the shared state: the remembered configs, the declaration
channel, the pool, the connection and the broker. Each answer is the environment's.
-/
namespace Queuey.Rabbit
open Interaction Codec Rabbit.Topology

abbrev Bytes := List UInt8

inductive Op where
  | configFor (queue : String)
  | declareChannelConnected
  | ensureConnected
  | createChannel
  | confirmSelect
  | queueDeclare (name : ShortString) (options : QueueDeclareOptions) (args : FieldTable)
  | acquirePermit
  | popIdle
  | basicPublish (routingKey : ShortString) (mandatory immediate : Bool) (payload : Bytes)
      (properties : BasicProperties)
  | awaitConfirm
  | ack
  | reject (requeue : Bool)
deriving DecidableEq

/-- `acquirePermit` is `false` once the pool is closed; `popIdle` tells whether the popped
channel, if there was one, is connected. -/
@[reducible] def Ans : Op → Type
  | .configFor _ => Option QueueConfig
  | .declareChannelConnected => Bool
  | .ensureConnected => Except Failure Unit
  | .createChannel => Except LapinError Unit
  | .confirmSelect => Except LapinError Unit
  | .queueDeclare _ _ _ => Except LapinError Unit
  | .acquirePermit => Bool
  | .popIdle => Option Bool
  | .basicPublish _ _ _ _ _ => Except LapinError Unit
  | .awaitConfirm => Except LapinError Confirmation
  | .ack => Except LapinError Bool
  | .reject _ => Except LapinError Bool

abbrev Io := ExceptT Failure (Prog Op Ans)

def ask (op : Op) : Io (Ans op) := liftM (Prog.perform op : Prog Op Ans (Ans op))

/-- The `?` on a result of this crate. -/
def orFail {α : Type} : Except Failure α → Io α
  | .ok a => pure a
  | .error e => throw e

/-- `.map_err(amqp)?`. -/
def orAmqp {α : Type} : Except LapinError α → Io α
  | .ok a => pure a
  | .error e => throw (amqp e)

/-- The options the publishing path reads. -/
structure RabbitMqOptions where
  deadSuffix : String
  declareDeadLetterQueues : Bool
  deferredSuffix : String
  retryGranularity : Duration
  deferredGranularity : Duration

/-- Why a message goes into a hold queue. -/
inductive Hold where
  | retry
  | deferral
deriving DecidableEq

def Hold.granularity (options : RabbitMqOptions) : Hold → Duration
  | retry => options.retryGranularity
  | deferral => options.deferredGranularity

/-- `toBytes` is the JSON serialization of an envelope. -/
structure Publisher (V : Type) where
  options : RabbitMqOptions
  toBytes : Envelope V → Except String Bytes

def openConfirmChannel : Io Unit := do
  orAmqp (← ask .createChannel)
  orAmqp (← ask .confirmSelect)

/-- `ConfirmChannels::acquire`: a live pooled channel, or a replacement for a dead one. -/
def acquire : Io Unit := do
  if ← ask .acquirePermit then
    match ← ask .popIdle with
    | some true => pure ()
    | some false | none =>
      orFail (← ask .ensureConnected)
      openConfirmChannel
  else throw RabbitMqError.closed.intoCore

def withDeclareChannel : Io Unit := do
  if ← ask .declareChannelConnected then pure ()
  else
    orFail (← ask .ensureConnected)
    orAmqp (← ask .createChannel)

def publishConfirmed (queue : String) (payload : Bytes) (properties : BasicProperties) :
    Io Unit := do
  let routingKey ← orFail (shortString queue)
  acquire
  orAmqp (← ask (.basicPublish routingKey true false payload properties))
  let confirmation ← orAmqp (← ask .awaitConfirm)
  orFail (confirmationToResult confirmation queue)

namespace Publisher
variable {V : Type} (publisher : Publisher V)

def bytes (e : Envelope V) : Except Failure Bytes := (publisher.toBytes e).mapError .serde

def deadQueue (queue : String) : String := deadQueueName queue publisher.options.deadSuffix

def deferredQueue (queue : String) (ttlMs : UInt32) : String :=
  deferredQueueName queue publisher.options.deferredSuffix ttlMs

def publishEnvelope (e : Envelope V) : Io Unit := do
  let payload ← orFail (publisher.bytes e)
  publishConfirmed e.queue payload (propsFor e)

def delayTooLong (delay : Duration) : Failure :=
  (RabbitMqError.delayTooLong delay
    (Duration.fromMillis (UInt64.ofNat maxDeferralMs))).intoCore

/-- What `publish_held` settles on before it touches the broker. -/
def holdQueue (config : Option QueueConfig) (e : Envelope V) (delay : Duration) (hold : Hold) :
    Except Failure (QueueConfig × UInt32 × ShortString) :=
  match config with
  | none => .error (.unknownQueue e.queue)
  | some config =>
    match deferredTtlMs delay (hold.granularity publisher.options) with
    | none => .error (delayTooLong delay)
    | some ttlMs =>
      match shortString (publisher.deferredQueue e.queue ttlMs) with
      | .error error => .error error
      | .ok holdName => .ok (config, ttlMs, holdName)

/-- The hold queue is declared immediately before every publish. -/
def declareAndPublish (e : Envelope V) (config : QueueConfig) (ttlMs : UInt32)
    (holdName : ShortString) : Io Unit := do
  withDeclareChannel
  orAmqp (← ask (.queueDeclare holdName (declareOptions config.durable)
    (deferredQueueArgs config ttlMs)))
  let payload ← orFail (publisher.bytes e)
  publishConfirmed (publisher.deferredQueue e.queue ttlMs) payload (propsFor e)

def publishHeld (e : Envelope V) (delay : Duration) (hold : Hold) : Io Unit := do
  let config ← ask (.configFor e.queue)
  let (config, ttlMs, holdName) ← orFail (publisher.holdQueue config e delay hold)
  publisher.declareAndPublish e config ttlMs holdName

def publishDeadLetter (e : Envelope V) (reason : String) : Io Unit := do
  let payload ← orFail (publisher.bytes e)
  publishConfirmed (publisher.deadQueue e.queue) payload (deadLetterProps e reason)

end Publisher

/-- A delivery's operations. -/
inductive Settle (V : Type) where
  | ack
  | deadLetter (reason : String)
  | retry (next : Envelope V) (delay : Duration)
  | defer (next : Envelope V) (delay : Duration)

structure RabbitMqDelivery (V : Type) where
  envelope : Envelope V
  publisher : Publisher V

namespace RabbitMqDelivery
variable {V : Type} (delivery : RabbitMqDelivery V)

/-- A used or poisoned acker is an error: the broker recorded no outcome. -/
def settled (settled : Bool) (operation : String) : Io Unit :=
  if settled then pure ()
  else throw (RabbitMqError.alreadySettled operation delivery.envelope.jobId.display
    delivery.envelope.queue).intoCore

def ackOriginal : Io Unit := do
  let acked ← orAmqp (← ask .ack)
  delivery.settled acked "ack"

def rejectOriginal : Io Unit := do
  let rejected ← orAmqp (← ask (.reject false))
  delivery.settled rejected "reject"

def settle : Settle V → Io Unit
  | .ack => delivery.ackOriginal
  | .deadLetter reason =>
    if delivery.publisher.options.declareDeadLetterQueues then do
      delivery.publisher.publishDeadLetter delivery.envelope reason
      delivery.ackOriginal
    else delivery.rejectOriginal
  | .retry next delay => do
    delivery.publisher.publishHeld next delay .retry
    delivery.ackOriginal
  | .defer next delay => do
    delivery.publisher.publishHeld next delay .deferral
    delivery.ackOriginal

end RabbitMqDelivery
end Queuey.Rabbit
