import Queuey.Rabbit.PublishBeforeAck

/-!
# A healthy broker

What the settle operations come to when every answer is the one a broker in good order
gives: a wait that is not too long is held and the original acked, and a dead letter is
published. A wait that is too long is an error whatever the broker is like.
-/
namespace Queuey.Rabbit
open Interaction Prog Codec Rabbit.Topology

/-- The answers of an open backend over a healthy broker, for queues it declared. -/
def Good : (op : Op) → Ans op → Prop
  | .configFor _, config => config.isSome = true
  | .declareChannelConnected, _ => True
  | .ensureConnected, r => r = .ok ()
  | .createChannel, r => r = .ok ()
  | .confirmSelect, r => r = .ok ()
  | .queueDeclare _ _ _, r => r = .ok ()
  | .acquirePermit, granted => granted = true
  | .popIdle, _ => True
  | .basicPublish _ _ _ _ _, r => r = .ok ()
  | .awaitConfirm, r => r = .ok (.ack none)
  | .ack, r => r = .ok true
  | .reject _, r => r = .ok true

/-- A broker all of whose answers are good, whenever it is asked. -/
def Healthy (broker : Env Op Ans) : Prop := ∀ n op, Good op (broker n op)

variable {V : Type} {α : Type}

theorem succeeds_ask (op : Op) : Succeeds Good (ask op) (Good op) := succeeds_perform

theorem succeeds_orFail {r : Except Failure α} {a : α} (h : r = .ok a) :
    Succeeds Good (orFail r) fun b => b = a := by
  subst h
  exact succeeds_pure rfl

theorem succeeds_orAmqp {r : Except LapinError α} {a : α} (h : r = .ok a) :
    Succeeds Good (orAmqp r) fun b => b = a := by
  subst h
  exact succeeds_pure rfl

theorem openConfirmChannel_succeeds : Succeeds Good openConfirmChannel fun _ => True := by
  refine (succeeds_ask .createChannel).bind fun _ created => ?_
  refine (succeeds_orAmqp created).bind fun _ _ => ?_
  refine (succeeds_ask .confirmSelect).bind fun _ selected => ?_
  exact (succeeds_orAmqp selected).mono fun _ _ => trivial

theorem acquire_succeeds : Succeeds Good acquire fun _ => True := by
  refine (succeeds_ask .acquirePermit).bind fun granted hgranted => ?_
  obtain rfl : granted = true := hgranted
  refine (succeeds_ask .popIdle).bind fun popped _ => ?_
  match popped with
  | some true => exact succeeds_pure trivial
  | some false | none =>
    refine (succeeds_ask .ensureConnected).bind fun _ connected => ?_
    exact (succeeds_orFail connected).bind fun _ _ => openConfirmChannel_succeeds

theorem withDeclareChannel_succeeds : Succeeds Good withDeclareChannel fun _ => True := by
  refine (succeeds_ask .declareChannelConnected).bind fun connected _ => ?_
  cases connected with
  | true => exact succeeds_pure trivial
  | false =>
    refine (succeeds_ask .ensureConnected).bind fun _ connected => ?_
    refine (succeeds_orFail connected).bind fun _ _ => ?_
    refine (succeeds_ask .createChannel).bind fun _ created => ?_
    exact (succeeds_orAmqp created).mono fun _ _ => trivial

theorem shortString_of_le {value : String} (h : value.utf8ByteSize ≤ maxShortStringLength) :
    shortString value = .ok ⟨value, h⟩ := by
  unfold shortString
  rw [dif_pos h]

theorem publishConfirmed_succeeds {queue : String} (payload : Bytes) (properties : BasicProperties)
    (h : queue.utf8ByteSize ≤ maxShortStringLength) :
    Succeeds Good (publishConfirmed queue payload properties) fun _ => True := by
  refine (succeeds_orFail (shortString_of_le h)).bind fun key _ => ?_
  refine acquire_succeeds.bind fun _ _ => ?_
  refine (succeeds_ask (.basicPublish key true false payload properties)).bind fun _ sent => ?_
  refine (succeeds_orAmqp sent).bind fun _ _ => ?_
  refine (succeeds_ask .awaitConfirm).bind fun _ confirmed => ?_
  refine (succeeds_orAmqp confirmed).bind fun confirmation hconfirmation => ?_
  have acked : confirmationToResult confirmation queue = .ok () :=
    confirmationToResult_ok.mpr hconfirmation
  exact (succeeds_orFail acked).mono fun _ _ => trivial

/-- What does not depend on the broker: the names fit, and the envelopes can be written. -/
structure Publisher.Serves (publisher : Publisher V) (e : Envelope V) : Prop where
  holdName : ∀ ttl : UInt32, ttl.toNat ≤ maxDeferralMs →
    (publisher.deferredQueue e.queue ttl).utf8ByteSize ≤ maxShortStringLength
  deadName : (publisher.deadQueue e.queue).utf8ByteSize ≤ maxShortStringLength
  encodes : ∃ payload, publisher.toBytes e = .ok payload

variable {publisher : Publisher V} {e : Envelope V}

theorem bytes_ok {payload : Bytes} (h : publisher.toBytes e = .ok payload) :
    publisher.bytes e = .ok payload := by
  unfold Publisher.bytes
  rw [h]
  rfl

theorem declareAndPublish_succeeds (config : QueueConfig) {ttl : UInt32} {name : ShortString}
    (hserves : publisher.Serves e) (hle : ttl.toNat ≤ maxDeferralMs) :
    Succeeds Good (publisher.declareAndPublish e config ttl name) fun _ => True := by
  obtain ⟨payload, hpayload⟩ := hserves.encodes
  refine withDeclareChannel_succeeds.bind fun _ _ => ?_
  refine (succeeds_ask (.queueDeclare name (declareOptions config.durable)
    (deferredQueueArgs config ttl))).bind fun _ declared => ?_
  refine (succeeds_orAmqp declared).bind fun _ _ => ?_
  refine (succeeds_orFail (bytes_ok hpayload)).bind fun _ _ => ?_
  exact publishConfirmed_succeeds _ _ (hserves.holdName ttl hle)

theorem holdQueue_of_le {config : Option QueueConfig} {known : QueueConfig} {delay : Duration}
    {hold : Hold} {ttl : UInt32} (hconfig : config = some known)
    (httl : deferredTtlMs delay (hold.granularity publisher.options) = some ttl)
    (hname : (publisher.deferredQueue e.queue ttl).utf8ByteSize ≤ maxShortStringLength) :
    publisher.holdQueue config e delay hold =
      .ok (known, ttl, ⟨publisher.deferredQueue e.queue ttl, hname⟩) := by
  unfold Publisher.holdQueue
  cases config with
  | none => cases hconfig
  | some config =>
    obtain rfl := Option.some.inj hconfig
    rw [httl]
    dsimp only
    rw [shortString_of_le hname]

theorem publishHeld_succeeds {delay : Duration} {hold : Hold} {ttl : UInt32}
    (hserves : publisher.Serves e)
    (httl : deferredTtlMs delay (hold.granularity publisher.options) = some ttl) :
    Succeeds Good (publisher.publishHeld e delay hold) fun _ => True := by
  have hle := (deferredTtlMs_bounds httl).2
  unfold Publisher.publishHeld
  refine (succeeds_ask (.configFor e.queue)).bind fun config known => ?_
  obtain ⟨known, hknown⟩ := Option.isSome_iff_exists.mp known
  have hheld := holdQueue_of_le hknown httl (hserves.holdName ttl hle)
  refine (succeeds_orFail hheld).bind fun found hfound => ?_
  subst hfound
  exact declareAndPublish_succeeds known hserves hle

theorem settled_succeeds (delivery : RabbitMqDelivery V) {settled : Bool} (h : settled = true)
    (operation : String) : Succeeds Good (delivery.settled settled operation) fun _ => True := by
  subst h
  exact succeeds_pure trivial

theorem ackOriginal_succeeds (delivery : RabbitMqDelivery V) :
    Succeeds Good delivery.ackOriginal fun _ => True := by
  refine (succeeds_ask .ack).bind fun _ acked => ?_
  exact (succeeds_orAmqp acked).bind fun _ settled => settled_succeeds delivery settled _

theorem rejectOriginal_succeeds (delivery : RabbitMqDelivery V) :
    Succeeds Good delivery.rejectOriginal fun _ => True := by
  refine (succeeds_ask (.reject false)).bind fun _ rejected => ?_
  exact (succeeds_orAmqp rejected).bind fun _ settled => settled_succeeds delivery settled _

theorem deadLetter_succeeds (delivery : RabbitMqDelivery V) (reason : String)
    (h : delivery.publisher.Serves delivery.envelope) :
    Succeeds Good (delivery.settle (.deadLetter reason)) fun _ => True := by
  obtain ⟨payload, hpayload⟩ := h.encodes
  simp only [RabbitMqDelivery.settle]
  split
  · have published : Succeeds Good (delivery.publisher.publishDeadLetter delivery.envelope reason)
        fun _ => True :=
      (succeeds_orFail (bytes_ok hpayload)).bind fun _ _ =>
        publishConfirmed_succeeds _ _ h.deadName
    exact published.bind fun _ _ => ackOriginal_succeeds delivery
  · exact rejectOriginal_succeeds delivery

theorem retry_succeeds (delivery : RabbitMqDelivery V) {next : Envelope V} {delay : Duration}
    {ttl : UInt32}
    (h : delivery.publisher.Serves next)
    (httl : deferredTtlMs delay delivery.publisher.options.retryGranularity = some ttl) :
    Succeeds Good (delivery.settle (.retry next delay)) fun _ => True := by
  have held : Succeeds Good (delivery.publisher.publishHeld next delay .retry) fun _ => True :=
    publishHeld_succeeds h httl
  exact held.bind fun _ _ => ackOriginal_succeeds delivery

/-- A delay no hold queue can wait is refused, whatever the broker answers. -/
theorem retry_refused (delivery : RabbitMqDelivery V) (next : Envelope V) {delay : Duration}
    (httl : deferredTtlMs delay delivery.publisher.options.retryGranularity = none)
    (broker : Env Op Ans) :
    ∃ err, ((delivery.settle (.retry next delay)).run.exec broker 0).2 = .error err := by
  have spec := (settle_spec delivery (.retry next delay)).exec broker 0
  obtain ⟨config, rest, -, hrefused⟩ := spec.refusedUntouched next delay .retry rfl
  exact (hrefused (.inr (.inl httl))).2

end Queuey.Rabbit
