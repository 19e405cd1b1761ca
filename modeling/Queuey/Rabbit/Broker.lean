import Queuey.Core.Wire
import Queuey.Library.Protocol
import Queuey.Library.Transition
import Queuey.Rabbit.EveryDelay

/-!
# A broker and its clients

Any number of calls of backends and of deliveries against one broker, each the program of its
own process. The broker takes a message or does not, hands it out, takes it back, or passes it
on from queue to queue. A bare `Ack` is its word that the message was taken. Messages are
numbered in the order they are published.
-/
namespace Queuey.Rabbit.Broker
open Interaction Prog Transition Codec Rabbit.Topology

variable {V : Type}

/-- The codec of the bodies, which reads what it has written. -/
structure Wire (V : Type) where
  toBytes : Envelope V → Except String Bytes
  fromBytes : Bytes → Option (Envelope V)
  roundTrip : ∀ e body, toBytes e = .ok body → fromBytes body = some e

/-- The wire format over libraries that read back the envelopes they write. -/
def Wire.ofSerde (serde : Serde V) (text : SerdeError → String)
    (survives : ∀ e body, e.toBytes serde = .ok body → Envelope.Survives serde e) : Wire V where
  toBytes e := (e.toBytes serde).mapError text
  fromBytes body := (Envelope.fromBytes serde body).toOption
  roundTrip e body h := by
    have hwritten := mapError_ok h.symm
    obtain ⟨body', hbody', -, hread⟩ := (survives e body hwritten).fromBytes
    obtain rfl := Except.ok.inj (hwritten.symm.trans hbody')
    rw [hread]
    rfl

/-- A call: a new envelope for the broker, or an operation of the delivery of message `n`. -/
inductive Request (V : Type) where
  | publish (e : Envelope V) (delay : Option Duration)
  | defer (e : Envelope V) (delay : Duration)
  | settle (n : ℕ) (e : Envelope V) (op : Settle V)

namespace Request

def program (wire : Wire V) (options : RabbitMqOptions) :
    Request V → Prog Op Ans (Except Failure Unit)
  | publish e delay => (RabbitMqBackend.publish ⟨options, wire.toBytes⟩ e delay).run
  | defer e delay => (RabbitMqBackend.defer ⟨options, wire.toBytes⟩ e delay).run
  | settle _ e op => ((RabbitMqDelivery.mk e ⟨options, wire.toBytes⟩).settle op).run

/-- The envelope that is to be on the broker before anything is settled. -/
def successor (options : RabbitMqOptions) : Request V → Option (Envelope V)
  | publish e _ | defer e _ => some e
  | settle _ _ .ack => none
  | settle _ e (.deadLetter _) => if options.declareDeadLetterQueues then some e else none
  | settle _ _ (.retry next _) | settle _ _ (.defer next _) => some next

/-- The message whose delivery the call settles. -/
def delivered : Request V → Option ℕ
  | publish _ _ | defer _ _ => none
  | settle n _ _ => some n

def enqueued : Request V → Option (Envelope V)
  | publish e _ | defer e _ => some e
  | settle _ _ _ => none

end Request

/-! ## The stages of a call -/

inductive Stage where
  | preparing
  | sent
  | failed
  | confirmed
  | settled
deriving DecidableEq

/-- One publish, of the successor, and its confirmation. The delivery is settled after that,
or at once if there is no successor. -/
def stages (wire : Wire V) (options : RabbitMqOptions) (r : Request V) : Protocol Op Ans Stage where
  allows stage op :=
    match op with
    | .basicPublish _ _ _ payload _ => stage = .preparing ∧
      ∃ next, r.successor options = some next ∧ wire.toBytes next = .ok payload
    | .ack | .reject _ => r.delivered.isSome = true ∧
      (stage = .confirmed ∨ stage = .preparing ∧ r.successor options = none)
    | _ => True
  next stage op x :=
    match op, x with
    | .basicPublish _ _ _ _ _, .ok () => .sent
    | .basicPublish _ _ _ _ _, .error _ => .failed
    | .awaitConfirm, .ok (.ack none) => if stage = .sent then .confirmed else stage
    | .awaitConfirm, _ => if stage = .sent then .failed else stage
    | .ack, _ | .reject _, _ => .settled
    | _, _ => stage

/-- Where a call that succeeds has got to. -/
def Request.goal (r : Request V) : Stage := if r.delivered.isSome then .settled else .confirmed

section Programs
variable {wire : Wire V} {options : RabbitMqOptions} {r : Request V} {e : Envelope V}
  {stage : Stage} {α : Type}

theorem prepares_keeps {p : Prog Op Ans α} (h : p.Only Op.Prepares) (hstage : stage ≠ .sent) :
    p.Keeps (stages wire options r) (fun t _ => t = stage) stage := by
  refine h.keeps fun op hop => ?_
  cases op with
  | basicPublish key m i payload props => exact absurd hop.2 (by simp [Op.exposes])
  | queueDeclare name o args => exact absurd hop.2 (by simp [Op.exposes])
  | ack | reject _ => exact absurd hop.1 (by simp [Op.settles])
  | awaitConfirm =>
    refine ⟨trivial, fun x => ?_⟩
    dsimp only [stages]
    split <;> simp_all
  | _ => exact ⟨trivial, fun _ => rfl⟩

theorem orFail_keeps {P : Protocol Op Ans Stage} (x : Except Failure α) :
    (orFail x).run.Keeps P (fun t res => t = stage ∧ res = x) stage := by
  cases x <;> exact ⟨rfl, rfl⟩

theorem orAmqp_keeps {P : Protocol Op Ans Stage} (x : Except LapinError α) :
    (orAmqp x).run.Keeps P (fun t res => t = stage ∧ res = x.mapError amqp) stage := by
  cases x <;> exact ⟨rfl, rfl⟩

/-- What has succeeded has got to stage `goal`. -/
def Gets (goal : Stage) (t : Stage) (res : Except Failure Unit) : Prop := res = .ok () → t = goal

theorem publishConfirmed_keeps {payload : Bytes} (queue : String) (properties : BasicProperties)
    {next : Envelope V} (hnext : r.successor options = some next)
    (hpayload : wire.toBytes next = .ok payload) :
    (publishConfirmed queue payload properties).run.Keeps (stages wire options r) (Gets .confirmed)
      .preparing := by
  have stopped : ∀ (t : Stage) (err : Failure), Gets .confirmed t (.error err) := by
    rintro t err ⟨⟩
  refine (orFail_keeps (shortString queue)).seq (fun t err _ => stopped t err) ?_
  rintro _ key ⟨rfl, -⟩
  refine (prepares_keeps acquire_only (by simp)).seq (fun t err _ => stopped t err) ?_
  rintro _ _ rfl
  refine Keeps.ask ⟨rfl, next, hnext, hpayload⟩ fun published => ?_
  cases published with
  | error err => exact stopped _ _
  | ok u =>
    refine Keeps.ask trivial fun answer => ?_
    refine (orAmqp_keeps answer).seq (fun t err _ => stopped t err) ?_
    rintro _ confirmation ⟨rfl, hconfirmation⟩
    obtain rfl := mapError_ok hconfirmation
    refine (orFail_keeps (confirmationToResult confirmation queue)).mono ?_
    rintro _ _ ⟨rfl, rfl⟩ hok
    obtain rfl := confirmationToResult_ok.mp hok
    rfl

theorem bytes_keeps {f : Bytes → Io Unit} {goal : Stage} (e : Envelope V)
    (next : ∀ payload, wire.toBytes e = .ok payload →
      (f payload).run.Keeps (stages wire options r) (Gets goal) stage) :
    (ExceptT.run (orFail (Publisher.bytes ⟨options, wire.toBytes⟩ e) >>= f)).Keeps
      (stages wire options r) (Gets goal) stage := by
  refine (orFail_keeps _).seq (fun t err _ => ?_) ?_
  · rintro ⟨⟩
  · rintro _ payload ⟨rfl, hpayload⟩
    exact next payload (mapError_ok hpayload)

theorem declareAndPublish_keeps (config : QueueConfig) (ttl : UInt32) (name : ShortString)
    (hnext : r.successor options = some e) :
    (Publisher.declareAndPublish ⟨options, wire.toBytes⟩ e config ttl name).run.Keeps
      (stages wire options r) (Gets .confirmed) .preparing := by
  have stopped : ∀ (t : Stage) (err : Failure), Gets .confirmed t (.error err) := by
    rintro t err ⟨⟩
  refine (prepares_keeps withDeclareChannel_only (by simp)).seq (fun t err _ => stopped t err) ?_
  rintro _ _ rfl
  refine Keeps.ask trivial fun declared => ?_
  refine (orAmqp_keeps declared).seq (fun t err _ => stopped t err) ?_
  rintro _ _ ⟨rfl, -⟩
  exact bytes_keeps e fun payload hpayload => publishConfirmed_keeps _ _ hnext hpayload

theorem publishHeld_keeps (delay : Duration) (hold : Hold) (hnext : r.successor options = some e) :
    (Publisher.publishHeld ⟨options, wire.toBytes⟩ e delay hold).run.Keeps
      (stages wire options r) (Gets .confirmed) .preparing := by
  refine Keeps.ask trivial fun config => ?_
  refine (orFail_keeps _).seq (fun t err _ => ?_) ?_
  · rintro ⟨⟩
  rintro _ ⟨known, ttl, name⟩ ⟨rfl, -⟩
  exact declareAndPublish_keeps known ttl name hnext

theorem settled_keeps {P : Protocol Op Ans Stage} (delivery : RabbitMqDelivery V)
    (answer : Except LapinError Bool) (operation : String) :
    (ExceptT.run (orAmqp answer >>= fun b => delivery.settled b operation)).Keeps P (Gets .settled)
      .settled := by
  refine (orAmqp_keeps answer).seq (fun t err h _ => h.1) ?_
  rintro _ settled ⟨rfl, -⟩
  cases settled <;> exact fun _ => rfl

theorem ackOriginal_keeps (delivery : RabbitMqDelivery V) (hdelivered : r.delivered.isSome = true)
    (hstage : stage = .confirmed ∨ stage = .preparing ∧ r.successor options = none) :
    delivery.ackOriginal.run.Keeps (stages wire options r) (Gets .settled) stage :=
  Keeps.ask ⟨hdelivered, hstage⟩ fun acked => settled_keeps delivery acked "ack"

theorem rejectOriginal_keeps (delivery : RabbitMqDelivery V)
    (hdelivered : r.delivered.isSome = true)
    (hstage : stage = .confirmed ∨ stage = .preparing ∧ r.successor options = none) :
    delivery.rejectOriginal.run.Keeps (stages wire options r) (Gets .settled) stage :=
  Keeps.ask ⟨hdelivered, hstage⟩ fun rejected => settled_keeps delivery rejected "reject"

/-- A confirmed publish and then the ack of the original. -/
theorem thenAck_keeps (delivery : RabbitMqDelivery V) {publish : Io Unit}
    (hdelivered : r.delivered.isSome = true)
    (hpublish : publish.run.Keeps (stages wire options r) (Gets .confirmed) .preparing) :
    (ExceptT.run (publish >>= fun _ => delivery.ackOriginal)).Keeps (stages wire options r)
      (Gets .settled) .preparing := by
  refine hpublish.seq (fun t err _ => ?_) fun t u h => ?_
  · rintro ⟨⟩
  · obtain rfl := h rfl
    exact ackOriginal_keeps delivery hdelivered (.inl rfl)

/-- Whatever is answered, a call keeps to its stages. -/
theorem program_keeps (wire : Wire V) (options : RabbitMqOptions) (r : Request V) :
    (r.program wire options).Keeps (stages wire options r) (Gets r.goal) .preparing := by
  match r with
  | .publish e none =>
    exact bytes_keeps e fun payload hpayload => publishConfirmed_keeps _ _ rfl hpayload
  | .publish e (some delay) => exact publishHeld_keeps delay .retry rfl
  | .defer e delay => exact publishHeld_keeps delay .deferral rfl
  | .settle n e .ack => exact ackOriginal_keeps _ rfl (.inr ⟨rfl, rfl⟩)
  | .settle n e (.retry next delay) =>
    exact thenAck_keeps _ rfl (publishHeld_keeps delay .retry rfl)
  | .settle n e (.defer next delay) =>
    exact thenAck_keeps _ rfl (publishHeld_keeps delay .deferral rfl)
  | .settle n e (.deadLetter reason) =>
    unfold Request.program RabbitMqDelivery.settle
    dsimp only
    split_ifs with henabled
    · refine thenAck_keeps _ rfl (bytes_keeps e fun payload hpayload => ?_)
      exact publishConfirmed_keeps _ _ (if_pos henabled) hpayload
    · exact rejectOriginal_keeps _ rfl (.inr ⟨rfl, if_neg henabled⟩)

end Programs
/-! ## The system -/

inductive Place where
  | unpublished
  | inFlight (queue : String)
  | refused
  | ready (queue : String)
  | unacked (queue : String)
  | settled
  | discarded
deriving DecidableEq

namespace Place

/-- The broker took the message, whatever became of it. -/
def taken : Place → Bool
  | ready _ | unacked _ | settled | discarded => true
  | unpublished | inFlight _ | refused => false

/-- The broker has the message. -/
def onBroker : Place → Bool
  | ready _ | unacked _ => true
  | _ => false

end Place

structure Call (V : Type) where
  options : RabbitMqOptions
  request : Request V
  client : Client Op Ans (Except Failure Unit)
  /-- The message it has published. -/
  sent : Option ℕ
  /-- The future was dropped, or its process died. -/
  dropped : Bool

structure State (V : Type) where
  next : ℕ
  body : ℕ → Bytes
  place : ℕ → Place
  /-- The call that acked or rejected the message. -/
  settledBy : ℕ → Option ℕ
  calls : ℕ → Option (Call V)

/-- `acts` tells whether the broker gets to act on an operation whose answer leaves it open. -/
inductive Action (V : Type) where
  | publish (k : ℕ) (options : RabbitMqOptions) (e : Envelope V) (delay : Option Duration)
  | defer (k : ℕ) (options : RabbitMqOptions) (e : Envelope V) (delay : Duration)
  | settle (k : ℕ) (options : RabbitMqOptions) (n : ℕ) (op : Settle V)
  | answer (k : ℕ) (event : Interaction.Event Op Ans) (acts : Bool)
  | drop (k : ℕ)
  | route (n : ℕ)
  | refuse (n : ℕ)
  | deliver (n : ℕ)
  | requeue (n : ℕ)
  | pass (n : ℕ) (queue : String)
  | discard (n : ℕ)

namespace State

def setCall (s : State V) (k : ℕ) (c : Call V) : State V :=
  { s with calls := Function.update s.calls k (some c) }

def setPlace (s : State V) (n : ℕ) (place : Place) : State V :=
  { s with place := Function.update s.place n place }

/-- A message is on its way to the broker. -/
def emit (s : State V) (queue : String) (body : Bytes) : State V :=
  { s.setPlace s.next (.inFlight queue) with
    next := s.next + 1
    body := Function.update s.body s.next body }

/-- The broker lets go of message `n`, which call `k` has settled. -/
def conclude (s : State V) (n k : ℕ) : State V :=
  { s.setPlace n .settled with settledBy := Function.update s.settledBy n (some k) }

@[simp] theorem setCall_calls (s : State V) (k : ℕ) (c : Call V) :
    (s.setCall k c).calls = Function.update s.calls k (some c) := rfl

@[simp] theorem setCall_place (s : State V) (k : ℕ) (c : Call V) :
    (s.setCall k c).place = s.place := rfl

@[simp] theorem setPlace_place (s : State V) (n : ℕ) (place : Place) :
    (s.setPlace n place).place = Function.update s.place n place := rfl

@[simp] theorem emit_place (s : State V) (queue : String) (body : Bytes) :
    (s.emit queue body).place = Function.update s.place s.next (.inFlight queue) := rfl

@[simp] theorem conclude_place (s : State V) (n k : ℕ) :
    (s.conclude n k).place = Function.update s.place n .settled := rfl

end State

/-- A call begins, unless the number is taken. -/
def stepBegin (wire : Wire V) (s : State V) (k : ℕ) (options : RabbitMqOptions) (r : Request V) :
    Option (State V) :=
  match s.calls k with
  | none => some (s.setCall k ⟨options, r, .start (r.program wire options), none, false⟩)
  | some _ => none

/-- A delivery is settled, perhaps after the broker has taken its message back. -/
def stepSettle (wire : Wire V) (s : State V) (k : ℕ) (options : RabbitMqOptions) (n : ℕ)
    (op : Settle V) : Option (State V) :=
  match wire.fromBytes (s.body n) with
  | some e => if (s.place n).taken then stepBegin wire s k options (.settle n e op) else none
  | none => none

/-- The broker removes an unacked message on an ack or a reject, if it gets to see it. -/
def stepSettled (s : State V) (k : ℕ) (c : Call V) (acts : Bool) : Option (State V) :=
  if acts then
    match c.request.delivered with
    | some n =>
      match s.place n with
      | .unacked _ => some ((s.conclude n k).setCall k c)
      | _ => none
    | none => none
  else some (s.setCall k c)

/-- What an answer means to the broker. It confirms only what it has taken. -/
def stepBroker (s : State V) (k : ℕ) (c : Call V) (acts : Bool) :
    Interaction.Event Op Ans → Option (State V)
  | ⟨.basicPublish key _ _ payload _, .ok ()⟩ =>
    some ((s.emit key.value payload).setCall k { c with sent := some s.next })
  | ⟨.basicPublish key _ _ payload _, .error _⟩ =>
    -- the frames may have got through all the same
    some ((if acts then s.emit key.value payload else s).setCall k c)
  | ⟨.awaitConfirm, .ok (.ack none)⟩ =>
    match c.sent with
    | some n => if (s.place n).taken then some (s.setCall k c) else none
    | none => none
  | ⟨.ack, _⟩ | ⟨.reject _, _⟩ => stepSettled s k c acts
  | _ => some (s.setCall k c)

def stepAnswer (s : State V) (k : ℕ) (event : Interaction.Event Op Ans) (acts : Bool) :
    Option (State V) :=
  match s.calls k with
  | some c =>
    if c.dropped then none
    else
      match c.client.answer event with
      | some client => stepBroker s k { c with client := client } acts event
      | none => none
  | none => none

def stepDrop (s : State V) (k : ℕ) : Option (State V) :=
  match s.calls k with
  | some c => some (s.setCall k { c with dropped := true })
  | none => none

def stepPlace (s : State V) (n : ℕ) (move : Place → Option Place) : Option (State V) :=
  (move (s.place n)).map (s.setPlace n)

def Place.route : Place → Option Place
  | inFlight queue => some (ready queue)
  | _ => none

def Place.refuse : Place → Option Place
  | inFlight _ => some refused
  | _ => none

def Place.deliver : Place → Option Place
  | ready queue => some (unacked queue)
  | _ => none

def Place.requeue : Place → Option Place
  | unacked queue => some (ready queue)
  | _ => none

/-- What has expired is dead-lettered into another queue. -/
def Place.pass (queue : String) : Place → Option Place
  | ready _ => some (ready queue)
  | _ => none

/-- A queue is deleted, or drops what has expired. -/
def Place.discard : Place → Option Place
  | ready _ | unacked _ => some discarded
  | _ => none

def step (wire : Wire V) (s : State V) : Action V → Option (State V)
  | .publish k options e delay => stepBegin wire s k options (.publish e delay)
  | .defer k options e delay => stepBegin wire s k options (.defer e delay)
  | .settle k options n op => stepSettle wire s k options n op
  | .answer k event acts => stepAnswer s k event acts
  | .drop k => stepDrop s k
  | .route n => stepPlace s n Place.route
  | .refuse n => stepPlace s n Place.refuse
  | .deliver n => stepPlace s n Place.deliver
  | .requeue n => stepPlace s n Place.requeue
  | .pass n queue => stepPlace s n (Place.pass queue)
  | .discard n => stepPlace s n Place.discard

def initial (V : Type) : State V where
  next := 0
  body := fun _ => []
  place := fun _ => .unpublished
  settledBy := fun _ => none
  calls := fun _ => none

def system (wire : Wire V) : System (State V) (Action V) where
  start s := s = initial V
  step := step wire

end Queuey.Rabbit.Broker
