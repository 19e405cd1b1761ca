import Queuey.Rabbit.Publisher

/-!
# Publish before ack

What every run of a settle operation does, whatever the broker answers: the original is
settled at most once and last, by `retry`, `defer` and `dead_letter` only after a bare
`Ack` of the successor, and a wait that cannot be held touches nothing.
-/
namespace Queuey.Rabbit
open Interaction Codec Rabbit.Topology

variable {V : Type} {α : Type}

abbrev Trace := List (Interaction.Event Op Ans)

/-- Acks or rejects the original. -/
def Op.settles : Op → Bool
  | .ack | .reject _ => true
  | _ => false

/-- Declares or publishes on the broker. -/
def Op.exposes : Op → Bool
  | .queueDeclare _ _ _ | .basicPublish _ _ _ _ _ => true
  | _ => false

def Op.publishes : Op → Bool
  | .basicPublish _ _ _ _ _ => true
  | _ => false

/-- The original was neither acked nor rejected. -/
def Unsettled (events : Trace) : Prop := ∀ e ∈ events, e.1.settles = false

/-- Nothing was published, and the original was not settled. -/
def Unpublished (events : Trace) : Prop :=
  ∀ e ∈ events, e.1.settles = false ∧ e.1.publishes = false

section Calculus
variable {op : Op}

theorem ensures_ask (op : Op) :
    (ask op).run.Ensures fun events r => ∃ x, events = [⟨op, x⟩] ∧ r = .ok x := by
  show (ExceptT.run (liftM (Prog.perform op : Prog Op Ans (Ans op)) : Io (Ans op))).Ensures _
  rw [Prog.ensures_run_lift, Prog.ensures_perform]
  exact fun x => ⟨x, rfl, rfl⟩

theorem ensures_orFail (r : Except Failure α) :
    (orFail r).run.Ensures fun events r' => events = [] ∧ r' = r := by
  cases r <;> exact ⟨rfl, rfl⟩

theorem mapError_ok {ε ε' : Type} {f : ε → ε'} {r : Except ε α} {a : α}
    (h : .ok a = r.mapError f) : r = .ok a := by
  cases r with
  | ok b =>
    obtain rfl := Except.ok.inj h
    rfl
  | error e => cases h

theorem ensures_orAmqp (r : Except LapinError α) :
    (orAmqp r).run.Ensures fun events r' => events = [] ∧ r' = r.mapError amqp := by
  cases r <;> exact ⟨rfl, rfl⟩

theorem only_ask {P : Op → Prop} {op : Op} (h : P op) : (ask op).run.Only P :=
  Prog.Only.bind (Prog.only_perform.mpr h) fun _ => trivial

theorem only_orFail {P : Op → Prop} (r : Except Failure α) : (orFail r).run.Only P := by
  cases r <;> trivial

theorem only_orAmqp {P : Op → Prop} (r : Except LapinError α) : (orAmqp r).run.Only P := by
  cases r <;> trivial

end Calculus

theorem Unsettled.append {b a : Trace} (h : Unsettled b) (k : Unsettled a) :
    Unsettled (b ++ a) := fun e he => (List.mem_append.mp he).elim (h e) (k e)

theorem Unpublished.append {b a : Trace} (h : Unpublished b)
    (k : Unpublished a) : Unpublished (b ++ a) :=
  fun e he => (List.mem_append.mp he).elim (h e) (k e)

theorem Unpublished.unsettled {events : Trace} (h : Unpublished events) : Unsettled events :=
  fun e he => (h e he).1

/-- Neither settles, declares nor publishes. -/
def Op.Prepares (op : Op) : Prop := op.settles = false ∧ op.exposes = false

theorem Op.Prepares.quiet {op : Op} (h : op.Prepares) :
    op.settles = false ∧ op.publishes = false := by
  refine ⟨h.1, ?_⟩
  cases op with
  | basicPublish _ _ _ _ _ => exact absurd h.2 (by simp [Op.exposes])
  | _ => rfl

theorem openConfirmChannel_only : openConfirmChannel.run.Only Op.Prepares :=
  (only_ask ⟨rfl, rfl⟩).run_bind fun _ => (only_orAmqp _).run_bind fun _ =>
    (only_ask ⟨rfl, rfl⟩).run_bind fun _ => only_orAmqp _

theorem acquire_only : acquire.run.Only Op.Prepares := by
  refine (only_ask ⟨rfl, rfl⟩).run_bind fun permit => ?_
  cases permit with
  | false => trivial
  | true =>
    refine (only_ask ⟨rfl, rfl⟩).run_bind fun popped => ?_
    match popped with
    | some true => trivial
    | some false | none =>
      exact (only_ask ⟨rfl, rfl⟩).run_bind fun _ => (only_orFail _).run_bind fun _ =>
        openConfirmChannel_only

theorem withDeclareChannel_only : withDeclareChannel.run.Only Op.Prepares := by
  refine (only_ask ⟨rfl, rfl⟩).run_bind fun connected => ?_
  cases connected with
  | true => trivial
  | false =>
    exact (only_ask ⟨rfl, rfl⟩).run_bind fun _ => (only_orFail _).run_bind fun _ =>
      (only_ask ⟨rfl, rfl⟩).run_bind fun _ => only_orAmqp _

/-- The publish of `payload` to `queue`, answered with a bare `Ack`. -/
def Confirmed (queue : String) (payload : Bytes) (properties : BasicProperties) (events : Trace) :
    Prop :=
  ∃ before key, shortString queue = .ok key ∧ Unpublished before ∧
    events = before ++ [⟨.basicPublish key true false payload properties, .ok ()⟩,
      ⟨.awaitConfirm, .ok (.ack none)⟩]

theorem Confirmed.prepend {queue : String} {payload : Bytes} {properties : BasicProperties}
    {before events : Trace} (hb : Unpublished before)
    (h : Confirmed queue payload properties events) :
    Confirmed queue payload properties (before ++ events) := by
  obtain ⟨start, key, hkey, hstart, rfl⟩ := h
  exact ⟨before ++ start, key, hkey, hb.append hstart, by rw [List.append_assoc]⟩

theorem publishConfirmed_spec (queue : String) (payload : Bytes) (properties : BasicProperties) :
    (publishConfirmed queue payload properties).run.Ensures fun events r =>
      Unsettled events ∧ (r = .ok () → Confirmed queue payload properties events) := by
  refine (ensures_orFail (shortString queue)).seq ?_ ?_
  · rintro _ e ⟨rfl, -⟩
    exact ⟨by simp [Unsettled], by simp⟩
  rintro _ key ⟨rfl, hkey⟩
  refine acquire_only.ensures.seq (fun before e hb => ?_) fun before _ hb => ?_
  · exact ⟨fun e he => (hb e he).1, by simp⟩
  have hbefore : Unpublished before := fun e he => (hb e he).quiet
  refine (ensures_ask (.basicPublish key true false payload properties)).seq ?_ ?_
  · rintro _ e ⟨x, -, hx⟩
    cases hx
  rintro _ published ⟨_, rfl, hx⟩
  obtain rfl := Except.ok.inj hx
  have hsent := hbefore.unsettled.append (a := [⟨.basicPublish key true false payload
    properties, published⟩]) (by simp [Unsettled, Op.settles])
  refine (ensures_orAmqp published).seq ?_ ?_
  · rintro _ e ⟨rfl, -⟩
    exact ⟨by simpa using hsent, by simp⟩
  rintro _ _ ⟨rfl, hpublished⟩
  refine (ensures_ask .awaitConfirm).seq ?_ ?_
  · rintro _ e ⟨x, -, hx⟩
    cases hx
  rintro _ confirmation ⟨_, rfl, hx⟩
  obtain rfl := Except.ok.inj hx
  have hdone := hsent.append (a := [⟨.awaitConfirm, confirmation⟩])
    (by simp [Unsettled, Op.settles])
  refine (ensures_orAmqp confirmation).seq ?_ ?_
  · rintro _ e ⟨rfl, -⟩
    exact ⟨by simpa using hdone, by simp⟩
  rintro _ answer ⟨rfl, hanswer⟩
  refine (ensures_orFail _).mono ?_
  rintro _ r ⟨rfl, rfl⟩
  refine ⟨by simpa using hdone, fun hok => ⟨before, key, hkey.symm, hbefore, ?_⟩⟩
  obtain rfl := confirmationToResult_ok.mp hok
  obtain rfl := mapError_ok hpublished
  obtain rfl := mapError_ok hanswer
  simp only [List.nil_append, List.append_nil, List.cons_append]

variable (publisher : Publisher V) (config : Option QueueConfig) (e : Envelope V)
  (delay : Duration) (hold : Hold)

/-- A wait that cannot be held: unknown queue, delay too long, or hold name too long. -/
def Refused : Prop :=
  config = none ∨ deferredTtlMs delay (hold.granularity publisher.options) = none ∨
  ∃ ttl, deferredTtlMs delay (hold.granularity publisher.options) = some ttl ∧
    maxShortStringLength < (publisher.deferredQueue e.queue ttl).utf8ByteSize

variable {publisher config e delay hold}

theorem shortString_error {value : String} (h : maxShortStringLength < value.utf8ByteSize) :
    shortString value = .error (RabbitMqError.invalidName value).intoCore := by
  unfold shortString
  rw [dif_neg (by omega)]

theorem holdQueue_refused (h : Refused publisher config e delay hold) :
    ∃ err, publisher.holdQueue config e delay hold = .error err := by
  unfold Publisher.holdQueue
  cases config with
  | none => exact ⟨.unknownQueue e.queue, rfl⟩
  | some config =>
    rcases h with h | h | ⟨ttl, httl, hname⟩
    · cases h
    · exact ⟨Publisher.delayTooLong delay, by rw [h]⟩
    · refine ⟨(RabbitMqError.invalidName (publisher.deferredQueue e.queue ttl)).intoCore, ?_⟩
      rw [httl]
      dsimp only
      rw [shortString_error hname]

theorem holdQueue_ok {known : QueueConfig} {ttl : UInt32} {name : ShortString}
    (h : publisher.holdQueue config e delay hold = .ok (known, ttl, name)) :
    config = some known ∧ deferredTtlMs delay (hold.granularity publisher.options) = some ttl ∧
      shortString (publisher.deferredQueue e.queue ttl) = .ok name := by
  revert h
  fun_cases Publisher.holdQueue publisher config e delay hold with
  | case4 config t httl n hname =>
    rintro ⟨⟩
    exact ⟨rfl, httl, hname⟩
  | _ => rintro ⟨⟩

/-- The published successor of a wait. -/
def Held (publisher : Publisher V) (e : Envelope V) (delay : Duration) (hold : Hold)
    (events : Trace) : Prop :=
  ∃ ttl payload, deferredTtlMs delay (hold.granularity publisher.options) = some ttl ∧
    publisher.bytes e = .ok payload ∧
    Confirmed (publisher.deferredQueue e.queue ttl) payload (propsFor e) events

theorem declareAndPublish_spec (publisher : Publisher V) (e : Envelope V) (config : QueueConfig)
    (ttl : UInt32) (name : ShortString) :
    (publisher.declareAndPublish e config ttl name).run.Ensures fun events r =>
      Unsettled events ∧ (r = .ok () → ∃ payload, publisher.bytes e = .ok payload ∧
        Confirmed (publisher.deferredQueue e.queue ttl) payload (propsFor e) events) := by
  refine withDeclareChannel_only.ensures.seq (fun before e hb => ?_) fun before _ hb => ?_
  · exact ⟨fun e he => (hb e he).1, by simp⟩
  have hbefore : Unpublished before := fun e he => (hb e he).quiet
  refine (ensures_ask (.queueDeclare name (declareOptions config.durable)
    (deferredQueueArgs config ttl))).seq ?_ ?_
  · rintro _ e ⟨x, -, hx⟩
    cases hx
  rintro _ declared ⟨_, rfl, hx⟩
  obtain rfl := Except.ok.inj hx
  have hdeclared := hbefore.append (a := [⟨.queueDeclare name (declareOptions config.durable)
    (deferredQueueArgs config ttl), declared⟩]) (by simp [Op.settles, Op.publishes, Unpublished])
  refine (ensures_orAmqp declared).seq ?_ ?_
  · rintro _ e ⟨rfl, -⟩
    exact ⟨by simpa using hdeclared.unsettled, by simp⟩
  rintro _ _ ⟨rfl, -⟩
  refine (ensures_orFail (publisher.bytes e)).seq ?_ ?_
  · rintro _ e ⟨rfl, -⟩
    exact ⟨by simpa using hdeclared.unsettled, by simp⟩
  rintro _ payload ⟨rfl, hpayload⟩
  refine (publishConfirmed_spec _ payload (propsFor e)).mono fun after r h => ?_
  have hconfirmed := fun hok => (h.2 hok).prepend hdeclared
  have hunsettled := hdeclared.unsettled.append h.1
  simp only [List.append_assoc, List.nil_append] at hconfirmed hunsettled ⊢
  exact ⟨hunsettled, fun hok => ⟨payload, hpayload.symm, hconfirmed hok⟩⟩

theorem publishHeld_spec (publisher : Publisher V) (e : Envelope V) (delay : Duration)
    (hold : Hold) :
    (publisher.publishHeld e delay hold).run.Ensures fun events r =>
      ∃ config rest, events = ⟨.configFor e.queue, config⟩ :: rest ∧
        (Refused publisher config e delay hold → rest = [] ∧ ∃ err, r = .error err) ∧
        Unsettled rest ∧ (r = .ok () → Held publisher e delay hold events) := by
  refine (ensures_ask (.configFor e.queue)).seq ?_ ?_
  · rintro _ e ⟨x, -, hx⟩
    cases hx
  rintro _ config ⟨_, rfl, hx⟩
  obtain rfl := Except.ok.inj hx
  refine (ensures_orFail (publisher.holdQueue config e delay hold)).seq ?_ ?_
  · rintro _ err ⟨rfl, -⟩
    exact ⟨config, [], rfl, fun _ => ⟨rfl, err, rfl⟩, by simp [Unsettled], by simp⟩
  rintro _ ⟨known, ttl, name⟩ ⟨rfl, hfound⟩
  obtain ⟨-, httl, -⟩ := holdQueue_ok hfound.symm
  have hallowed : ¬ Refused publisher config e delay hold := fun h => by
    obtain ⟨err, herr⟩ := holdQueue_refused h
    rw [← hfound] at herr
    cases herr
  refine (declareAndPublish_spec publisher e known ttl name).mono fun rest r h => ?_
  refine ⟨config, rest, rfl, fun h => absurd h hallowed, h.1, fun hok => ?_⟩
  obtain ⟨payload, hpayload, hconfirmed⟩ := h.2 hok
  have hlookup : Unpublished [⟨.configFor e.queue, config⟩] := by
    simp [Unpublished, Op.settles, Op.publishes]
  exact ⟨ttl, payload, httl, hpayload, hconfirmed.prepend hlookup⟩

/-- The successor of the settled delivery, published and confirmed by a bare `Ack`. -/
def Succeeded (delivery : RabbitMqDelivery V) : Settle V → Trace → Prop
  | .ack, _ => False
  | .deadLetter reason, events => delivery.publisher.options.declareDeadLetterQueues = true ∧
    ∃ payload, delivery.publisher.bytes delivery.envelope = .ok payload ∧
      Confirmed (delivery.publisher.deadQueue delivery.envelope.queue) payload
        (deadLetterProps delivery.envelope reason) events
  | .retry next delay, events => Held delivery.publisher next delay .retry events
  | .defer next delay, events => Held delivery.publisher next delay .deferral events

/-- The waits a settle operation asks for. -/
def Settle.wait? : Settle V → Option (Envelope V × Duration × Hold)
  | retry next delay => some (next, delay, .retry)
  | defer next delay => some (next, delay, .deferral)
  | _ => none

/-- What a settle operation may do and return. -/
structure PublishesBeforeAck (delivery : RabbitMqDelivery V) (op : Settle V) (events : Trace)
    (r : Except Failure Unit) : Prop where
  ackedAfterSuccessor : ∀ before answer after, events = before ++ ⟨.ack, answer⟩ :: after →
    after = [] ∧ (op = .ack ∧ before = [] ∨ Succeeded delivery op before)
  failsUnsettled : Unsettled events → ∃ e, r = .error e
  settlesOnce : Unsettled events ∨ ∃ before last, events = before ++ [last] ∧ Unsettled before
  refusedUntouched : ∀ next delay hold, op.wait? = some (next, delay, hold) →
    ∃ config rest, events = ⟨.configFor next.queue, config⟩ :: rest ∧
      (Refused delivery.publisher config next delay hold → rest = [] ∧ ∃ e, r = .error e)
  rejectsOnlyDisabled : ∀ requeue answer, ⟨.reject requeue, answer⟩ ∈ events →
    requeue = false ∧ delivery.publisher.options.declareDeadLetterQueues = false ∧
    ∃ reason, op = .deadLetter reason
  disabledRejects : ∀ reason, op = .deadLetter reason →
    delivery.publisher.options.declareDeadLetterQueues = false →
    ∃ answer, events = [⟨.reject false, answer⟩]
  okIff : r = .ok () ↔ ∃ before, events = before ++ [⟨.ack, .ok true⟩] ∨
    events = before ++ [⟨.reject false, .ok true⟩]

variable {delivery : RabbitMqDelivery V} {op : Settle V}

theorem settled_spec (delivery : RabbitMqDelivery V) (answer : Except LapinError Bool)
    (operation : String) :
    (ExceptT.run (orAmqp answer >>= fun b => delivery.settled b operation)).Ensures fun events r =>
      events = [] ∧ (r = .ok () ↔ answer = .ok true) := by
  refine (ensures_orAmqp answer).seq ?_ ?_
  · rintro _ e ⟨rfl, he⟩
    refine ⟨rfl, by simp, ?_⟩
    rintro rfl
    cases he
  rintro _ settled ⟨rfl, hsettled⟩
  obtain rfl := mapError_ok hsettled
  cases settled with
  | false => exact ⟨rfl, by simp, by simp⟩
  | true => exact ⟨rfl, by simp⟩

theorem ackOriginal_spec (delivery : RabbitMqDelivery V) :
    delivery.ackOriginal.run.Ensures fun events r =>
      ∃ answer, events = [⟨.ack, answer⟩] ∧ (r = .ok () ↔ answer = .ok true) := by
  refine (ensures_ask .ack).seq ?_ ?_
  · rintro _ e ⟨x, -, hx⟩
    cases hx
  rintro _ answer ⟨_, rfl, hx⟩
  obtain rfl := Except.ok.inj hx
  refine (settled_spec delivery answer "ack").mono ?_
  rintro _ r ⟨rfl, hr⟩
  exact ⟨answer, rfl, hr⟩

theorem rejectOriginal_spec (delivery : RabbitMqDelivery V) :
    delivery.rejectOriginal.run.Ensures fun events r =>
      ∃ answer, events = [⟨.reject false, answer⟩] ∧ (r = .ok () ↔ answer = .ok true) := by
  refine (ensures_ask (.reject false)).seq ?_ ?_
  · rintro _ e ⟨x, -, hx⟩
    cases hx
  rintro _ answer ⟨_, rfl, hx⟩
  obtain rfl := Except.ok.inj hx
  refine (settled_spec delivery answer "reject").mono ?_
  rintro _ r ⟨rfl, hr⟩
  exact ⟨answer, rfl, hr⟩

theorem Unsettled.last {before rest after : Trace} {last : Interaction.Event Op Ans} {x : Ans .ack}
    (h : Unsettled rest) (heq : rest ++ [last] = before ++ ⟨.ack, x⟩ :: after) :
    after = [] ∧ before = rest ∧ last = ⟨.ack, x⟩ := by
  rcases List.eq_nil_or_concat after with rfl | ⟨after, e, rfl⟩
  · obtain ⟨hrest, hlast⟩ := List.append_inj' heq rfl
    exact ⟨rfl, hrest.symm, List.head_eq_of_cons_eq hlast⟩
  · rw [List.concat_eq_append, ← List.cons_append, ← List.append_assoc] at heq
    have hrest := (List.append_inj' heq rfl).1
    have := h ⟨.ack, x⟩ (by rw [hrest]; simp)
    cases this

/-- The run stopped before the original was settled. -/
theorem PublishesBeforeAck.failed {events : Trace} {r : Except Failure Unit}
    (quiet : Unsettled events) (error : ∃ e, r = .error e)
    (refused : ∀ next delay hold, op.wait? = some (next, delay, hold) →
      ∃ config rest, events = ⟨.configFor next.queue, config⟩ :: rest ∧
        (Refused delivery.publisher config next delay hold → rest = []))
    (enabled : ∀ reason, op = .deadLetter reason →
      delivery.publisher.options.declareDeadLetterQueues = true) :
    PublishesBeforeAck delivery op events r where
  ackedAfterSuccessor before answer after heq := by
    have := quiet ⟨.ack, answer⟩ (by rw [heq]; simp)
    cases this
  failsUnsettled _ := error
  settlesOnce := .inl quiet
  refusedUntouched next delay hold hw := by
    obtain ⟨config, rest, heq, hrest⟩ := refused next delay hold hw
    exact ⟨config, rest, heq, fun h => ⟨hrest h, error⟩⟩
  rejectsOnlyDisabled requeue answer he := by
    have := quiet _ he
    cases this
  disabledRejects reason hop hdisabled := by
    rw [enabled reason hop] at hdisabled
    cases hdisabled
  okIff := by
    obtain ⟨e, rfl⟩ := error
    refine ⟨by simp, ?_⟩
    rintro ⟨before, rfl | rfl⟩
    · have := quiet ⟨.ack, .ok true⟩ (by simp)
      cases this
    · have := quiet ⟨.reject false, .ok true⟩ (by simp)
      cases this

/-- The successor was confirmed and the original acked, or it was a plain ack. -/
theorem PublishesBeforeAck.acked {l : Trace} {r : Except Failure Unit}
    {answer : Except LapinError Bool} (quiet : Unsettled l)
    (succeeded : op = .ack ∧ l = [] ∨ Succeeded delivery op l)
    (ok : r = .ok () ↔ answer = .ok true)
    (wait : ∀ next delay hold, op.wait? = some (next, delay, hold) →
      ∃ config events, l = ⟨.configFor next.queue, config⟩ :: events ∧
        ¬ Refused delivery.publisher config next delay hold)
    (enabled : ∀ reason, op = .deadLetter reason →
      delivery.publisher.options.declareDeadLetterQueues = true) :
    PublishesBeforeAck delivery op (l ++ [⟨.ack, answer⟩]) r where
  ackedAfterSuccessor before x after heq := by
    obtain ⟨hafter, rfl, -⟩ := quiet.last heq
    exact ⟨hafter, succeeded⟩
  failsUnsettled h := by
    have := h ⟨.ack, answer⟩ (by simp)
    cases this
  settlesOnce := .inr ⟨l, _, rfl, quiet⟩
  refusedUntouched next delay hold hw := by
    obtain ⟨config, events, rfl, hallowed⟩ := wait next delay hold hw
    exact ⟨config, events ++ [⟨.ack, answer⟩], rfl, fun h => absurd h hallowed⟩
  rejectsOnlyDisabled requeue x he := by
    rcases List.mem_append.mp he with he | he
    · have := quiet _ he
      cases this
    · simp at he
  disabledRejects reason hop hdisabled := by
    rw [enabled reason hop] at hdisabled
    cases hdisabled
  okIff := by
    rw [ok]
    constructor
    · rintro rfl
      exact ⟨l, .inl rfl⟩
    · rintro ⟨before, heq | heq⟩
      · simpa using (List.append_inj' heq rfl).2
      · simpa using (List.append_inj' heq rfl).2

theorem publishDeadLetter_spec (publisher : Publisher V) (e : Envelope V) (reason : String) :
    (publisher.publishDeadLetter e reason).run.Ensures fun events r =>
      Unsettled events ∧ (r = .ok () → ∃ payload, publisher.bytes e = .ok payload ∧
        Confirmed (publisher.deadQueue e.queue) payload (deadLetterProps e reason) events) := by
  refine (ensures_orFail (publisher.bytes e)).seq ?_ ?_
  · rintro _ err ⟨rfl, -⟩
    exact ⟨by simp [Unsettled], by simp⟩
  rintro _ payload ⟨rfl, hpayload⟩
  refine (publishConfirmed_spec _ payload (deadLetterProps e reason)).mono fun events r h => ?_
  exact ⟨h.1, fun hok => ⟨payload, hpayload.symm, h.2 hok⟩⟩

/-- A held successor first, then the ack: the shared shape of `retry` and `defer`. -/
theorem heldThenAck_spec (delivery : RabbitMqDelivery V) {next : Envelope V} {delay : Duration}
    {hold : Hold} (hwait : op.wait? = some (next, delay, hold))
    (hsucceeded : ∀ events, Held delivery.publisher next delay hold events →
      Succeeded delivery op events) :
    (ExceptT.run (do
      delivery.publisher.publishHeld next delay hold
      delivery.ackOriginal)).Ensures (PublishesBeforeAck delivery op) := by
  have henabled : ∀ reason, op = .deadLetter reason →
      delivery.publisher.options.declareDeadLetterQueues = true := by
    rintro reason rfl
    cases hwait
  refine (publishHeld_spec delivery.publisher next delay hold).seq ?_ ?_
  · rintro _ e ⟨config, rest, rfl, hrefused, hquiet, -⟩
    refine .failed ?_ ⟨e, rfl⟩ ?_ henabled
    · exact Unsettled.append (b := [_]) (by simp [Unsettled, Op.settles]) hquiet
    · intro next' delay' hold' hw
      cases hwait.symm.trans hw
      exact ⟨config, rest, rfl, fun h => (hrefused h).1⟩
  · rintro _ u ⟨config, rest, rfl, hrefused, hquiet, hheld⟩
    refine (ackOriginal_spec delivery).mono ?_
    rintro _ r ⟨answer, rfl, hok⟩
    refine .acked ?_ (.inr (hsucceeded _ (hheld rfl))) hok ?_ henabled
    · exact Unsettled.append (b := [_]) (by simp [Unsettled, Op.settles]) hquiet
    · intro next' delay' hold' hw
      cases hwait.symm.trans hw
      refine ⟨config, rest, rfl, fun h => ?_⟩
      obtain ⟨err, herr⟩ := (hrefused h).2
      cases herr

theorem settle_spec (delivery : RabbitMqDelivery V) (op : Settle V) :
    (delivery.settle op).run.Ensures (PublishesBeforeAck delivery op) := by
  cases op with
  | ack =>
    refine (ackOriginal_spec delivery).mono ?_
    rintro _ r ⟨answer, rfl, hok⟩
    exact .acked (l := []) (by simp [Unsettled]) (.inl ⟨rfl, rfl⟩) hok
      (by simp [Settle.wait?]) (by simp)
  | deadLetter reason =>
    simp only [RabbitMqDelivery.settle]
    split
    · rename_i henabled
      refine (publishDeadLetter_spec delivery.publisher delivery.envelope reason).seq ?_ ?_
      · rintro events e ⟨hquiet, -⟩
        exact .failed hquiet ⟨e, rfl⟩ (by simp [Settle.wait?]) fun _ _ => henabled
      · rintro events u ⟨hquiet, hpublished⟩
        refine (ackOriginal_spec delivery).mono ?_
        rintro _ r ⟨answer, rfl, hok⟩
        exact .acked hquiet (.inr ⟨henabled, hpublished rfl⟩) hok (by simp [Settle.wait?])
          fun _ _ => henabled
    · rename_i hdisabled
      refine (rejectOriginal_spec delivery).mono ?_
      rintro _ r ⟨answer, rfl, hok⟩
      refine ⟨?_, ?_, .inr ⟨[], _, rfl, by simp [Unsettled]⟩, by simp [Settle.wait?], ?_, ?_, ?_⟩
      · intro before x after heq
        have := congrArg (List.map Sigma.fst) heq
        cases before <;> simp at this
      · intro h
        have := h ⟨.reject false, answer⟩ (by simp)
        cases this
      · intro requeue x hx
        have hsame : Op.reject requeue = .reject false := by
          have := congrArg Sigma.fst (List.mem_singleton.mp hx)
          exact this
        exact ⟨by injection hsame, by simpa using hdisabled, reason, rfl⟩
      · exact fun _ _ _ => ⟨answer, rfl⟩
      · rw [hok]
        constructor
        · rintro rfl
          exact ⟨[], .inr rfl⟩
        · rintro ⟨before, heq | heq⟩
          · have := congrArg (List.map Sigma.fst) heq
            cases before <;> simp at this
          · simpa using (List.append_inj' ((List.nil_append _).trans heq) rfl).2
  | retry next delay => exact heldThenAck_spec delivery rfl fun _ h => h
  | defer next delay => exact heldThenAck_spec delivery rfl fun _ h => h

end Queuey.Rabbit
