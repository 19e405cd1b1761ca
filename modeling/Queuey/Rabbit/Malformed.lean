import Queuey.Core.Wire
import Queuey.Rabbit.PublishBeforeAck

/-!
# Bodies that are not envelopes

`delivery_stream` yields the envelopes that it can decode. Every other body is disposed of
between two items: copied to the dead-letter queue and acked, or else rejected. The items do
not show it, and it is settled at most once.
-/
namespace Queuey.Rabbit.DeliveryStream
open Interaction Prog Codec

variable {V : Type}

/-- What `recover` comes to. -/
inductive Recovered where
  | resubscribed
  | stop
  | failed (error : Failure)

/-- What `consumer.next()` answers: a message, or that the consumer has stopped, here with
what `recover` then comes to. -/
inductive Next where
  | message (body : Bytes)
  | stopped (recovered : Recovered)

inductive Item (V : Type) where
  | delivery (delivery : RabbitMqDelivery V)
  | failed (error : Failure)
  | ended

/-- `Publisher::publish_malformed`: the body as it came. -/
def publishMalformed (publisher : Publisher V) (queue : String) (payload : Bytes)
    (reason : String) : Io Unit :=
  publishConfirmed (publisher.deadQueue queue) payload (malformedProps queue reason)

/-- The second stage of `discard_malformed`. Every answer is only logged. -/
def rejectMalformed : Prog Op Ans Unit := do
  let _ ← (perform (Op.reject false) : Prog Op Ans (Except LapinError Bool))
  return ()

def discardMalformed (publisher : Publisher V) (queue : String) (body : Bytes) :
    Prog Op Ans Unit := do
  if publisher.options.declareDeadLetterQueues then
    match ← (publishMalformed publisher queue body reasonMalformed).run with
    | .ok () =>
      match ← (perform Op.ack : Prog Op Ans (Except LapinError Bool)) with
      | .ok true => return ()
      | .ok false => return ()
      | .error _ => rejectMalformed
    | .error _ => rejectMalformed
  else rejectMalformed

section Stream
variable (serde : Serde V) (publisher : Publisher V) (config : QueueConfig)

/-- One poll of the stream, over the answers of its consumers; `none` while it waits for
another one. -/
def poll : List Next → Prog Op Ans (Option (Item V) × List Next)
  | [] => pure (none, [])
  | .message body :: rest =>
    match Envelope.fromBytes serde body with
    | .ok envelope => pure (some (.delivery ⟨envelope, publisher⟩), rest)
    | .error _ => do
      discardMalformed publisher config.name body
      poll rest
  | .stopped .resubscribed :: rest => poll rest
  | .stopped .stop :: rest => pure (some .ended, rest)
  | .stopped (.failed error) :: rest => pure (some (.failed error), rest)

/-- The items of `n` polls, or of fewer if the stream ends or waits, with the answers that
are left. -/
def deliveryStream : ℕ → List Next → Prog Op Ans (List (Item V) × List Next)
  | 0, source => pure ([], source)
  | n + 1, source => do
    match ← poll serde publisher config source with
    | (none, rest) => pure ([], rest)
    | (some .ended, rest) => pure ([.ended], rest)
    | (some item, rest) => do
      let (items, left) ← deliveryStream n rest
      pure (item :: items, left)

/-- The item an answer makes: nothing is made of a body that does not decode. -/
def itemOf : Next → Option (Item V)
  | .message body =>
    match Envelope.fromBytes serde body with
    | .ok envelope => some (.delivery ⟨envelope, publisher⟩)
    | .error _ => none
  | .stopped .resubscribed => none
  | .stopped .stop => some .ended
  | .stopped (.failed error) => some (.failed error)

def malformed : Next → Option Bytes
  | .message body =>
    match Envelope.fromBytes serde body with
    | .ok _ => none
    | .error _ => some body
  | .stopped _ => none

end Stream

/-! ## One body -/

/-- The copy of a body on its dead-letter queue is durably stored. -/
def Copied (publisher : Publisher V) (queue : String) (body : Bytes) (events : Trace) : Prop :=
  publisher.options.declareDeadLetterQueues = true ∧ Unsettled events ∧
    Confirmed (publisher.deadQueue queue) body (malformedProps queue reasonMalformed) events

/-- The ways a body is disposed of. -/
inductive Disposal (publisher : Publisher V) (queue : String) (body : Bytes) : Trace → Prop where
  | acked (before : Trace) (settled : Bool) (copied : Copied publisher queue body before) :
      Disposal publisher queue body (before ++ [⟨.ack, .ok settled⟩])
  | ackFailed (before : Trace) (error : LapinError) (answer : Except LapinError Bool)
      (copied : Copied publisher queue body before) :
      Disposal publisher queue body (before ++ [⟨.ack, .error error⟩, ⟨.reject false, answer⟩])
  | rejected (before : Trace) (answer : Except LapinError Bool) (unsettled : Unsettled before)
      (disabled : publisher.options.declareDeadLetterQueues = false → before = []) :
      Disposal publisher queue body (before ++ [⟨.reject false, answer⟩])

variable {publisher : Publisher V} {queue : String} {body : Bytes}

theorem rejectMalformed_spec :
    rejectMalformed.Ensures fun events _ => ∃ answer, events = [⟨.reject false, answer⟩] :=
  ensures_bind.mpr fun answer => ⟨answer, rfl⟩

theorem discardMalformed_disposal (publisher : Publisher V) (queue : String) (body : Bytes) :
    (discardMalformed publisher queue body).Ensures fun events _ =>
      Disposal publisher queue body events := by
  unfold discardMalformed
  split
  · rename_i henabled
    refine ensures_bind.mpr ((publishConfirmed_spec _ body _).mono ?_)
    rintro before r ⟨hunsettled, hconfirmed⟩
    cases r with
    | error e =>
      refine rejectMalformed_spec.mono fun _ _ hreject => ?_
      obtain ⟨answer, rfl⟩ := hreject
      refine .rejected before answer hunsettled fun hdisabled => ?_
      rw [henabled] at hdisabled
      cases hdisabled
    | ok _ =>
      have hcopied : Copied publisher queue body before :=
        ⟨henabled, hunsettled, hconfirmed rfl⟩
      refine ensures_bind.mpr (ensures_perform.mpr fun acked => ?_)
      match acked with
      | .ok true | .ok false => exact .acked before _ hcopied
      | .error e =>
        refine rejectMalformed_spec.mono fun _ _ hreject => ?_
        obtain ⟨answer, rfl⟩ := hreject
        exact .ackFailed before e answer hcopied
  · refine rejectMalformed_spec.mono fun _ _ hreject => ?_
    obtain ⟨answer, rfl⟩ := hreject
    exact .rejected [] answer (by simp [Unsettled]) fun _ => rfl

/-- The event settles the message. -/
def settlesMessage : Interaction.Event Op Ans → Bool
  | ⟨.ack, .ok settled⟩ | ⟨.reject _, .ok settled⟩ => settled
  | _ => false

/-- How a body that is not an envelope leaves its queue, whatever is answered. -/
structure Disposed (publisher : Publisher V) (queue : String) (body : Bytes) (events : Trace) :
    Prop where
  ackedAfterCopy : ∀ before answer after, events = before ++ ⟨.ack, answer⟩ :: after →
    Copied publisher queue body before
  /-- Also after an ack that errors. -/
  otherwiseRejected : (∀ settled, ⟨.ack, .ok settled⟩ ∉ events) →
    ∃ answer, ⟨.reject false, answer⟩ ∈ events
  rejects : ∀ requeue answer, ⟨.reject requeue, answer⟩ ∈ events →
    requeue = false ∧ ∀ settled, ⟨.ack, .ok settled⟩ ∉ events
  disabled : publisher.options.declareDeadLetterQueues = false →
    ∃ answer, events = [⟨.reject false, answer⟩]
  once : events.countP settlesMessage ≤ 1
  unsettled : (∀ event ∈ events, settlesMessage event = false) →
    ⟨.ack, .ok false⟩ ∈ events ∨ ⟨.reject false, .ok false⟩ ∈ events ∨
      ∃ error, ⟨.reject false, .error error⟩ ∈ events

section Unsettled
variable {before tail b after : Trace} {event : Interaction.Event Op Ans}

theorem mem_tail (h : Unsettled before) (hevent : event.1.settles = true) :
    event ∈ before ++ tail ↔ event ∈ tail := by
  rw [List.mem_append, or_iff_right]
  intro hmem
  rw [h event hmem] at hevent
  cases hevent

theorem countP_tail (h : Unsettled before) :
    (before ++ tail).countP settlesMessage = tail.countP settlesMessage := by
  have hzero : before.countP settlesMessage = 0 := by
    rw [List.countP_eq_zero]
    rintro ⟨op, answer⟩ hmem
    have hop := h _ hmem
    cases op with
    | ack | reject => cases hop
    | _ => simp [settlesMessage]
  rw [List.countP_append, hzero, Nat.zero_add]

/-- An ack that only the first settling event can be comes right behind the others. -/
theorem ack_first {x : Ans .ack} (h : Unsettled before) (htail : ∀ y, ⟨.ack, y⟩ ∉ tail)
    (heq : before ++ event :: tail = b ++ ⟨.ack, x⟩ :: after) : b = before ∧ event = ⟨.ack, x⟩ := by
  rcases List.append_eq_append_iff.mp heq with ⟨between, hb, hsplit⟩ | ⟨rest, hbefore, hrest⟩
  · cases between with
    | nil => exact ⟨by simpa using hb, (List.cons.inj hsplit).1⟩
    | cons e between =>
      rw [(List.cons.inj hsplit).2] at htail
      exact absurd (by simp) (htail x)
  · cases rest with
    | nil => exact ⟨by simpa using hbefore.symm, (List.cons.inj hrest).1.symm⟩
    | cons e rest =>
      obtain ⟨rfl, -⟩ := List.cons.inj hrest
      have hack := h ⟨.ack, x⟩ (by simp [hbefore])
      cases hack

end Unsettled

/-- What ends in the reject, behind at most an ack that errored. -/
theorem Disposed.of_reject {before : Trace} (failed : Trace) {answer : Except LapinError Bool}
    (hbefore : Unsettled before) (hfailed : ∀ event ∈ failed, ∃ error, event = ⟨.ack, .error error⟩)
    (hcopied : ∀ b x after, before ++ (failed ++ [⟨.reject false, answer⟩]) =
      b ++ ⟨.ack, x⟩ :: after → Copied publisher queue body b)
    (hdisabled : publisher.options.declareDeadLetterQueues = false → before = [] ∧ failed = []) :
    Disposed publisher queue body (before ++ (failed ++ [⟨.reject false, answer⟩])) where
  ackedAfterCopy := hcopied
  otherwiseRejected _ := ⟨answer, by simp⟩
  rejects requeue x hmem := by
    constructor
    · rw [mem_tail hbefore rfl, List.mem_append] at hmem
      rcases hmem with hmem | hmem
      · obtain ⟨error, herror⟩ := hfailed _ hmem
        cases herror
      · cases List.mem_singleton.mp hmem
        rfl
    · intro settled hack
      rw [mem_tail hbefore rfl, List.mem_append] at hack
      rcases hack with hack | hack
      · obtain ⟨error, herror⟩ := hfailed _ hack
        cases herror
      · cases List.mem_singleton.mp hack
  disabled hoff := by
    obtain ⟨rfl, rfl⟩ := hdisabled hoff
    exact ⟨answer, rfl⟩
  once := by
    have hzero : failed.countP settlesMessage = 0 := by
      rw [List.countP_eq_zero]
      intro event hevent
      obtain ⟨error, rfl⟩ := hfailed event hevent
      simp [settlesMessage]
    rw [countP_tail hbefore, List.countP_append, hzero, Nat.zero_add]
    exact List.countP_le_length
  unsettled hnone := by
    have hanswer := hnone ⟨.reject false, answer⟩ (by simp)
    cases answer with
    | ok settled =>
      obtain rfl : settled = false := hanswer
      exact .inr (.inl (by simp))
    | error error => exact .inr (.inr ⟨error, by simp⟩)

theorem Disposal.disposed {events : Trace} (h : Disposal publisher queue body events) :
    Disposed publisher queue body events := by
  cases h with
  | acked before settled copied =>
    have hbefore := copied.2.1
    constructor
    · intro b answer after heq
      rw [(ack_first hbefore (by simp) heq).1]
      exact copied
    · intro hnone
      exact absurd (by simp) (hnone settled)
    · intro requeue answer hmem
      rw [mem_tail hbefore rfl] at hmem
      cases List.mem_singleton.mp hmem
    · intro hdisabled
      rw [copied.1] at hdisabled
      cases hdisabled
    · rw [countP_tail hbefore]
      exact List.countP_le_length
    · intro hnone
      obtain rfl : settled = false := hnone ⟨.ack, .ok settled⟩ (by simp)
      exact .inl (by simp)
  | ackFailed before error answer copied =>
    have hbefore := copied.2.1
    refine Disposed.of_reject [⟨.ack, .error error⟩] hbefore (by simp) ?_ ?_
    · intro b x after heq
      rw [(ack_first hbefore (by simp) heq).1]
      exact copied
    · intro hdisabled
      rw [copied.1] at hdisabled
      cases hdisabled
  | rejected before answer hbefore hdisabled =>
    refine Disposed.of_reject [] hbefore (by simp) ?_ fun hoff => ⟨hdisabled hoff, rfl⟩
    intro b x after heq
    cases (ack_first hbefore (by simp) heq).2

/-! ## The stream -/

/-- The bodies are disposed of one after the other. -/
inductive DisposedEach (publisher : Publisher V) (queue : String) : List Bytes → Trace → Prop where
  | nil : DisposedEach publisher queue [] []
  | cons {body : Bytes} {events : Trace} {bodies : List Bytes} {later : Trace} :
      Disposed publisher queue body events → DisposedEach publisher queue bodies later →
      DisposedEach publisher queue (body :: bodies) (events ++ later)

theorem DisposedEach.append {bodies more : List Bytes} {events later : Trace}
    (h : DisposedEach publisher queue bodies events) (k : DisposedEach publisher queue more later) :
    DisposedEach publisher queue (bodies ++ more) (events ++ later) := by
  induction h with
  | nil => exact k
  | cons hbody _ ih =>
    rw [List.append_assoc]
    exact .cons hbody ih

/-- The answers that are used up make exactly these items, and what does not decode among
them was disposed of by these events. -/
def Consumed (serde : Serde V) (publisher : Publisher V) (queue : String) (source : List Next)
    (events : Trace) (items : List (Item V)) (left : List Next) : Prop :=
  ∃ consumed, source = consumed ++ left ∧
    items = consumed.filterMap (itemOf serde publisher) ∧
    DisposedEach publisher queue (consumed.filterMap (malformed serde)) events

variable {serde : Serde V} {config : QueueConfig} {next : Next} {source rest left : List Next}
  {events later : Trace} {items more : List (Item V)}

theorem Consumed.none (source : List Next) : Consumed serde publisher queue source [] [] source :=
  ⟨[], rfl, rfl, .nil⟩

theorem Consumed.trans (h : Consumed serde publisher queue source events items rest)
    (k : Consumed serde publisher queue rest later more left) :
    Consumed serde publisher queue source (events ++ later) (items ++ more) left := by
  obtain ⟨consumed, rfl, rfl, hdisposed⟩ := h
  obtain ⟨further, rfl, rfl, hfurther⟩ := k
  refine ⟨consumed ++ further, by rw [List.append_assoc], by rw [List.filterMap_append], ?_⟩
  rw [List.filterMap_append]
  exact hdisposed.append hfurther

/-- An answer with nothing to dispose of makes its item at once. -/
theorem Consumed.one {item : Option (Item V)} (hmalformed : malformed serde next = Option.none)
    (hitem : itemOf serde publisher next = item) :
    Consumed serde publisher queue (next :: rest) [] item.toList rest := by
  refine ⟨[next], rfl, ?_, ?_⟩
  · cases item <;> simp [hitem]
  · rw [List.filterMap_cons_none hmalformed]
    exact .nil

theorem Consumed.discarded {error : SerdeError}
    (hbody : Envelope.fromBytes serde body = .error error)
    (h : Disposed publisher queue body events) :
    Consumed serde publisher queue (.message body :: rest) events [] rest := by
  refine ⟨[.message body], rfl, ?_, ?_⟩
  · simp [itemOf, hbody]
  · have hmalformed : malformed serde (.message body) = some body := by simp [malformed, hbody]
    rw [List.filterMap_cons_some hmalformed, ← List.append_nil events]
    exact .cons h .nil

theorem poll_spec (source : List Next) :
    (poll serde publisher config source).Ensures fun events outcome =>
      Consumed serde publisher config.name source events outcome.1.toList outcome.2 ∧
        (outcome.1 = none → outcome.2 = []) := by
  induction source with
  | nil => exact ⟨.none [], fun _ => rfl⟩
  | cons next rest ih =>
    match next with
    | .message body =>
      unfold poll
      split
      · rename_i envelope hbody
        exact ⟨.one (by simp [malformed, hbody]) (by simp [itemOf, hbody]), nofun⟩
      · rename_i error hbody
        -- nothing of the discarded body is left but its events
        refine ensures_bind.mpr ((discardMalformed_disposal ..).mono fun _ _ hdisposal => ?_)
        refine ih.mono fun later outcome ⟨hrest, hnone⟩ => ?_
        exact ⟨(Consumed.discarded hbody hdisposal.disposed).trans hrest, hnone⟩
    | .stopped .resubscribed =>
      refine ih.mono fun later outcome ⟨hrest, hnone⟩ => ⟨?_, hnone⟩
      have hone : Consumed serde publisher config.name (.stopped .resubscribed :: rest) []
          (none : Option (Item V)).toList rest := .one rfl rfl
      exact hone.trans hrest
    | .stopped .stop => exact ⟨.one rfl rfl, nofun⟩
    | .stopped (.failed error) => exact ⟨.one rfl rfl, nofun⟩

/-- What the stream comes to over the answers of its consumers. -/
structure Streamed (serde : Serde V) (publisher : Publisher V) (config : QueueConfig) (n : ℕ)
    (source : List Next) (events : Trace) (outcome : List (Item V) × List Next) : Prop where
  consumed : Consumed serde publisher config.name source events outcome.1 outcome.2
  /-- It stops short of `n` items only where it ends or waits. -/
  going : outcome.1.length = n ∨ outcome.2 = [] ∨ .ended ∈ outcome.1

/-- Whatever is answered, the items are what the answers make, and every body that does not
decode is copied and acked, or rejected, and leaves no item. -/
theorem deliveryStream_skips_malformed (serde : Serde V) (publisher : Publisher V)
    (config : QueueConfig) (n : ℕ) (source : List Next) :
    (deliveryStream serde publisher config n source).Ensures
      (Streamed serde publisher config n source) := by
  induction n generalizing source with
  | zero => exact ⟨.none source, .inl rfl⟩
  | succ n ih =>
    refine ensures_bind.mpr ((poll_spec source).mono ?_)
    rintro events ⟨item, rest⟩ ⟨hitem, hnone⟩
    match item with
    | none =>
      refine ⟨?_, .inr (.inl (hnone rfl))⟩
      simpa using hitem
    | some .ended =>
      refine ⟨?_, .inr (.inr (List.mem_singleton_self _))⟩
      simpa using hitem
    | some (.delivery _) | some (.failed _) =>
      refine ensures_bind.mpr ((ih rest).mono ?_)
      rintro later ⟨more, left⟩ ⟨hmore, hgoing⟩
      refine ⟨?_, ?_⟩
      · simpa using hitem.trans hmore
      · rcases hgoing with hlength | hleft | hended
        · exact .inl (congrArg (· + 1) hlength)
        · exact .inr (.inl hleft)
        · exact .inr (.inr (List.mem_cons_of_mem _ hended))

end Queuey.Rabbit.DeliveryStream
