import Queuey.Library.Transition
import Queuey.Rabbit.Lapin

/-!
# The pool of confirm channels

`publish_confirmed` calls, the pool they lease channels from, the broker's answers and
the pool's `close`, as one transition system. Calls, channels and closers are numbered.
A channel keeps the delivery tags that are still unanswered, named by their call, and
the returned messages that no answer has picked up yet: the client attaches the oldest
of those to whichever tag resolves next. Dropping the confirm future withdraws no tag.
-/
namespace Queuey.Rabbit.ConfirmPool
open Transition

/-- How a call ended: with a result, or dropped at an await point. -/
inductive Outcome where
  | returned (result : Except Failure Unit)
  | cancelled

/-- Where a `publish_confirmed` call stands. Every phase from `permitted` to `releasing`
holds one permit. -/
inductive Phase where
  | idle
  | waiting
  | permitted
  | opening
  | leased (c : ℕ)
  | sending (c : ℕ)
  | confirming (c : ℕ)
  | returning (c : ℕ) (outcome : Outcome)
  | releasing (outcome : Outcome)
  | done (outcome : Outcome)

/-- The channel a phase holds, by lease or while the lease is being dropped. -/
def Phase.channel? : Phase → Option ℕ
  | leased c | sending c | confirming c | returning c _ => some c
  | _ => none

/-- How a call in this phase has ended or is about to end. -/
def Phase.outcome? : Phase → Option Outcome
  | returning _ outcome | releasing outcome | done outcome => some outcome
  | _ => none

structure Channel where
  connected : Bool
  pending : List ℕ
  returned : List BasicReturnMessage

/-- A `ConfirmChannels::close` call; `took` says whether it holds all the permits. -/
inductive Closer where
  | idle
  | waiting
  | locked (took : Bool)
  | drained (took : Bool)
  | closing (took : Bool) (rest : List ℕ) (result : Except Failure Unit)
  | done (result : Except Failure Unit)

structure State where
  size : ℕ
  permits : ℕ
  closed : Bool
  idle : List ℕ
  next : ℕ
  channels : ℕ → Channel
  phase : ℕ → Phase
  queue : ℕ → String
  answer : ℕ → Option (Except LapinError Confirmation)
  routed : ℕ → Bool
  unroutable : ℕ → Bool
  closer : ℕ → Closer

inductive Action where
  | call (k : ℕ) (queue : String)
  | acquire (k : ℕ)
  | pop (k : ℕ)
  | opened (k : ℕ) (result : Except Failure Unit)
  | publish (k : ℕ) (refused : Option LapinError)
  | sent (k : ℕ) (failed : Option LapinError)
  | confirm (k : ℕ)
  | pushBack (k : ℕ)
  | release (k : ℕ)
  | cancel (k : ℕ)
  | route (c k : ℕ)
  | giveBack (c k : ℕ) (replyCode : UInt16) (replyText : String)
  | resolve (c k : ℕ) (acked : Bool)
  | die (c : ℕ) (error : LapinError)
  | close (j : ℕ)
  | takePermits (j : ℕ)
  | closePermits (j : ℕ)
  | takeIdle (j : ℕ)
  | closeChannel (j : ℕ) (result : Except LapinError Unit)
  | closeDone (j : ℕ)

def State.setPhase (s : State) (k : ℕ) (phase : Phase) : State :=
  { s with phase := Function.update s.phase k phase }

def State.setChannel (s : State) (c : ℕ) (channel : Channel) : State :=
  { s with channels := Function.update s.channels c channel }

def State.setCloser (s : State) (j : ℕ) (closer : Closer) : State :=
  { s with closer := Function.update s.closer j closer }

/-- A channel goes down: every unanswered tag on it fails with the channel's error. -/
def State.disconnect (s : State) (c : ℕ) (error : LapinError) : State :=
  { s.setChannel c { s.channels c with connected := false, pending := [] } with
    answer := fun k =>
      if k ∈ (s.channels c).pending then some (.error error) else s.answer k }

/-- The confirmation a resolving tag gets: the oldest returned message goes with it. -/
def Channel.confirmation (channel : Channel) (acked : Bool) : Confirmation :=
  if acked then .ack channel.returned.head? else .nack channel.returned.head?

def stepCall (s : State) (k : ℕ) (queue : String) : Option State :=
  match s.phase k with
  | .idle =>
    -- `short_string` is checked before the pool is touched
    match shortString queue with
    | .ok _ =>
      some { s.setPhase k .waiting with queue := Function.update s.queue k queue }
    | .error e => some (s.setPhase k (.done (.returned (.error e))))
  | _ => none

def stepAcquire (s : State) (k : ℕ) : Option State :=
  match s.phase k with
  | .waiting =>
    if s.closed then
      some (s.setPhase k (.done (.returned (.error RabbitMqError.closed.intoCore))))
    else if 0 < s.permits then some { s.setPhase k .permitted with permits := s.permits - 1 }
    else none
  | _ => none

/-- Pop the idle channel used last. A dead one is dropped and replaced. -/
def stepPop (s : State) (k : ℕ) : Option State :=
  match s.phase k with
  | .permitted =>
    match s.idle with
    | [] => some (s.setPhase k .opening)
    | c :: rest =>
      if (s.channels c).connected then some { s.setPhase k (.leased c) with idle := rest }
      else some { s.setPhase k .opening with idle := rest }
  | _ => none

/-- `ensure_connected` and `open_confirm_channel`, which gives a channel of its own. -/
def stepOpened (s : State) (k : ℕ) (result : Except Failure Unit) : Option State :=
  match s.phase k with
  | .opening =>
    match result with
    | .ok () =>
      some { (s.setPhase k (.leased s.next)).setChannel s.next ⟨true, [], []⟩ with
        next := s.next + 1 }
    | .error e => some (s.setPhase k (.releasing (.returned (.error e))))
  | _ => none

/-- `basic_publish` registers the delivery tag unless the channel refuses it. -/
def stepPublish (s : State) (k : ℕ) (refused : Option LapinError) : Option State :=
  match s.phase k with
  | .leased c =>
    match refused with
    | some e => some (s.setPhase k (.returning c (.returned (.error (amqp e)))))
    | none =>
      if (s.channels c).connected then
        some ((s.setPhase k (.sending c)).setChannel c
          { s.channels c with pending := (s.channels c).pending ++ [k] })
      else none
  | _ => none

/-- Writing the frames succeeds, or fails with the channel already down. -/
def stepSent (s : State) (k : ℕ) (failed : Option LapinError) : Option State :=
  match s.phase k with
  | .sending c =>
    match failed with
    | none => some (s.setPhase k (.confirming c))
    | some e =>
      if (s.channels c).connected then none
      else some (s.setPhase k (.returning c (.returned (.error (amqp e)))))
  | _ => none

/-- The confirm future is ready; its answer decides the result, the lease drops next. -/
def stepConfirm (s : State) (k : ℕ) : Option State :=
  match s.phase k, s.answer k with
  | .confirming c, some (.ok confirmation) =>
    some (s.setPhase k
      (.returning c (.returned (confirmationToResult confirmation (s.queue k)))))
  | .confirming c, some (.error e) =>
    some (s.setPhase k (.returning c (.returned (.error (amqp e)))))
  | _, _ => none

/-- `ChannelLease::drop`: the channel goes back dead or alive, on every path. -/
def stepPushBack (s : State) (k : ℕ) : Option State :=
  match s.phase k with
  | .returning c outcome =>
    some { s.setPhase k (.releasing outcome) with idle := c :: s.idle }
  | _ => none

def stepRelease (s : State) (k : ℕ) : Option State :=
  match s.phase k with
  | .releasing outcome =>
    some { s.setPhase k (.done outcome) with permits := s.permits + 1 }
  | _ => none

/-- The future is dropped at one of its await points. -/
def stepCancel (s : State) (k : ℕ) : Option State :=
  match s.phase k with
  | .waiting => some (s.setPhase k (.done .cancelled))
  | .opening => some (s.setPhase k (.releasing .cancelled))
  | .sending c | .confirming c => some (s.setPhase k (.returning c .cancelled))
  | _ => none

/-- The broker puts the message of an unanswered tag into a queue. -/
def stepRoute (s : State) (c k : ℕ) : Option State :=
  if k ∈ (s.channels c).pending ∧ s.unroutable k = false then
    some { s with routed := Function.update s.routed k true }
  else none

/-- The broker hands the message back: `basic.return`, before any answer to its tag. -/
def stepGiveBack (s : State) (c k : ℕ) (replyCode : UInt16) (replyText : String) :
    Option State :=
  if k ∈ (s.channels c).pending ∧ s.routed k = false ∧ s.unroutable k = false then
    some { s.setChannel c { s.channels c with
        returned := (s.channels c).returned ++ [⟨replyCode, replyText, k⟩] } with
      unroutable := Function.update s.unroutable k true }
  else none

/-- The broker answers a tag. It acks a message only after routing or returning it. -/
def stepResolve (s : State) (c k : ℕ) (acked : Bool) : Option State :=
  if (s.channels c).connected ∧ k ∈ (s.channels c).pending ∧
      (acked → s.routed k ∨ s.unroutable k) then
    some { s.setChannel c { s.channels c with
        pending := (s.channels c).pending.erase k
        returned := (s.channels c).returned.tail } with
      answer := Function.update s.answer k (some (.ok ((s.channels c).confirmation acked))) }
  else none

def stepTakePermits (s : State) (j : ℕ) : Option State :=
  match s.closer j with
  | .waiting =>
    if s.closed then some (s.setCloser j (.locked false))
    else if s.size ≤ s.permits then
      some { s.setCloser j (.locked true) with permits := s.permits - s.size }
    else none
  | _ => none

def stepCloseChannel (s : State) (j : ℕ) (result : Except LapinError Unit) : Option State :=
  match s.closer j with
  | .closing took (c :: rest) first =>
    if (s.channels c).connected then
      match result with
      | .ok () =>
        some ((s.disconnect c (.invalidChannelState .closed)).setCloser j
          (.closing took rest first))
      | .error e =>
        let closed := if isBenignCloseError e then .ok () else .error (amqp e)
        some (s.setCloser j (.closing took rest (first.bind fun _ => closed)))
    else some (s.setCloser j (.closing took rest first))
  | _ => none

def stepCloseDone (s : State) (j : ℕ) : Option State :=
  match s.closer j with
  | .closing took [] result =>
    some { s.setCloser j (.done result) with
      permits := s.permits + if took then s.size else 0 }
  | _ => none

def step (s : State) : Action → Option State
  | .call k queue => stepCall s k queue
  | .acquire k => stepAcquire s k
  | .pop k => stepPop s k
  | .opened k result => stepOpened s k result
  | .publish k refused => stepPublish s k refused
  | .sent k failed => stepSent s k failed
  | .confirm k => stepConfirm s k
  | .pushBack k => stepPushBack s k
  | .release k => stepRelease s k
  | .cancel k => stepCancel s k
  | .route c k => stepRoute s c k
  | .giveBack c k replyCode replyText => stepGiveBack s c k replyCode replyText
  | .resolve c k acked => stepResolve s c k acked
  | .die c error => if (s.channels c).connected then some (s.disconnect c error) else none
  | .close j =>
    match s.closer j with
    | .idle => some (s.setCloser j .waiting)
    | _ => none
  | .takePermits j => stepTakePermits s j
  | .closePermits j =>
    match s.closer j with
    | .locked took => some { s.setCloser j (.drained took) with closed := true }
    | _ => none
  | .takeIdle j =>
    match s.closer j with
    | .drained took => some { s.setCloser j (.closing took s.idle (.ok ())) with idle := [] }
    | _ => none
  | .closeChannel j result => stepCloseChannel s j result
  | .closeDone j => stepCloseDone s j

/-- A pool of `size` permits, seeded with one open channel, before any call. -/
def seeded (size : ℕ) : State where
  size := size
  permits := size
  closed := false
  idle := [0]
  next := 1
  channels := fun c => ⟨c == 0, [], []⟩
  phase := fun _ => .idle
  queue := fun _ => ""
  answer := fun _ => none
  routed := fun _ => false
  unroutable := fun _ => false
  closer := fun _ => .idle

/-- `pool_size`: the configured concurrency as a permit count, at least one. -/
def poolSize (publishConcurrency : ℕ) : ℕ := max (min publishConcurrency (2 ^ 32 - 1)) 1

def system : System State Action where
  start s := ∃ publishConcurrency, s = seeded (poolSize publishConcurrency)
  step := step

/-! ## What each step needs and does -/

variable {s t : State} {k j c : ℕ}

theorem call_cases {queue : String} (hs : stepCall s k queue = some t) : s.phase k = .idle ∧
    (t = { s.setPhase k .waiting with queue := Function.update s.queue k queue } ∨
      ∃ e, t = s.setPhase k (.done (.returned (.error e)))) := by
  grind [stepCall]

theorem acquire_cases (hs : stepAcquire s k = some t) : s.phase k = .waiting ∧
    (s.closed = true ∧
        t = s.setPhase k (.done (.returned (.error RabbitMqError.closed.intoCore))) ∨
      s.closed = false ∧ 0 < s.permits ∧
        t = { s.setPhase k .permitted with permits := s.permits - 1 }) := by
  grind [stepAcquire]

theorem pop_cases (hs : stepPop s k = some t) : s.phase k = .permitted ∧
    (s.idle = [] ∧ t = s.setPhase k .opening ∨
      ∃ c rest, s.idle = c :: rest ∧
        ((s.channels c).connected = true ∧ t = { s.setPhase k (.leased c) with idle := rest } ∨
          (s.channels c).connected = false ∧ t = { s.setPhase k .opening with idle := rest })) := by
  grind [stepPop]

theorem opened_cases {result : Except Failure Unit} (hs : stepOpened s k result = some t) :
    s.phase k = .opening ∧
      (t = { (s.setPhase k (.leased s.next)).setChannel s.next ⟨true, [], []⟩ with
          next := s.next + 1 } ∨
        ∃ e, t = s.setPhase k (.releasing (.returned (.error e)))) := by
  unfold stepOpened at hs
  split at hs
  · next hk =>
    refine ⟨hk, ?_⟩
    split at hs
    · exact .inl (Option.some.inj hs).symm
    · exact .inr ⟨_, (Option.some.inj hs).symm⟩
  · cases hs

theorem publish_cases {refused : Option LapinError} (hs : stepPublish s k refused = some t) :
    ∃ c, s.phase k = .leased c ∧
      ((∃ e, t = s.setPhase k (.returning c (.returned (.error (amqp e))))) ∨
        (s.channels c).connected = true ∧ t = (s.setPhase k (.sending c)).setChannel c
          { s.channels c with pending := (s.channels c).pending ++ [k] }) := by
  grind [stepPublish]

theorem sent_cases {failed : Option LapinError} (hs : stepSent s k failed = some t) :
    ∃ c, s.phase k = .sending c ∧ (t = s.setPhase k (.confirming c) ∨
      (s.channels c).connected = false ∧
        ∃ e, t = s.setPhase k (.returning c (.returned (.error (amqp e))))) := by
  grind [stepSent]

theorem confirm_cases (hs : stepConfirm s k = some t) : ∃ c, s.phase k = .confirming c ∧
    ((∃ confirmation, s.answer k = some (.ok confirmation) ∧ t = s.setPhase k
        (.returning c (.returned (confirmationToResult confirmation (s.queue k))))) ∨
      ∃ e, s.answer k = some (.error e) ∧
        t = s.setPhase k (.returning c (.returned (.error (amqp e))))) := by
  grind [stepConfirm]

theorem pushBack_cases (hs : stepPushBack s k = some t) : ∃ c outcome,
    s.phase k = .returning c outcome ∧
      t = { s.setPhase k (.releasing outcome) with idle := c :: s.idle } := by
  grind [stepPushBack]

theorem release_cases (hs : stepRelease s k = some t) : ∃ outcome,
    s.phase k = .releasing outcome ∧
      t = { s.setPhase k (.done outcome) with permits := s.permits + 1 } := by
  grind [stepRelease]

theorem cancel_cases (hs : stepCancel s k = some t) :
    s.phase k = .waiting ∧ t = s.setPhase k (.done .cancelled) ∨
      s.phase k = .opening ∧ t = s.setPhase k (.releasing .cancelled) ∨
      ∃ c, (s.phase k = .sending c ∨ s.phase k = .confirming c) ∧
        t = s.setPhase k (.returning c .cancelled) := by
  grind [stepCancel]

theorem route_cases (hs : stepRoute s c k = some t) : k ∈ (s.channels c).pending ∧
    s.unroutable k = false ∧ t = { s with routed := Function.update s.routed k true } := by
  grind [stepRoute]

theorem giveBack_cases {replyCode : UInt16} {replyText : String}
    (hs : stepGiveBack s c k replyCode replyText = some t) : k ∈ (s.channels c).pending ∧
      s.routed k = false ∧ s.unroutable k = false ∧
        t = { s.setChannel c { s.channels c with
            returned := (s.channels c).returned ++ [⟨replyCode, replyText, k⟩] } with
          unroutable := Function.update s.unroutable k true } := by
  grind [stepGiveBack]

theorem resolve_cases {acked : Bool} (hs : stepResolve s c k acked = some t) :
    (s.channels c).connected = true ∧ k ∈ (s.channels c).pending ∧
      (acked = true → s.routed k = true ∨ s.unroutable k = true) ∧
        t = { s.setChannel c { s.channels c with
            pending := (s.channels c).pending.erase k
            returned := (s.channels c).returned.tail } with
          answer := Function.update s.answer k
            (some (.ok ((s.channels c).confirmation acked))) } := by
  grind [stepResolve]

section Inline
attribute [local grind] step

theorem die_cases {error : LapinError} (hs : step s (.die c error) = some t) :
    t = s.disconnect c error := by
  grind

theorem close_cases (hs : step s (.close j) = some t) :
    s.closer j = .idle ∧ t = s.setCloser j .waiting := by
  grind

theorem takePermits_cases (hs : stepTakePermits s j = some t) : s.closer j = .waiting ∧
    (s.closed = true ∧ t = s.setCloser j (.locked false) ∨
      s.closed = false ∧ s.size ≤ s.permits ∧
        t = { s.setCloser j (.locked true) with permits := s.permits - s.size }) := by
  grind [stepTakePermits]

theorem closePermits_cases (hs : step s (.closePermits j) = some t) : ∃ took,
    s.closer j = .locked took ∧ t = { s.setCloser j (.drained took) with closed := true } := by
  grind

theorem takeIdle_cases (hs : step s (.takeIdle j) = some t) : ∃ took,
    s.closer j = .drained took ∧
      t = { s.setCloser j (.closing took s.idle (.ok ())) with idle := [] } := by
  grind

end Inline

theorem closeChannel_cases {result : Except LapinError Unit}
    (hs : stepCloseChannel s j result = some t) : ∃ took c rest first after,
    s.closer j = .closing took (c :: rest) first ∧
      (t = s.setCloser j (.closing took rest after) ∨
        t = (s.disconnect c (.invalidChannelState .closed)).setCloser j
          (.closing took rest after)) := by
  grind [stepCloseChannel]

theorem closeDone_cases (hs : stepCloseDone s j = some t) : ∃ took result,
    s.closer j = .closing took [] result ∧
      t = { s.setCloser j (.done result) with
        permits := s.permits + if took then s.size else 0 } := by
  grind [stepCloseDone]

end Queuey.Rabbit.ConfirmPool
