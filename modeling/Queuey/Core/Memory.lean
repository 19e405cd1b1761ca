import Queuey.Core.Envelope
import Queuey.Core.Queue
import Queuey.Library.Transition

/-!
# The in-memory backend

`MemoryBackend` with its callers, timers, consumer tasks and streams, as one transition
system. Every critical section, channel operation and clock reading is a step of its own.
Calls, consumers and timers are numbered by whoever starts them; a timer has the number of
the message it holds.
-/
namespace Queuey.MemoryBackend
open Transition

variable {V : Type}

/-- An envelope in the backend. The number tells equal envelopes apart, `replaces` is the
message whose retry or deferral scheduled this one, and `due` when its delay is over. -/
structure Message (V : Type) where
  id : ℕ
  envelope : Envelope V
  replaces : Option ℕ
  due : ℕ
deriving DecidableEq

inductive AckKind where
  | succeeded
  | retried
  | deferred
deriving DecidableEq

structure QueueState (V : Type) where
  config : QueueConfig
  pending : List (Message V)
  settled : List (Message V × AckKind)
  dead : List (Message V × String)
  /-- The live consumers, by number. -/
  consumers : List ℕ
  held : ℕ
  /-- The version of the watch channel. -/
  signal : ℕ

def QueueState.new (config : QueueConfig) : QueueState V where
  config := config
  pending := []
  settled := []
  dead := []
  consumers := []
  held := 0
  signal := 0

/-- Behind every pending message that is at least as important, ahead of the rest. -/
def insertByPriority (pending : List (Message V)) (m : Message V) : List (Message V) :=
  let position :=
    (pending.reverse.dropWhile fun p => p.envelope.priority < m.envelope.priority).length
  pending.take position ++ m :: pending.drop position

def QueueState.wake (q : QueueState V) : QueueState V := { q with signal := q.signal + 1 }

/-- A delivery handed out: the message and the consumer whose permit it carries. -/
structure MemoryDelivery (V : Type) where
  message : Message V
  consumer : ℕ

/-- What a call is to schedule, and the delivery it settles by it. -/
structure Request (V : Type) where
  /-- `hold` rather than `schedule`. -/
  held : Bool
  envelope : Envelope V
  delay : Duration
  origin : Option (MemoryDelivery V)

/-- The ack a settle operation records once its successor is scheduled. -/
def Request.kind (r : Request V) : AckKind := if r.held then .deferred else .retried

abbrev Result := Except (Error Empty) Unit

/-- Where a call of the backend or of a delivery stands. -/
inductive Call (V : Type) where
  | idle
  | checking (r : Request V)
  | scheduling (r : Request V)
  | counting (r : Request V) (deadline : ℕ)
  | guarding (r : Request V) (deadline : ℕ)
  | recording (r : Request V)
  | acking (d : MemoryDelivery V)
  | burying (d : MemoryDelivery V) (reason : String)
  | returned (r : Option (Request V)) (result : Result)
  | panicked (r : Request V)

/-- What a call has done to the backend. -/
inductive Effect (V : Type) where
  | inserted (m : Message V)
  | slept (m : Message V)
  | counted (queue : String)
  | acked (m : Message V) (kind : AckKind)
  | buried (m : Message V) (reason : String)

/-- A spawned task that waits for its message's delay; `guarded` ones hold a `HoldGuard`. -/
inductive Timer (V : Type) where
  | unborn
  | sleeping (m : Message V) (guarded : Bool)
  | releasing (queue : String)
  | finished

/-- Where a consumer task stands. -/
inductive Task (V : Type) where
  | unborn
  | acquiring
  | popping
  | waiting
  | sending (m : Message V)
  | requeueing (m : Message V)
  | leaving
  | ended

/-- The receiving half: while it is dropped its unread deliveries are collected. -/
inductive Stream (V : Type) where
  | «open»
  | draining (collected : List (Message V))
  | gone

structure Consumer (V : Type) where
  queue : String
  permits : ℕ
  /-- The semaphore is closed. -/
  closed : Bool
  /-- The version of the signal last seen. -/
  seen : ℕ
  task : Task V
  unread : List (Message V)
  /-- Deliveries handed out and not settled. -/
  out : List (Message V)
  stream : Stream V

structure State (V : Type) where
  queues : String → Option (QueueState V)
  closed : Bool
  now : ℕ
  /-- The last instant the clock can represent. -/
  horizon : ℕ
  consumers : ℕ → Consumer V
  timers : ℕ → Timer V
  calls : ℕ → Call V
  /-- Every message that was scheduled, and every insertion, in order. -/
  accepted : List (Message V)
  inserted : List (Message V)
  did : ℕ → List (Effect V)

/-- The settle operations of a delivery. -/
inductive Settle (V : Type) where
  | ack
  | deadLetter (reason : String)
  | retry (next : Envelope V) (delay : Duration)
  | defer (next : Envelope V) (delay : Duration)

inductive Action (V : Type) where
  | tick (elapsed : ℕ)
  | declare (configs : List QueueConfig)
  | publish (k : ℕ) (envelope : Envelope V) (delay : Option Duration)
  | defer (k : ℕ) (envelope : Envelope V) (delay : Duration)
  | settle (k c i : ℕ) (op : Settle V)
  | check (k : ℕ)
  | schedule (k : ℕ)
  | count (k : ℕ)
  | guard (k : ℕ)
  | record (k : ℕ)
  | fire (n : ℕ)
  | abort (n : ℕ)
  | release (n : ℕ)
  | consume (c : ℕ) (config : QueueConfig)
  | acquire (c : ℕ)
  | pop (c : ℕ)
  | notice (c : ℕ)
  | giveUp (c : ℕ)
  | send (c : ℕ)
  | requeue (c : ℕ)
  | leave (c : ℕ)
  | poll (c : ℕ)
  | dropStream (c : ℕ)
  | drain (c : ℕ)
  | giveBack (c : ℕ)
  | dropDelivery (c i : ℕ)
  | close

namespace State

/-- `queue_mut`: a queue that is not declared is created with the default configuration. -/
def queue (s : State V) (name : String) : QueueState V :=
  (s.queues name).getD (.new (.new name))

def setQueue (s : State V) (name : String) (q : QueueState V) : State V :=
  { s with queues := Function.update s.queues name (some q) }

def setConsumer (s : State V) (c : ℕ) (x : Consumer V) : State V :=
  { s with consumers := Function.update s.consumers c x }

def setTask (s : State V) (c : ℕ) (task : Task V) : State V :=
  s.setConsumer c { s.consumers c with task := task }

def setTimer (s : State V) (n : ℕ) (timer : Timer V) : State V :=
  { s with timers := Function.update s.timers n timer }

def setCall (s : State V) (k : ℕ) (call : Call V) : State V :=
  { s with calls := Function.update s.calls k call }

/-- One more thing call `k` has done. -/
def note (s : State V) (k : ℕ) (effect : Effect V) : State V :=
  { s with did := Function.update s.did k (s.did k ++ [effect]) }

/-- `insert_by_priority` and `wake`. -/
def insert (s : State V) (m : Message V) : State V :=
  let q := s.queue m.envelope.queue
  { s.setQueue m.envelope.queue { q with pending := insertByPriority q.pending m }.wake with
    inserted := s.inserted ++ [m] }

/-- `release_hold`. -/
def releaseHold (s : State V) (name : String) : State V :=
  match s.queues name with
  | some q => s.setQueue name { q with held := q.held - 1 }
  | none => s

/-- `enqueue_now`, of a message that leaves its hold if it is guarded. -/
def enqueueNow (s : State V) (m : Message V) (guarded : Bool) : State V :=
  let s := if guarded then s.releaseHold m.envelope.queue else s
  if s.closed then s else s.insert m

/-- The delivery is dropped, and its permit is free again. -/
def dropPermit (s : State V) (d : MemoryDelivery V) : State V :=
  let x := s.consumers d.consumer
  s.setConsumer d.consumer { x with permits := x.permits + 1 }

def dropOrigin (s : State V) (r : Request V) : State V :=
  match r.origin with
  | some d => s.dropPermit d
  | none => s

/-- The message a request becomes when it is scheduled now. -/
def message (s : State V) (r : Request V) : Message V where
  id := s.accepted.length
  envelope := r.envelope
  replaces := r.origin.map fun d => d.message.id
  due := s.now + r.delay.nanos

/-- A scheduled request's call goes on: a settle operation has its ack to record. -/
def scheduled (s : State V) (k : ℕ) (r : Request V) : State V :=
  s.setCall k (if r.origin.isSome then .recording r else .returned (some r) (.ok ()))

/-- The task that waits for the message's delay is spawned. -/
def spawnTimer (s : State V) (k : ℕ) (m : Message V) (guarded : Bool) : State V :=
  { (s.setTimer m.id (.sleeping m guarded)).note k (.slept m) with accepted := s.accepted ++ [m] }

end State

/-- `Semaphore::MAX_PERMITS`. -/
def maxPermits : ℕ := 2 ^ 61 - 1

/-- Time passes, as far as the clock goes. -/
def stepTick (s : State V) (elapsed : ℕ) : Option (State V) :=
  if s.now + elapsed ≤ s.horizon then some { s with now := s.now + elapsed } else none

def declareOne (queues : String → Option (QueueState V)) (config : QueueConfig) :
    String → Option (QueueState V) :=
  match queues config.name with
  | some _ => queues
  | none => Function.update queues config.name (some (.new config))

def stepDeclare (s : State V) (configs : List QueueConfig) : Option (State V) :=
  some (if s.closed then s else { s with queues := configs.foldl declareOne s.queues })

/-- `publish` or `defer` of the backend is called. -/
def stepCall (s : State V) (k : ℕ) (r : Request V) : Option (State V) :=
  match s.calls k with
  | .idle => some (s.setCall k (.checking r))
  | _ => none

def Settle.call (op : Settle V) (d : MemoryDelivery V) : Call V :=
  match op with
  | .ack => .acking d
  | .deadLetter reason => .burying d reason
  | .retry next delay => .checking ⟨false, next, delay, some d⟩
  | .defer next delay => .checking ⟨true, next, delay, some d⟩

/-- The `i`th delivery that consumer `c` handed out is settled. -/
def stepSettle (s : State V) (k c i : ℕ) (op : Settle V) : Option (State V) :=
  match s.calls k, (s.consumers c).out[i]? with
  | .idle, some m =>
    let x := s.consumers c
    some ((s.setConsumer c { x with out := x.out.eraseIdx i }).setCall k (op.call ⟨m, c⟩))
  | _, _ => none

/-- The lock that only looks at the closed flag. -/
def stepCheck (s : State V) (k : ℕ) : Option (State V) :=
  match s.calls k with
  | .checking r =>
    some (if s.closed then (s.dropOrigin r).setCall k (.returned (some r) (.error .shutDown))
      else s.setCall k (.scheduling r))
  | _ => none

/-- `schedule` and the first part of `hold`: a zero delay enqueues, any other one takes its
deadline, and a deadline the clock cannot represent panics. -/
def stepSchedule (s : State V) (k : ℕ) : Option (State V) :=
  match s.calls k with
  | .scheduling r =>
    if r.delay.isZero then
      some (if s.closed then s.scheduled k r
        else (({ s.insert (s.message r) with accepted := s.accepted ++ [s.message r] }).note k
          (.inserted (s.message r))).scheduled k r)
    else if s.now + r.delay.nanos ≤ s.horizon then
      some (if r.held then s.setCall k (.counting r (s.now + r.delay.nanos))
        else (s.spawnTimer k (s.message r) false).scheduled k r)
    else some ((s.dropOrigin r).setCall k (.panicked r))
  | _ => none

/-- `held += 1`. -/
def stepCount (s : State V) (k : ℕ) : Option (State V) :=
  match s.calls k with
  | .counting r deadline =>
    let q := s.queue r.envelope.queue
    some (((s.setQueue r.envelope.queue { q with held := q.held + 1 }).note k
      (.counted r.envelope.queue)).setCall k (.guarding r deadline))
  | _ => none

/-- The guard is created and the timer spawned. -/
def stepGuard (s : State V) (k : ℕ) : Option (State V) :=
  match s.calls k with
  | .guarding r deadline =>
    some ((s.spawnTimer k { s.message r with due := deadline } true).scheduled k r)
  | _ => none

/-- `record_ack`. -/
def State.recordAck (s : State V) (k : ℕ) (m : Message V) (kind : AckKind) : State V :=
  let q := s.queue m.envelope.queue
  (s.setQueue m.envelope.queue { q with settled := q.settled ++ [(m, kind)] }).note k (.acked m kind)

/-- The last critical section of a settle operation, which then drops the delivery. -/
def stepRecord (s : State V) (k : ℕ) : Option (State V) :=
  match s.calls k with
  | .recording r =>
    match r.origin with
    | some d =>
      some (((s.recordAck k d.message r.kind).dropPermit d).setCall k (.returned (some r) (.ok ())))
    | none => none
  | .acking d =>
    some (((s.recordAck k d.message .succeeded).dropPermit d).setCall k (.returned none (.ok ())))
  | .burying d reason =>
    if s.closed then some ((s.dropPermit d).setCall k (.returned none (.error .shutDown)))
    else
      let q := s.queue d.message.envelope.queue
      some ((((s.setQueue d.message.envelope.queue
        { q with dead := q.dead ++ [(d.message, reason)] }).note k
          (.buried d.message reason)).dropPermit d).setCall k (.returned none (.ok ())))
  | _ => none

def stepFire (s : State V) (n : ℕ) : Option (State V) :=
  match s.timers n with
  | .sleeping m guarded =>
    if m.due ≤ s.now then some ((s.enqueueNow m guarded).setTimer n .finished) else none
  | _ => none

/-- The timer's task is aborted: a guard is dropped, which takes the lock again. -/
def stepAbort (s : State V) (n : ℕ) : Option (State V) :=
  match s.timers n with
  | .sleeping m guarded =>
    some (s.setTimer n (if guarded then .releasing m.envelope.queue else .finished))
  | _ => none

def stepRelease (s : State V) (n : ℕ) : Option (State V) :=
  match s.timers n with
  | .releasing name => some ((s.releaseHold name).setTimer n .finished)
  | _ => none

/-- `consume`. On a closed backend the stream is at its end from the start. -/
def stepConsume (s : State V) (c : ℕ) (config : QueueConfig) : Option (State V) :=
  match (s.consumers c).task with
  | .unborn =>
    let x : Consumer V :=
      { queue := config.name
        permits := if config.prefetch = 0 then maxPermits else config.prefetch.toNat
        closed := false
        seen := (s.queue config.name).signal
        task := .acquiring
        unread := []
        out := []
        stream := .open }
    let q := s.queue config.name
    some (if s.closed then s.setConsumer c { x with task := .ended }
      else (s.setQueue config.name { q with consumers := q.consumers ++ [c] }).setConsumer c x)
  | _ => none

/-- A permit is acquired, or the semaphore found closed. -/
def stepAcquire (s : State V) (c : ℕ) : Option (State V) :=
  let x := s.consumers c
  match x.task with
  | .acquiring =>
    if x.closed then some (s.setTask c .leaving)
    else if 0 < x.permits then
      some (s.setConsumer c { x with task := .popping, permits := x.permits - 1 })
    else none
  | _ => none

def stepPop (s : State V) (c : ℕ) : Option (State V) :=
  let x := s.consumers c
  match x.task with
  | .popping =>
    if s.closed then some (s.setConsumer c { x with task := .leaving, permits := x.permits + 1 })
    else
      match s.queues x.queue with
      | some q =>
        match q.pending with
        | m :: rest => some ((s.setQueue x.queue { q with pending := rest }).setTask c (.sending m))
        | [] => some (s.setTask c .waiting)
      | none => some (s.setTask c .waiting)
  | _ => none

/-- `signal.changed()`. -/
def stepNotice (s : State V) (c : ℕ) : Option (State V) :=
  let x := s.consumers c
  match x.task with
  | .waiting =>
    let version := (s.queue x.queue).signal
    if x.seen = version then none
    else some (s.setConsumer c { x with task := .popping, seen := version })
  | _ => none

def Stream.isOpen : Stream V → Bool
  | .open => true
  | _ => false

/-- `tx.closed()` wins a select. -/
def stepGiveUp (s : State V) (c : ℕ) : Option (State V) :=
  let x := s.consumers c
  if x.stream.isOpen then none
  else
    match x.task with
    | .acquiring => some (s.setTask c .leaving)
    | .waiting => some (s.setConsumer c { x with task := .leaving, permits := x.permits + 1 })
    | _ => none

/-- A send fails once the receiver is closed, and the delivery is dropped with its permit. -/
def stepSend (s : State V) (c : ℕ) : Option (State V) :=
  let x := s.consumers c
  match x.task with
  | .sending m =>
    if x.stream.isOpen then
      some (s.setConsumer c { x with task := .acquiring, unread := x.unread ++ [m] })
    else some (s.setConsumer c { x with task := .requeueing m, permits := x.permits + 1 })
  | _ => none

def stepRequeue (s : State V) (c : ℕ) : Option (State V) :=
  let x := s.consumers c
  match x.task with
  | .requeueing m =>
    match s.queues x.queue with
    | some q =>
      some ((s.setQueue x.queue { q with pending := m :: q.pending }.wake).setTask c .leaving)
    | none => some (s.setTask c .leaving)
  | _ => none

/-- The `ConsumerGuard` is dropped, and then the sender. -/
def stepLeave (s : State V) (c : ℕ) : Option (State V) :=
  let x := s.consumers c
  match x.task with
  | .leaving =>
    match s.queues x.queue with
    | some q =>
      some ((s.setQueue x.queue { q with consumers := q.consumers.filter (· ≠ c) }).setTask c .ended)
    | none => some (s.setTask c .ended)
  | _ => none

/-- The stream yields a delivery. -/
def stepPoll (s : State V) (c : ℕ) : Option (State V) :=
  let x := s.consumers c
  match x.stream, x.unread with
  | .open, m :: rest => some (s.setConsumer c { x with unread := rest, out := x.out ++ [m] })
  | _, _ => none

/-- The stream is dropped: the receiver is closed first. -/
def stepDropStream (s : State V) (c : ℕ) : Option (State V) :=
  let x := s.consumers c
  match x.stream with
  | .open => some (s.setConsumer c { x with stream := .draining [] })
  | _ => none

/-- `try_recv`, which drops the delivery and keeps its envelope. -/
def stepDrain (s : State V) (c : ℕ) : Option (State V) :=
  let x := s.consumers c
  match x.stream, x.unread with
  | .draining collected, m :: rest =>
    some (s.setConsumer c
      { x with stream := .draining (collected ++ [m]), unread := rest, permits := x.permits + 1 })
  | _, _ => none

/-- What was collected goes back to the front of the queue, unless there is nothing or the
backend is closed. -/
def stepGiveBack (s : State V) (c : ℕ) : Option (State V) :=
  let x := s.consumers c
  match x.stream, x.unread with
  | .draining collected, [] =>
    let q := s.queue x.queue
    some ((if collected.isEmpty || s.closed then s
      else s.setQueue x.queue { q with pending := collected ++ q.pending }.wake).setConsumer c
        { x with stream := .gone })
  | _, _ => none

def stepDropDelivery (s : State V) (c i : ℕ) : Option (State V) :=
  let x := s.consumers c
  if i < x.out.length then
    some (s.setConsumer c { x with out := x.out.eraseIdx i, permits := x.permits + 1 })
  else none

/-- Every consumer still registered on its queue has its semaphore closed. -/
def stepClose (s : State V) : Option (State V) :=
  some { s with
    closed := true
    consumers := fun c =>
      let x := s.consumers c
      if c ∈ (s.queue x.queue).consumers then { x with closed := true } else x
    queues := fun name => (s.queues name).map fun q => { q with consumers := [] }.wake }

def step (s : State V) : Action V → Option (State V)
  | .tick elapsed => stepTick s elapsed
  | .declare configs => stepDeclare s configs
  | .publish k envelope delay => stepCall s k ⟨false, envelope, delay.getD .zero, none⟩
  | .defer k envelope delay => stepCall s k ⟨true, envelope, delay, none⟩
  | .settle k c i op => stepSettle s k c i op
  | .check k => stepCheck s k
  | .schedule k => stepSchedule s k
  | .count k => stepCount s k
  | .guard k => stepGuard s k
  | .record k => stepRecord s k
  | .fire n => stepFire s n
  | .abort n => stepAbort s n
  | .release n => stepRelease s n
  | .consume c config => stepConsume s c config
  | .acquire c => stepAcquire s c
  | .pop c => stepPop s c
  | .notice c => stepNotice s c
  | .giveUp c => stepGiveUp s c
  | .send c => stepSend s c
  | .requeue c => stepRequeue s c
  | .leave c => stepLeave s c
  | .poll c => stepPoll s c
  | .dropStream c => stepDropStream s c
  | .drain c => stepDrain s c
  | .giveBack c => stepGiveBack s c
  | .dropDelivery c i => stepDropDelivery s c i
  | .close => stepClose s

def Consumer.unborn : Consumer V where
  queue := ""
  permits := 0
  closed := false
  seen := 0
  task := .unborn
  unread := []
  out := []
  stream := .gone

/-- `MemoryBackend::new`, at some reading of the clock. -/
def initial (now horizon : ℕ) : State V where
  queues := fun _ => none
  closed := false
  now := now
  horizon := horizon
  consumers := fun _ => .unborn
  timers := fun _ => .unborn
  calls := fun _ => .idle
  accepted := []
  inserted := []
  did := fun _ => []

def system (V : Type) : System (State V) (Action V) where
  start s := ∃ now horizon, now ≤ horizon ∧ s = initial now horizon
  step := step

end Queuey.MemoryBackend
