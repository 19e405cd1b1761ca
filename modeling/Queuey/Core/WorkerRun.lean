import Queuey.Core.Queue
import Queuey.Library.Transition

/-!
# The worker's run

`Worker::run`, its consumer tasks and the `process` tasks it spawns, as one transition
system. Every await and every critical operation is a step of its own. Deliveries are
numbered in the order they are taken off the streams; consumers by the queue they serve.
-/
namespace Queuey.WorkerRun
open Transition

variable {B : Type}

/-- A message to the dispatch loop. -/
inductive ConsumerEvent (B : Type) where
  | delivery (d : ℕ)
  | failed (e : Error B)
  | ended (queue : String)

def ConsumerEvent.delivery? : ConsumerEvent B → Option ℕ
  | delivery d => some d
  | _ => none

/-- What the stream yields: a delivery, an error, or its end. -/
inductive Item (B : Type) where
  | delivery
  | failed (e : Error B)
  | ended

/-- Where a consumer task stands in `consume_into`. -/
inductive Consumer (B : Type) where
  | unborn
  | checking
  | selecting
  | sending (event : ConsumerEvent B)
  | sendingEnded
  | finished

/-- The task still has its sender. -/
def Consumer.alive : Consumer B → Bool
  | unborn | finished => false
  | _ => true

inductive Task where
  | unborn
  | running
  | finished
deriving DecidableEq

/-- Where `run` stands. The phases of the draining loop mirror those of the dispatch loop. -/
inductive Phase (B : Type) where
  | starting (i : ℕ)
  | checking
  | acquiring
  | receiving
  | handling (event : ConsumerEvent B)
  | stopping
  | drainAcquiring
  | drainReceiving
  | drainHandling (event : ConsumerEvent B)
  | joiningConsumers
  | joiningTasks
  | closing
  | returned

structure State (B : Type) where
  queues : List QueueConfig
  closeBackend : Bool
  phase : Phase B
  outcome : Except (Error B) Unit
  channel : List (ConsumerEvent B)
  consumers : ℕ → Consumer B
  /-- The consumers have been told to stop. -/
  stop : Bool
  /-- How often `shutdown` was called, and how much of it `run` has seen. -/
  signals : ℕ
  seen : ℕ
  permits : ℕ
  tasks : ℕ → Task
  inFlight : List ℕ
  /-- The deliveries passed to `process`. -/
  processed : List ℕ
  /-- How many deliveries were taken off the streams. -/
  next : ℕ

inductive Action (B : Type) where
  | shutdown
  | consume (failed : Option (Error B))
  | started
  | check
  | notice
  | acquire
  | receive
  | handle
  | stopConsumers
  | joinConsumers
  | joinTasks
  | close (failed : Option (Error B))
  | finish (d : ℕ)
  | checkStop (q : ℕ)
  | noticeStop (q : ℕ)
  | pull (q : ℕ) (item : Item B)
  | send (q : ℕ)
  | sendEnded (q : ℕ)

namespace State

/-- `mpsc::channel(queues.len().max(1))`. -/
def capacity (s : State B) : ℕ := max s.queues.length 1

/-- Some consumer task still has a sender; `run` drops its own before the loops. -/
def senders (s : State B) : Bool := (List.range s.queues.length).any fun q => (s.consumers q).alive

def queueName (s : State B) (q : ℕ) : String := (s.queues[q]?.map QueueConfig.name).getD ""

def setConsumer (s : State B) (q : ℕ) (consumer : Consumer B) : State B :=
  { s with consumers := Function.update s.consumers q consumer }

/-- An error while draining is reported only if nothing went wrong before. -/
def fail (s : State B) (e : Error B) : State B :=
  match s.outcome with
  | .ok () => { s with outcome := .error e }
  | .error _ => s

/-- The delivery gets its task, which keeps the permit; finished tasks are reaped. -/
def spawn (s : State B) (d : ℕ) : State B :=
  { s with
    tasks := Function.update s.tasks d .running
    inFlight := d :: s.inFlight.filter fun d => s.tasks d ≠ .finished
    processed := s.processed ++ [d] }

end State

/-- `backend.consume` for the next queue; a failure ends the start-up. -/
def stepConsume (s : State B) (failed : Option (Error B)) : Option (State B) :=
  match s.phase with
  | .starting i =>
    if i < s.queues.length then
      match failed with
      | none => some { s.setConsumer i .checking with phase := .starting (i + 1) }
      | some e =>
        some { s with outcome := .error e, phase := .checking, seen := s.signals }
    else none
  | _ => none

def stepStarted (s : State B) : Option (State B) :=
  match s.phase with
  | .starting i =>
    if i = s.queues.length then some { s with phase := .checking, seen := s.signals } else none
  | _ => none

/-- The top of the dispatch loop. -/
def stepCheck (s : State B) : Option (State B) :=
  match s.phase, s.outcome with
  | .checking, .error _ => some { s with phase := .stopping }
  | .checking, .ok () =>
    if 0 < s.signals then some { s with phase := .stopping, seen := s.signals }
    else some { s with phase := .acquiring, seen := s.signals }
  | _, _ => none

/-- `shutdown.changed()` wins a select. -/
def stepNotice (s : State B) : Option (State B) :=
  if s.seen < s.signals then
    match s.phase with
    | .acquiring => some { s with phase := .stopping, seen := s.signals }
    | .receiving =>
      some { s with phase := .stopping, seen := s.signals, permits := s.permits + 1 }
    | _ => none
  else none

/-- A permit is acquired. The signal may have come after it was polled in the same select. -/
def stepAcquire (s : State B) : Option (State B) :=
  if 0 < s.permits then
    match s.phase with
    | .acquiring => some { s with phase := .receiving, permits := s.permits - 1 }
    | .drainAcquiring => some { s with phase := .drainReceiving, permits := s.permits - 1 }
    | _ => none
  else none

/-- `rx.recv()`: an event, or `None` once every sender is gone and the channel is empty. -/
def stepReceive (s : State B) : Option (State B) :=
  match s.phase, s.channel with
  | .receiving, event :: rest => some { s with phase := .handling event, channel := rest }
  | .drainReceiving, event :: rest => some { s with phase := .drainHandling event, channel := rest }
  | .receiving, [] =>
    if s.senders then none else some { s with phase := .stopping, permits := s.permits + 1 }
  | .drainReceiving, [] =>
    if s.senders then none else some { s with phase := .joiningConsumers, permits := s.permits + 1 }
  | _, _ => none

def stepHandle (s : State B) : Option (State B) :=
  match s.phase with
  | .handling (.delivery d) => some { s.spawn d with phase := .checking }
  | .handling (.failed e) =>
    some { s with phase := .checking, outcome := .error e, permits := s.permits + 1 }
  | .handling (.ended queue) =>
    some { s with
      phase := .checking, outcome := .error (.consumerStopped queue), permits := s.permits + 1 }
  | .drainHandling (.delivery d) => some { s.spawn d with phase := .drainAcquiring }
  | .drainHandling (.failed e) =>
    some { s.fail e with phase := .drainAcquiring, permits := s.permits + 1 }
  | .drainHandling (.ended _) => some { s with phase := .drainAcquiring, permits := s.permits + 1 }
  | _ => none

def stepStopConsumers (s : State B) : Option (State B) :=
  match s.phase with
  | .stopping => some { s with phase := .drainAcquiring, stop := true }
  | _ => none

def stepJoinConsumers (s : State B) : Option (State B) :=
  match s.phase with
  | .joiningConsumers => if s.senders then none else some { s with phase := .joiningTasks }
  | _ => none

def stepJoinTasks (s : State B) : Option (State B) :=
  match s.phase with
  | .joiningTasks =>
    if ∀ d ∈ s.inFlight, s.tasks d = .finished then some { s with phase := .closing, inFlight := [] }
    else none
  | _ => none

def stepClose (s : State B) (failed : Option (Error B)) : Option (State B) :=
  match s.phase with
  | .closing =>
    match s.closeBackend, failed with
    | true, some e => some { s.fail e with phase := .returned }
    | _, _ => some { s with phase := .returned }
  | _ => none

/-- A `process` task ends, in whatever way, and its permit is dropped. -/
def stepFinish (s : State B) (d : ℕ) : Option (State B) :=
  if s.tasks d = .running then
    some { s with tasks := Function.update s.tasks d .finished, permits := s.permits + 1 }
  else none

def stepCheckStop (s : State B) (q : ℕ) : Option (State B) :=
  match s.consumers q with
  | .checking => some (s.setConsumer q (if s.stop then .finished else .selecting))
  | _ => none

def stepNoticeStop (s : State B) (q : ℕ) : Option (State B) :=
  match s.consumers q with
  | .selecting => if s.stop then some (s.setConsumer q .finished) else none
  | _ => none

/-- The stream yields. The stop may have come after it was polled in the same select. -/
def stepPull (s : State B) (q : ℕ) (item : Item B) : Option (State B) :=
  match s.consumers q, item with
  | .selecting, .delivery =>
    some { s.setConsumer q (.sending (.delivery s.next)) with next := s.next + 1 }
  | .selecting, .failed e => some (s.setConsumer q (.sending (.failed e)))
  | .selecting, .ended => some (s.setConsumer q .sendingEnded)
  | _, _ => none

/-- The bounded channel takes the event when there is room. A send fails once `run` has
dropped the receiver, and what was to be sent is lost. -/
def stepSend (s : State B) (q : ℕ) : Option (State B) :=
  match s.consumers q, s.phase with
  | .sending _, .returned => some (s.setConsumer q .finished)
  | .sending event, _ =>
    if s.channel.length < s.capacity then
      some { s.setConsumer q .checking with channel := s.channel ++ [event] }
    else none
  | _, _ => none

def stepSendEnded (s : State B) (q : ℕ) : Option (State B) :=
  match s.consumers q, s.phase with
  | .sendingEnded, .returned => some (s.setConsumer q .finished)
  | .sendingEnded, _ =>
    if s.channel.length < s.capacity then
      some { s.setConsumer q .finished with channel := s.channel ++ [.ended (s.queueName q)] }
    else none
  | _, _ => none

def step (s : State B) : Action B → Option (State B)
  | .shutdown => some { s with signals := s.signals + 1 }
  | .consume failed => stepConsume s failed
  | .started => stepStarted s
  | .check => stepCheck s
  | .notice => stepNotice s
  | .acquire => stepAcquire s
  | .receive => stepReceive s
  | .handle => stepHandle s
  | .stopConsumers => stepStopConsumers s
  | .joinConsumers => stepJoinConsumers s
  | .joinTasks => stepJoinTasks s
  | .close failed => stepClose s failed
  | .finish d => stepFinish s d
  | .checkStop q => stepCheckStop s q
  | .noticeStop q => stepNoticeStop s q
  | .pull q item => stepPull s q item
  | .send q => stepSend s q
  | .sendEnded q => stepSendEnded s q

/-- `run` called on a worker, perhaps after `shutdown`. `build` keeps `concurrency` positive. -/
def initial (queues : List QueueConfig) (concurrency : ℕ) (closeBackend : Bool) (signals : ℕ) :
    State B where
  queues := queues
  closeBackend := closeBackend
  phase := .starting 0
  outcome := .ok ()
  channel := []
  consumers := fun _ => .unborn
  stop := false
  signals := signals
  seen := 0
  permits := concurrency
  tasks := fun _ => .unborn
  inFlight := []
  processed := []
  next := 0

def system (B : Type) : System (State B) (Action B) where
  start s := ∃ queues concurrency closeBackend signals,
    1 ≤ concurrency ∧ s = initial queues concurrency closeBackend signals
  step := step

end Queuey.WorkerRun
