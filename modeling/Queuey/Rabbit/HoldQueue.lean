import Queuey.Library.Transition
import Queuey.Rabbit.PublishBeforeAck

/-!
# The life of a hold queue

Any number of `publish_held` calls run against one broker and one clock. Each call is the
publisher's own program; the broker answers its declarations and takes its messages. A
hold queue is deleted, with what it still holds, `x-expires` after its last declaration,
and a held message goes to the main queue `x-message-ttl` after it was accepted. Time is
in nanoseconds.
-/
namespace Queuey.Rabbit.HoldQueues
open Transition Interaction Rabbit.Topology

def nanosPerMs : ℕ := 1000000

/-- An argument the broker reads as a number of milliseconds. -/
def argMs (args : FieldTable) (key : String) : Option ℕ :=
  match args.lookup key with
  | some (.longLongInt value) => some value.toNat
  | _ => none

structure HoldQueue where
  options : QueueDeclareOptions
  args : FieldTable
  declaredAt : ℕ

namespace HoldQueue

/-- When the queue is deleted, unless it is declared again before. -/
def expiry (q : HoldQueue) : Option ℕ :=
  (argMs q.args argExpires).map fun ms => q.declaredAt + ms * nanosPerMs

/-- When a message accepted at `acceptedAt` goes to the main queue. -/
def deadline (q : HoldQueue) (acceptedAt : ℕ) : Option ℕ :=
  (argMs q.args argMessageTtl).map fun ms => acceptedAt + ms * nanosPerMs

/-- The queue is gone by time `t`. -/
def gone (q : HoldQueue) (t : ℕ) : Bool :=
  match q.expiry with
  | some x => x ≤ t
  | none => false

/-- The message is released by time `t`, while the queue still exists. -/
def releases (q : HoldQueue) (acceptedAt t : ℕ) : Bool :=
  match q.deadline acceptedAt, q.expiry with
  | some d, some x => d ≤ t && d ≤ x
  | some d, none => d ≤ t
  | none, _ => false

/-- A message accepted at `acceptedAt` expires no later than the queue itself. -/
def Outlives (q : HoldQueue) (acceptedAt : ℕ) : Prop :=
  match q.deadline acceptedAt, q.expiry with
  | some d, some x => d ≤ x
  | some _, none => True
  | none, _ => False

end HoldQueue

/-- What became of a published message. -/
inductive Fate where
  | inFlight (queue : String)
  | returned
  | held (queue : String) (acceptedAt : ℕ)
  | delivered
  | lost
deriving DecidableEq

/-- The broker took the message. -/
def Fate.accepted : Fate → Bool
  | held _ _ | delivered | lost => true
  | _ => false

abbrev Call := Client Op Ans (Except Failure Unit)

structure State where
  now : ℕ
  queues : String → Option HoldQueue
  calls : ℕ → Call
  /-- Messages are numbered in the order they are published. -/
  next : ℕ
  owner : ℕ → ℕ
  sent : ℕ → Option ℕ
  fate : ℕ → Option Fate

/-- `redeclare` is a declaration by anyone else, or one whose answer got lost. -/
inductive Action where
  | answer (k : ℕ) (event : Interaction.Event Op Ans)
  | redeclare (name : String)
  | accept (m : ℕ)
  | tick (nanos : ℕ)

/-- What an answer means to the broker; an impossible answer has no successor. -/
def stepBroker (s : State) (k : ℕ) : Interaction.Event Op Ans → Option State
  | ⟨.queueDeclare name options args, .ok ()⟩ =>
    match s.queues name.value with
    | none =>
      some { s with
        queues := Function.update s.queues name.value (some ⟨options, args, s.now⟩) }
    | some q =>
      -- other flags or arguments are refused; equal ones restart the expiry
      if q.options = options ∧ q.args = args then
        some { s with
          queues := Function.update s.queues name.value (some { q with declaredAt := s.now }) }
      else none
  | ⟨.basicPublish routingKey _ _ _ _, .ok ()⟩ =>
    some { s with
      next := s.next + 1
      owner := Function.update s.owner s.next k
      sent := Function.update s.sent k (some s.next)
      fate := Function.update s.fate s.next (some (.inFlight routingKey.value)) }
  | ⟨.awaitConfirm, .ok (.ack none)⟩ =>
    match (s.sent k).bind s.fate with
    | some fate => if fate.accepted then some s else none
    | none => none
  | _ => some s

def stepAnswer (s : State) (k : ℕ) (event : Interaction.Event Op Ans) : Option State :=
  match (s.calls k).answer event with
  | some call =>
    (stepBroker s k event).map fun t => { t with calls := Function.update t.calls k call }
  | none => none

def stepRedeclare (s : State) (name : String) : Option State :=
  match s.queues name with
  | some q =>
    some { s with queues := Function.update s.queues name (some { q with declaredAt := s.now }) }
  | none => none

/-- A message reaches its hold queue, or is returned when the queue is gone. -/
def stepAccept (s : State) (m : ℕ) : Option State :=
  match s.fate m with
  | some (.inFlight name) =>
    match s.queues name with
    | some _ => some { s with fate := Function.update s.fate m (some (.held name s.now)) }
    | none => some { s with fate := Function.update s.fate m (some .returned) }
  | _ => none

/-- The fate of a message at time `t`, all expiries up to then included. -/
def State.fateAt (s : State) (t : ℕ) : Fate → Fate
  | .held name acceptedAt =>
    match s.queues name with
    | some q =>
      if q.releases acceptedAt t then .delivered
      else if q.gone t then .lost
      else .held name acceptedAt
    | none => .lost
  | fate => fate

def stepTick (s : State) (nanos : ℕ) : State :=
  { s with
    now := s.now + nanos
    queues := fun name => (s.queues name).filter fun q => !q.gone (s.now + nanos)
    fate := fun m => (s.fate m).map (s.fateAt (s.now + nanos)) }

def step (s : State) : Action → Option State
  | .answer k event => stepAnswer s k event
  | .redeclare name => stepRedeclare s name
  | .accept m => stepAccept s m
  | .tick nanos => some (stepTick s nanos)

/-- One `publish_held` call: who calls it, with what. -/
structure Request (V : Type) where
  publisher : Publisher V
  envelope : Envelope V
  delay : Duration
  hold : Hold

def Request.program {V : Type} (r : Request V) : Prog Op Ans (Except Failure Unit) :=
  (r.publisher.publishHeld r.envelope r.delay r.hold).run

def initial {V : Type} (requests : ℕ → Request V) : State where
  now := 0
  queues := fun _ => none
  calls := fun k => .start (requests k).program
  next := 0
  owner := fun _ => 0
  sent := fun _ => none
  fate := fun _ => none

/-- Any calls, from any processes, over an empty broker. -/
def system (V : Type) : System State Action where
  start s := ∃ requests : ℕ → Request V, s = initial requests
  step := step

end Queuey.Rabbit.HoldQueues
