import Queuey.Core.ConcurrencyCap
import Queuey.Library.Completion

/-!
# A shutdown comes to its end

Once `shutdown` has been called, whatever the consumers, the loop and the tasks do uses up a
rank, and until `run` has returned there is something for one of them to do. So `run` returns,
if the backend answers and the handlers end.
-/
namespace Queuey.WorkerRun
open Transition Tally

variable {B : Type} {s t : State B} {a : Action B} {c d q : ℕ}

/-! ## What `run` relies on -/

/-- The consumers have been told to stop. -/
def Phase.draining : Phase B → Bool
  | .drainAcquiring | .drainReceiving | .drainHandling _ | .joiningConsumers | .joiningTasks
  | .closing | .returned => true
  | _ => false

/-- `run` waits in a select that also watches for a shutdown. -/
def Phase.watching : Phase B → Bool
  | .acquiring | .receiving => true
  | _ => false

structure Orderly (s : State B) : Prop where
  begun : ∀ i, s.phase = .starting i → i ≤ s.queues.length
  stops : s.phase.draining = true → s.stop = true
  unseen : s.phase.watching = true → s.seen = 0
  room : s.channel.length ≤ s.capacity
  flying : ∀ d ∈ s.inFlight, s.tasks d ≠ .unborn

/-- Steps of `run` after its start. -/
theorem Orderly.frame (h : Orderly s) (queues : t.queues = s.queues)
    (tasks : t.tasks = s.tasks) (inFlight : ∀ d ∈ t.inFlight, d ∈ s.inFlight)
    (begun : ∀ i, t.phase ≠ .starting i) (stops : t.phase.draining = true → t.stop = true)
    (unseen : t.phase.watching = true → t.seen = 0)
    (room : t.channel.length ≤ s.channel.length) : Orderly t where
  begun i hi := absurd hi (begun i)
  stops := stops
  unseen := unseen
  room := by
    unfold State.capacity
    rw [queues]
    exact room.trans h.room
  flying d hd := by
    rw [tasks]
    exact h.flying d (inFlight d hd)

theorem Orderly.spawn {p : Phase B} (h : Orderly s) (begun : ∀ i, p ≠ .starting i)
    (stops : p.draining = true → s.stop = true) (unseen : p.watching = true → s.seen = 0) (d : ℕ) :
    Orderly { s.spawn d with phase := p } where
  begun i hi := absurd hi (begun i)
  stops := stops
  unseen := unseen
  room := h.room
  flying e he := by
    by_cases hed : e = d
    · simp [State.spawn, hed]
    · have hin : e ∈ s.inFlight := by
        simp only [State.spawn, List.mem_cons, hed, false_or, List.mem_filter] at he
        exact he.1
      simpa [State.spawn, hed] using h.flying e hin

/-- A consumer sends when there is room. -/
theorem Orderly.setConsumer {consumer : Consumer B} {channel : List (ConsumerEvent B)} {next : ℕ}
    (h : Orderly s) (room : channel.length ≤ s.capacity) :
    Orderly { s.setConsumer q consumer with channel := channel, next := next } :=
  ⟨h.begun, h.stops, h.unseen, room, h.flying⟩

theorem Orderly.sent {consumer : Consumer B} (h : Orderly s)
    (hroom : s.channel.length < s.capacity) (event : ConsumerEvent B) :
    Orderly { s.setConsumer q consumer with channel := s.channel ++ [event] } :=
  h.setConsumer (by simpa using hroom)

/-- What `run` has yet to do by itself, up to its return. -/
def Phase.rank (queues : ℕ) : Phase B → ℕ
  | .starting i => 8 + 10 * (queues - i)
  | .handling _ => 9
  | .acquiring => 8
  | .checking | .receiving | .drainHandling _ => 7
  | .stopping => 6
  | .drainAcquiring => 5
  | .drainReceiving => 4
  | .joiningConsumers => 3
  | .joiningTasks => 2
  | .closing => 1
  | .returned => 0

/-- What a consumer task has yet to do, for as long as there is no room for more events. -/
def Consumer.rank (draining : Bool) : Consumer B → ℕ
  | .unborn | .finished => 0
  | .checking => if draining then 1 else 9
  | .selecting => if draining then 7 else 8
  | .sending _ => if draining then 6 else 7
  | .sendingEnded => if draining then 5 else 6

/-- The events the channel has room for before the consumers are told to stop. -/
def State.slots (s : State B) : ℕ :=
  if s.phase.draining then 0
  else s.capacity - s.channel.length + s.phase.watching.toNat

/-- An event in the channel is received and handled, and its task ends. -/
noncomputable def State.rank (s : State B) : ℕ :=
  s.phase.rank s.queues.length + 4 * s.channel.length + 7 * s.slots +
    tally (Consumer.rank s.phase.draining) s.consumers + tally taskWeight s.tasks

section Rank
attribute [local simp] Phase.rank Consumer.rank State.slots State.capacity State.setConsumer

theorem Staffed.light (h : Staffed s) (draining : Bool) :
    Light (Consumer.rank draining) s.consumers := by
  refine (Set.finite_lt_nat s.queues.length).subset fun q hq => h.known q fun hu => hq ?_
  show (s.consumers q).rank draining = 0
  rw [hu]
  rfl

section Phases
attribute [local simp] Phase.draining Phase.watching

end Phases

/-- Anything but another `shutdown`. -/
def Action.works : Action B → Bool
  | .shutdown => false
  | _ => true

/-- What is done without a further delivery, if the backend answers and the handlers end. -/
def Action.due : Action B → Bool
  | .shutdown | .pull _ _ => false
  | _ => true

end Rank

end Queuey.WorkerRun
