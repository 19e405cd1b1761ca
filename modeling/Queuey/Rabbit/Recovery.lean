import Queuey.Rabbit.Connection
import Queuey.Rabbit.Reconnect

/-!
# Delivery streams and their recovery

The streams of `consume` over the connection handle, with a clock: `delivery_stream`, the
`recover` loop it runs when its consumer has stopped, and the pacing of both loops that
consult the policy. A state also keeps the items each stream has yielded and the events of
each rebuild.
-/
namespace Queuey.Rabbit.Recovery
open Transition ConnectionHandle

/-- Where a stream stands: between polls, in `consumer.next()`, or in `recover`. -/
inductive Phase where
  | unborn
  | idle
  | next
  | discarding
  | entering
  | leaving
  | starting (failures : UInt32)
  | connecting (k : ℕ) (failures : UInt32)
  | subscribing (c : ℕ) (failures : UInt32)
  | pacing (failures : UInt32) (error : Failure)
  | sleeping (failures : UInt32) (due : ℕ)
  | finished

/-- In `recover`, past the look at the closing flag and the policy. -/
def Phase.recovering : Phase → Bool
  | leaving | starting _ | connecting _ _ | subscribing _ _ | pacing _ _ | sleeping _ _ => true
  | _ => false

inductive Item where
  | delivery
  | failed (error : Failure)
  | ended

def Item.isFailed : Item → Bool
  | failed _ => true
  | _ => false

structure Stream where
  /-- Its consumer has not stopped. -/
  alive : Bool
  phase : Phase
  items : List Item
  /-- The current or last `recover`. -/
  trace : List Event

structure State where
  handle : ConnectionHandle.State
  now : ℕ
  /-- When the backoff of a reconnecting call is over. -/
  due : ℕ → ℕ
  /-- The reconnect loop of each `ensure_connected` call. -/
  pace : ℕ → List Event
  streams : ℕ → Stream

inductive Action where
  | tick (elapsed : ℕ)
  | handle (a : ConnectionHandle.Action)
  | consume (i : ℕ)
  | poll (i : ℕ)
  | deliver (i : ℕ) (decodes : Bool)
  | discard (i : ℕ)
  | stop (i : ℕ)
  | enter (i : ℕ)
  | leave (i : ℕ)
  | connect (i k : ℕ)
  | connected (i : ℕ)
  | subscribe (i : ℕ) (failed : Option Failure)
  | pace (i : ℕ) (answer : Option Duration)
  | wake (i : ℕ)

def State.setStream (s : State) (i : ℕ) (x : Stream) : State :=
  { s with streams := Function.update s.streams i x }

/-- The stream yields an item; it goes on being polled unless that was the end. -/
def Stream.yield (x : Stream) (item : Item) (phase : Phase) : Stream :=
  { x with items := x.items ++ [item], phase := phase }

def connectionAttempt (failures : UInt32) : Option LapinError → Attempt
  | some error => .after .connection failures (.inl error)
  | none => .first .connection

/-- What a step of the handle tells about the rebuild of the connection. -/
def State.emits (s : State) : ConnectionHandle.Action → Option (ℕ × Event)
  | .pace k answer =>
    match s.handle.phase k with
    | .pacing failures last => some (k, .asked (connectionAttempt failures last) answer s.now)
    | _ => none
  | .open k => if s.handle.closing then none else some (k, .tried s.now)
  | .dial k (some error) => some (k, .failed (.inl error))
  | _ => none

/-- A sleep ends early only when the handle is closing. -/
def State.awake (s : State) : ConnectionHandle.Action → Bool
  | .wake k => s.handle.closing || s.due k ≤ s.now
  | _ => true

def State.dueAfter (s : State) : ConnectionHandle.Action → ℕ → ℕ
  | .pace k (some delay) => Function.update s.due k (s.now + delay.nanos)
  | _ => s.due

def State.record (s : State) : Option (ℕ × Event) → ℕ → List Event
  | some (k, event) => Function.update s.pace k (s.pace k ++ [event])
  | none => s.pace

def stepHandle (s : State) (a : ConnectionHandle.Action) : Option State :=
  if s.awake a then
    (ConnectionHandle.step s.handle a).map fun handle =>
      { s with handle := handle, due := s.dueAfter a, pace := s.record (s.emits a) }
  else none

/-- The consumer yields a message; one that does not decode is disposed of. -/
def stepDeliver (s : State) (i : ℕ) (decodes : Bool) : Option State :=
  let x := s.streams i
  match x.phase with
  | .next =>
    if x.alive then
      some (s.setStream i
        (if decodes then x.yield .delivery .idle else { x with phase := .discarding }))
    else none
  | _ => none

/-- The start of `recover`. -/
def stepEnter (s : State) (i : ℕ) : Option State :=
  let x := s.streams i
  match x.phase with
  | .entering =>
    if s.handle.closing || !s.handle.reconnects then some (s.setStream i (x.yield .ended .finished))
    else some (s.setStream i { x with phase := .leaving, trace := [] })
  | _ => none

/-- `recover` calls `ensure_connected`, here as call `k`. -/
def stepConnect (s : State) (i k : ℕ) : Option State :=
  let x := s.streams i
  match x.phase with
  | .starting failures =>
    (ConnectionHandle.step s.handle (.call k)).map fun handle =>
      { s.setStream i { x with phase := .connecting k failures } with handle := handle }
  | _ => none

/-- The `?` on `ensure_connected`; the attempt to subscribe follows. -/
def stepConnected (s : State) (i : ℕ) : Option State :=
  let x := s.streams i
  match x.phase with
  | .connecting k failures =>
    match s.handle.phase k with
    | .done (.ok c) => some (s.setStream i
        { x with phase := .subscribing c failures, trace := x.trace ++ [.tried s.now] })
    | .done (.error error) => some (s.setStream i (x.yield (.failed error) .idle))
    | _ => none
  | _ => none

def stepSubscribe (s : State) (i : ℕ) (failed : Option Failure) : Option State :=
  let x := s.streams i
  match x.phase with
  | .subscribing c failures =>
    match failed with
    | some error => some (s.setStream i { x with
        phase := .pacing (failures + 1) error
        trace := x.trace ++ [.failed (.inr error)] })
    | none =>
      if (s.handle.conns c).live then some (s.setStream i { x with phase := .next, alive := true })
      else none
  | _ => none

/-- The policy is asked after every failed subscription. -/
def stepPace (s : State) (i : ℕ) (answer : Option Duration) : Option State :=
  let x := s.streams i
  match x.phase with
  | .pacing failures error =>
    let trace := x.trace ++ [.asked (.after .consumer failures (.inr error)) answer s.now]
    match answer with
    | none => some (s.setStream i { x.yield (.failed error) .idle with trace := trace })
    | some delay => some (s.setStream i
        { x with phase := .sleeping failures (s.now + delay.nanos), trace := trace })
  | _ => none

/-- `sleep_unless_closing` is over: woken by the close, or the delay has passed. -/
def stepWake (s : State) (i : ℕ) : Option State :=
  let x := s.streams i
  match x.phase with
  | .sleeping failures due =>
    if s.handle.closing then
      some (s.setStream i (x.yield (.failed RabbitMqError.closed.intoCore) .idle))
    else if due ≤ s.now then some (s.setStream i { x with phase := .starting failures })
    else none
  | _ => none

/-- A stream in phase `before` moves on. -/
def stepMove (s : State) (i : ℕ) (before : Phase → Bool) (after : Stream → Stream) : Option State :=
  if before (s.streams i).phase then some (s.setStream i (after (s.streams i))) else none

def step (s : State) : Action → Option State
  | .tick elapsed => some { s with now := s.now + elapsed }
  | .handle a => stepHandle s a
  | .consume i => stepMove s i (· matches .unborn) fun x => { x with phase := .idle, alive := true }
  | .poll i => stepMove s i (· matches .idle) fun x => { x with phase := .next }
  | .deliver i decodes => stepDeliver s i decodes
  | .discard i => stepMove s i (· matches .discarding) fun x => { x with phase := .next }
  -- an error of the consumer and its end are the same question
  | .stop i => stepMove s i (· matches .next) fun x => { x with phase := .entering, alive := false }
  | .enter i => stepEnter s i
  | .leave i => stepMove s i (· matches .leaving) fun x => { x with phase := .starting 0 }
  | .connect i k => stepConnect s i k
  | .connected i => stepConnected s i
  | .subscribe i failed => stepSubscribe s i failed
  | .pace i answer => stepPace s i answer
  | .wake i => stepWake s i

def initial (reconnects : Bool) : State where
  handle := connected reconnects
  now := 0
  due := fun _ => 0
  pace := fun _ => []
  streams := fun _ => ⟨false, .unborn, [], []⟩

def system : System State Action where
  start s := ∃ reconnects, s = initial reconnects
  step := step

/-! ## What each step needs and does -/

variable {s t : State} {i k : ℕ}

theorem handle_cases {a : ConnectionHandle.Action} (hs : stepHandle s a = some t) :
    s.awake a = true ∧ ∃ handle, ConnectionHandle.step s.handle a = some handle ∧
      t = { s with handle := handle, due := s.dueAfter a, pace := s.record (s.emits a) } := by
  unfold stepHandle at hs
  split_ifs at hs with hawake
  obtain ⟨handle, hstep, rfl⟩ := Option.map_eq_some_iff.mp hs
  exact ⟨hawake, handle, hstep, rfl⟩

theorem deliver_cases {decodes : Bool} (hs : stepDeliver s i decodes = some t) :
    (s.streams i).phase = .next ∧ (s.streams i).alive = true ∧
      (t = s.setStream i ((s.streams i).yield .delivery .idle) ∨
        t = s.setStream i { s.streams i with phase := .discarding }) := by
  grind [stepDeliver]

theorem enter_cases (hs : stepEnter s i = some t) : (s.streams i).phase = .entering ∧
    (t = s.setStream i ((s.streams i).yield .ended .finished) ∨
      s.handle.closing = false ∧
        t = s.setStream i { s.streams i with phase := .leaving, trace := [] }) := by
  grind [stepEnter]

theorem connect_cases (hs : stepConnect s i k = some t) : ∃ failures handle,
    (s.streams i).phase = .starting failures ∧
      ConnectionHandle.step s.handle (.call k) = some handle ∧
        t = { s.setStream i { s.streams i with phase := .connecting k failures } with
          handle := handle } := by
  dsimp only [stepConnect] at hs
  split at hs
  case h_1 failures hphase =>
    obtain ⟨handle, hstep, rfl⟩ := Option.map_eq_some_iff.mp hs
    exact ⟨failures, handle, hphase, hstep, rfl⟩
  case h_2 => cases hs

theorem connected_cases (hs : stepConnected s i = some t) : ∃ k failures,
    (s.streams i).phase = .connecting k failures ∧
      ((∃ c, s.handle.phase k = .done (.ok c) ∧ t = s.setStream i { s.streams i with
          phase := .subscribing c failures
          trace := (s.streams i).trace ++ [.tried s.now] }) ∨
        ∃ error, t = s.setStream i ((s.streams i).yield (.failed error) .idle)) := by
  grind [stepConnected]

theorem subscribe_cases {failed : Option Failure} (hs : stepSubscribe s i failed = some t) :
    ∃ c failures, (s.streams i).phase = .subscribing c failures ∧
      ((∃ error, failed = some error ∧ t = s.setStream i { s.streams i with
          phase := .pacing (failures + 1) error
          trace := (s.streams i).trace ++ [.failed (.inr error)] }) ∨
        t = s.setStream i { s.streams i with phase := .next, alive := true }) := by
  grind [stepSubscribe]

theorem pace_cases {answer : Option Duration} (hs : stepPace s i answer = some t) :
    ∃ failures error, (s.streams i).phase = .pacing failures error ∧
      (answer = none ∧ t = s.setStream i { (s.streams i).yield (.failed error) .idle with
          trace := (s.streams i).trace ++
            [.asked (.after .consumer failures (.inr error)) none s.now] } ∨
        ∃ delay, answer = some delay ∧ t = s.setStream i { s.streams i with
          phase := .sleeping failures (s.now + delay.nanos)
          trace := (s.streams i).trace ++
            [.asked (.after .consumer failures (.inr error)) (some delay) s.now] }) := by
  grind [stepPace]

theorem wake_cases (hs : stepWake s i = some t) : ∃ failures due,
    (s.streams i).phase = .sleeping failures due ∧
      (s.handle.closing = true ∧ t = s.setStream i
          ((s.streams i).yield (.failed RabbitMqError.closed.intoCore) .idle) ∨
        s.handle.closing = false ∧ due ≤ s.now ∧
          t = s.setStream i { s.streams i with phase := .starting failures }) := by
  grind [stepWake]

theorem move_cases {before : Phase → Bool} {after : Stream → Stream}
    (hs : stepMove s i before after = some t) :
    before (s.streams i).phase = true ∧ t = s.setStream i (after (s.streams i)) := by
  grind [stepMove]

/-- Time passes, the handle takes a step, a stream starts a call, or one stream moves on by
itself. -/
theorem step_shape {a : Action} (hs : step s a = some t) :
    (∃ elapsed, t = { s with now := s.now + elapsed }) ∨ (∃ b, stepHandle s b = some t) ∨
      (∃ i k x handle, ConnectionHandle.step s.handle (.call k) = some handle ∧
        t = { s.setStream i x with handle := handle }) ∨
      ∃ i x, t = s.setStream i x := by
  cases a with
  | tick elapsed => exact .inl ⟨elapsed, (Option.some.inj hs).symm⟩
  | handle b => exact .inr (.inl ⟨b, hs⟩)
  | connect i k =>
    obtain ⟨failures, handle, -, hstep, ht⟩ := connect_cases hs
    exact .inr (.inr (.inl ⟨i, k, _, handle, hstep, ht⟩))
  | deliver i decodes =>
    obtain ⟨-, -, ht | ht⟩ := deliver_cases hs <;> exact .inr (.inr (.inr ⟨i, _, ht⟩))
  | enter i =>
    obtain ⟨-, ht | ⟨-, ht⟩⟩ := enter_cases hs <;> exact .inr (.inr (.inr ⟨i, _, ht⟩))
  | connected i =>
    obtain ⟨k, failures, -, ⟨c, -, ht⟩ | ⟨error, ht⟩⟩ := connected_cases hs <;>
      exact .inr (.inr (.inr ⟨i, _, ht⟩))
  | subscribe i failed =>
    obtain ⟨c, failures, -, ⟨error, -, ht⟩ | ht⟩ := subscribe_cases hs <;>
      exact .inr (.inr (.inr ⟨i, _, ht⟩))
  | pace i answer =>
    obtain ⟨failures, error, -, ⟨-, ht⟩ | ⟨delay, -, ht⟩⟩ := pace_cases hs <;>
      exact .inr (.inr (.inr ⟨i, _, ht⟩))
  | wake i =>
    obtain ⟨failures, due, -, ⟨-, ht⟩ | ⟨-, -, ht⟩⟩ := wake_cases hs <;>
      exact .inr (.inr (.inr ⟨i, _, ht⟩))
  | consume i | poll i | discard i | stop i | leave i =>
    simp only [step] at hs
    obtain ⟨-, ht⟩ := move_cases hs
    exact .inr (.inr (.inr ⟨i, _, ht⟩))

theorem below_step {a : Action} (hs : step s a = some t) :
    t.handle = s.handle ∨ ∃ b, ConnectionHandle.step s.handle b = some t.handle := by
  obtain ⟨elapsed, rfl⟩ | ⟨b, hb⟩ | ⟨i, k, x, handle, hstep, rfl⟩ | ⟨i, x, rfl⟩ := step_shape hs
  · exact .inl rfl
  · obtain ⟨-, handle, hstep, rfl⟩ := handle_cases hb
    exact .inr ⟨b, hstep⟩
  · exact .inr ⟨.call k, hstep⟩
  · exact .inl rfl

/-- The handle goes through states of its own system. -/
theorem reachable_handle {G : State → Action → Prop} (h : Reach system G s) :
    Reachable ConnectionHandle.system s.handle := by
  refine Reach.project (fun s hs => ?_) (fun s a t hs => below_step hs) h
  obtain ⟨reconnects, rfl⟩ := hs
  exact ⟨reconnects, rfl⟩

end Queuey.Rabbit.Recovery
