import Queuey.Rabbit.Generation
import Queuey.Rabbit.Replay
import Queuey.Rabbit.Topology

/-!
# Declaring queues

`RabbitMqBackend::declare` over the connection handle: a declaration and the recording of
its config are two steps, on a task that shares no lock with a reconnect. A state also
keeps which declarations were accepted on which connection, and what has been recorded.
-/
namespace Queuey.Rabbit.Declaring
open Transition ConnectionHandle

/-- Where a `declare` call stands. -/
inductive Phase where
  | idle
  | connecting (k : ℕ)
  | opening (c : ℕ)
  | declaring (c : ℕ) (rest : List QueueConfig)
  | recording (c : ℕ) (config : QueueConfig) (rest : List QueueConfig)
  | closingChannel (result : Except Failure Unit)
  | done (result : Except Failure Unit)
  | cancelled

/-- The connection whose channel the call uses. -/
def Phase.conn : Phase → Option ℕ
  | opening c | declaring c _ | recording c _ _ => some c
  | _ => none

structure Call where
  configs : List QueueConfig
  phase : Phase

structure State where
  handle : ConnectionHandle.State
  deferredSuffix : String
  calls : ℕ → Call
  accepted : List (ℕ × QueueConfig)
  recorded : List QueueConfig

inductive Action where
  | handle (a : ConnectionHandle.Action)
  | begin (j k : ℕ) (configs : List QueueConfig)
  | resolve (j : ℕ)
  | openChannel (j : ℕ) (failed : Option LapinError)
  | declare (j : ℕ) (failed : Option Failure)
  | record (j : ℕ)
  | closeChannel (j : ℕ)
  | cancel (j : ℕ)

def State.setPhase (s : State) (j : ℕ) (phase : Phase) : State :=
  { s with calls := Function.update s.calls j { s.calls j with phase := phase } }

/-- `check_deferrable_name`: the longest hold queue name must be an AMQP short string. -/
def checkDeferrableName (queue suffix : String) : Except Failure Unit :=
  let hold := Topology.deferredQueueName queue suffix (UInt32.ofNat Topology.maxDeferralMs)
  if hold.utf8ByteSize ≤ maxShortStringLength then .ok ()
  else .error (RabbitMqError.deferredNameTooLong queue hold hold.utf8ByteSize
    maxShortStringLength).intoCore

def checkNames (suffix : String) : List QueueConfig → Except Failure Unit
  | [] => .ok ()
  | config :: rest =>
    match checkDeferrableName config.name suffix with
    | .ok () => checkNames suffix rest
    | .error e => .error e

/-- The names are checked before `ensure_connected` is called, here as call `k`. -/
def stepBegin (s : State) (j k : ℕ) (configs : List QueueConfig) : Option State :=
  match (s.calls j).phase with
  | .idle =>
    if configs.isEmpty then
      some { s with calls := Function.update s.calls j ⟨configs, .done (.ok ())⟩ }
    else match checkNames s.deferredSuffix configs with
      | .error e => some { s with calls := Function.update s.calls j ⟨configs, .done (.error e)⟩ }
      | .ok () => (ConnectionHandle.step s.handle (.call k)).map fun handle =>
        { s with
          handle := handle
          calls := Function.update s.calls j ⟨configs, .connecting k⟩ }
  | _ => none

def stepResolve (s : State) (j : ℕ) : Option State :=
  match (s.calls j).phase with
  | .connecting k =>
    match s.handle.phase k with
    | .done (.ok c) => some (s.setPhase j (.opening c))
    | .done (.error e) => some (s.setPhase j (.done (.error e)))
    | _ => none
  | _ => none

def stepOpenChannel (s : State) (j : ℕ) (failed : Option LapinError) : Option State :=
  match (s.calls j).phase with
  | .opening c =>
    match failed with
    | some e => some (s.setPhase j (.done (.error (amqp e))))
    | none => some (s.setPhase j (.declaring c (s.calls j).configs))
  | _ => none

/-- `declare_topology` for the next config. The broker accepts on a live connection only. -/
def stepDeclare (s : State) (j : ℕ) (failed : Option Failure) : Option State :=
  match (s.calls j).phase with
  | .declaring _ [] => some (s.setPhase j (.closingChannel (.ok ())))
  | .declaring c (config :: rest) =>
    match failed with
    | some e => some (s.setPhase j (.closingChannel (.error e)))
    | none =>
      if (s.handle.conns c).live then
        some { s.setPhase j (.recording c config rest) with
          accepted := (c, config) :: s.accepted }
      else none
  | _ => none

/-- `ConnectionHandle::remember`. -/
def stepRecord (s : State) (j : ℕ) : Option State :=
  match (s.calls j).phase with
  | .recording c config rest =>
    (ConnectionHandle.step s.handle (.remember config)).map fun handle =>
      { s.setPhase j (.declaring c rest) with
        handle := handle
        recorded := config :: s.recorded }
  | _ => none

def stepCloseChannel (s : State) (j : ℕ) : Option State :=
  match (s.calls j).phase with
  | .closingChannel result => some (s.setPhase j (.done result))
  | _ => none

/-- The future is dropped where it awaits; its `ensure_connected` call is dropped by a
`cancel` of its own. -/
def stepCancel (s : State) (j : ℕ) : Option State :=
  match (s.calls j).phase with
  | .connecting _ | .opening _ | .declaring _ _ | .closingChannel _ =>
    some (s.setPhase j .cancelled)
  | _ => none

/-- Only `declare` remembers a config. -/
def stepHandle (s : State) : ConnectionHandle.Action → Option State
  | .remember _ => none
  | a => (ConnectionHandle.step s.handle a).map fun handle => { s with handle := handle }

def step (s : State) : Action → Option State
  | .handle a => stepHandle s a
  | .begin j k configs => stepBegin s j k configs
  | .resolve j => stepResolve s j
  | .openChannel j failed => stepOpenChannel s j failed
  | .declare j failed => stepDeclare s j failed
  | .record j => stepRecord s j
  | .closeChannel j => stepCloseChannel s j
  | .cancel j => stepCancel s j

def initial (reconnects : Bool) (deferredSuffix : String) : State where
  handle := connected reconnects
  deferredSuffix := deferredSuffix
  calls := fun _ => ⟨[], .idle⟩
  accepted := []
  recorded := []

def system : System State Action where
  start s := ∃ reconnects deferredSuffix, s = initial reconnects deferredSuffix
  step := step

/-! ## What each step needs and does -/

variable {s t : State} {j k : ℕ}

theorem handle_cases {a : ConnectionHandle.Action} (hs : stepHandle s a = some t) :
    (∀ config, a ≠ .remember config) ∧ ∃ handle, ConnectionHandle.step s.handle a = some handle ∧
      t = { s with handle := handle } := by
  unfold stepHandle at hs
  split at hs
  · cases hs
  · next hne =>
    obtain ⟨handle, hstep, rfl⟩ := Option.map_eq_some_iff.mp hs
    exact ⟨hne, handle, hstep, rfl⟩

theorem begin_cases {configs : List QueueConfig} (hs : stepBegin s j k configs = some t) :
    (s.calls j).phase = .idle ∧
      ((configs = [] ∧
          t = { s with calls := Function.update s.calls j ⟨configs, .done (.ok ())⟩ }) ∨
        (∃ e, t = { s with calls := Function.update s.calls j ⟨configs, .done (.error e)⟩ }) ∨
        ∃ handle, ConnectionHandle.step s.handle (.call k) = some handle ∧ t = { s with
          handle := handle
          calls := Function.update s.calls j ⟨configs, .connecting k⟩ }) := by
  unfold stepBegin at hs
  split at hs
  · next hj =>
    refine ⟨hj, ?_⟩
    split at hs
    · next hnil => exact .inl ⟨List.isEmpty_iff.mp hnil, (Option.some.inj hs).symm⟩
    · split at hs
      · exact .inr (.inl ⟨_, (Option.some.inj hs).symm⟩)
      · obtain ⟨handle, hstep, rfl⟩ := Option.map_eq_some_iff.mp hs
        exact .inr (.inr ⟨handle, hstep, rfl⟩)
  · cases hs

theorem resolve_cases (hs : stepResolve s j = some t) : ∃ k, (s.calls j).phase = .connecting k ∧
    ((∃ c, s.handle.phase k = .done (.ok c) ∧ t = s.setPhase j (.opening c)) ∨
      ∃ e, t = s.setPhase j (.done (.error e))) := by
  grind [stepResolve]

theorem openChannel_cases {failed : Option LapinError} (hs : stepOpenChannel s j failed = some t) :
    ∃ c, (s.calls j).phase = .opening c ∧
      (t = s.setPhase j (.declaring c (s.calls j).configs) ∨
        ∃ e, t = s.setPhase j (.done (.error e))) := by
  grind [stepOpenChannel]

theorem declare_cases {failed : Option Failure} (hs : stepDeclare s j failed = some t) :
    ∃ c rest, (s.calls j).phase = .declaring c rest ∧
      ((rest = [] ∧ t = s.setPhase j (.closingChannel (.ok ()))) ∨
        (∃ e, t = s.setPhase j (.closingChannel (.error e))) ∨
        ∃ config later, rest = config :: later ∧ (s.handle.conns c).live = true ∧
          t = { s.setPhase j (.recording c config later) with
            accepted := (c, config) :: s.accepted }) := by
  grind [stepDeclare]

theorem record_cases (hs : stepRecord s j = some t) : ∃ c config rest,
    (s.calls j).phase = .recording c config rest ∧ t = { s.setPhase j (.declaring c rest) with
      handle := { s.handle with configs := remember s.handle.configs config }
      recorded := config :: s.recorded } := by
  grind [stepRecord, ConnectionHandle.step]

theorem closeChannel_cases (hs : stepCloseChannel s j = some t) : ∃ result,
    (s.calls j).phase = .closingChannel result ∧ t = s.setPhase j (.done result) := by
  grind [stepCloseChannel]

theorem cancel_cases (hs : stepCancel s j = some t) : t = s.setPhase j .cancelled := by
  grind [stepCancel]

theorem below_step {a : Action} (hs : step s a = some t) :
    t.handle = s.handle ∨ ∃ b, ConnectionHandle.step s.handle b = some t.handle := by
  cases a with
  | handle a =>
    obtain ⟨-, handle, hstep, rfl⟩ := handle_cases hs
    exact .inr ⟨a, hstep⟩
  | begin j k configs =>
    obtain ⟨-, ⟨-, rfl⟩ | ⟨e, rfl⟩ | ⟨handle, hstep, rfl⟩⟩ := begin_cases hs
    · exact .inl rfl
    · exact .inl rfl
    · exact .inr ⟨.call k, hstep⟩
  | resolve j =>
    obtain ⟨k, -, ⟨c, -, rfl⟩ | ⟨e, rfl⟩⟩ := resolve_cases hs <;> exact .inl rfl
  | openChannel j failed =>
    obtain ⟨c, -, rfl | ⟨e, rfl⟩⟩ := openChannel_cases hs <;> exact .inl rfl
  | declare j failed =>
    obtain ⟨c, rest, -, ⟨-, rfl⟩ | ⟨e, rfl⟩ | ⟨config, later, -, -, rfl⟩⟩ := declare_cases hs <;>
      exact .inl rfl
  | record j =>
    obtain ⟨c, config, rest, -, rfl⟩ := record_cases hs
    exact .inr ⟨.remember config, rfl⟩
  | closeChannel j =>
    obtain ⟨result, -, rfl⟩ := closeChannel_cases hs
    exact .inl rfl
  | cancel j =>
    obtain rfl := cancel_cases hs
    exact .inl rfl

/-- The handle goes through states of its own system. -/
theorem reachable_handle {G : State → Action → Prop} (h : Reach system G s) :
    Reachable ConnectionHandle.system s.handle := by
  refine Reach.project (fun s hs => ?_) (fun s a t hs => below_step hs) h
  obtain ⟨reconnects, deferredSuffix, rfl⟩ := hs
  exact ⟨reconnects, rfl⟩

end Queuey.Rabbit.Declaring
