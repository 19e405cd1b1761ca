import Queuey.Library.Transition
import Queuey.Rabbit.Lapin

/-!
# The connection handle

`ensure_connected` calls, the connections they dial, the replay of the declared topology
and `RabbitMqBackend::close`, as one transition system in which every flag check, read,
swap and awaited operation is a step of its own. Calls, connections and closers are
numbered. A connection also keeps what its replay did, a call what it saw on the way.
-/
namespace Queuey.Rabbit.ConnectionHandle
open Transition

/-- How far the replay on a connection got. -/
inductive Replay where
  | unstarted
  | running
  | finished
  | unopened
  | abandoned
deriving DecidableEq

/-- The replay is still to come or under way. -/
def Replay.pending : Replay → Bool
  | unstarted | running => true
  | _ => false

structure Conn where
  live : Bool
  /-- Dialled by a reconnect, not by `connect`. -/
  redialled : Bool
  installed : Bool
  /-- Installed although the handle was already closing. -/
  raced : Bool
  /-- The queues remembered when it was dialled. -/
  known : List String
  /-- The configs its replay read, in the order of the map's iteration. -/
  order : List QueueConfig
  /-- The declarations its replay made, with whether they were accepted. -/
  attempted : List (QueueConfig × Bool)
  replay : Replay

/-- Where an `ensure_connected` call stands; `locked` tells the check under the mutex from
the lock-free one. -/
inductive Phase where
  | idle
  | checking (locked : Bool)
  | peeking (locked : Bool)
  | judging (locked : Bool) (c : ℕ)
  | queued
  | pacing (failures : UInt32) (last : Option LapinError)
  | sleeping (failures : UInt32) (last : Option LapinError)
  | opening (failures : UInt32) (last : Option LapinError)
  | dialling (failures : UInt32)
  | dialled (c : ℕ)
  | closingQuietly (c : ℕ)
  | installing (c : ℕ)
  | bumping (c : ℕ)
  | reading (c : ℕ)
  | openingChannel (c : ℕ)
  | redeclaring (c : ℕ) (rest : List QueueConfig)
  | closingChannel (c : ℕ)
  | done (result : Except Failure ℕ)
  | cancelled

/-- The call holds the reconnect mutex. -/
def Phase.locks : Phase → Bool
  | checking locked | peeking locked | judging locked _ => locked
  | pacing _ _ | sleeping _ _ | opening _ _ | dialling _ | dialled _ | closingQuietly _
  | installing _ | bumping _ | reading _ | openingChannel _ | redeclaring _ _
  | closingChannel _ => true
  | idle | queued | done _ | cancelled => false

/-- The call is under way. -/
def Phase.running : Phase → Bool
  | idle | done _ | cancelled => false
  | _ => true

/-- The dialled connection that only this call knows of. -/
def Phase.unshared : Phase → Option ℕ
  | dialled c | closingQuietly c | installing c => some c
  | _ => none

/-- The installed connection whose replay the call carries. -/
def Phase.replays : Phase → Option ℕ
  | bumping c | reading c | openingChannel c | redeclaring c _ => some c
  | _ => none

/-- A `RabbitMqBackend::close` call. -/
inductive Closer where
  | idle
  | marked
  | drained
  | remarked
  | peeked (c : ℕ)
  | returned
deriving DecidableEq

structure State where
  /-- `RabbitMqOptions::reconnect` is set. -/
  reconnects : Bool
  current : ℕ
  next : ℕ
  conns : ℕ → Conn
  generation : ℕ
  lock : Option ℕ
  closing : Bool
  /-- The remembered configs, at most one for each name. -/
  configs : List QueueConfig
  phase : ℕ → Phase
  /-- The call started after `mark_closing`. -/
  late : ℕ → Bool
  /-- The call has dialled. -/
  dials : ℕ → Bool
  /-- The lock-free check returned a connection whose replay was still pending. -/
  hurried : ℕ → Bool
  closer : ℕ → Closer
  /-- The connections consumers have subscribed on. -/
  subscribed : List ℕ

inductive Action where
  | remember (config : QueueConfig)
  | drop (c : ℕ)
  | call (k : ℕ)
  | check (k : ℕ)
  | peek (k : ℕ)
  | judge (k : ℕ)
  | lock (k : ℕ)
  | pace (k : ℕ) (delay : Option Duration)
  | wake (k : ℕ)
  | open (k : ℕ)
  | dial (k : ℕ) (failed : Option LapinError)
  | recheck (k : ℕ)
  | closeQuietly (k : ℕ)
  | install (k : ℕ)
  | bump (k : ℕ)
  | read (k : ℕ) (order : List QueueConfig)
  | openChannel (k : ℕ) (opened : Bool)
  | redeclare (k : ℕ) (accepted : Bool)
  | closeChannel (k : ℕ)
  | cancel (k : ℕ)
  | subscribe (k : ℕ)
  | mark (j : ℕ)
  | drain (j : ℕ)
  | markAgain (j : ℕ)
  | peekCurrent (j : ℕ)
  | closeCurrent (j : ℕ)

def State.setPhase (s : State) (k : ℕ) (phase : Phase) : State :=
  { s with phase := Function.update s.phase k phase }

def State.setConn (s : State) (c : ℕ) (conn : Conn) : State :=
  { s with conns := Function.update s.conns c conn }

def State.setCloser (s : State) (j : ℕ) (closer : Closer) : State :=
  { s with closer := Function.update s.closer j closer }

/-- The call ends; dropping its guard frees the mutex if it holds it. -/
def State.finish (s : State) (k : ℕ) (phase : Phase) : State :=
  { s.setPhase k phase with lock := if s.lock = some k then none else s.lock }

def closed : Except Failure ℕ := .error RabbitMqError.closed.intoCore

/-- `HashMap::insert`. -/
def remember (configs : List QueueConfig) (config : QueueConfig) : List QueueConfig :=
  config :: configs.filter fun known => known.name != config.name

def stepCheck (s : State) (k : ℕ) : Option State :=
  match s.phase k with
  | .checking locked =>
    if s.closing then some (s.finish k (.done closed))
    else some (s.setPhase k (.peeking locked))
  | _ => none

def stepPeek (s : State) (k : ℕ) : Option State :=
  match s.phase k with
  | .peeking locked => some (s.setPhase k (.judging locked s.current))
  | _ => none

/-- A live connection is returned. Otherwise the lock-free check queues for the mutex and
the one under it starts to reconnect, if that is configured. -/
def stepJudge (s : State) (k : ℕ) : Option State :=
  match s.phase k with
  | .judging locked c =>
    if (s.conns c).live then
      some { s.finish k (.done (.ok c)) with
        hurried := Function.update s.hurried k (!locked && (s.conns c).replay.pending) }
    else if !locked then some (s.setPhase k .queued)
    else if s.reconnects then some (s.setPhase k (.pacing 0 none))
    else some (s.finish k (.done (.error RabbitMqError.connectionLost.intoCore)))
  | _ => none

def stepLock (s : State) (k : ℕ) : Option State :=
  match s.phase k, s.lock with
  | .queued, none => some { s.setPhase k (.checking true) with lock := some k }
  | _, _ => none

/-- The policy is asked before every attempt. -/
def stepPace (s : State) (k : ℕ) (delay : Option Duration) : Option State :=
  match s.phase k with
  | .pacing failures last =>
    match delay with
    | none =>
      some (s.finish k (.done (.error (RabbitMqError.reconnectExhausted failures last).intoCore)))
    | some delay =>
      if delay.isZero then some (s.setPhase k (.opening failures last))
      else some (s.setPhase k (.sleeping failures last))
  | _ => none

/-- `sleep_unless_closing` is over: woken by the close, or the delay has passed. -/
def stepWake (s : State) (k : ℕ) : Option State :=
  match s.phase k with
  | .sleeping failures last =>
    if s.closing then some (s.finish k (.done closed))
    else some (s.setPhase k (.opening failures last))
  | _ => none

def stepOpen (s : State) (k : ℕ) : Option State :=
  match s.phase k with
  | .opening failures _ =>
    if s.closing then some (s.finish k (.done closed))
    else some { s.setPhase k (.dialling failures) with dials := Function.update s.dials k true }
  | _ => none

def stepDial (s : State) (k : ℕ) (failed : Option LapinError) : Option State :=
  match s.phase k with
  | .dialling failures =>
    match failed with
    | some e => some (s.setPhase k (.pacing (failures + 1) (some e)))
    | none =>
      some { (s.setPhase k (.dialled s.next)).setConn s.next
          ⟨true, true, false, false, s.configs.map QueueConfig.name, [], [], .unstarted⟩ with
        next := s.next + 1 }
  | _ => none

def stepRecheck (s : State) (k : ℕ) : Option State :=
  match s.phase k with
  | .dialled c =>
    if s.closing then some (s.setPhase k (.closingQuietly c))
    else some (s.setPhase k (.installing c))
  | _ => none

def stepCloseQuietly (s : State) (k : ℕ) : Option State :=
  match s.phase k with
  | .closingQuietly c =>
    some ((s.setConn c { s.conns c with live := false }).finish k (.done closed))
  | _ => none

/-- The swap publishes the connection to every other caller. -/
def stepInstall (s : State) (k : ℕ) : Option State :=
  match s.phase k with
  | .installing c =>
    some { (s.setPhase k (.bumping c)).setConn c
        { s.conns c with installed := true, raced := s.closing } with
      current := c }
  | _ => none

def stepBump (s : State) (k : ℕ) : Option State :=
  match s.phase k with
  | .bumping c => some { s.setPhase k (.reading c) with generation := s.generation + 1 }
  | _ => none

/-- `redeclare` reads the whole map once, in some order. -/
def stepRead (s : State) (k : ℕ) (order : List QueueConfig) : Option State :=
  match s.phase k with
  | .reading c =>
    if order.isPerm s.configs then
      match order with
      | [] =>
        some ((s.setConn c { s.conns c with replay := .finished }).finish k (.done (.ok c)))
      | _ :: _ =>
        some ((s.setConn c { s.conns c with order := order, replay := .running }).setPhase k
          (.openingChannel c))
    else none
  | _ => none

def stepOpenChannel (s : State) (k : ℕ) (opened : Bool) : Option State :=
  match s.phase k with
  | .openingChannel c =>
    if opened then some (s.setPhase k (.redeclaring c (s.conns c).order))
    else some ((s.setConn c { s.conns c with replay := .unopened }).finish k (.done (.ok c)))
  | _ => none

/-- One `declare_topology`. A failed one ends the replay. -/
def stepRedeclare (s : State) (k : ℕ) (accepted : Bool) : Option State :=
  match s.phase k with
  | .redeclaring c (config :: rest) =>
    let conn := { s.conns c with attempted := (s.conns c).attempted ++ [(config, accepted)] }
    if accepted ∧ rest ≠ [] then some ((s.setConn c conn).setPhase k (.redeclaring c rest))
    else some ((s.setConn c { conn with replay := .finished }).setPhase k (.closingChannel c))
  | _ => none

def stepCloseChannel (s : State) (k : ℕ) : Option State :=
  match s.phase k with
  | .closingChannel c => some (s.finish k (.done (.ok c)))
  | _ => none

/-- The future is dropped where it awaits. A connection nobody else has is closed with it. -/
def stepCancel (s : State) (k : ℕ) : Option State :=
  match s.phase k with
  | .queued | .sleeping _ _ | .dialling _ | .closingChannel _ => some (s.finish k .cancelled)
  | .closingQuietly c =>
    some ((s.setConn c { s.conns c with live := false }).finish k .cancelled)
  | .openingChannel c | .redeclaring c _ =>
    some ((s.setConn c { s.conns c with replay := .abandoned }).finish k .cancelled)
  | _ => none

/-- A consumer subscribes on the connection its call returned. -/
def stepSubscribe (s : State) (k : ℕ) : Option State :=
  match s.phase k with
  | .done (.ok c) => if (s.conns c).live then some { s with subscribed := c :: s.subscribed } else none
  | _ => none

/-- One step of a `close` call. -/
def stepCloser (s : State) (j : ℕ) (expected : Closer) (closer : Closer) : Option State :=
  if s.closer j = expected then some (s.setCloser j closer) else none

def step (s : State) : Action → Option State
  | .remember config => some { s with configs := remember s.configs config }
  | .drop c => some (s.setConn c { s.conns c with live := false })
  | .call k =>
    match s.phase k with
    | .idle =>
      some { s.setPhase k (.checking false) with late := Function.update s.late k s.closing }
    | _ => none
  | .check k => stepCheck s k
  | .peek k => stepPeek s k
  | .judge k => stepJudge s k
  | .lock k => stepLock s k
  | .pace k delay => stepPace s k delay
  | .wake k => stepWake s k
  | .open k => stepOpen s k
  | .dial k failed => stepDial s k failed
  | .recheck k => stepRecheck s k
  | .closeQuietly k => stepCloseQuietly s k
  | .install k => stepInstall s k
  | .bump k => stepBump s k
  | .read k order => stepRead s k order
  | .openChannel k opened => stepOpenChannel s k opened
  | .redeclare k accepted => stepRedeclare s k accepted
  | .closeChannel k => stepCloseChannel s k
  | .cancel k => stepCancel s k
  | .subscribe k => stepSubscribe s k
  | .mark j => (stepCloser s j .idle .marked).map fun t => { t with closing := true }
  | .drain j => stepCloser s j .marked .drained
  | .markAgain j => (stepCloser s j .drained .remarked).map fun t => { t with closing := true }
  | .peekCurrent j => stepCloser s j .remarked (.peeked s.current)
  | .closeCurrent j =>
    match s.closer j with
    | .peeked c =>
      some ((s.setConn c { s.conns c with live := false }).setCloser j .returned)
    | _ => none

/-- After `connect`: one live connection, nothing declared yet. -/
def connected (reconnects : Bool) : State where
  reconnects := reconnects
  current := 0
  next := 1
  conns := fun c => ⟨c == 0, false, c == 0, false, [], [], [], .finished⟩
  generation := 1
  lock := none
  closing := false
  configs := []
  phase := fun _ => .idle
  late := fun _ => false
  dials := fun _ => false
  hurried := fun _ => false
  closer := fun _ => .idle
  subscribed := []

def system : System State Action where
  start s := ∃ reconnects, s = connected reconnects
  step := step

/-! ## What each step needs and does -/

variable {s t : State} {k j c : ℕ}

theorem call_cases (hs : step s (.call k) = some t) : s.phase k = .idle ∧
    t = { s.setPhase k (.checking false) with late := Function.update s.late k s.closing } := by
  grind [step]

theorem check_cases (hs : stepCheck s k = some t) : ∃ locked, s.phase k = .checking locked ∧
    (s.closing = true ∧ t = s.finish k (.done closed) ∨
      s.closing = false ∧ t = s.setPhase k (.peeking locked)) := by
  grind [stepCheck]

theorem peek_cases (hs : stepPeek s k = some t) : ∃ locked, s.phase k = .peeking locked ∧
    t = s.setPhase k (.judging locked s.current) := by
  grind [stepPeek]

theorem judge_cases (hs : stepJudge s k = some t) : ∃ locked c, s.phase k = .judging locked c ∧
    ((s.conns c).live = true ∧ t = { s.finish k (.done (.ok c)) with
        hurried := Function.update s.hurried k (!locked && (s.conns c).replay.pending) } ∨
      (s.conns c).live = false ∧
        (locked = false ∧ t = s.setPhase k .queued ∨
          locked = true ∧ t = s.setPhase k (.pacing 0 none) ∨
          t = s.finish k (.done (.error RabbitMqError.connectionLost.intoCore)))) := by
  grind [stepJudge]

theorem lock_cases (hs : stepLock s k = some t) : s.phase k = .queued ∧ s.lock = none ∧
    t = { s.setPhase k (.checking true) with lock := some k } := by
  grind [stepLock]

theorem pace_cases {delay : Option Duration} (hs : stepPace s k delay = some t) :
    ∃ failures last, s.phase k = .pacing failures last ∧
      (delay = none ∧
          t = s.finish k (.done (.error (RabbitMqError.reconnectExhausted failures last).intoCore)) ∨
        (∃ d, delay = some d ∧ d.isZero = true ∧ t = s.setPhase k (.opening failures last)) ∨
        ∃ d, delay = some d ∧ t = s.setPhase k (.sleeping failures last)) := by
  grind [stepPace]

theorem wake_cases (hs : stepWake s k = some t) :
    ∃ failures last, s.phase k = .sleeping failures last ∧
      (s.closing = true ∧ t = s.finish k (.done closed) ∨
        s.closing = false ∧ t = s.setPhase k (.opening failures last)) := by
  grind [stepWake]

theorem open_cases (hs : stepOpen s k = some t) :
    ∃ failures last, s.phase k = .opening failures last ∧
      (s.closing = true ∧ t = s.finish k (.done closed) ∨
        s.closing = false ∧ t = { s.setPhase k (.dialling failures) with
          dials := Function.update s.dials k true }) := by
  grind [stepOpen]

theorem dial_cases {failed : Option LapinError} (hs : stepDial s k failed = some t) :
    ∃ failures, s.phase k = .dialling failures ∧
      ((∃ e, failed = some e ∧ t = s.setPhase k (.pacing (failures + 1) (some e))) ∨
        failed = none ∧ t = { (s.setPhase k (.dialled s.next)).setConn s.next
            ⟨true, true, false, false, s.configs.map QueueConfig.name, [], [], .unstarted⟩ with
          next := s.next + 1 }) := by
  grind [stepDial]

theorem recheck_cases (hs : stepRecheck s k = some t) : ∃ c, s.phase k = .dialled c ∧
    (s.closing = true ∧ t = s.setPhase k (.closingQuietly c) ∨
      s.closing = false ∧ t = s.setPhase k (.installing c)) := by
  grind [stepRecheck]

theorem closeQuietly_cases (hs : stepCloseQuietly s k = some t) :
    ∃ c, s.phase k = .closingQuietly c ∧
      t = (s.setConn c { s.conns c with live := false }).finish k (.done closed) := by
  grind [stepCloseQuietly]

theorem install_cases (hs : stepInstall s k = some t) : ∃ c, s.phase k = .installing c ∧
    t = { (s.setPhase k (.bumping c)).setConn c
        { s.conns c with installed := true, raced := s.closing } with current := c } := by
  grind [stepInstall]

theorem bump_cases (hs : stepBump s k = some t) : ∃ c, s.phase k = .bumping c ∧
    t = { s.setPhase k (.reading c) with generation := s.generation + 1 } := by
  grind [stepBump]

theorem read_cases {order : List QueueConfig} (hs : stepRead s k order = some t) :
    ∃ c, s.phase k = .reading c ∧ order.Perm s.configs ∧
      (order = [] ∧ t = (s.setConn c { s.conns c with replay := .finished }).finish k
          (.done (.ok c)) ∨
        t = (s.setConn c { s.conns c with order := order, replay := .running }).setPhase k
          (.openingChannel c)) := by
  grind [stepRead, List.isPerm_iff]

theorem openChannel_cases {opened : Bool} (hs : stepOpenChannel s k opened = some t) :
    ∃ c, s.phase k = .openingChannel c ∧
      (t = s.setPhase k (.redeclaring c (s.conns c).order) ∨
        t = (s.setConn c { s.conns c with replay := .unopened }).finish k (.done (.ok c))) := by
  grind [stepOpenChannel]

theorem redeclare_cases {accepted : Bool} (hs : stepRedeclare s k accepted = some t) :
    ∃ c config rest, s.phase k = .redeclaring c (config :: rest) ∧
      (accepted = true ∧ t = (s.setConn c { s.conns c with
          attempted := (s.conns c).attempted ++ [(config, true)] }).setPhase k
            (.redeclaring c rest) ∨
        (accepted = true → rest = []) ∧ t = (s.setConn c { s.conns c with
          attempted := (s.conns c).attempted ++ [(config, accepted)]
          replay := .finished }).setPhase k (.closingChannel c)) := by
  grind [stepRedeclare]

theorem closeChannel_cases (hs : stepCloseChannel s k = some t) :
    ∃ c, s.phase k = .closingChannel c ∧ t = s.finish k (.done (.ok c)) := by
  grind [stepCloseChannel]

theorem cancel_cases (hs : stepCancel s k = some t) :
    (s.phase k).replays = none ∧ (s.phase k).unshared = none ∧ t = s.finish k .cancelled ∨
      (∃ c, s.phase k = .closingQuietly c ∧
        t = (s.setConn c { s.conns c with live := false }).finish k .cancelled) ∨
      ∃ c, (s.phase k).replays = some c ∧ (s.phase k).unshared = none ∧
        t = (s.setConn c { s.conns c with replay := .abandoned }).finish k .cancelled := by
  grind [stepCancel, Phase.replays, Phase.unshared]

theorem subscribe_cases (hs : stepSubscribe s k = some t) : ∃ c, s.phase k = .done (.ok c) ∧
    (s.conns c).live = true ∧ t = { s with subscribed := c :: s.subscribed } := by
  grind [stepSubscribe]

theorem closer_cases {expected closer : Closer} (hs : stepCloser s j expected closer = some t) :
    s.closer j = expected ∧ t = s.setCloser j closer := by
  grind [stepCloser]

theorem closeCurrent_cases (hs : step s (.closeCurrent j) = some t) :
    ∃ c, s.closer j = .peeked c ∧
      t = (s.setConn c { s.conns c with live := false }).setCloser j .returned := by
  grind [step]

/-- Only `mark_closing` touches the flag, and it sets it. -/
theorem closing_step {a : Action} (hs : step s a = some t) :
    t.closing = s.closing ∨ t.closing = true ∧ ∃ j, a = .mark j ∨ a = .markAgain j := by
  cases a with
  | call k =>
    obtain ⟨-, rfl⟩ := call_cases hs
    exact .inl rfl
  | check k =>
    obtain ⟨locked, -, ⟨-, rfl⟩ | ⟨-, rfl⟩⟩ := check_cases hs <;> exact .inl rfl
  | peek k =>
    obtain ⟨locked, -, rfl⟩ := peek_cases hs
    exact .inl rfl
  | judge k =>
    obtain ⟨locked, c, -, ⟨-, rfl⟩ | ⟨-, ⟨-, rfl⟩ | ⟨-, rfl⟩ | rfl⟩⟩ := judge_cases hs <;>
      exact .inl rfl
  | lock k =>
    obtain ⟨-, -, rfl⟩ := lock_cases hs
    exact .inl rfl
  | pace k delay =>
    obtain ⟨failures, last, -, ⟨-, rfl⟩ | ⟨d, -, -, rfl⟩ | ⟨d, -, rfl⟩⟩ := pace_cases hs <;>
      exact .inl rfl
  | wake k =>
    obtain ⟨failures, last, -, ⟨-, rfl⟩ | ⟨-, rfl⟩⟩ := wake_cases hs <;> exact .inl rfl
  | «open» k =>
    obtain ⟨failures, last, -, ⟨-, rfl⟩ | ⟨-, rfl⟩⟩ := open_cases hs <;> exact .inl rfl
  | dial k failed =>
    obtain ⟨failures, -, ⟨e, -, rfl⟩ | ⟨-, rfl⟩⟩ := dial_cases hs <;> exact .inl rfl
  | recheck k =>
    obtain ⟨c, -, ⟨-, rfl⟩ | ⟨-, rfl⟩⟩ := recheck_cases hs <;> exact .inl rfl
  | closeQuietly k =>
    obtain ⟨c, -, rfl⟩ := closeQuietly_cases hs
    exact .inl rfl
  | install k =>
    obtain ⟨c, -, rfl⟩ := install_cases hs
    exact .inl rfl
  | bump k =>
    obtain ⟨c, -, rfl⟩ := bump_cases hs
    exact .inl rfl
  | read k order =>
    obtain ⟨c, -, -, ⟨-, rfl⟩ | rfl⟩ := read_cases hs <;> exact .inl rfl
  | openChannel k opened =>
    obtain ⟨c, -, rfl | rfl⟩ := openChannel_cases hs <;> exact .inl rfl
  | redeclare k accepted =>
    obtain ⟨c, config, rest, -, ⟨-, rfl⟩ | ⟨-, rfl⟩⟩ := redeclare_cases hs <;> exact .inl rfl
  | closeChannel k =>
    obtain ⟨c, -, rfl⟩ := closeChannel_cases hs
    exact .inl rfl
  | cancel k =>
    obtain ⟨-, -, rfl⟩ | ⟨c, -, rfl⟩ | ⟨c, -, -, rfl⟩ := cancel_cases hs <;> exact .inl rfl
  | subscribe k =>
    obtain ⟨c, -, -, rfl⟩ := subscribe_cases hs
    exact .inl rfl
  | mark j =>
    obtain ⟨u, -, rfl⟩ := Option.map_eq_some_iff.mp hs
    exact .inr ⟨rfl, j, .inl rfl⟩
  | markAgain j =>
    obtain ⟨u, -, rfl⟩ := Option.map_eq_some_iff.mp hs
    exact .inr ⟨rfl, j, .inr rfl⟩
  | drain j | peekCurrent j =>
    obtain ⟨-, rfl⟩ := closer_cases hs
    exact .inl rfl
  | closeCurrent j =>
    obtain ⟨c, -, rfl⟩ := closeCurrent_cases hs
    exact .inl rfl
  | remember config | drop c =>
    obtain rfl := Option.some.inj hs
    exact .inl rfl

end Queuey.Rabbit.ConnectionHandle
