import Mathlib.Data.List.Nodup
import Queuey.Library.Completion
import Queuey.Rabbit.DeclareReplay

/-!
# Calls on a closing handle

Once the handle is closing, every `ensure_connected` call comes to an end: it has a bounded
number of steps left, and can take the next one unless it waits for the mutex, whose holder
then can.
-/
namespace Queuey.Rabbit.ConnectionHandle
open Transition

variable {s t : State} {a : Action} {j k c : ℕ} {p : Phase} {size : ℕ}

/-- The call that takes the step. -/
def Action.caller : Action → Option ℕ
  | .call k | .check k | .peek k | .judge k | .lock k | .pace k _ | .wake k | .open k | .dial k _
  | .recheck k | .closeQuietly k | .install k | .bump k | .read k _ | .openChannel k _
  | .redeclare k _ | .closeChannel k | .cancel k => some k
  | _ => none

/-- The call has returned, or its future was dropped. -/
def Phase.ended : Phase → Bool
  | done _ | cancelled => true
  | _ => false

/-- How many steps a call has left on a closing handle, if its replay reads at most `size`
configs. -/
def Phase.rank (size : ℕ) (conns : ℕ → Conn) : Phase → ℕ
  | done _ | cancelled => 0
  | checking _ | sleeping _ _ | opening _ _ | closingQuietly _ | closingChannel _ => 1
  | idle | queued | pacing _ _ | dialled _ => 2
  | judging _ _ | dialling _ => 3
  | peeking _ => 4
  | redeclaring _ rest => rest.length + 1
  | openingChannel c => (conns c).order.length + 2
  | reading _ => size + 3
  | bumping _ => size + 4
  | installing _ => size + 5

/-! ## Replays -/

/-- A replay under way has declarations to make. -/
def Phase.Laden (conns : ℕ → Conn) : Phase → Prop
  | openingChannel c => (conns c).order ≠ []
  | redeclaring c rest => rest ≠ [] ∧ rest.length ≤ (conns c).order.length
  | _ => True

/-- No replay has more to declare than is remembered. -/
structure Laden (s : State) : Prop where
  names : (s.configs.map QueueConfig.name).Nodup
  orders : ∀ c, (s.conns c).order.length ≤ s.configs.length
  calls : ∀ k, (s.phase k).Laden s.conns

theorem Phase.laden_of_unlocked {conns : ℕ → Conn} (h : p.locks = false) : p.Laden conns := by
  cases p with
  | openingChannel _ | redeclaring _ _ => cases h
  | _ => trivial

/-- A name is remembered once, so nothing else makes room for a new config. -/
theorem remember_length {configs : List QueueConfig} (h : (configs.map QueueConfig.name).Nodup)
    (config : QueueConfig) : configs.length ≤ (remember configs config).length := by
  have hcount : configs.countP (fun known => known.name == config.name) ≤ 1 := by
    have := List.nodup_iff_count_le_one.mp h config.name
    rwa [List.count, List.countP_map] at this
  have hsplit := List.length_eq_countP_add_countP (fun known : QueueConfig => known.name ==
    config.name) (l := configs)
  have hkept : (configs.filter fun known => known.name != config.name).length =
      configs.countP fun known => ¬(known.name == config.name) := by
    rw [← List.countP_eq_length_filter]
    exact List.countP_congr fun known _ => by simp
  simp only [remember, List.length_cons]
  omega

theorem remember_nodup {configs : List QueueConfig} (h : (configs.map QueueConfig.name).Nodup)
    (config : QueueConfig) : ((remember configs config).map QueueConfig.name).Nodup := by
  simp only [remember, List.map_cons, List.nodup_cons]
  refine ⟨?_, h.sublist (List.filter_sublist.map _)⟩
  simp [List.mem_filter]

/-- A call moves on, and no replay has read anything. -/
theorem Laden.move (h : Laden s) (hp : p.Laden t.conns)
    (phase : t.phase = Function.update s.phase k p)
    (orders : ∀ c, (t.conns c).order = (s.conns c).order) (configs : t.configs = s.configs) :
    Laden t where
  names := by rw [configs]; exact h.names
  orders c := by
    rw [orders, configs]
    exact h.orders c
  calls j := by
    rw [phase, Function.update_apply]
    split
    · exact hp
    · have hj := h.calls j
      cases hphase : s.phase j with
      | openingChannel c =>
        rw [hphase] at hj
        show (t.conns c).order ≠ []
        rw [orders]
        exact hj
      | redeclaring c rest =>
        rw [hphase] at hj
        refine ⟨hj.1, ?_⟩
        rw [orders]
        exact hj.2
      | _ => trivial

/-- The holder of the mutex changes what its connection has to replay. -/
theorem Laden.hold {conn : Conn} (h : Laden s) (hl : Locked s) (hk : (s.phase k).locks = true)
    (hp : p.Laden t.conns) (hconn : conn.order.length ≤ s.configs.length)
    (phase : t.phase = Function.update s.phase k p)
    (conns : t.conns = Function.update s.conns c conn) (configs : t.configs = s.configs) :
    Laden t where
  names := by rw [configs]; exact h.names
  orders d := by
    rw [conns, configs, Function.update_apply]
    split
    · exact hconn
    · exact h.orders d
  calls j := by
    rw [phase, Function.update_apply]
    split
    · exact hp
    · next hjk =>
      refine Phase.laden_of_unlocked ?_
      by_contra hlocks
      exact hjk (hl.unique (by simpa using hlocks) hk)

theorem Laden.frame (h : Laden s) (phase : t.phase = s.phase)
    (orders : ∀ c, (t.conns c).order = (s.conns c).order) (configs : t.configs = s.configs) :
    Laden t := by
  have hp : (s.phase 0).Laden t.conns := by
    have hzero := h.calls 0
    cases hphase : s.phase 0 with
    | openingChannel c | redeclaring c rest =>
      rw [hphase] at hzero
      simpa [Phase.Laden, orders] using hzero
    | _ => trivial
  exact h.move (k := 0) hp (by rw [phase, Function.update_eq_self]) orders configs

theorem order_setConn {conn : Conn} (h : conn.order = (s.conns c).order) (d : ℕ) :
    ((s.setConn c conn).conns d).order = (s.conns d).order := by
  show (Function.update s.conns c conn d).order = _
  rw [Function.update_apply]
  split
  · next hd => rw [h, hd]
  · rfl

/-- A replay that goes on has read something. -/
theorem read_more {order : List QueueConfig} (hs : stepRead s k order = some t) :
    ∃ c, s.phase k = .reading c ∧ order.Perm s.configs ∧
      (t = (s.setConn c { s.conns c with replay := .finished }).finish k (.done (.ok c)) ∨
        order ≠ [] ∧ t = (s.setConn c { s.conns c with
          order := order, replay := .running }).setPhase k (.openingChannel c)) := by
  grind [stepRead, List.isPerm_iff]

theorem redeclare_more {accepted : Bool} (hs : stepRedeclare s k accepted = some t) :
    ∃ c config rest conn, s.phase k = .redeclaring c (config :: rest) ∧
      conn.order = (s.conns c).order ∧
      (rest ≠ [] ∧ t = (s.setConn c conn).setPhase k (.redeclaring c rest) ∨
        t = (s.setConn c conn).setPhase k (.closingChannel c)) := by
  grind [stepRedeclare]

/-- What a step does to the calls and to what they have to replay. -/
inductive Moves (s t : State) (a : Action) : Prop where
  | own (k : ℕ) (p : Phase) (caller : a.caller = some k)
      (laden : (s.phase k).Laden s.conns → p.Laden t.conns)
      (phase : t.phase = Function.update s.phase k p)
      (orders : ∀ c, (t.conns c).order = (s.conns c).order) (configs : t.configs = s.configs)
  /-- The holder of the mutex has a new connection, or has read what there is to replay. -/
  | held (k c : ℕ) (p : Phase) (conn : Conn) (caller : a.caller = some k)
      (locks : (s.phase k).locks = true) (laden : p.Laden t.conns)
      (bound : conn.order.length ≤ s.configs.length)
      (phase : t.phase = Function.update s.phase k p)
      (conns : t.conns = Function.update s.conns c conn) (configs : t.configs = s.configs)
  | others (caller : a.caller = none) (phase : t.phase = s.phase)
      (orders : ∀ c, (t.conns c).order = (s.conns c).order) (configs : t.configs = s.configs)
  | remembered (config : QueueConfig) (action : a = .remember config)
      (state : t = { s with configs := remember s.configs config })

theorem moves_of_step (hs : step s a = some t) : Moves s t a := by
  have same : ∀ c, (s.conns c).order = (s.conns c).order := fun _ => rfl
  cases a with
  | call k =>
    obtain ⟨-, rfl⟩ := call_cases hs
    exact .own k (.checking false) rfl (fun _ => trivial) rfl same rfl
  | check k =>
    obtain ⟨locked, -, ⟨-, rfl⟩ | ⟨-, rfl⟩⟩ := check_cases hs
    · exact .own k (.done closed) rfl (fun _ => trivial) rfl same rfl
    · exact .own k (.peeking locked) rfl (fun _ => trivial) rfl same rfl
  | peek k =>
    obtain ⟨locked, -, rfl⟩ := peek_cases hs
    exact .own k (.judging locked s.current) rfl (fun _ => trivial) rfl same rfl
  | judge k =>
    obtain ⟨locked, c, -, ⟨-, rfl⟩ | ⟨-, ⟨-, rfl⟩ | ⟨-, rfl⟩ | rfl⟩⟩ := judge_cases hs
    · exact .own k (.done (.ok c)) rfl (fun _ => trivial) rfl same rfl
    · exact .own k .queued rfl (fun _ => trivial) rfl same rfl
    · exact .own k (.pacing 0 none) rfl (fun _ => trivial) rfl same rfl
    · exact .own k (.done _) rfl (fun _ => trivial) rfl same rfl
  | lock k =>
    obtain ⟨-, -, rfl⟩ := lock_cases hs
    exact .own k (.checking true) rfl (fun _ => trivial) rfl same rfl
  | pace k delay =>
    obtain ⟨failures, last, -, ⟨-, rfl⟩ | ⟨d, -, -, rfl⟩ | ⟨d, -, rfl⟩⟩ := pace_cases hs
    · exact .own k (.done _) rfl (fun _ => trivial) rfl same rfl
    · exact .own k (.opening failures last) rfl (fun _ => trivial) rfl same rfl
    · exact .own k (.sleeping failures last) rfl (fun _ => trivial) rfl same rfl
  | wake k =>
    obtain ⟨failures, last, -, ⟨-, rfl⟩ | ⟨-, rfl⟩⟩ := wake_cases hs
    · exact .own k (.done closed) rfl (fun _ => trivial) rfl same rfl
    · exact .own k (.opening failures last) rfl (fun _ => trivial) rfl same rfl
  | «open» k =>
    obtain ⟨failures, last, -, ⟨-, rfl⟩ | ⟨-, rfl⟩⟩ := open_cases hs
    · exact .own k (.done closed) rfl (fun _ => trivial) rfl same rfl
    · exact .own k (.dialling failures) rfl (fun _ => trivial) rfl same rfl
  | dial k failed =>
    obtain ⟨failures, hk, ⟨e, -, rfl⟩ | ⟨-, rfl⟩⟩ := dial_cases hs
    · exact .own k (.pacing (failures + 1) (some e)) rfl (fun _ => trivial) rfl same rfl
    · exact .held k _ (.dialled s.next) _ rfl (by rw [hk]; rfl) trivial (Nat.zero_le _) rfl rfl rfl
  | recheck k =>
    obtain ⟨c, -, ⟨-, rfl⟩ | ⟨-, rfl⟩⟩ := recheck_cases hs
    · exact .own k (.closingQuietly c) rfl (fun _ => trivial) rfl same rfl
    · exact .own k (.installing c) rfl (fun _ => trivial) rfl same rfl
  | closeQuietly k =>
    obtain ⟨c, -, rfl⟩ := closeQuietly_cases hs
    exact .own k (.done closed) rfl (fun _ => trivial) rfl (order_setConn rfl) rfl
  | install k =>
    obtain ⟨c, -, rfl⟩ := install_cases hs
    exact .own k (.bumping c) rfl (fun _ => trivial) rfl (order_setConn rfl) rfl
  | bump k =>
    obtain ⟨c, -, rfl⟩ := bump_cases hs
    exact .own k (.reading c) rfl (fun _ => trivial) rfl same rfl
  | read k order =>
    obtain ⟨c, hk, hperm, rfl | ⟨hsome, rfl⟩⟩ := read_more hs
    · exact .own k (.done (.ok c)) rfl (fun _ => trivial) rfl (order_setConn rfl) rfl
    · refine .held k c (.openingChannel c) _ rfl (by rw [hk]; rfl) ?_ hperm.length_eq.le rfl rfl rfl
      show (Function.update s.conns c _ c).order ≠ []
      rw [Function.update_self]
      exact hsome
  | openChannel k opened =>
    obtain ⟨c, hk, rfl | rfl⟩ := openChannel_cases hs
    · refine .own k (.redeclaring c (s.conns c).order) rfl (fun hladen => ?_) rfl same rfl
      rw [hk] at hladen
      exact ⟨hladen, le_rfl⟩
    · exact .own k (.done (.ok c)) rfl (fun _ => trivial) rfl (order_setConn rfl) rfl
  | redeclare k accepted =>
    obtain ⟨c, config, rest, conn, hk, hconn, ⟨hsome, rfl⟩ | rfl⟩ := redeclare_more hs
    · refine .own k (.redeclaring c rest) rfl (fun hladen => ?_) rfl (order_setConn hconn) rfl
      rw [hk] at hladen
      refine ⟨hsome, ?_⟩
      have horder : ((s.setConn c conn).conns c).order = _ := order_setConn hconn c
      show rest.length ≤ ((s.setConn c conn).conns c).order.length
      rw [horder]
      exact (Nat.le_succ _).trans hladen.2
    · exact .own k (.closingChannel c) rfl (fun _ => trivial) rfl (order_setConn hconn) rfl
  | closeChannel k =>
    obtain ⟨c, -, rfl⟩ := closeChannel_cases hs
    exact .own k (.done (.ok c)) rfl (fun _ => trivial) rfl same rfl
  | cancel k =>
    obtain ⟨-, -, rfl⟩ | ⟨c, -, rfl⟩ | ⟨c, -, -, rfl⟩ := cancel_cases hs
    · exact .own k .cancelled rfl (fun _ => trivial) rfl same rfl
    · exact .own k .cancelled rfl (fun _ => trivial) rfl (order_setConn rfl) rfl
    · exact .own k .cancelled rfl (fun _ => trivial) rfl (order_setConn rfl) rfl
  | subscribe k =>
    obtain ⟨c, -, -, rfl⟩ := subscribe_cases hs
    exact .others rfl rfl same rfl
  | mark j | markAgain j =>
    obtain ⟨u, hu, rfl⟩ := Option.map_eq_some_iff.mp hs
    obtain ⟨-, rfl⟩ := closer_cases hu
    exact .others rfl rfl same rfl
  | drain j | peekCurrent j =>
    obtain ⟨-, rfl⟩ := closer_cases hs
    exact .others rfl rfl same rfl
  | closeCurrent j =>
    obtain ⟨c, -, rfl⟩ := closeCurrent_cases hs
    exact .others rfl rfl (order_setConn rfl) rfl
  | drop c =>
    obtain rfl := Option.some.inj hs
    exact .others rfl rfl (order_setConn rfl) rfl
  | remember config =>
    obtain rfl := Option.some.inj hs
    exact .remembered config rfl rfl

theorem Laden.step (h : Laden s) (hl : Locked s) (hs : ConnectionHandle.step s a = some t) :
    Laden t := by
  cases moves_of_step hs with
  | own k p _ laden phase orders configs => exact h.move (laden (h.calls k)) phase orders configs
  | held k c p conn _ locks laden bound phase conns configs =>
    exact h.hold hl locks laden bound phase conns configs
  | others _ phase orders configs => exact h.frame phase orders configs
  | remembered config _ state =>
    subst state
    exact ⟨remember_nodup h.names config,
      fun c => (h.orders c).trans (remember_length h.names config), h.calls⟩

@[simp] theorem finish_phase (s : State) (k : ℕ) (p : Phase) : (s.finish k p).phase k = p :=
  Function.update_self _ _ _

@[simp] theorem setPhase_phase (s : State) (k : ℕ) (p : Phase) : (s.setPhase k p).phase k = p :=
  Function.update_self _ _ _

def Action.cancels : Action → Bool
  | .cancel _ => true
  | _ => false

end Queuey.Rabbit.ConnectionHandle
