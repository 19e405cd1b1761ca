import Queuey.Rabbit.Declare

/-!
# What a declare leaves to a reconnect

A config that has been recorded is in the map that the next replay reads, and was declared
over the current connection or read by its replay. A config that is declared and not yet
recorded has only its own connection; a replay must not read the map just then.
-/
namespace Queuey.Rabbit.ConnectionHandle

variable {s t : State} {k c : ℕ} {a : Action}

/-- The replay on the current connection has yet to read the map. -/
def State.Unread (s : State) : Prop :=
  (s.conns s.current).redialled = true ∧ (s.conns s.current).replay = .unstarted

/-- What a step other than a `remember` may do to what the current connection's replay has
read: a swap starts anew, the replay reads the map, and nothing else touches it. -/
inductive Watched (s t : State) (a : Action) : Prop where
  | swapped (unread : t.Unread)
  | read (k : ℕ) (order : List QueueConfig) (action : a = .read k order)
    (reading : s.phase k = .reading s.current) (current : t.current = s.current)
    (all : ∀ y ∈ s.configs, y ∈ (t.conns s.current).order)
  | kept (current : t.current = s.current)
    (order : (t.conns s.current).order = (s.conns s.current).order)
    (unread : s.Unread → t.Unread)

/-- The current connection changes neither its order nor its replay. -/
theorem Watched.same (current : t.current = s.current)
    (order : (t.conns s.current).order = (s.conns s.current).order)
    (redialled : (t.conns s.current).redialled = (s.conns s.current).redialled)
    (replay : (t.conns s.current).replay = (s.conns s.current).replay) : Watched s t a := by
  refine .kept current order fun hu => ?_
  unfold State.Unread at hu ⊢
  rw [current, redialled, replay]
  exact hu

theorem Watched.frame (current : t.current = s.current) (conns : t.conns = s.conns) :
    Watched s t a :=
  .same current (by rw [conns]) (by rw [conns]) (by rw [conns])

/-- One connection changes; if it is the current one, its replay had read the map before. -/
theorem Watched.update {conn : Conn} (current : t.current = s.current)
    (conns : t.conns = Function.update s.conns c conn)
    (order : conn.order = (s.conns c).order) (redialled : conn.redialled = (s.conns c).redialled)
    (replay : conn.replay = (s.conns c).replay ∨ (s.conns c).replay ≠ .unstarted) :
    Watched s t a := by
  by_cases hc : s.current = c
  · have hconn : t.conns s.current = conn := by rw [conns, hc, Function.update_self]
    obtain hsame | hread := replay
    · exact .same current (by rw [hconn, order, hc]) (by rw [hconn, redialled, hc])
        (by rw [hconn, hsame, hc])
    · refine .kept current (by rw [hconn, order, hc]) fun hu => absurd hu.2 ?_
      rwa [hc]
  · have hconn : t.conns s.current = s.conns s.current := by
      rw [conns, Function.update_of_ne hc]
    exact .same current (by rw [hconn]) (by rw [hconn]) (by rw [hconn])

theorem watched_read {order : List QueueConfig} (hs : stepRead s k order = some t) :
    Watched s t (.read k order) := by
  unfold stepRead at hs
  split at hs
  · next c hk =>
    split_ifs at hs with hperm
    rw [List.isPerm_iff] at hperm
    by_cases hc : c = s.current
    · subst hc
      split at hs
      · obtain rfl := Option.some.inj hs
        refine .read k _ rfl hk rfl fun y hy => ?_
        have hnil := hperm.mem_iff.mpr hy
        cases hnil
      · obtain rfl := Option.some.inj hs
        refine .read k _ rfl hk rfl fun y hy => ?_
        simpa [State.setPhase, State.setConn] using hperm.mem_iff.mpr hy
    · have hne : s.current ≠ c := fun heq => hc heq.symm
      split at hs <;> obtain rfl := Option.some.inj hs <;>
        exact .same rfl (by simp [State.finish, State.setPhase, State.setConn, hne])
          (by simp [State.finish, State.setPhase, State.setConn, hne])
          (by simp [State.finish, State.setPhase, State.setConn, hne])
  · cases hs

theorem watched_cancel (h : Tracked s) (hs : stepCancel s k = some t) :
    Watched s t (.cancel k) := by
  have hfits := h.fits k
  unfold stepCancel at hs
  split at hs
  · obtain rfl := Option.some.inj hs
    exact .frame rfl rfl
  · obtain rfl := Option.some.inj hs
    exact .frame rfl rfl
  · obtain rfl := Option.some.inj hs
    exact .frame rfl rfl
  · obtain rfl := Option.some.inj hs
    exact .frame rfl rfl
  · obtain rfl := Option.some.inj hs
    exact .update rfl rfl rfl rfl (.inl rfl)
  · next c hk =>
    obtain rfl := Option.some.inj hs
    rw [hk] at hfits
    exact .update rfl rfl rfl rfl (.inr (by rw [hfits.2.2.1]; nofun))
  · next c rest hk =>
    obtain rfl := Option.some.inj hs
    rw [hk] at hfits
    exact .update rfl rfl rfl rfl (.inr (by rw [hfits.2.2.1]; nofun))
  · cases hs

/-- Only a `remember` changes the map. -/
theorem step_configs (hs : step s a = some t) (hne : ∀ config, a ≠ .remember config) :
    t.configs = s.configs := by
  cases a with
  | remember config => exact absurd rfl (hne config)
  | _ =>
    grind [step, stepCheck, stepPeek, stepJudge, stepLock, stepPace, stepWake, stepOpen, stepDial,
      stepRecheck, stepCloseQuietly, stepInstall, stepBump, stepRead, stepOpenChannel,
      stepRedeclare, stepCloseChannel, stepCancel, stepSubscribe, stepCloser, State.finish,
      State.setPhase, State.setConn, State.setCloser]

theorem watched_step (h : Tracked s) (turn : InTurn s) (hs : step s a = some t)
    (hne : ∀ config, a ≠ .remember config) : Watched s t a := by
  cases a with
  | remember config => exact absurd rfl (hne config)
  | install k =>
    obtain ⟨c, hk, rfl⟩ := install_cases hs
    have hfits := h.fits k
    rw [hk] at hfits
    refine .swapped ?_
    simpa [State.Unread, State.setConn] using ⟨hfits.1, hfits.2.2⟩
  | read k order => exact watched_read hs
  | cancel k => exact watched_cancel h hs
  | dial k failed =>
    obtain ⟨failures, -, ⟨e, -, rfl⟩ | ⟨-, rfl⟩⟩ := dial_cases hs
    · exact .frame rfl rfl
    · have hne : s.current ≠ s.next := turn.old.ne
      refine .same rfl ?_ ?_ ?_ <;> simp [State.setPhase, State.setConn, hne]
  | openChannel k opened =>
    have hfits := h.fits k
    obtain ⟨c, hk, rfl | rfl⟩ := openChannel_cases hs
    · exact .frame rfl rfl
    · rw [hk] at hfits
      exact .update rfl rfl rfl rfl (.inr (by rw [hfits.2.2.1]; simp))
  | redeclare k accepted =>
    have hfits := h.fits k
    obtain ⟨c, config, rest, hk, ⟨-, rfl⟩ | ⟨-, rfl⟩⟩ := redeclare_cases hs <;>
      rw [hk] at hfits <;>
      exact .update rfl rfl rfl rfl (.inr (by rw [hfits.2.2.1]; simp))
  | closeQuietly k =>
    obtain ⟨c, -, rfl⟩ := closeQuietly_cases hs
    exact .update rfl rfl rfl rfl (.inl rfl)
  | closeCurrent j =>
    obtain ⟨c, -, rfl⟩ := closeCurrent_cases hs
    exact .update rfl rfl rfl rfl (.inl rfl)
  | drop c =>
    obtain rfl := Option.some.inj hs
    exact .update rfl rfl rfl rfl (.inl rfl)
  | _ =>
    refine .frame ?_ ?_ <;>
      grind [step, stepCheck, stepPeek, stepJudge, stepLock, stepPace, stepWake, stepOpen,
        stepRecheck, stepBump, stepCloseChannel, stepSubscribe, stepCloser, State.finish,
        State.setPhase, State.setCloser]

theorem installed_update {d : ℕ} {conn : Conn} (hc : (s.conns c).installed = true)
    (hconn : (s.conns d).installed = true → conn.installed = true) :
    (Function.update s.conns d conn c).installed = true := by
  by_cases hcd : c = d
  · subst hcd
    simpa using hconn hc
  · simpa [hcd] using hc

/-- A connection once installed stays so. -/
theorem step_installed (turn : InTurn s) (hs : step s a = some t)
    (hc : (s.conns c).installed = true) : (t.conns c).installed = true := by
  cases a with
  | dial k failed =>
    have hne : c ≠ s.next := (turn.lt_next hc).ne
    obtain ⟨failures, -, ⟨e, -, rfl⟩ | ⟨-, rfl⟩⟩ := dial_cases hs
    · exact hc
    · simpa [State.setPhase, State.setConn, hne] using hc
  | install k =>
    obtain ⟨d, -, rfl⟩ := install_cases hs
    exact installed_update hc fun _ => rfl
  | closeQuietly k =>
    obtain ⟨d, -, rfl⟩ := closeQuietly_cases hs
    exact installed_update hc id
  | read k order =>
    obtain ⟨d, -, -, ⟨-, rfl⟩ | rfl⟩ := read_cases hs <;> exact installed_update hc id
  | openChannel k opened =>
    obtain ⟨d, -, rfl | rfl⟩ := openChannel_cases hs
    · exact hc
    · exact installed_update hc id
  | redeclare k accepted =>
    obtain ⟨d, config, rest, -, ⟨-, rfl⟩ | ⟨-, rfl⟩⟩ := redeclare_cases hs <;>
      exact installed_update hc id
  | cancel k =>
    obtain ⟨-, -, rfl⟩ | ⟨d, -, rfl⟩ | ⟨d, -, -, rfl⟩ := cancel_cases hs
    · exact hc
    · exact installed_update hc id
    · exact installed_update hc id
  | closeCurrent j =>
    obtain ⟨d, -, rfl⟩ := closeCurrent_cases hs
    exact installed_update hc id
  | drop d =>
    obtain rfl := Option.some.inj hs
    exact installed_update hc id
  | _ =>
    grind [step, stepCheck, stepPeek, stepJudge, stepLock, stepPace, stepWake, stepOpen,
      stepRecheck, stepBump, stepCloseChannel, stepSubscribe, stepCloser, State.finish,
      State.setPhase, State.setCloser]

end Queuey.Rabbit.ConnectionHandle

namespace Queuey.Rabbit.Declaring
open Transition ConnectionHandle

variable {κ : Type} {key : QueueConfig → κ} {s t : State} {j k c : ℕ} {x : QueueConfig} {p : Phase}
  {a : Action}

/-- Configs are told apart by `key`. No replay reads the map while a config is declared, over
another connection than its own, and not in the map yet; and what a config overwrites in the
map is the same by `key`. -/
def Prompt (key : QueueConfig → κ) (s : State) : Action → Prop
  | .handle (.read k _) => ∀ c, s.handle.phase k = .reading c → ∀ j d x rest,
      (s.calls j).phase = .recording d x rest → d = c ∨ ∃ y ∈ s.handle.configs, key y = key x
  | .record j => ∀ c x rest, (s.calls j).phase = .recording c x rest →
      ∀ y ∈ s.handle.configs, y.name = x.name → key y = key x
  | _ => True

/-- Declared over the current connection, or read by its replay. -/
def Covered (key : QueueConfig → κ) (s : State) (x : QueueConfig) : Prop :=
  ∃ y, key y = key x ∧
    ((s.handle.current, y) ∈ s.accepted ∨ y ∈ (s.handle.conns s.handle.current).order)

/-- What the call has still to record, of its own configs. -/
def Call.Listed (call : Call) (recorded : List QueueConfig) : Prop :=
  match call.phase with
  | .declaring _ rest => ∀ x ∈ call.configs, x ∈ rest ∨ x ∈ recorded
  | .recording _ x rest => ∀ y ∈ call.configs, y ∈ x :: rest ∨ y ∈ recorded
  | .closingChannel (.ok ()) | .done (.ok ()) => ∀ x ∈ call.configs, x ∈ recorded
  | _ => True

theorem Call.Listed.mono {call : Call} {recorded : List QueueConfig} (h : call.Listed recorded)
    (x : QueueConfig) : call.Listed (x :: recorded) := by
  unfold Call.Listed at h ⊢
  split
  · next hp =>
    rw [hp] at h
    exact fun y hy => (h y hy).imp id (List.mem_cons_of_mem x)
  · next hp =>
    rw [hp] at h
    exact fun y hy => (h y hy).imp id (List.mem_cons_of_mem x)
  · next hp =>
    rw [hp] at h
    exact fun y hy => List.mem_cons_of_mem x (h y hy)
  · next hp =>
    rw [hp] at h
    exact fun y hy => List.mem_cons_of_mem x (h y hy)
  · trivial

/-- Everything recorded is in the map, and covered unless the replay is still to read it. -/
structure Replayable (key : QueueConfig → κ) (s : State) : Prop where
  installed : ∀ j c, (s.calls j).phase.conn = some c → (s.handle.conns c).installed = true
  mapped : ∀ x ∈ s.recorded, ∃ y ∈ s.handle.configs, key y = key x
  covered : ∀ x ∈ s.recorded, s.handle.Unread ∨ Covered key s x
  pending : ∀ j c x rest, (s.calls j).phase = .recording c x rest →
    (c, x) ∈ s.accepted ∧ (c = s.handle.current ∨ s.handle.Unread ∨ Covered key s x)
  listed : ∀ j, (s.calls j).Listed s.recorded

/-- A call moves to a phase in which it has declared nothing that is not recorded. -/
theorem Replayable.put {call : Call} (h : Replayable key s)
    (conn : ∀ c, call.phase.conn = some c → (s.handle.conns c).installed = true)
    (recording : ∀ c x rest, call.phase ≠ .recording c x rest) (listed : call.Listed s.recorded) :
    Replayable key { s with calls := Function.update s.calls j call } := by
  have cases : ∀ i, Function.update s.calls j call i = if i = j then call else s.calls i :=
    fun i => Function.update_apply _ _ _ _
  refine ⟨fun i c hi => ?_, h.mapped, h.covered, fun i c x rest hi => ?_, fun i => ?_⟩
  · simp only [cases] at hi
    split_ifs at hi
    · exact conn c hi
    · exact h.installed i c hi
  · simp only [cases] at hi
    split_ifs at hi
    · exact absurd hi (recording c x rest)
    · exact h.pending i c x rest hi
  · simp only [cases]
    split_ifs
    · exact listed
    · exact h.listed i

/-- A call moves to a phase in which it uses no connection. -/
theorem Replayable.apart {call : Call} (h : Replayable key s) (hconn : call.phase.conn = none)
    (listed : call.Listed s.recorded) :
    Replayable key { s with calls := Function.update s.calls j call } := by
  apply h.put _ _ listed
  · intro c hc
    rw [hconn] at hc
    cases hc
  · intro c x rest hphase
    rw [hphase] at hconn
    cases hconn

/-- The handle takes a step of its own. -/
theorem Replayable.handle {b : ConnectionHandle.Action} (h : Replayable key s)
    (below : Reachable ConnectionHandle.system s.handle) (prompt : Prompt key s (.handle b))
    (hs : stepHandle s b = some t) : Replayable key t := by
  obtain ⟨hne, handle, hstep, rfl⟩ := handle_cases hs
  have turn := reachable_inTurn below
  have hconfigs : handle.configs = s.handle.configs := step_configs hstep hne
  have mapped : ∀ x ∈ s.recorded, ∃ y ∈ handle.configs, key y = key x := by
    rw [hconfigs]
    exact h.mapped
  refine ⟨fun i c hi => step_installed turn hstep (h.installed i c hi), mapped, ?_, ?_, h.listed⟩
  · intro x hx
    obtain hnew | ⟨k, order, rfl, hk, hcur, hall⟩ | ⟨hcur, horder, hunread⟩ :=
      watched_step (reachable_tracked below) turn hstep hne
    · exact .inl hnew
    · obtain ⟨y, hy, hkey⟩ := h.mapped x hx
      refine .inr ⟨y, hkey, .inr ?_⟩
      rw [hcur]
      exact hall y hy
    · refine (h.covered x hx).imp hunread fun ⟨y, hkey, hy⟩ => ⟨y, hkey, ?_⟩
      rw [hcur, horder]
      exact hy
  · intro i c x rest hi
    obtain ⟨hacc, hcases⟩ := h.pending i c x rest hi
    refine ⟨hacc, ?_⟩
    obtain hnew | ⟨k, order, rfl, hk, hcur, hall⟩ | ⟨hcur, horder, hunread⟩ :=
      watched_step (reachable_tracked below) turn hstep hne
    · exact .inr (.inl hnew)
    · obtain rfl | ⟨y, hy, hkey⟩ := prompt s.handle.current hk i c x rest hi
      · exact .inl hcur.symm
      · refine .inr (.inr ⟨y, hkey, .inr ?_⟩)
        rw [hcur]
        exact hall y hy
    · refine hcases.imp (fun hc => hc.trans hcur.symm) (Or.imp hunread ?_)
      intro ⟨y, hkey, hy⟩
      refine ⟨y, hkey, ?_⟩
      rw [hcur, horder]
      exact hy

theorem Replayable.begin {configs : List QueueConfig} (h : Replayable key s)
    (below : Reachable ConnectionHandle.system s.handle) (hs : stepBegin s j k configs = some t) :
    Replayable key t := by
  obtain ⟨-, ⟨rfl, rfl⟩ | ⟨e, rfl⟩ | ⟨handle, hstep, rfl⟩⟩ := begin_cases hs
  · exact h.apart rfl fun _ hx => by cases hx
  · exact h.apart rfl trivial
  · have called : Replayable key
        { s with calls := Function.update s.calls j ⟨configs, .connecting k⟩ } :=
      h.apart rfl trivial
    have prompt : ∀ u, Prompt key u (.handle (.call k)) := fun _ => trivial
    exact called.handle below (prompt _) (by simp [stepHandle, hstep])

theorem Replayable.declare {failed : Option Failure} (h : Replayable key s)
    (below : Reachable ConnectionHandle.system s.handle) (hs : stepDeclare s j failed = some t) :
    Replayable key t := by
  obtain ⟨c, rest, hj, hdone⟩ := declare_cases hs
  have hlisted := h.listed j
  rw [Call.Listed, hj] at hlisted
  obtain ⟨rfl, rfl⟩ | ⟨e, rfl⟩ | ⟨config, later, rfl, hlive, rfl⟩ := hdone
  · refine h.apart rfl fun x hx => ?_
    exact (hlisted x hx).resolve_left List.not_mem_nil
  · exact h.apart rfl trivial
  · have hc : (s.handle.conns c).installed = true := h.installed j c (by rw [hj]; rfl)
    -- A live installed connection is the current one.
    have hcur : c = s.handle.current := by
      by_contra hne
      have hdead := ((reachable_inTurn below).replaced c hc hne).1
      rw [hlive] at hdead
      cases hdead
    have grown : ∀ x, Covered key s x → Covered key { s.setPhase j (.recording c config later) with
        accepted := (c, config) :: s.accepted } x := fun x ⟨y, hkey, hy⟩ =>
      ⟨y, hkey, hy.imp (List.mem_cons_of_mem _) id⟩
    refine ⟨fun i d hi => ?_, h.mapped, fun x hx => (h.covered x hx).imp id (grown x),
      fun i d x rest hi => ?_, fun i => ?_⟩
    · simp only [State.setPhase] at hi
      rw [Function.update_apply] at hi
      split_ifs at hi
      · obtain rfl := Option.some.inj hi
        exact hc
      · exact h.installed i d hi
    · simp only [State.setPhase] at hi
      rw [Function.update_apply] at hi
      split_ifs at hi
      · obtain ⟨rfl, rfl, rfl⟩ := Phase.recording.inj hi
        exact ⟨List.mem_cons_self, .inl hcur⟩
      · obtain ⟨hacc, hcases⟩ := h.pending i d x rest hi
        exact ⟨List.mem_cons_of_mem _ hacc, hcases.imp id (Or.imp id (grown x))⟩
    · simp only [State.setPhase]
      rw [Function.update_apply]
      split_ifs
      · exact hlisted
      · exact h.listed i

/-- What was declared over the current connection, or is still to be read, is recorded. -/
theorem Replayable.record (h : Replayable key s) (prompt : Prompt key s (.record j))
    (hs : stepRecord s j = some t) : Replayable key t := by
  obtain ⟨c, config, rest, hj, rfl⟩ := record_cases hs
  obtain ⟨hacc, hcases⟩ := h.pending j c config rest hj
  have hlisted := h.listed j
  rw [Call.Listed, hj] at hlisted
  have cases : ∀ i, Function.update s.calls j ⟨(s.calls j).configs, .declaring c rest⟩ i =
      if i = j then ⟨(s.calls j).configs, .declaring c rest⟩ else s.calls i :=
    fun i => Function.update_apply _ _ _ _
  refine ⟨fun i d hi => ?_, fun x hx => ?_, fun x hx => ?_, fun i d x later hi => ?_, fun i => ?_⟩
  · simp only [State.setPhase, cases] at hi
    split_ifs at hi
    · obtain rfl := Option.some.inj hi
      exact h.installed j c (by rw [hj]; rfl)
    · exact h.installed i d hi
  · obtain heq | hx := List.mem_cons.mp (show x ∈ config :: s.recorded from hx)
    · exact ⟨config, List.mem_cons_self, heq ▸ rfl⟩
    · obtain ⟨y, hy, hkey⟩ := h.mapped x hx
      by_cases hname : y.name = config.name
      · exact ⟨config, List.mem_cons_self, (prompt c config rest hj y hy hname).symm.trans hkey⟩
      · refine ⟨y, List.mem_cons_of_mem _ (List.mem_filter.mpr ⟨hy, ?_⟩), hkey⟩
        simpa using hname
  · obtain heq | hx := List.mem_cons.mp (show x ∈ config :: s.recorded from hx)
    · obtain hcur | hrest := hcases
      · exact .inr ⟨config, heq ▸ rfl, .inl (hcur ▸ hacc)⟩
      · exact heq ▸ hrest
    · exact h.covered x hx
  · simp only [State.setPhase, cases] at hi
    split_ifs at hi
    exact h.pending i d x later hi
  · simp only [State.setPhase, cases]
    split_ifs
    · intro x hx
      obtain hx | hx := hlisted x hx
      · obtain heq | hx := List.mem_cons.mp hx
        · exact .inr (heq ▸ List.mem_cons_self)
        · exact .inl hx
      · exact .inr (List.mem_cons_of_mem _ hx)
    · exact (h.listed i).mono config

theorem Replayable.step (h : Replayable key s)
    (below : Reachable ConnectionHandle.system s.handle) (prompt : Prompt key s a)
    (hs : Declaring.step s a = some t) : Replayable key t := by
  cases a with
  | handle b => exact h.handle below prompt hs
  | begin j k configs => exact h.begin below hs
  | resolve j =>
    obtain ⟨k, -, ⟨c, hk, rfl⟩ | ⟨e, rfl⟩⟩ := resolve_cases hs
    · have hfits := (reachable_tracked below).fits k
      rw [hk] at hfits
      refine h.put (fun d hd => ?_) (by simp) trivial
      obtain rfl := Option.some.inj hd
      exact hfits.1
    · exact h.apart rfl trivial
  | openChannel j failed =>
    obtain ⟨c, hj, rfl | ⟨e, rfl⟩⟩ := openChannel_cases hs
    · refine h.put (fun d hd => ?_) (by simp) fun x hx => .inl hx
      obtain rfl := Option.some.inj hd
      exact h.installed j c (by rw [hj]; rfl)
    · exact h.apart rfl trivial
  | declare j failed => exact h.declare below hs
  | record j => exact h.record prompt hs
  | closeChannel j =>
    obtain ⟨result, hj, rfl⟩ := closeChannel_cases hs
    refine h.apart rfl ?_
    have hlisted := h.listed j
    unfold Call.Listed at hlisted ⊢
    rw [hj] at hlisted
    match result with
    | .ok () => exact hlisted
    | .error e => trivial
  | cancel j =>
    obtain rfl := cancel_cases hs
    exact h.apart rfl trivial

theorem replayable_of_reach (h : Reach system (Prompt key) s) : Replayable key s := by
  refine h.strengthen (fun _ => reachable_handle) (fun s hs => ?_) fun _ _ _ below _ hi prompt hs =>
    hi.step below prompt hs
  obtain ⟨reconnects, deferredSuffix, rfl⟩ := hs
  exact {
    installed := fun _ _ hc => by cases hc
    mapped := fun _ hx => by cases hx
    covered := fun _ hx => by cases hx
    pending := fun _ _ _ _ hp => by cases hp
    listed := fun _ => trivial }

/-- As long as every replay finds declared configs recorded, a config of a declare that has
returned `Ok` was declared over the installed connection or read by its replay. -/
theorem declare_survives (key : QueueConfig → κ) (h : Reach system (Prompt key) s)
    (hj : (s.calls j).phase = .done (.ok ()))
    (hquiet : ∀ k, (s.handle.phase k).replays ≠ some s.handle.current) :
    ∀ x ∈ (s.calls j).configs, ∃ y, key y = key x ∧
      ((s.handle.current, y) ∈ s.accepted ∨ y ∈ (s.handle.conns s.handle.current).order) := by
  intro x hx
  have replayable := replayable_of_reach h
  have tracked := reachable_tracked (reachable_handle h)
  have hlisted := replayable.listed j
  rw [Call.Listed, hj] at hlisted
  refine (replayable.covered x (hlisted x hx)).resolve_left fun hunread => ?_
  obtain ⟨k, hk⟩ := tracked.carried s.handle.current hunread.1 tracked.current
    (by rw [hunread.2]; rfl)
  exact hquiet k hk

/-- A queue that a broker restart loses. -/
def jobs : QueueConfig := { QueueConfig.new "jobs" with durable := false }

/-- An `ensure_connected` call up to the judgement on the connection it has read. -/
def asks (k : ℕ) : List Action :=
  [.handle (.check k), .handle (.peek k), .handle (.judge k)]

def declares : List Action :=
  .begin 0 0 [jobs] :: asks 0 ++ [.resolve 0, .openChannel 0 none, .declare 0 none]

/-- The connection drops, and call 1 replaces it, up to the replay. -/
def reconnects : List Action :=
  .handle (.drop 0) :: .handle (.call 1) :: asks 1 ++ .handle (.lock 1) :: asks 1 ++
    [.handle (.pace 1 (some .zero)), .handle (.open 1), .handle (.dial 1 none),
      .handle (.recheck 1), .handle (.install 1), .handle (.bump 1)]

/-- A declare returns before the connection drops; the replay declares its queue again. -/
theorem declare_survives_drop : ∃ s, Reach system (Prompt QueueConfig.name) s ∧
    s.handle.current = 1 ∧ (s.handle.conns 1).live = true ∧ ∃ y, y.name = "jobs" ∧
      ((1, y) ∈ s.accepted ∨ y ∈ (s.handle.conns 1).order) := by
  have start : Reach system (Prompt QueueConfig.name) (initial true ".deferred") :=
    .start ⟨true, _, rfl⟩
  have declared := start.guardedRun declares
    (guarded_of_forall (by simp [declares, asks, Prompt]) _) rfl
  have recorded := declared.next (a := Action.record 0) (fun c x rest _ y hy => nomatch hy) rfl
  have dropped := recorded.guardedRun ([Action.declare 0 none, .closeChannel 0] ++ reconnects)
    (guarded_of_forall (by simp [reconnects, asks, Prompt]) _) rfl
  have read := dropped.next (a := Action.handle (.read 1 [jobs]))
    (fun c _ j d x rest hj => by rcases j with _ | j <;> cases hj) rfl
  have reached := read.guardedRun [.handle (.openChannel 1 true), .handle (.redeclare 1 true),
    .handle (.closeChannel 1)] (guarded_of_forall (by simp [Prompt]) _) rfl
  refine ⟨_, reached, rfl, rfl, ?_⟩
  apply declare_survives QueueConfig.name reached (j := 0) rfl _ jobs (.head _)
  intro k
  rcases k with _ | _ | k <;> nofun

/-- The connection is replaced between the declaration and its recording: the declare returns
`Ok`, and its queue is neither declared on the connection nor read by its replay. -/
theorem declare_missed_by_replay : ∃ s, Reachable system s ∧
    (s.calls 0).phase = .done (.ok ()) ∧ jobs ∈ (s.calls 0).configs ∧
    (s.handle.conns s.handle.current).live = true ∧
    (∀ k, (s.handle.phase k).replays ≠ some s.handle.current) ∧
    ∀ y, y.name = jobs.name →
      (s.handle.current, y) ∉ s.accepted ∧ y ∉ (s.handle.conns s.handle.current).order := by
  have start : Reachable system (initial true ".deferred") := .start ⟨true, _, rfl⟩
  have reached := start.run (declares ++ reconnects ++
    [Action.handle (.read 1 []), .record 0, .declare 0 none, .closeChannel 0]) rfl
  refine ⟨_, reached, rfl, .head _, rfl, fun k => ?_, fun y _ => ⟨fun hy => ?_, nofun⟩⟩
  · rcases k with _ | _ | k <;> nofun
  · rcases hy with _ | ⟨_, hy⟩
    cases hy

end Queuey.Rabbit.Declaring
