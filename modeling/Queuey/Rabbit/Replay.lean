import Queuey.Rabbit.SingleFlight

/-!
# What a reconnected connection has had replayed

A connection whose replay is under way belongs to the holder of the mutex. So a call that
waited for the mutex, or saw the connection when its replay was over, is answered after
the replay. What the replay attempted is a prefix of the map it read, cut after the first
refused declaration.
-/
namespace Queuey.Rabbit.ConnectionHandle
open Transition

variable {s t : State} {k c : ℕ} {p : Phase}

/-- The replay is over and had read every queue known before the dial. It made all its
declarations, or those up to the first refused one; or its channel did not open. -/
def Conn.Replayed (conn : Conn) : Prop :=
  conn.known ⊆ conn.order.map QueueConfig.name ∧
    (conn.replay = .unopened ∨
      conn.replay = .finished ∧ (conn.attempted = conn.order.map (·, true) ∨
        ∃ before config after, conn.order = before ++ config :: after ∧
          conn.attempted = before.map (·, true) ++ [(config, false)]))

/-- What each stage of a replay has done so far. -/
def Conn.Staged (conn : Conn) (names : List String) : Prop :=
  match conn.replay with
  | .unstarted => conn.order = [] ∧ conn.attempted = [] ∧ conn.known ⊆ names
  | .running => conn.known ⊆ conn.order.map QueueConfig.name
  | .finished | .unopened => conn.Replayed
  | .abandoned => True

theorem remember_names (configs : List QueueConfig) (config : QueueConfig) :
    configs.map QueueConfig.name ⊆ (remember configs config).map QueueConfig.name := by
  intro name hname
  obtain ⟨known, hmem, rfl⟩ := List.mem_map.mp hname
  by_cases heq : known.name = config.name
  · simp [remember, heq]
  · refine List.mem_map.mpr ⟨known, ?_, rfl⟩
    simp [remember, hmem, heq]

/-- A name once remembered stays. -/
theorem Conn.Staged.remember {conn : Conn} {configs : List QueueConfig} (config : QueueConfig)
    (h : conn.Staged (configs.map QueueConfig.name)) :
    conn.Staged ((remember configs config).map QueueConfig.name) := by
  cases hr : conn.replay with
  | unstarted =>
    rw [Conn.Staged, hr] at h ⊢
    exact ⟨h.1, h.2.1, List.Subset.trans h.2.2 (remember_names configs config)⟩
  | _ =>
    rw [Conn.Staged, hr] at h ⊢
    exact h

/-- What a call in this phase has made of its connection. -/
def Phase.Fits (conns : ℕ → Conn) (hurried : Bool) : Phase → Prop
  | judging _ c => (conns c).installed = true
  | dialled c | closingQuietly c | installing c =>
    (conns c).redialled = true ∧ (conns c).installed = false ∧ (conns c).replay = .unstarted
  | bumping c | reading c =>
    (conns c).redialled = true ∧ (conns c).installed = true ∧ (conns c).replay = .unstarted
  | openingChannel c =>
    (conns c).redialled = true ∧ (conns c).installed = true ∧ (conns c).replay = .running ∧
      (conns c).attempted = []
  | redeclaring c rest =>
    (conns c).redialled = true ∧ (conns c).installed = true ∧ (conns c).replay = .running ∧
      ∃ before, (conns c).order = before ++ rest ∧ (conns c).attempted = before.map (·, true)
  | closingChannel c => (conns c).installed = true ∧ (conns c).replay = .finished
  | done (.ok c) =>
    (conns c).installed = true ∧
      ((conns c).redialled = true → hurried = false → (conns c).replay.pending = false)
  | _ => True

/-- Every connection's replay is over, abandoned, or carried by a call. -/
structure Tracked (s : State) : Prop where
  current : (s.conns s.current).installed = true
  fresh : ∀ c, s.next ≤ c → (s.conns c).redialled = false ∧ (s.conns c).installed = false
  fits : ∀ k, (s.phase k).Fits s.conns (s.hurried k)
  staged : ∀ c, (s.conns c).redialled = true →
    (s.conns c).Staged (s.configs.map QueueConfig.name)
  carried : ∀ c, (s.conns c).redialled = true → (s.conns c).installed = true →
    (s.conns c).replay.pending = true → ∃ k, (s.phase k).replays = some c

/-- A call without the mutex is not affected by how the holder's connection changes. -/
theorem Phase.Fits.mono {conns conns' : ℕ → Conn} {hurried : Bool} (h : p.Fits conns hurried)
    (hp : p.locks = false)
    (grow : ∀ c, (conns c).installed = true → (conns' c).installed = true ∧
      (conns' c).redialled = (conns c).redialled ∧
      ((conns' c).replay.pending = true → (conns c).replay.pending = true)) :
    p.Fits conns' hurried := by
  cases p with
  | judging locked c => exact (grow c h).1
  | done result =>
    cases result with
    | error e => trivial
    | ok c =>
      obtain ⟨hi, hover⟩ := h
      obtain ⟨hi', hr, hpend⟩ := grow c hi
      refine ⟨hi', fun hre hh => ?_⟩
      have hdone := hover (hr ▸ hre) hh
      by_contra hne
      rw [hpend (by simpa using hne)] at hdone
      cases hdone
  | idle | checking | peeking | queued | cancelled => trivial
  | _ => cases hp

/-- A call moves on without touching a connection. -/
theorem Tracked.move (h : Tracked s) (fits : p.Fits s.conns (t.hurried k))
    (replays : p.replays = (s.phase k).replays) (phase : t.phase = Function.update s.phase k p)
    (conns : t.conns = s.conns) (hurried : ∀ j, j ≠ k → t.hurried j = s.hurried j)
    (current : t.current = s.current) (next : t.next = s.next)
    (configs : t.configs = s.configs) : Tracked t where
  current := by rw [conns, current]; exact h.current
  fresh := by rw [conns, next]; exact h.fresh
  fits j := by
    rw [phase, conns]
    by_cases hj : j = k
    · subst j
      simpa using fits
    · rw [Function.update_of_ne hj, hurried j hj]
      exact h.fits j
  staged := by rw [conns, configs]; exact h.staged
  carried c hr hi hp := by
    rw [conns] at hr hi hp
    obtain ⟨j, hj⟩ := h.carried c hr hi hp
    refine ⟨j, ?_⟩
    rw [phase]
    by_cases hjk : j = k
    · subst j
      simpa [replays] using hj
    · simpa [hjk] using hj

theorem Tracked.setPhase (h : Tracked s) (fits : p.Fits s.conns (s.hurried k))
    (replays : p.replays = (s.phase k).replays) : Tracked (s.setPhase k p) :=
  h.move fits replays rfl rfl (fun _ _ => rfl) rfl rfl rfl

theorem Tracked.finish (h : Tracked s) (fits : p.Fits s.conns (s.hurried k))
    (replays : p.replays = (s.phase k).replays) : Tracked (s.finish k p) :=
  h.move fits replays rfl rfl (fun _ _ => rfl) rfl rfl rfl

theorem Tracked.frame (h : Tracked s) (phase : t.phase = s.phase) (conns : t.conns = s.conns)
    (hurried : t.hurried = s.hurried) (current : t.current = s.current) (next : t.next = s.next)
    (configs : t.configs = s.configs) : Tracked t :=
  h.move (k := 0) (p := s.phase 0) (hurried ▸ h.fits 0) rfl (by rw [phase, Function.update_eq_self])
    conns (fun _ _ => by rw [hurried]) current next configs

/-- The holder of the mutex moves on and changes its connection. -/
theorem Tracked.hold {conn : Conn} (h : Tracked s) (hl : Locked s)
    (hk : (s.phase k).locks = true) (fits : p.Fits t.conns (s.hurried k))
    (grow : (s.conns c).installed = true → conn.installed = true ∧
      conn.redialled = (s.conns c).redialled ∧
      (conn.replay.pending = true → (s.conns c).replay.pending = true))
    (staged : conn.redialled = true → conn.Staged (s.configs.map QueueConfig.name))
    (carried : conn.redialled = true → conn.installed = true → conn.replay.pending = true →
      p.replays = some c)
    (others : ∀ d, d ≠ c → (s.phase k).replays ≠ some d) (old : c < t.next)
    (phase : t.phase = Function.update s.phase k p)
    (conns : t.conns = Function.update s.conns c conn) (hurried : t.hurried = s.hurried)
    (current : t.current = s.current ∨ t.current = c ∧ conn.installed = true)
    (next : s.next ≤ t.next) (configs : t.configs = s.configs) : Tracked t where
  current := by
    rcases current with hc | ⟨hc, hi⟩
    · rw [hc, conns]
      by_cases hcc : s.current = c
      · rw [hcc, Function.update_self]
        exact (grow (hcc ▸ h.current)).1
      · rw [Function.update_of_ne hcc]
        exact h.current
    · rw [hc, conns, Function.update_self]
      exact hi
  fresh d hd := by
    have hdc : d ≠ c := by omega
    rw [conns, Function.update_of_ne hdc]
    exact h.fresh d (next.trans hd)
  fits j := by
    rw [phase, hurried]
    by_cases hj : j = k
    · subst j
      simpa using fits
    · rw [Function.update_of_ne hj]
      refine (h.fits j).mono ?_ fun d hd => ?_
      · by_contra hne
        exact hj (hl.unique (by simpa using hne) hk)
      · rw [conns]
        by_cases hdc : d = c
        · subst d
          simpa using grow hd
        · simpa [hdc] using hd
  staged d hd := by
    rw [configs]
    rw [conns] at hd ⊢
    by_cases hdc : d = c
    · subst d
      rw [Function.update_self] at hd ⊢
      exact staged hd
    · rw [Function.update_of_ne hdc] at hd ⊢
      exact h.staged d hd
  carried d hr hi hp := by
    rw [conns] at hr hi hp
    rw [phase]
    by_cases hdc : d = c
    · subst d
      rw [Function.update_self] at hr hi hp
      exact ⟨k, by rw [Function.update_self]; exact carried hr hi hp⟩
    · rw [Function.update_of_ne hdc] at hr hi hp
      obtain ⟨j, hj⟩ := h.carried d hr hi hp
      have hjk : j ≠ k := by
        rintro rfl
        exact others d hdc hj
      exact ⟨j, by rw [Function.update_of_ne hjk]; exact hj⟩

/-- A connection that drops keeps its history. -/
theorem Phase.Fits.drop {conns : ℕ → Conn} {hurried : Bool} (h : p.Fits conns hurried) (c : ℕ) :
    p.Fits (Function.update conns c { conns c with live := false }) hurried := by
  have same : ∀ d, ∃ live, Function.update conns c { conns c with live := false } d =
      { conns d with live := live } := by
    intro d
    by_cases hd : d = c
    · subst d
      exact ⟨false, by simp⟩
    · exact ⟨(conns d).live, by simp [hd]⟩
  generalize Function.update conns c { conns c with live := false } = conns' at same
  cases p with
  | done result =>
    cases result with
    | error e => trivial
    | ok d =>
      obtain ⟨live, hd⟩ := same d
      simpa only [Phase.Fits, hd] using h
  | judging _ d | dialled d | closingQuietly d | installing d | bumping d | reading d
  | openingChannel d | redeclaring d _ | closingChannel d =>
    obtain ⟨live, hd⟩ := same d
    simpa only [Phase.Fits, hd] using h
  | _ => trivial

theorem Tracked.drop (h : Tracked s) (phase : t.phase = s.phase)
    (conns : t.conns = Function.update s.conns c { s.conns c with live := false })
    (hurried : t.hurried = s.hurried) (current : t.current = s.current) (next : t.next = s.next)
    (configs : t.configs = s.configs) : Tracked t where
  current := by
    rw [conns, current, Function.update_apply]
    split
    · rename_i hc
      exact hc ▸ h.current
    · exact h.current
  fresh d hd := by
    rw [next] at hd
    have := h.fresh d hd
    rw [conns, Function.update_apply]
    split
    · subst d
      exact this
    · exact this
  fits j := by
    rw [phase, conns, hurried]
    exact (h.fits j).drop c
  staged d := by
    have := h.staged d
    rw [configs, conns, Function.update_apply]
    split
    · subst d
      exact this
    · exact this
  carried d := by
    have := h.carried d
    rw [conns, phase, Function.update_apply]
    split
    · subst d
      exact this
    · exact this

theorem Phase.locks_of_replays (hp : p.replays = some c) : p.locks = true := by
  cases p with
  | bumping | reading | openingChannel | redeclaring => rfl
  | _ => cases hp

/-- Nobody's replay is under way while the holder of the mutex carries none. -/
theorem Tracked.settled (h : Tracked s) (hl : Locked s) (hk : (s.phase k).locks = true)
    (hp : (s.phase k).replays ≠ some c) (hr : (s.conns c).redialled = true)
    (hi : (s.conns c).installed = true) : (s.conns c).replay.pending = false := by
  by_contra hne
  obtain ⟨j, hj⟩ := h.carried c hr hi (by simpa using hne)
  have hjk : j = k := hl.unique (Phase.locks_of_replays hj) hk
  exact hp (hjk ▸ hj)

theorem Tracked.redialled (h : Tracked s) (hk : (s.phase k).replays = some c) :
    (s.conns c).redialled = true := by
  have hfits := h.fits k
  cases hp : s.phase k with
  | bumping d | reading d | openingChannel d | redeclaring d rest =>
    rw [hp] at hk hfits
    obtain rfl := Option.some.inj hk
    exact hfits.1
  | _ => rw [hp] at hk; cases hk

theorem Tracked.old (h : Tracked s) (hr : (s.conns c).redialled = true) : c < s.next := by
  by_contra hge
  have hnew := (h.fresh c (by omega)).1
  rw [hr] at hnew
  cases hnew

/-- A live connection is returned: the holder's, or one whose replay is over or seen. -/
theorem Tracked.judge (h : Tracked s) (hl : Locked s) (hs : stepJudge s k = some t) :
    Tracked t := by
  have hfits := h.fits k
  obtain ⟨locked, c, hk, ⟨-, rfl⟩ | ⟨-, ⟨-, rfl⟩ | ⟨-, rfl⟩ | rfl⟩⟩ := judge_cases hs
  · rw [hk] at hfits
    refine h.move (p := .done (.ok c)) ⟨hfits, fun hr hh => ?_⟩ (by rw [hk]; rfl) rfl rfl
      (fun j hj => by simp [hj]) rfl rfl rfl
    cases locked with
    | false => simpa using hh
    | true => exact h.settled hl (by rw [hk]; rfl) (by rw [hk]; simp [Phase.replays]) hr hfits
  · exact h.setPhase trivial (by rw [hk]; rfl)
  · exact h.setPhase trivial (by rw [hk]; rfl)
  · exact h.finish trivial (by rw [hk]; rfl)

/-- A dialled connection is known to nobody but the call that dialled it. -/
theorem Tracked.dial {failed : Option LapinError} (h : Tracked s) (hl : Locked s)
    (hs : stepDial s k failed = some t) : Tracked t := by
  obtain ⟨failures, hk, ⟨e, -, rfl⟩ | ⟨-, rfl⟩⟩ := dial_cases hs
  · exact h.setPhase trivial (by rw [hk]; rfl)
  · have hnew : (s.conns s.next).installed = false := (h.fresh s.next le_rfl).2
    refine h.hold (c := s.next) (p := .dialled s.next) hl (by rw [hk]; rfl) ?_ ?_ ?_ ?_ ?_
      (Nat.lt_succ_self s.next) rfl rfl rfl (.inl rfl) (Nat.le_succ s.next) rfl
    · simp [Phase.Fits, State.setConn, State.setPhase]
    · intro hi
      rw [hnew] at hi
      cases hi
    · intro _
      exact ⟨rfl, rfl, List.Subset.refl _⟩
    · intro _ hi
      cases hi
    · intro d _
      rw [hk]
      simp [Phase.replays]

theorem Tracked.install (h : Tracked s) (hl : Locked s) (hs : stepInstall s k = some t) :
    Tracked t := by
  have hfits := h.fits k
  obtain ⟨c, hk, rfl⟩ := install_cases hs
  rw [hk] at hfits
  obtain ⟨hr, hi, hreplay⟩ := hfits
  refine h.hold (c := c) (p := .bumping c) hl (by rw [hk]; rfl) ?_ ?_ ?_ ?_ ?_ (h.old hr)
    rfl rfl rfl (.inr ⟨rfl, rfl⟩) le_rfl rfl
  · simp [Phase.Fits, State.setConn, State.setPhase, hr, hreplay]
  · intro hi'
    rw [hi] at hi'
    cases hi'
  · exact h.staged c
  · exact fun _ _ _ => rfl
  · intro d _
    rw [hk]
    simp [Phase.replays]

/-- The map is read once and holds every name known at the dial. -/
theorem Tracked.read {order : List QueueConfig} (h : Tracked s) (hl : Locked s)
    (hs : stepRead s k order = some t) : Tracked t := by
  have hfits := h.fits k
  obtain ⟨c, hk, hperm, hread⟩ := read_cases hs
  rw [hk] at hfits
  obtain ⟨hr, hi, hreplay⟩ := hfits
  have hstage := h.staged c hr
  rw [Conn.Staged, hreplay] at hstage
  obtain ⟨horder, hattempted, hknown⟩ := hstage
  have others : ∀ d, d ≠ c → (s.phase k).replays ≠ some d := by
    intro d hd
    simp [hk, Phase.replays, hd.symm]
  obtain ⟨rfl, rfl⟩ | rfl := hread
  · have hempty : s.configs = [] := hperm.symm.eq_nil
    refine h.hold (c := c) (p := .done (.ok c)) hl (by rw [hk]; rfl) ?_ ?_ ?_ ?_ others (h.old hr)
      rfl rfl rfl (.inl rfl) le_rfl rfl
    · simp [Phase.Fits, State.finish, State.setConn, State.setPhase, hi, Replay.pending]
    · simp [Replay.pending]
    · intro _
      rw [hempty] at hknown
      exact ⟨by simpa [horder] using hknown, .inr ⟨rfl, .inl (by simp [horder, hattempted])⟩⟩
    · simp [Replay.pending]
  · refine h.hold (c := c) (p := .openingChannel c) hl (by rw [hk]; rfl) ?_ ?_ ?_ ?_ others
      (h.old hr) rfl rfl rfl (.inl rfl) le_rfl rfl
    · simp [Phase.Fits, State.setConn, State.setPhase, hr, hi, hattempted]
    · simp [hi, hreplay, Replay.pending]
    · intro _ name hname
      exact (hperm.map QueueConfig.name).symm.subset (hknown hname)
    · exact fun _ _ _ => rfl

theorem Tracked.openChannel {opened : Bool} (h : Tracked s) (hl : Locked s)
    (hs : stepOpenChannel s k opened = some t) : Tracked t := by
  have hfits := h.fits k
  obtain ⟨c, hk, hopened⟩ := openChannel_cases hs
  rw [hk] at hfits
  obtain ⟨hr, hi, hreplay, hattempted⟩ := hfits
  obtain rfl | rfl := hopened
  · exact h.setPhase ⟨hr, hi, hreplay, [], rfl, hattempted⟩ (by rw [hk]; rfl)
  · have hknown := h.staged c hr
    rw [Conn.Staged, hreplay] at hknown
    refine h.hold (c := c) (p := .done (.ok c)) hl (by rw [hk]; rfl) ?_ ?_ ?_ ?_ ?_ (h.old hr)
      rfl rfl rfl (.inl rfl) le_rfl rfl
    · simp [Phase.Fits, State.finish, State.setConn, State.setPhase, hi, Replay.pending]
    · simp [Replay.pending]
    · exact fun _ => ⟨hknown, .inl rfl⟩
    · simp [Replay.pending]
    · intro d hd
      simp [hk, Phase.replays, hd.symm]

/-- An accepted declaration extends the prefix; a refused one, or the last, ends it. -/
theorem Tracked.redeclare {accepted : Bool} (h : Tracked s) (hl : Locked s)
    (hs : stepRedeclare s k accepted = some t) : Tracked t := by
  have hfits := h.fits k
  obtain ⟨c, config, rest, hk, hnext⟩ := redeclare_cases hs
  rw [hk] at hfits
  obtain ⟨hr, hi, hreplay, before, horder, hattempted⟩ := hfits
  have hknown := h.staged c hr
  rw [Conn.Staged, hreplay] at hknown
  have others : ∀ d, d ≠ c → (s.phase k).replays ≠ some d := by
    intro d hd
    simp [hk, Phase.replays, hd.symm]
  obtain ⟨rfl, rfl⟩ | ⟨hlast, rfl⟩ := hnext
  · refine h.hold (c := c) (p := .redeclaring c rest) hl (by rw [hk]; rfl) ?_ ?_ ?_ ?_ others
      (h.old hr) rfl rfl rfl (.inl rfl) le_rfl rfl
    · refine ⟨?_, ?_, ?_, before ++ [config], ?_, ?_⟩ <;>
        simp [State.setConn, State.setPhase, hr, hi, hreplay, horder, hattempted]
    · simp
    · intro _
      rw [Conn.Staged, hreplay]
      exact hknown
    · exact fun _ _ _ => rfl
  · refine h.hold (c := c) (p := .closingChannel c) hl (by rw [hk]; rfl) ?_ ?_ ?_ ?_ others
      (h.old hr) rfl rfl rfl (.inl rfl) le_rfl rfl
    · simp [Phase.Fits, State.setConn, State.setPhase, hi]
    · simp [Replay.pending]
    · intro _
      refine ⟨hknown, .inr ⟨rfl, ?_⟩⟩
      cases accepted with
      | true => exact .inl (by simp [horder, hattempted, hlast rfl])
      | false => exact .inr ⟨before, config, rest, horder, by simp [hattempted]⟩
    · simp [Replay.pending]

/-- A connection closed by the only call that has it. -/
theorem Tracked.discard (h : Tracked s) (hk : s.phase k = .closingQuietly c)
    (fits : p.Fits s.conns (s.hurried k)) (hp : p.replays = none)
    (phase : t.phase = Function.update s.phase k p)
    (conns : t.conns = Function.update s.conns c { s.conns c with live := false })
    (hurried : t.hurried = s.hurried) (current : t.current = s.current) (next : t.next = s.next)
    (configs : t.configs = s.configs) : Tracked t := by
  have hmoved : Tracked (s.setPhase k p) := h.setPhase fits (by rw [hk, hp]; rfl)
  exact hmoved.drop (by rw [phase]; rfl) conns hurried current next configs

/-- A replay given up leaves its connection installed. -/
theorem Tracked.abandon (h : Tracked s) (hl : Locked s) (hk : (s.phase k).replays = some c)
    (phase : t.phase = Function.update s.phase k .cancelled)
    (conns : t.conns = Function.update s.conns c { s.conns c with replay := .abandoned })
    (hurried : t.hurried = s.hurried) (current : t.current = s.current) (next : t.next = s.next)
    (configs : t.configs = s.configs) : Tracked t := by
  refine h.hold (p := .cancelled) hl (Phase.locks_of_replays hk) trivial ?_ ?_ ?_ ?_ ?_
    phase conns hurried (.inl current) next.ge configs
  · simp [Replay.pending]
  · exact fun _ => trivial
  · simp [Replay.pending]
  · intro d hd
    simp [hk, hd.symm]
  · exact next ▸ h.old (h.redialled hk)

theorem Tracked.step {a : Action} (h : Tracked s) (hl : Locked s)
    (hs : ConnectionHandle.step s a = some t) : Tracked t := by
  cases a with
  | judge k => exact h.judge hl hs
  | dial k failed => exact h.dial hl hs
  | install k => exact h.install hl hs
  | read k order => exact h.read hl hs
  | openChannel k opened => exact h.openChannel hl hs
  | redeclare k accepted => exact h.redeclare hl hs
  | call k =>
    obtain ⟨hk, rfl⟩ := call_cases hs
    exact (h.setPhase (p := .checking false) trivial (by rw [hk]; rfl)).frame rfl rfl rfl rfl rfl rfl
  | check k =>
    obtain ⟨locked, hk, ⟨-, rfl⟩ | ⟨-, rfl⟩⟩ := check_cases hs
    · exact h.finish trivial (by rw [hk]; rfl)
    · exact h.setPhase trivial (by rw [hk]; rfl)
  | peek k =>
    obtain ⟨locked, hk, rfl⟩ := peek_cases hs
    exact h.setPhase h.current (by rw [hk]; rfl)
  | lock k =>
    obtain ⟨hk, -, rfl⟩ := lock_cases hs
    exact (h.setPhase (p := .checking true) trivial (by rw [hk]; rfl)).frame rfl rfl rfl rfl rfl rfl
  | pace k delay =>
    obtain ⟨failures, last, hk, ⟨-, rfl⟩ | ⟨d, -, -, rfl⟩ | ⟨d, -, rfl⟩⟩ := pace_cases hs
    · exact h.finish trivial (by rw [hk]; rfl)
    · exact h.setPhase trivial (by rw [hk]; rfl)
    · exact h.setPhase trivial (by rw [hk]; rfl)
  | wake k =>
    obtain ⟨failures, last, hk, ⟨-, rfl⟩ | ⟨-, rfl⟩⟩ := wake_cases hs
    · exact h.finish trivial (by rw [hk]; rfl)
    · exact h.setPhase trivial (by rw [hk]; rfl)
  | «open» k =>
    obtain ⟨failures, last, hk, ⟨-, rfl⟩ | ⟨-, rfl⟩⟩ := open_cases hs
    · exact h.finish trivial (by rw [hk]; rfl)
    · exact (h.setPhase (p := .dialling failures) trivial (by rw [hk]; rfl)).frame
        rfl rfl rfl rfl rfl rfl
  | recheck k =>
    have hfits := h.fits k
    obtain ⟨c, hk, hnext⟩ := recheck_cases hs
    rw [hk] at hfits
    obtain ⟨-, rfl⟩ | ⟨-, rfl⟩ := hnext
    · exact h.setPhase hfits (by rw [hk]; rfl)
    · exact h.setPhase hfits (by rw [hk]; rfl)
  | closeQuietly k =>
    obtain ⟨c, hk, rfl⟩ := closeQuietly_cases hs
    exact h.discard (p := .done closed) hk trivial rfl rfl rfl rfl rfl rfl rfl
  | bump k =>
    have hfits := h.fits k
    obtain ⟨c, hk, rfl⟩ := bump_cases hs
    rw [hk] at hfits
    exact (h.setPhase (p := .reading c) hfits (by rw [hk]; rfl)).frame rfl rfl rfl rfl rfl rfl
  | closeChannel k =>
    have hfits := h.fits k
    obtain ⟨c, hk, rfl⟩ := closeChannel_cases hs
    rw [hk] at hfits
    exact h.finish ⟨hfits.1, fun _ _ => by rw [hfits.2]; rfl⟩ (by rw [hk]; rfl)
  | cancel k =>
    obtain ⟨hk, -, rfl⟩ | ⟨c, hk, rfl⟩ | ⟨c, hk, -, rfl⟩ := cancel_cases hs
    · exact h.finish trivial (by rw [hk]; rfl)
    · exact h.discard (p := .cancelled) hk trivial rfl rfl rfl rfl rfl rfl rfl
    · exact h.abandon hl hk rfl rfl rfl rfl rfl rfl
  | subscribe k =>
    obtain ⟨c, -, -, rfl⟩ := subscribe_cases hs
    exact h.frame rfl rfl rfl rfl rfl rfl
  | remember config =>
    obtain rfl := Option.some.inj hs
    exact ⟨h.current, h.fresh, h.fits, fun c hr => (h.staged c hr).remember config, h.carried⟩
  | mark j | markAgain j =>
    obtain ⟨u, hu, rfl⟩ := Option.map_eq_some_iff.mp hs
    obtain ⟨-, rfl⟩ := closer_cases hu
    exact h.frame rfl rfl rfl rfl rfl rfl
  | drain j | peekCurrent j =>
    obtain ⟨-, rfl⟩ := closer_cases hs
    exact h.frame rfl rfl rfl rfl rfl rfl
  | closeCurrent j =>
    obtain ⟨c, -, rfl⟩ := closeCurrent_cases hs
    exact h.drop rfl rfl rfl rfl rfl rfl
  | drop c =>
    obtain rfl := Option.some.inj hs
    exact h.drop rfl rfl rfl rfl rfl rfl

theorem reachable_tracked (h : Reachable system s) : Tracked s := by
  refine h.strengthen (K := Locked) (fun _ => reachable_locked) ?_
    fun _ _ _ hl _ ht _ hs => ht.step hl hs
  rintro _ ⟨reconnects, rfl⟩
  refine ⟨rfl, fun c hc => ?_, fun _ => trivial, ?_, ?_⟩
  · have : c ≠ 0 := by
      intro hc'
      simp [connected, hc'] at hc
    simp [connected, this]
  · simp [connected]
  · simp [connected]

/-- The connection a call has returned. -/
def State.answer (s : State) (k : ℕ) : Option ℕ :=
  match s.phase k with
  | .done (.ok c) => some c
  | _ => none

theorem answer_eq_some (h : s.answer k = some c) : s.phase k = .done (.ok c) := by
  revert h
  fun_cases State.answer s k with
  | case1 c' hk => rintro ⟨⟩; exact hk
  | case2 => rintro ⟨⟩

/-- A redialled connection is returned with its replay carried out, unless the lock-free
check saw it before that or the replay was given up. An installed one has had its replay,
or had it given up, or the holder of the mutex is at it. -/
theorem replay_before_use (h : Reachable system s) :
    (∀ k c, s.answer k = some c → (s.conns c).redialled = true → s.hurried k = false →
      (s.conns c).replay ≠ .abandoned → (s.conns c).Replayed) ∧
    (∀ c, (s.conns c).installed = true → (s.conns c).redialled = true →
      (s.conns c).Replayed ∨ (s.conns c).replay = .abandoned ∨
        ∃ k, s.lock = some k ∧ (s.phase k).replays = some c) := by
  have ht := reachable_tracked h
  have finished : ∀ c, (s.conns c).redialled = true → (s.conns c).replay.pending = false →
      (s.conns c).replay ≠ .abandoned → (s.conns c).Replayed := by
    intro c hr hp hne
    have hstage := ht.staged c hr
    cases hreplay : (s.conns c).replay with
    | unstarted | running => rw [hreplay] at hp; cases hp
    | finished | unopened => rw [Conn.Staged, hreplay] at hstage; exact hstage
    | abandoned => exact absurd hreplay hne
  constructor
  · intro k c hk hr hh hne
    have hfits := ht.fits k
    rw [answer_eq_some hk] at hfits
    exact finished c hr (hfits.2 hr hh) hne
  · intro c hi hr
    by_cases hp : (s.conns c).replay.pending = true
    · obtain ⟨k, hk⟩ := ht.carried c hr hi hp
      exact .inr (.inr ⟨k, (reachable_locked h k).mp (Phase.locks_of_replays hk), hk⟩)
    · by_cases hne : (s.conns c).replay = .abandoned
      · exact .inr (.inl hne)
      · exact .inl (finished c hr (by simpa using hp) hne)

/-- Two queues are remembered, the connection drops, and call 0 installs another. -/
def reconnectRun : List Action :=
  [.remember (.new "a"), .remember (.new "b"), .drop 0, .call 0, .check 0, .peek 0, .judge 0,
    .lock 0, .check 0, .peek 0, .judge 0, .pace 0 (some .zero), .open 0, .dial 0 none,
    .recheck 0, .install 0]

/-- Call `k` finds a live connection. -/
def askRun (k : ℕ) : List Action := [.call k, .check k, .peek k, .judge k]

theorem replay_before_use_reconnect : ∃ s, Reachable system s ∧ s.answer 0 = some 1 ∧
    (s.conns 1).attempted.length = 2 ∧ (s.conns 1).Replayed := by
  have start : Reachable system (connected true) := .start ⟨true, rfl⟩
  have hrun : (system.run (connected true) (reconnectRun ++ [Action.bump 0,
      .read 0 [.new "a", .new "b"], .openChannel 0 true, .redeclare 0 true, .redeclare 0 true,
      .closeChannel 0])).map (fun s => (s.answer 0, (s.conns 1).attempted.length,
        (s.conns 1).redialled, s.hurried 0, (s.conns 1).replay)) =
      some (some 1, 2, true, false, .finished) := by decide
  obtain ⟨s, hs, hfacts⟩ := Option.map_eq_some_iff.mp hrun
  obtain ⟨hanswer, hlength, hr, hh, hreplay⟩ : _ ∧ _ ∧ _ ∧ _ ∧ _ := by simpa using hfacts
  have reached := start.run _ hs
  refine ⟨s, reached, hanswer, hlength, ?_⟩
  exact (replay_before_use reached).1 0 1 hanswer hr hh (by simp [hreplay])

/-- Call `k` has returned the live connection `c`, which was dialled when queue `name` was
remembered and on which its declaration has not been tried. -/
def State.Misses (s : State) (k c : ℕ) (name : String) : Prop :=
  s.answer k = some c ∧ (s.conns c).redialled = true ∧ (s.conns c).live = true ∧
    name ∈ (s.conns c).known ∧ ∀ tried ∈ (s.conns c).attempted, tried.1.name ≠ name

instance (s : State) (k c : ℕ) (name : String) : Decidable (s.Misses k c name) :=
  inferInstanceAs (Decidable (_ ∧ _ ∧ _ ∧ _ ∧ _))

theorem misses_of_run {name : String} (actions : List Action)
    (h : (system.run (connected true) actions).map (fun s => decide (s.Misses k c name)) =
      some true) : ∃ s, Reachable system s ∧ s.Misses k c name := by
  obtain ⟨s, hs, hm⟩ := Option.map_eq_some_iff.mp h
  have start : Reachable system (connected true) := .start ⟨true, rfl⟩
  exact ⟨s, start.run _ hs, of_decide_eq_true hm⟩

/-- A queue remembered before the dial is not declared on the connection a call returned:
another one was refused first, the call did not wait for the replay, or the call that
carried the replay was dropped. -/
theorem replay_misses_queue :
    (∃ s, Reachable system s ∧ s.Misses 0 1 "a") ∧ (∃ s, Reachable system s ∧ s.Misses 1 1 "a") ∧
      ∃ s, Reachable system s ∧ s.Misses 2 1 "a" := by
  refine ⟨?_, ?_, ?_⟩
  · exact misses_of_run (reconnectRun ++ [Action.bump 0, .read 0 [.new "b", .new "a"],
      .openChannel 0 true, .redeclare 0 false, .closeChannel 0]) (by decide)
  · exact misses_of_run (reconnectRun ++ askRun 1) (by decide)
  · exact misses_of_run (reconnectRun ++ [Action.bump 0, .read 0 [.new "b", .new "a"],
      .cancel 0] ++ askRun 2) (by decide)

end Queuey.Rabbit.ConnectionHandle
