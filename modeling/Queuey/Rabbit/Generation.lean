import Mathlib.Data.Set.Finite.Lemmas
import Queuey.Library.Tally
import Queuey.Rabbit.CloseFinal

/-!
# Generations

One call at a time replaces the connection, and only a dead one, so connections are swapped
in in the order in which they were dialled. The counter is bumped after the swap: it never
runs ahead of the connection a reader finds.
-/
namespace Queuey.Rabbit.ConnectionHandle
open Transition Tally

variable {s t : State} {k c : ℕ} {p : Phase} {a : Action}

/-- The call has swapped its connection in and not counted it yet. -/
def Phase.swapped : Phase → ℕ
  | bumping _ => 1
  | _ => 0

def Conn.inPlace (conn : Conn) : ℕ := if conn.installed then 1 else 0

def Conn.reinstalled (conn : Conn) : ℕ := if conn.installed && conn.redialled then 1 else 0

def Conn.lost (conn : Conn) : ℕ := if conn.installed && !conn.live then 1 else 0

/-- The swaps that reconnects have made. -/
noncomputable def State.installs (s : State) : ℕ := tally Conn.reinstalled s.conns

/-- The installed connections that have dropped. -/
noncomputable def State.drops (s : State) : ℕ := tally Conn.lost s.conns

/-- The swaps that have been counted too. -/
noncomputable def State.completed (s : State) : ℕ := s.installs - tally Phase.swapped s.phase

/-- Which of the connections ever installed `c` is, counting from one. -/
def State.rank (s : State) (c : ℕ) : ℕ := ∑ d ∈ Finset.range (c + 1), (s.conns d).inPlace

/-- Connections are installed in the order they are dialled, each in place of a dead one, and
all but a swap under way are counted. -/
structure InTurn (s : State) : Prop where
  old : s.current < s.next
  fresh : ∀ c, s.next ≤ c → (s.conns c).installed = false
  first : (s.conns 0).installed = true
  current : (s.conns s.current).installed = true
  redialled : ∀ c, (s.conns c).installed = true → ((s.conns c).redialled = true ↔ c ≠ 0)
  replaced : ∀ c, (s.conns c).installed = true → c ≠ s.current →
    (s.conns c).live = false ∧ c < s.current
  held : ∀ k c, (s.phase k).unshared = some c → s.current < c ∧ c < s.next ∧
    (s.conns c).installed = false ∧ (s.conns c).redialled = true
  judged : ∀ k c, s.phase k = .judging true c → c = s.current
  dead : ∀ k, (s.phase k).replaces = true → (s.conns s.current).live = false
  swaps : Light Phase.swapped s.phase
  generation : s.generation + tally Phase.swapped s.phase = tally Conn.inPlace s.conns

theorem InTurn.lt_next (h : InTurn s) (hc : (s.conns c).installed = true) : c < s.next := by
  by_contra hge
  have := h.fresh c (by omega)
  rw [hc] at this
  cases this

/-- Finitely many connections are installed. -/
theorem InTurn.light (h : InTurn s) : Light Conn.inPlace s.conns := by
  refine (Set.finite_lt_nat s.next).subset fun c hc => ?_
  by_contra hge
  exact hc (by simp [Conn.inPlace, h.fresh c (Nat.le_of_not_lt hge)])

/-- Connections may die, and keep what matters of their past. -/
def Ages (before after : ℕ → Conn) : Prop :=
  ∀ c, (after c).installed = (before c).installed ∧ (after c).redialled = (before c).redialled ∧
    ((after c).live = true → (before c).live = true)

theorem Ages.refl (conns : ℕ → Conn) : Ages conns conns := fun _ => ⟨rfl, rfl, id⟩

theorem Ages.update {conns : ℕ → Conn} {conn : Conn}
    (installed : conn.installed = (conns c).installed)
    (redialled : conn.redialled = (conns c).redialled)
    (live : conn.live = true → (conns c).live = true) :
    Ages conns (Function.update conns c conn) := by
  intro d
  by_cases hd : d = c
  · subst hd
    simpa using ⟨installed, redialled, live⟩
  · simp [hd]

theorem Ages.dead {before after : ℕ → Conn} (h : Ages before after)
    (hdead : (before c).live = false) : (after c).live = false := by
  by_contra hlive
  have := (h c).2.2 (by simpa using hlive)
  rw [hdead] at this
  cases this

/-- A call moves on, and connections may die. -/
theorem InTurn.move (h : InTurn s) (unshared : p.unshared = none ∨ p.unshared = (s.phase k).unshared)
    (judged : ∀ c, p = .judging true c → c = s.current)
    (dead : p.replaces = true → (s.conns s.current).live = false)
    (swapped : p.swapped = (s.phase k).swapped) (phase : t.phase = Function.update s.phase k p)
    (ages : Ages s.conns t.conns) (current : t.current = s.current) (next : t.next = s.next)
    (generation : t.generation = s.generation) : InTurn t := by
  have cases : ∀ j, t.phase j = if j = k then p else s.phase j := by
    intro j
    rw [phase, Function.update_apply]
  have inPlace : tally Conn.inPlace t.conns = tally Conn.inPlace s.conns := by
    refine finsum_congr fun c => ?_
    rw [Conn.inPlace, Conn.inPlace, (ages c).1]
  have swaps := h.swaps.tally_update k p
  refine ⟨?_, ?_, ?_, ?_, ?_, ?_, ?_, ?_, ?_, phase ▸ h.swaps.update k p, ?_⟩
  · rw [current, next]
    exact h.old
  · intro c hc
    rw [(ages c).1]
    exact h.fresh c (next ▸ hc)
  · rw [(ages 0).1]
    exact h.first
  · rw [current, (ages _).1]
    exact h.current
  · intro c hc
    rw [(ages c).2.1]
    exact h.redialled c ((ages c).1 ▸ hc)
  · intro c hc hne
    rw [current] at hne ⊢
    obtain ⟨hdead, hlt⟩ := h.replaced c ((ages c).1 ▸ hc) hne
    exact ⟨ages.dead hdead, hlt⟩
  · intro j c hj
    have hold : (s.phase j).unshared = some c := by
      rw [cases] at hj
      split_ifs at hj with hjk
      · obtain hnone | hsame := unshared
        · rw [hnone] at hj
          cases hj
        · rw [hjk, ← hsame, hj]
      · exact hj
    rw [current, next, (ages c).1, (ages c).2.1]
    exact h.held j c hold
  · intro j c hj
    rw [cases] at hj
    rw [current]
    split_ifs at hj
    · exact judged c hj
    · exact h.judged j c hj
  · intro j hj
    rw [cases] at hj
    rw [current]
    apply ages.dead
    split_ifs at hj
    · exact dead hj
    · exact h.dead j hj
  · rw [generation, inPlace, phase]
    have := h.generation
    omega

theorem InTurn.frame (h : InTurn s) (phase : t.phase = s.phase) (ages : Ages s.conns t.conns)
    (current : t.current = s.current) (next : t.next = s.next)
    (generation : t.generation = s.generation) : InTurn t := by
  refine h.move (k := 0) (p := s.phase 0) (.inr rfl) (h.judged 0) (h.dead 0) rfl ?_ ages current
    next generation
  rw [phase, Function.update_eq_self]

/-- The phases in which a call knows nothing that matters here. -/
def Phase.quiet : Phase → Bool
  | idle | checking _ | peeking _ | queued | reading _ | openingChannel _ | redeclaring _ _
  | closingChannel _ | done _ | cancelled => true
  | _ => false

theorem Phase.inert_of_quiet (hp : p.quiet = true) :
    p.unshared = none ∧ p.replaces = false ∧ p.swapped = 0 := by
  cases p <;> first | exact ⟨rfl, rfl, rfl⟩ | cases hp

theorem Phase.swapped_of_replaces (hp : p.replaces = true) : p.swapped = 0 := by
  cases p <;> first | rfl | cases hp

theorem InTurn.quiet (h : InTurn s) (hp : p.quiet = true) (before : (s.phase k).swapped = 0)
    (phase : t.phase = Function.update s.phase k p) (ages : Ages s.conns t.conns)
    (current : t.current = s.current) (next : t.next = s.next)
    (generation : t.generation = s.generation) : InTurn t := by
  obtain ⟨unshared, replaces, swapped⟩ := Phase.inert_of_quiet hp
  refine h.move (.inl unshared) (fun c hc => ?_) (fun hr => ?_) (swapped.trans before.symm) phase
    ages current next generation
  · subst hc
    cases hp
  · rw [replaces] at hr
    cases hr

/-- A call under the mutex goes on replacing the dead connection. -/
theorem InTurn.replace (h : InTurn s) (dead : (s.conns s.current).live = false)
    (hp : p.replaces = true) (unshared : p.unshared = none ∨ p.unshared = (s.phase k).unshared)
    (before : (s.phase k).swapped = 0) (phase : t.phase = Function.update s.phase k p)
    (conns : t.conns = s.conns) (current : t.current = s.current) (next : t.next = s.next)
    (generation : t.generation = s.generation) : InTurn t := by
  have swapped := Phase.swapped_of_replaces hp
  refine h.move unshared (fun c hc => ?_) (fun _ => dead) (swapped.trans before.symm) phase ?_
    current next generation
  · subst hc
    cases hp
  · rw [conns]
    exact .refl _

theorem InTurn.judge (h : InTurn s) (hs : stepJudge s k = some t) : InTurn t := by
  obtain ⟨locked, c, hk, ⟨-, rfl⟩ | ⟨hdead, ⟨rfl, rfl⟩ | ⟨rfl, rfl⟩ | rfl⟩⟩ := judge_cases hs
  · exact h.quiet (k := k) (p := .done (.ok c)) rfl (by rw [hk]; rfl) rfl (.refl _) rfl rfl rfl
  · exact h.quiet rfl (by rw [hk]; rfl) rfl (.refl _) rfl rfl rfl
  · rw [h.judged k c hk] at hdead
    exact h.replace hdead rfl (.inl rfl) (by rw [hk]; rfl) rfl rfl rfl rfl rfl
  · exact h.quiet rfl (by rw [hk]; rfl) rfl (.refl _) rfl rfl rfl

/-- A new connection is the last one, and known to its call only. -/
theorem InTurn.dial {failed : Option LapinError} (h : InTurn s)
    (hs : stepDial s k failed = some t) : InTurn t := by
  obtain ⟨failures, hk, hdialled⟩ := dial_cases hs
  have hdead : (s.conns s.current).live = false := h.dead k (by rw [hk]; rfl)
  obtain ⟨e, -, rfl⟩ | ⟨-, rfl⟩ := hdialled
  · exact h.replace hdead rfl (.inl rfl) (by rw [hk]; rfl) rfl rfl rfl rfl rfl
  · have other : ∀ c, c < s.next → ∀ conn, Function.update s.conns s.next conn c = s.conns c :=
      fun c hc conn => Function.update_of_ne hc.ne conn s.conns
    have older : ∀ c conn, (Function.update s.conns s.next ⟨true, true, false, false, conn, [], [],
        .unstarted⟩ c).installed = true → c < s.next ∧ (s.conns c).installed = true := by
      intro c conn hc
      rw [Function.update_apply] at hc
      split_ifs at hc
      exact ⟨h.lt_next hc, hc⟩
    have cases : ∀ j, Function.update s.phase k (.dialled s.next) j =
        if j = k then .dialled s.next else s.phase j := fun j => Function.update_apply _ _ _ _
    refine ⟨Nat.lt_succ_of_lt h.old, fun c hc => ?_, ?_, ?_, fun c hc => ?_, fun c hc hne => ?_,
      fun j c hj => ?_, fun j c hj => ?_, fun j hj => ?_, h.swaps.update k _, ?_⟩
    · have hc' : s.next < c := hc
      simpa [State.setConn, State.setPhase, hc'.ne'] using h.fresh c hc'.le
    · simpa [State.setConn, State.setPhase, other 0 (h.lt_next h.first)] using h.first
    · simpa [State.setConn, State.setPhase, other _ h.old] using h.current
    · obtain ⟨hlt, hc⟩ := older c _ hc
      simpa [State.setConn, State.setPhase, other c hlt] using h.redialled c hc
    · obtain ⟨hlt, hc⟩ := older c _ hc
      simpa [State.setConn, State.setPhase, other c hlt] using h.replaced c hc hne
    · simp only [State.setConn, State.setPhase, cases] at hj ⊢
      split_ifs at hj
      · obtain rfl := Option.some.inj hj
        exact ⟨h.old, Nat.lt_succ_self _, by simp, by simp⟩
      · obtain ⟨hlt, hnext, hrest⟩ := h.held j c hj
        exact ⟨hlt, Nat.lt_succ_of_lt hnext, by simpa [other c hnext] using hrest⟩
    · simp only [State.setConn, State.setPhase, cases] at hj
      split_ifs at hj
      exact h.judged j c hj
    · simpa [State.setConn, State.setPhase, other _ h.old] using hdead
    · have swaps := h.swaps.tally_update k (.dialled s.next)
      have counts := h.light.tally_update s.next
        ⟨true, true, false, false, s.configs.map QueueConfig.name, [], [], .unstarted⟩
      have hnew : Conn.inPlace (s.conns s.next) = 0 := by simp [Conn.inPlace, h.fresh s.next le_rfl]
      have hold := h.generation
      rw [hk] at swaps
      have hadded : Conn.inPlace ⟨true, true, false, false, s.configs.map QueueConfig.name, [], [],
          .unstarted⟩ = 0 := rfl
      simp only [State.setConn, State.setPhase, Phase.swapped] at swaps hold ⊢
      omega

/-- The swap puts the youngest connection in place of a dead one. -/
theorem InTurn.install (h : InTurn s) (hl : Locked s) (hs : stepInstall s k = some t) :
    InTurn t := by
  obtain ⟨c, hk, rfl⟩ := install_cases hs
  have hdead : (s.conns s.current).live = false := h.dead k (by rw [hk]; rfl)
  obtain ⟨hlt, hnext, hinstalled, hredialled⟩ := h.held k c (by rw [hk]; rfl)
  have cases : ∀ j, Function.update s.phase k (.bumping c) j =
      if j = k then .bumping c else s.phase j := fun j => Function.update_apply _ _ _ _
  have hlocks : (s.phase k).locks = true := by rw [hk]; rfl
  -- Nobody else is under the mutex.
  have alone : ∀ j, (s.phase j).locks = true → j = k := fun j hj => hl.unique hj hlocks
  have conns : ∀ d, Function.update s.conns c { s.conns c with
      installed := true, raced := s.closing } d = if d = c then { s.conns c with
        installed := true, raced := s.closing } else s.conns d := fun d => Function.update_apply _ _ _ _
  refine ⟨hnext, fun d hd => ?_, ?_, ?_, fun d hd => ?_, fun d hd hne => ?_,
    fun j d hj => ?_, fun j d hj => ?_, fun j hj => ?_, h.swaps.update k _, ?_⟩
  · have hd' : s.next ≤ d := hd
    have hne : d ≠ c := by omega
    simpa [State.setConn, State.setPhase, hne] using h.fresh d hd'
  · have hne : 0 ≠ c := by omega
    simpa [State.setConn, State.setPhase, hne] using h.first
  · simp [State.setConn]
  · simp only [State.setConn, State.setPhase, conns] at hd ⊢
    split_ifs at hd ⊢ with hdc
    · simpa [hredialled] using (show d ≠ 0 by omega)
    · exact h.redialled d hd
  · simp only [State.setConn, State.setPhase, conns] at hd hne ⊢
    rw [if_neg hne] at hd ⊢
    by_cases hcur : d = s.current
    · exact ⟨hcur ▸ hdead, hcur ▸ hlt⟩
    · obtain ⟨hlive, hdlt⟩ := h.replaced d hd hcur
      exact ⟨hlive, hdlt.trans hlt⟩
  · simp only [State.setConn, State.setPhase, cases] at hj
    split_ifs at hj with hjk
    · cases hj
    · exact absurd (alone j (Phase.locks_of_unshared hj)) hjk
  · simp only [State.setConn, State.setPhase, cases] at hj
    split_ifs at hj with hjk
    exact absurd (alone j (by rw [hj]; rfl)) hjk
  · simp only [State.setConn, State.setPhase, cases] at hj
    split_ifs at hj with hjk
    · cases hj
    · exact absurd (alone j (Phase.locks_of_replaces hj)) hjk
  · have swaps := h.swaps.tally_update k (.bumping c)
    have counts := h.light.tally_update c { s.conns c with installed := true, raced := s.closing }
    have hold := h.generation
    have hadded : Conn.inPlace { s.conns c with installed := true, raced := s.closing } = 1 := rfl
    have hnew : Conn.inPlace (s.conns c) = 0 := by simp [Conn.inPlace, hinstalled]
    rw [hk] at swaps
    simp only [State.setConn, State.setPhase, Phase.swapped] at swaps hold counts hadded ⊢
    omega

theorem InTurn.bump (h : InTurn s) (hs : stepBump s k = some t) : InTurn t := by
  obtain ⟨c, hk, rfl⟩ := bump_cases hs
  have swaps := h.swaps.tally_update k (.reading c)
  have hold := h.generation
  have cases : ∀ j, Function.update s.phase k (.reading c) j =
      if j = k then .reading c else s.phase j := fun j => Function.update_apply _ _ _ _
  refine ⟨h.old, h.fresh, h.first, h.current, h.redialled, h.replaced, fun j d hj => ?_,
    fun j d hj => ?_, fun j hj => ?_, h.swaps.update k _, ?_⟩
  · simp only [State.setPhase, cases] at hj
    split_ifs at hj
    · cases hj
    · exact h.held j d hj
  · simp only [State.setPhase, cases] at hj
    split_ifs at hj
    exact h.judged j d hj
  · simp only [State.setPhase, cases] at hj
    split_ifs at hj
    · cases hj
    · exact h.dead j hj
  · rw [hk] at swaps
    simp only [State.setPhase, Phase.swapped] at swaps hold ⊢
    omega

theorem cancel_swapped (hs : stepCancel s k = some t) : (s.phase k).swapped = 0 := by
  unfold stepCancel at hs
  split at hs <;> simp_all [Phase.swapped]

theorem InTurn.step (h : InTurn s) (hl : Locked s) (hs : ConnectionHandle.step s a = some t) :
    InTurn t := by
  cases a with
  | call k =>
    obtain ⟨hk, rfl⟩ := call_cases hs
    exact h.quiet (k := k) (p := .checking false) rfl (by rw [hk]; rfl) rfl (.refl _) rfl rfl rfl
  | check k =>
    obtain ⟨locked, hk, ⟨-, rfl⟩ | ⟨-, rfl⟩⟩ := check_cases hs <;>
      exact h.quiet rfl (by rw [hk]; rfl) rfl (.refl _) rfl rfl rfl
  | peek k =>
    obtain ⟨locked, hk, rfl⟩ := peek_cases hs
    refine h.move (.inl rfl) (fun c hc => ?_) (fun hr => by cases hr) (by rw [hk]; rfl) rfl (.refl _) rfl rfl rfl
    exact ((Phase.judging.inj hc).2).symm
  | judge k => exact h.judge hs
  | lock k =>
    obtain ⟨hk, -, rfl⟩ := lock_cases hs
    exact h.quiet (k := k) (p := .checking true) rfl (by rw [hk]; rfl) rfl (.refl _) rfl rfl rfl
  | pace k delay =>
    obtain ⟨failures, last, hk, hpaced⟩ := pace_cases hs
    have hdead := h.dead k (by rw [hk]; rfl)
    obtain ⟨-, rfl⟩ | ⟨d, -, -, rfl⟩ | ⟨d, -, rfl⟩ := hpaced
    · exact h.quiet rfl (by rw [hk]; rfl) rfl (.refl _) rfl rfl rfl
    all_goals exact h.replace hdead rfl (.inl rfl) (by rw [hk]; rfl) rfl rfl rfl rfl rfl
  | wake k =>
    obtain ⟨failures, last, hk, ⟨-, rfl⟩ | ⟨-, rfl⟩⟩ := wake_cases hs
    · exact h.quiet rfl (by rw [hk]; rfl) rfl (.refl _) rfl rfl rfl
    · exact h.replace (h.dead k (by rw [hk]; rfl)) rfl (.inl rfl) (by rw [hk]; rfl) rfl rfl rfl rfl
        rfl
  | «open» k =>
    obtain ⟨failures, last, hk, ⟨-, rfl⟩ | ⟨-, rfl⟩⟩ := open_cases hs
    · exact h.quiet rfl (by rw [hk]; rfl) rfl (.refl _) rfl rfl rfl
    · exact h.replace (k := k) (p := .dialling failures) (h.dead k (by rw [hk]; rfl)) rfl (.inl rfl)
        (by rw [hk]; rfl) rfl rfl rfl rfl rfl
  | dial k failed => exact h.dial hs
  | recheck k =>
    obtain ⟨c, hk, ⟨-, rfl⟩ | ⟨-, rfl⟩⟩ := recheck_cases hs <;>
      exact h.replace (h.dead k (by rw [hk]; rfl)) rfl (.inr (by rw [hk]; rfl)) (by rw [hk]; rfl) rfl
        rfl rfl rfl rfl
  | closeQuietly k =>
    obtain ⟨c, hk, rfl⟩ := closeQuietly_cases hs
    exact h.quiet (k := k) (p := .done closed) rfl (by rw [hk]; rfl) rfl (.update rfl rfl nofun) rfl
      rfl rfl
  | install k => exact h.install hl hs
  | bump k => exact h.bump hs
  | read k order =>
    obtain ⟨c, hk, -, ⟨-, rfl⟩ | rfl⟩ := read_cases hs
    · exact h.quiet (k := k) (p := .done (.ok c)) rfl (by rw [hk]; rfl) rfl (.update rfl rfl id) rfl
        rfl rfl
    · exact h.quiet (k := k) (p := .openingChannel c) rfl (by rw [hk]; rfl) rfl (.update rfl rfl id)
        rfl rfl rfl
  | openChannel k opened =>
    obtain ⟨c, hk, rfl | rfl⟩ := openChannel_cases hs
    · exact h.quiet rfl (by rw [hk]; rfl) rfl (.refl _) rfl rfl rfl
    · exact h.quiet (k := k) (p := .done (.ok c)) rfl (by rw [hk]; rfl) rfl (.update rfl rfl id) rfl
        rfl rfl
  | redeclare k accepted =>
    obtain ⟨c, config, rest, hk, ⟨-, rfl⟩ | ⟨-, rfl⟩⟩ := redeclare_cases hs
    · exact h.quiet (k := k) (p := .redeclaring c rest) rfl (by rw [hk]; rfl) rfl
        (.update rfl rfl id) rfl rfl rfl
    · exact h.quiet (k := k) (p := .closingChannel c) rfl (by rw [hk]; rfl) rfl
        (.update rfl rfl id) rfl rfl rfl
  | closeChannel k =>
    obtain ⟨c, hk, rfl⟩ := closeChannel_cases hs
    exact h.quiet rfl (by rw [hk]; rfl) rfl (.refl _) rfl rfl rfl
  | cancel k =>
    have before := cancel_swapped hs
    obtain ⟨-, -, rfl⟩ | ⟨c, -, rfl⟩ | ⟨c, -, -, rfl⟩ := cancel_cases hs
    · exact h.quiet rfl before rfl (.refl _) rfl rfl rfl
    · exact h.quiet (k := k) (p := .cancelled) rfl before rfl (.update rfl rfl nofun) rfl rfl rfl
    · exact h.quiet (k := k) (p := .cancelled) rfl before rfl (.update rfl rfl id) rfl rfl rfl
  | subscribe k =>
    obtain ⟨c, -, -, rfl⟩ := subscribe_cases hs
    exact h.frame rfl (.refl _) rfl rfl rfl
  | mark j | markAgain j =>
    obtain ⟨u, hu, rfl⟩ := Option.map_eq_some_iff.mp hs
    obtain ⟨-, rfl⟩ := closer_cases hu
    exact h.frame rfl (.refl _) rfl rfl rfl
  | drain j | peekCurrent j =>
    obtain ⟨-, rfl⟩ := closer_cases hs
    exact h.frame rfl (.refl _) rfl rfl rfl
  | closeCurrent j =>
    obtain ⟨c, -, rfl⟩ := closeCurrent_cases hs
    exact h.frame rfl (.update rfl rfl nofun) rfl rfl rfl
  | remember config =>
    obtain rfl := Option.some.inj hs
    exact h.frame rfl (.refl _) rfl rfl rfl
  | drop c =>
    obtain rfl := Option.some.inj hs
    exact h.frame rfl (.update rfl rfl nofun) rfl rfl rfl

theorem inTurn_connected (reconnects : Bool) : InTurn (connected reconnects) := by
  refine ⟨Nat.zero_lt_one, fun c hc => ?_, rfl, rfl, fun c hc => ?_, fun c hc hne => ?_, nofun, nofun,
    nofun, light_of_zero fun _ => rfl, ?_⟩
  · simpa [connected] using (show c ≠ 0 by have : 1 ≤ c := hc; omega)
  · simpa [connected] using hc
  · exact absurd (by simpa [connected] using hc) hne
  · have swaps : tally Phase.swapped (connected reconnects).phase = 0 := tally_of_zero fun _ => rfl
    have counts : tally Conn.inPlace (connected reconnects).conns = 1 := by
      rw [tally_eq (s := {0}) fun c hc => ?_]
      · rfl
      · simpa [connected, Conn.inPlace] using hc
    rw [swaps, counts]
    rfl

theorem reachable_inTurn (h : Reachable system s) : InTurn s := by
  refine h.strengthen (fun _ => reachable_locked) (fun s hs => ?_) fun _ _ _ hl _ hi _ hs =>
    hi.step hl hs
  obtain ⟨reconnects, rfl⟩ := hs
  exact inTurn_connected reconnects

/-! ## What the counter counts -/

/-- A weight that only installed connections have, summed up. -/
theorem InTurn.tally_range (h : InTurn s) {w : Conn → ℕ}
    (hw : ∀ conn, conn.installed = false → w conn = 0) :
    tally w s.conns = ∑ c ∈ Finset.range s.next, w (s.conns c) := by
  refine tally_eq fun c hc => ?_
  rw [Finset.mem_range]
  apply h.lt_next
  by_contra hinstalled
  exact hc (hw _ (by simpa using hinstalled))

/-- All installed connections but the first are a reconnect's. -/
theorem InTurn.installs_eq (h : InTurn s) : tally Conn.inPlace s.conns = 1 + s.installs := by
  obtain ⟨n, hn⟩ : ∃ n, s.next = n + 1 := ⟨s.next - 1, by have := h.old; omega⟩
  have hfirst : (s.conns 0).redialled = false := by
    by_contra hr
    exact (h.redialled 0 h.first).mp (by simpa using hr) rfl
  have same : ∀ c, Conn.inPlace (s.conns (c + 1)) = Conn.reinstalled (s.conns (c + 1)) := by
    intro c
    cases hc : (s.conns (c + 1)).installed with
    | false => simp [Conn.inPlace, Conn.reinstalled, hc]
    | true => simp [Conn.inPlace, Conn.reinstalled, hc, (h.redialled _ hc).mpr (Nat.succ_ne_zero c)]
  rw [State.installs, h.tally_range (by simp [Conn.inPlace]),
    h.tally_range fun conn hc => by simp [Conn.reinstalled, hc], hn,
    Finset.sum_range_succ', Finset.sum_range_succ', Finset.sum_congr rfl fun c _ => same c]
  simp [Conn.inPlace, Conn.reinstalled, h.first, hfirst]
  omega

/-- All installed connections but the current one have dropped. -/
theorem InTurn.installs_le (h : InTurn s) : s.installs ≤ s.drops := by
  have hcur : s.current ∈ Finset.range s.next := Finset.mem_range.mpr h.old
  have others : ∑ c ∈ (Finset.range s.next).erase s.current, Conn.inPlace (s.conns c) ≤
      ∑ c ∈ (Finset.range s.next).erase s.current, Conn.lost (s.conns c) := by
    refine Finset.sum_le_sum fun c hc => ?_
    cases hi : (s.conns c).installed with
    | false => simp [Conn.inPlace, hi]
    | true => simp [Conn.inPlace, Conn.lost, hi, (h.replaced c hi (Finset.ne_of_mem_erase hc)).1]
  have hplaced := h.tally_range (w := Conn.inPlace) (by simp [Conn.inPlace])
  have hlost := h.tally_range (w := Conn.lost) fun conn hc => by simp [Conn.lost, hc]
  have hinstalls := h.installs_eq
  have hone : Conn.inPlace (s.conns s.current) = 1 := by simp [Conn.inPlace, h.current]
  rw [← Finset.add_sum_erase _ _ hcur] at hplaced hlost
  rw [State.drops]
  omega

/-- The current connection is the last one installed. -/
theorem InTurn.rank_current (h : InTurn s) : s.rank s.current = tally Conn.inPlace s.conns := by
  refine (tally_eq fun c hc => ?_).symm
  have hinstalled : (s.conns c).installed = true := by simpa [Conn.inPlace] using hc
  rw [Finset.mem_range]
  by_cases hcur : c = s.current
  · omega
  · have := (h.replaced c hinstalled hcur).2
    omega

/-- Only the bump touches the counter. -/
theorem generation_step (hs : ConnectionHandle.step s a = some t) :
    s.generation ≤ t.generation := by
  cases a with
  | bump k =>
    obtain ⟨c, -, rfl⟩ := bump_cases hs
    exact Nat.le_succ _
  | _ =>
    grind [ConnectionHandle.step, stepCheck, stepPeek, stepJudge, stepLock, stepPace, stepWake,
      stepOpen, stepDial, stepRecheck, stepCloseQuietly, stepInstall, stepRead, stepOpenChannel,
      stepRedeclare, stepCloseChannel, stepCancel, stepSubscribe, stepCloser, State.finish,
      State.setPhase, State.setConn, State.setCloser]

theorem generation_mono {actions : List Action} (hrun : system.run s actions = some t) :
    s.generation ≤ t.generation := by
  have grow : ∀ u b v, system.step u b = some v → u.generation ≤ v.generation :=
    fun _ _ _ hs => generation_step hs
  exact run_ascends (R := fun u v => u.generation ≤ v.generation) (fun _ => le_rfl)
    (fun _ _ _ => le_trans) grow hrun

theorem generation_pos (h : Reachable system s) : 1 ≤ s.generation := by
  have base : ∀ u, system.start u → 1 ≤ u.generation := by
    intro u hu
    obtain ⟨reconnects, rfl⟩ := hu
    exact le_rfl
  have held := h.invariant base fun _ _ _ hi _ hs => hi.trans (generation_step hs)
  exact held

/-- One dial at a time; a swap replaces a dead connection, so there are no more swaps than
drops; the counter is the first connection and the completed swaps, and whoever has read it
finds that connection or a later one. -/
theorem single_flight (h : Reachable system s) :
    (∀ j k m n, s.phase j = .dialling m → s.phase k = .dialling n → j = k) ∧
    (∀ k t, ConnectionHandle.step s (.install k) = some t →
      (s.conns s.current).live = false ∧ t.rank t.current = s.rank s.current + 1) ∧
    s.installs ≤ s.drops ∧
    (s.generation = 1 + s.completed ∧ tally Phase.swapped s.phase ≤ s.installs) ∧
    ∀ actions t, system.run s actions = some t →
      s.generation ≤ t.generation ∧ s.generation ≤ t.rank t.current := by
  have locked := reachable_locked h
  have inTurn := reachable_inTurn h
  refine ⟨fun j k m n hj hk => ?_, fun k t hs => ?_, inTurn.installs_le, ?_, fun actions t hrun => ?_⟩
  · exact locked.unique (by rw [hj]; rfl) (by rw [hk]; rfl)
  · have after : InTurn t := inTurn.install locked hs
    obtain ⟨c, hk, rfl⟩ := install_cases hs
    refine ⟨inTurn.dead k (by rw [hk]; rfl), ?_⟩
    have before := inTurn.generation
    have behind := after.generation
    have swaps := inTurn.swaps.tally_update k (.bumping c)
    rw [hk] at swaps
    rw [after.rank_current, inTurn.rank_current]
    simp only [State.setConn, State.setPhase, Phase.swapped] at *
    omega
  · have counts := inTurn.generation
    have installs := inTurn.installs_eq
    have := generation_pos h
    unfold State.completed
    omega
  · have later := reachable_inTurn (h.run actions hrun)
    have counts := later.generation
    have hle := generation_mono hrun
    refine ⟨hle, ?_⟩
    rw [later.rank_current]
    omega

/-- Two calls find the connection dead; the one that has waited finds its successor. -/
theorem single_flight_shared : ∃ s, Reachable system s ∧ s.generation = 2 ∧ s.next = 2 ∧
    s.installs ≤ s.drops := by
  have start : Reachable system (connected true) := .start ⟨true, rfl⟩
  have reached := start.run [.drop 0, .call 0, .call 1, .check 0, .peek 0, .judge 0, .check 1, .peek 1,
    .judge 1, .lock 0, .check 0, .peek 0, .judge 0, .pace 0 (some .zero), .open 0, .dial 0 none,
    .recheck 0, .install 0, .bump 0, .read 0 [], .lock 1, .check 1, .peek 1, .judge 1] rfl
  exact ⟨_, reached, rfl, rfl, (single_flight reached).2.2.1⟩

end Queuey.Rabbit.ConnectionHandle
