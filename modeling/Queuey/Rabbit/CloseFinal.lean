import Queuey.Rabbit.SingleFlight

/-!
# Close is final

Until the handle is closing, a live connection is the current one or is known only to the
call that dialled it. From then on no call may swap one in, which the check after the dial
sees to, unless the handle is marked between that check and the swap.
-/
namespace Queuey.Rabbit.ConnectionHandle
open Transition

variable {s t : State} {k c : ℕ} {p : Phase}

/-- `mark_closing` does not fall between a reconnect's last check and its swap. -/
def Unraced (s : State) : Action → Prop
  | .mark _ => s.closing = true ∨ ∀ k c, s.phase k ≠ .installing c
  | _ => True

/-- The call has found the current connection dead and is replacing it. -/
def Phase.replaces : Phase → Bool
  | pacing _ _ | sleeping _ _ | opening _ _ | dialling _ | dialled _ | closingQuietly _
  | installing _ => true
  | _ => false

/-- Live connections are the current one and those only their callers know. -/
structure Sealed (s : State) : Prop where
  old : s.current < s.next
  unsharedOld : ∀ k c, (s.phase k).unshared = some c → c < s.next
  fresh : ∀ c, s.next ≤ c → (s.conns c).live = false
  judged : ∀ k c, s.phase k = .judging true c → c = s.current
  dead : ∀ k, (s.phase k).replaces = true → (s.conns s.current).live = false
  live : ∀ c, (s.conns c).live = true → c = s.current ∨ ∃ k, (s.phase k).unshared = some c
  marked : ∀ j, s.closer j ≠ .idle → s.closing = true
  shut : s.closing = true → ∀ k c, s.phase k ≠ .installing c
  peeked : ∀ j c, s.closer j = .peeked c → c = s.current
  returned : ∀ j, s.closer j = .returned → (s.conns s.current).live = false
  raced : ∀ c, (s.conns c).raced = false

/-- A call moves on without touching a connection. -/
theorem Sealed.move (h : Sealed s) (judged : ∀ c, p = .judging true c → c = s.current)
    (dead : p.replaces = true → (s.conns s.current).live = false)
    (kept : ∀ c, (s.phase k).unshared = some c → (s.conns c).live = true → p.unshared = some c)
    (bound : ∀ c, p.unshared = some c → c < t.next)
    (shut : s.closing = true → ∀ c, p ≠ .installing c)
    (phase : t.phase = Function.update s.phase k p) (conns : t.conns = s.conns)
    (current : t.current = s.current) (next : s.next ≤ t.next) (closing : t.closing = s.closing)
    (closer : t.closer = s.closer) : Sealed t := by
  have cases : ∀ j, t.phase j = if j = k then p else s.phase j := by
    intro j
    rw [phase, Function.update_apply]
  refine ⟨by rw [current]; exact h.old.trans_le next, ?_, ?_, ?_, ?_, ?_,
    by rw [closer, closing]; exact h.marked, ?_, by rw [closer, current]; exact h.peeked,
    by rw [closer, conns, current]; exact h.returned, by rw [conns]; exact h.raced⟩
  · intro j d hj
    rw [cases] at hj
    split_ifs at hj with hjk
    · exact bound d hj
    · exact (h.unsharedOld j d hj).trans_le next
  · intro d hd
    rw [conns]
    exact h.fresh d (next.trans hd)
  · intro j d hj
    rw [cases] at hj
    rw [current]
    split_ifs at hj with hjk
    · exact judged d hj
    · exact h.judged j d hj
  · intro j hj
    rw [cases] at hj
    rw [conns, current]
    split_ifs at hj with hjk
    · exact dead hj
    · exact h.dead j hj
  · intro d hd
    rw [conns] at hd
    rw [current]
    rcases h.live d hd with hcur | ⟨j, hj⟩
    · exact .inl hcur
    · refine .inr ⟨j, ?_⟩
      rw [cases]
      split_ifs with hjk
      · exact kept d (hjk ▸ hj) hd
      · exact hj
  · intro hc j d
    rw [closing] at hc
    rw [cases]
    split_ifs
    · exact shut hc d
    · exact h.shut hc j d

/-- The common move: no dialled connection is held before or after it. -/
theorem Sealed.pass (h : Sealed s) (before : (s.phase k).unshared = none)
    (judged : ∀ c, p = .judging true c → c = s.current)
    (dead : p.replaces = true → (s.conns s.current).live = false) (after : p.unshared = none)
    (phase : t.phase = Function.update s.phase k p) (conns : t.conns = s.conns)
    (current : t.current = s.current) (next : t.next = s.next) (closing : t.closing = s.closing)
    (closer : t.closer = s.closer) : Sealed t := by
  refine h.move judged dead (fun d hd => ?_) (fun d hd => ?_) (fun _ d hd => ?_) phase conns
    current next.ge closing closer
  · rw [before] at hd
    cases hd
  · rw [after] at hd
    cases hd
  · rw [hd] at after
    cases after

theorem Sealed.frame (h : Sealed s) (phase : t.phase = s.phase) (conns : t.conns = s.conns)
    (current : t.current = s.current) (next : t.next = s.next) (closing : t.closing = s.closing)
    (closer : t.closer = s.closer) : Sealed t :=
  h.move (k := 0) (p := s.phase 0) (h.judged 0) (h.dead 0) (fun _ hd _ => hd)
    (fun d hd => next ▸ h.unsharedOld 0 d hd) (fun hc => h.shut hc 0)
    (by rw [phase, Function.update_eq_self]) conns current next.ge closing closer

theorem Sealed.drop (h : Sealed s) (phase : t.phase = s.phase)
    (conns : t.conns = Function.update s.conns c { s.conns c with live := false })
    (current : t.current = s.current) (next : t.next = s.next) (closing : t.closing = s.closing)
    (closer : t.closer = s.closer) : Sealed t := by
  have live : ∀ d, (t.conns d).live = true → (s.conns d).live = true := by
    intro d hd
    rw [conns, Function.update_apply] at hd
    split_ifs at hd
    exact hd
  have dead : ∀ d, (s.conns d).live = false → (t.conns d).live = false := by
    intro d hd
    by_contra hne
    rw [live d (by simpa using hne)] at hd
    cases hd
  refine ⟨by rw [current, next]; exact h.old, by rw [phase, next]; exact h.unsharedOld, ?_,
    by rw [phase, current]; exact h.judged, ?_, ?_, by rw [closer, closing]; exact h.marked,
    by rw [phase, closing]; exact h.shut,
    by rw [closer, current]; exact h.peeked, ?_, ?_⟩
  · intro d hd
    exact dead d (h.fresh d (next ▸ hd))
  · intro j hj
    rw [current]
    exact dead s.current (h.dead j (phase ▸ hj))
  · intro d hd
    rw [phase, current]
    exact h.live d (live d hd)
  · intro j hj
    rw [current]
    exact dead s.current (h.returned j (closer ▸ hj))
  · intro d
    rw [conns, Function.update_apply]
    split_ifs with hd
    · exact h.raced c
    · exact h.raced d

/-- A replay moves on; how far it is does not matter here. -/
theorem Sealed.replay {conn : Conn} (h : Sealed s) (before : (s.phase k).unshared = none)
    (hp : p.locks = false ∨ p.replays = some c ∨ p = .closingChannel c)
    (phase : t.phase = Function.update s.phase k p)
    (conns : t.conns = Function.update s.conns c conn) (live : conn.live = (s.conns c).live)
    (raced : conn.raced = (s.conns c).raced) (current : t.current = s.current)
    (next : t.next = s.next) (closing : t.closing = s.closing) (closer : t.closer = s.closer) :
    Sealed t := by
  have moved : Sealed (s.setPhase k p) := by
    refine h.pass before (fun d hd => ?_) (fun hd => ?_) ?_ rfl rfl rfl rfl rfl rfl
    · rcases hp with hp | hp | hp <;> rw [hd] at hp <;> cases hp
    · cases p with
      | pacing | sleeping | opening | dialling | dialled | closingQuietly | installing =>
        rcases hp with hp | hp | hp <;> cases hp
      | _ => cases hd
    · cases p with
      | dialled | closingQuietly | installing => rcases hp with hp | hp | hp <;> cases hp
      | _ => rfl
  have hlive : ∀ d, (t.conns d).live = (s.conns d).live := by
    intro d
    rw [conns, Function.update_apply]
    split_ifs with hd
    · rw [hd, live]
    · rfl
  refine ⟨by rw [current, next]; exact h.old, by rw [phase, next]; exact moved.unsharedOld,
    fun d hd => ?_, by rw [phase, current]; exact moved.judged, fun j hj => ?_, fun d hd => ?_,
    by rw [closer, closing]; exact h.marked, by rw [phase, closing]; exact moved.shut,
    by rw [closer, current]; exact h.peeked, fun j hj => ?_, fun d => ?_⟩
  · rw [hlive]
    exact h.fresh d (next ▸ hd)
  · rw [hlive, current]
    rw [phase] at hj
    exact moved.dead j hj
  · rw [hlive] at hd
    rw [phase, current]
    exact moved.live d hd
  · rw [hlive, current]
    exact h.returned j (closer ▸ hj)
  · rw [conns, Function.update_apply]
    split_ifs
    · exact raced.trans (h.raced c)
    · exact h.raced d

theorem Phase.locks_of_unshared (hp : p.unshared = some c) : p.locks = true := by
  cases p with
  | dialled | closingQuietly | installing => rfl
  | _ => cases hp

theorem Phase.locks_of_replaces (hp : p.replaces = true) : p.locks = true := by
  cases p with
  | pacing | sleeping | opening | dialling | dialled | closingQuietly | installing => rfl
  | _ => cases hp

/-- A connection closed by the only call that has it. -/
theorem Sealed.discard (h : Sealed s) (hk : s.phase k = .closingQuietly c)
    (hp : p = .done closed ∨ p = .cancelled) (phase : t.phase = Function.update s.phase k p)
    (conns : t.conns = Function.update s.conns c { s.conns c with live := false })
    (current : t.current = s.current) (next : t.next = s.next) (closing : t.closing = s.closing)
    (closer : t.closer = s.closer) : Sealed t := by
  have dropped : Sealed (s.setConn c { s.conns c with live := false }) :=
    h.drop rfl rfl rfl rfl rfl rfl
  refine dropped.move (k := k) (p := p) ?_ ?_ ?_ ?_ ?_ phase conns current next.ge closing closer
  · rcases hp with rfl | rfl <;> intro d hd <;> cases hd
  · rcases hp with rfl | rfl <;> intro hd <;> cases hd
  · intro d hd hlive
    obtain rfl : c = d := by simpa [State.setConn, hk, Phase.unshared] using hd
    simp [State.setConn] at hlive
  · rcases hp with rfl | rfl <;> intro d hd <;> cases hd
  · rcases hp with rfl | rfl <;> intro _ d hd <;> cases hd

/-- A new connection belongs to the call that dialled it. -/
theorem Sealed.dial {failed : Option LapinError} (h : Sealed s)
    (hs : stepDial s k failed = some t) : Sealed t := by
  obtain ⟨failures, hk, hdialled⟩ := dial_cases hs
  have hdead : (s.conns s.current).live = false := h.dead k (by rw [hk]; rfl)
  obtain ⟨e, -, rfl⟩ | ⟨-, rfl⟩ := hdialled
  · exact h.pass (by rw [hk]; rfl) (fun d hd => by cases hd) (fun _ => hdead) rfl
      rfl rfl rfl rfl rfl rfl
  · have moved : Sealed { s.setPhase k (.dialled s.next) with next := s.next + 1 } := by
      refine h.move (fun d hd => by cases hd) (fun _ => hdead) (fun d hd => ?_) (fun d hd => ?_)
        (fun _ d hd => by cases hd) rfl rfl rfl (Nat.le_succ _) rfl rfl
      · rw [hk] at hd
        cases hd
      · obtain rfl := Option.some.inj hd
        exact Nat.lt_succ_self _
    have other : ∀ d, d ≠ s.next → ∀ conn, Function.update s.conns s.next conn d = s.conns d :=
      fun d hd conn => Function.update_of_ne hd conn s.conns
    have hold := other s.current h.old.ne
    refine ⟨moved.old, moved.unsharedOld, ?_, moved.judged, ?_, ?_, moved.marked, moved.shut,
      moved.peeked, ?_, ?_⟩
    · intro d hd
      have hne : d ≠ s.next := (Nat.lt_of_succ_le hd).ne'
      exact (congrArg Conn.live (other d hne _)).trans (moved.fresh d hd)
    · intro j hj
      exact (congrArg Conn.live (hold _)).trans (moved.dead j hj)
    · intro d hd
      by_cases hne : d = s.next
      · exact .inr ⟨k, by simp [State.setConn, State.setPhase, hne, Phase.unshared]⟩
      · exact moved.live d ((congrArg Conn.live (other d hne _)).symm.trans hd)
    · intro j hj
      exact (congrArg Conn.live (hold _)).trans (moved.returned j hj)
    · intro d
      by_cases hne : d = s.next
      · simp [State.setConn, hne]
      · exact (congrArg Conn.raced (other d hne _)).trans (moved.raced d)

/-- The swap replaces a dead connection, and none is made once the handle is marked. -/
theorem Sealed.install (h : Sealed s) (hl : Locked s) (hs : stepInstall s k = some t) :
    Sealed t := by
  obtain ⟨c, hk, ht⟩ := install_cases hs
  have hlocks : (s.phase k).locks = true := by rw [hk]; rfl
  have hdead : (s.conns s.current).live = false := h.dead k (by rw [hk]; rfl)
  have hopen : s.closing = false := by
    by_contra hc
    exact h.shut (by simpa using hc) k c hk
  have current : t.current = c := by rw [ht]
  have live : ∀ d, (t.conns d).live = (s.conns d).live := by
    intro d
    simp only [ht, State.setConn, State.setPhase, Function.update_apply]
    split_ifs with hd
    · rw [hd]
    · rfl
  -- Nobody else is past the mutex, and no `close` has begun.
  have alone : ∀ j, (t.phase j).locks = true → t.phase j = .bumping c := by
    intro j
    simp only [ht, State.setConn, State.setPhase, Function.update_apply]
    split_ifs with hjk
    · exact fun _ => rfl
    · exact fun hj => absurd (hl.unique hj hlocks) hjk
  have unmarked : ∀ j, t.closer j = .idle := by
    intro j
    have hidle : s.closer j = .idle := by
      by_contra hj
      rw [h.marked j hj] at hopen
      cases hopen
    rw [ht]
    exact hidle
  have next : t.next = s.next := by rw [ht]; rfl
  have closing : t.closing = false := by rw [ht]; exact hopen
  constructor
  case old =>
    rw [current, next]
    exact h.unsharedOld k c (by rw [hk]; rfl)
  case unsharedOld =>
    intro j d hj
    rw [alone j (Phase.locks_of_unshared hj)] at hj
    cases hj
  case fresh =>
    intro d hd
    rw [live]
    exact h.fresh d (next ▸ hd)
  case judged =>
    intro j d hj
    have hphase := alone j (by rw [hj]; rfl)
    rw [hj] at hphase
    cases hphase
  case dead =>
    intro j hj
    rw [alone j (Phase.locks_of_replaces hj)] at hj
    cases hj
  case live =>
    intro d hd
    rw [live] at hd
    rcases h.live d hd with rfl | ⟨j, hj⟩
    · rw [hdead] at hd
      cases hd
    · obtain rfl := hl.unique (Phase.locks_of_unshared hj) hlocks
      rw [hk] at hj
      exact .inl (current.trans (Option.some.inj hj)).symm
  case marked =>
    intro j hj
    exact absurd (unmarked j) hj
  case shut =>
    intro hc
    rw [closing] at hc
    cases hc
  case peeked =>
    intro j d hj
    rw [unmarked j] at hj
    cases hj
  case returned =>
    intro j hj
    rw [unmarked j] at hj
    cases hj
  case raced =>
    intro d
    simp only [ht, State.setConn, State.setPhase, Function.update_apply]
    split_ifs
    · exact hopen
    · exact h.raced d

/-- Under the mutex the current connection does not change. -/
theorem Sealed.judge (h : Sealed s) (hs : stepJudge s k = some t) : Sealed t := by
  obtain ⟨locked, c, hk, hjudged⟩ := judge_cases hs
  have hbefore : (s.phase k).unshared = none := by rw [hk]; rfl
  obtain ⟨-, rfl⟩ | ⟨hdead, ⟨-, rfl⟩ | ⟨rfl, rfl⟩ | rfl⟩ := hjudged
  · exact h.pass (p := .done (.ok c)) hbefore (fun _ hd => by cases hd) (fun hd => by cases hd) rfl
      rfl rfl rfl rfl rfl rfl
  · exact h.pass (p := .queued) hbefore (fun _ hd => by cases hd) (fun hd => by cases hd) rfl
      rfl rfl rfl rfl rfl rfl
  · obtain rfl := h.judged k c hk
    exact h.pass (p := .pacing 0 none) hbefore (fun _ hd => by cases hd) (fun _ => hdead) rfl
      rfl rfl rfl rfl rfl rfl
  · exact h.pass (p := .done (.error RabbitMqError.connectionLost.intoCore)) hbefore
      (fun _ hd => by cases hd) (fun hd => by cases hd) rfl rfl rfl rfl rfl rfl rfl

/-- A `close` call moves on. -/
theorem Sealed.closer {j : ℕ} {q : Closer} (h : Sealed s)
    (peeked : ∀ c, q = .peeked c → c = s.current)
    (returned : q = .returned → (s.conns s.current).live = false)
    (shut : ∀ k c, s.phase k ≠ .installing c) (closer : t.closer = Function.update s.closer j q)
    (closing : t.closing = true) (phase : t.phase = s.phase) (conns : t.conns = s.conns)
    (current : t.current = s.current) (next : t.next = s.next) : Sealed t := by
  have cases : ∀ i, t.closer i = if i = j then q else s.closer i := by
    intro i
    rw [closer, Function.update_apply]
  refine ⟨by rw [current, next]; exact h.old, by rw [phase, next]; exact h.unsharedOld,
    by rw [next, conns]; exact h.fresh, by rw [phase, current]; exact h.judged,
    by rw [phase, conns, current]; exact h.dead, by rw [conns, current, phase]; exact h.live,
    fun _ _ => closing, fun _ => by rw [phase]; exact shut, ?_, ?_, by rw [conns]; exact h.raced⟩
  · intro i d hi
    rw [cases] at hi
    rw [current]
    split_ifs at hi
    · exact peeked d hi
    · exact h.peeked i d hi
  · intro i hi
    rw [cases] at hi
    rw [conns, current]
    split_ifs at hi
    · exact returned hi
    · exact h.returned i hi

theorem Sealed.step {a : Action} (h : Sealed s) (hl : Locked s) (hg : Unraced s a)
    (hs : ConnectionHandle.step s a = some t) : Sealed t := by
  cases a with
  | judge k => exact h.judge hs
  | dial k failed => exact h.dial hs
  | install k => exact h.install hl hs
  | call k =>
    obtain ⟨hk, rfl⟩ := call_cases hs
    exact h.pass (p := .checking false) (by rw [hk]; rfl) (fun _ hd => by cases hd)
      (fun hd => by cases hd) rfl rfl rfl rfl rfl rfl rfl
  | check k =>
    obtain ⟨locked, hk, ⟨-, rfl⟩ | ⟨-, rfl⟩⟩ := check_cases hs
    · exact h.pass (p := .done closed) (by rw [hk]; rfl) (fun _ hd => by cases hd)
        (fun hd => by cases hd) rfl rfl rfl rfl rfl rfl rfl
    · exact h.pass (p := .peeking locked) (by rw [hk]; rfl) (fun _ hd => by cases hd)
        (fun hd => by cases hd) rfl rfl rfl rfl rfl rfl rfl
  | peek k =>
    obtain ⟨locked, hk, rfl⟩ := peek_cases hs
    exact h.pass (p := .judging locked s.current) (by rw [hk]; rfl) (fun _ hd => by cases hd; rfl)
      (fun hd => by cases hd) rfl rfl rfl rfl rfl rfl rfl
  | lock k =>
    obtain ⟨hk, -, rfl⟩ := lock_cases hs
    exact h.pass (p := .checking true) (by rw [hk]; rfl) (fun _ hd => by cases hd)
      (fun hd => by cases hd) rfl rfl rfl rfl rfl rfl rfl
  | pace k delay =>
    obtain ⟨failures, last, hk, hpaced⟩ := pace_cases hs
    have hdead := h.dead k (by rw [hk]; rfl)
    obtain ⟨-, rfl⟩ | ⟨d, -, -, rfl⟩ | ⟨d, -, rfl⟩ := hpaced
    · exact h.pass (p := .done (.error (RabbitMqError.reconnectExhausted failures last).intoCore))
        (by rw [hk]; rfl) (fun _ hd => by cases hd) (fun _ => hdead) rfl rfl rfl rfl rfl rfl rfl
    · exact h.pass (p := .opening failures last) (by rw [hk]; rfl) (fun _ hd => by cases hd)
        (fun _ => hdead) rfl rfl rfl rfl rfl rfl rfl
    · exact h.pass (p := .sleeping failures last) (by rw [hk]; rfl) (fun _ hd => by cases hd)
        (fun _ => hdead) rfl rfl rfl rfl rfl rfl rfl
  | wake k =>
    obtain ⟨failures, last, hk, hwoken⟩ := wake_cases hs
    have hdead := h.dead k (by rw [hk]; rfl)
    obtain ⟨-, rfl⟩ | ⟨-, rfl⟩ := hwoken
    · exact h.pass (p := .done closed) (by rw [hk]; rfl) (fun _ hd => by cases hd)
        (fun _ => hdead) rfl rfl rfl rfl rfl rfl rfl
    · exact h.pass (p := .opening failures last) (by rw [hk]; rfl) (fun _ hd => by cases hd)
        (fun _ => hdead) rfl rfl rfl rfl rfl rfl rfl
  | «open» k =>
    obtain ⟨failures, last, hk, hopened⟩ := open_cases hs
    have hdead := h.dead k (by rw [hk]; rfl)
    obtain ⟨-, rfl⟩ | ⟨-, rfl⟩ := hopened
    · exact h.pass (p := .done closed) (by rw [hk]; rfl) (fun _ hd => by cases hd)
        (fun _ => hdead) rfl rfl rfl rfl rfl rfl rfl
    · exact h.pass (p := .dialling failures) (by rw [hk]; rfl) (fun _ hd => by cases hd)
        (fun _ => hdead) rfl rfl rfl rfl rfl rfl rfl
  | recheck k =>
    obtain ⟨c, hk, hchecked⟩ := recheck_cases hs
    have hdead := h.dead k (by rw [hk]; rfl)
    have hold := h.unsharedOld k c (by rw [hk]; rfl)
    obtain ⟨-, rfl⟩ | ⟨hopen, rfl⟩ := hchecked
    · exact h.move (p := .closingQuietly c) (fun _ hd => by cases hd) (fun _ => hdead)
        (fun d hd _ => by rw [hk] at hd; exact hd) (fun d hd => Option.some.inj hd ▸ hold)
        (fun _ _ hd => by cases hd) rfl rfl rfl le_rfl rfl rfl
    · refine h.move (p := .installing c) (fun _ hd => by cases hd) (fun _ => hdead)
        (fun d hd _ => by rw [hk] at hd; exact hd) (fun d hd => Option.some.inj hd ▸ hold)
        (fun hc => ?_) rfl rfl rfl le_rfl rfl rfl
      rw [hopen] at hc
      cases hc
  | closeQuietly k =>
    obtain ⟨c, hk, rfl⟩ := closeQuietly_cases hs
    exact h.discard (p := .done closed) hk (.inl rfl) rfl rfl rfl rfl rfl rfl
  | bump k =>
    obtain ⟨c, hk, rfl⟩ := bump_cases hs
    exact h.pass (p := .reading c) (by rw [hk]; rfl) (fun _ hd => by cases hd)
      (fun hd => by cases hd) rfl rfl rfl rfl rfl rfl rfl
  | closeChannel k =>
    obtain ⟨c, hk, rfl⟩ := closeChannel_cases hs
    exact h.pass (p := .done (.ok c)) (by rw [hk]; rfl) (fun _ hd => by cases hd)
      (fun hd => by cases hd) rfl rfl rfl rfl rfl rfl rfl
  | subscribe k =>
    obtain ⟨c, -, -, rfl⟩ := subscribe_cases hs
    exact h.frame rfl rfl rfl rfl rfl rfl
  | remember config =>
    obtain rfl := Option.some.inj hs
    exact h.frame rfl rfl rfl rfl rfl rfl
  | drop c =>
    obtain rfl := Option.some.inj hs
    exact h.drop rfl rfl rfl rfl rfl rfl
  | mark j =>
    obtain ⟨u, hu, rfl⟩ := Option.map_eq_some_iff.mp hs
    obtain ⟨-, rfl⟩ := closer_cases hu
    refine h.closer (q := .marked) (fun _ hd => by cases hd) (fun hd => by cases hd) ?_
      rfl rfl rfl rfl rfl rfl
    rcases hg with hc | hnone
    · exact h.shut hc
    · exact hnone
  | markAgain j =>
    obtain ⟨u, hu, rfl⟩ := Option.map_eq_some_iff.mp hs
    obtain ⟨hj, rfl⟩ := closer_cases hu
    have hc := h.marked j (by simp [hj])
    exact h.closer (q := .remarked) (fun _ hd => by cases hd) (fun hd => by cases hd) (h.shut hc)
      rfl rfl rfl rfl rfl rfl
  | drain j =>
    obtain ⟨hj, rfl⟩ := closer_cases hs
    have hc := h.marked j (by simp [hj])
    exact h.closer (q := .drained) (fun _ hd => by cases hd) (fun hd => by cases hd) (h.shut hc)
      rfl hc rfl rfl rfl rfl
  | peekCurrent j =>
    obtain ⟨hj, rfl⟩ := closer_cases hs
    have hc := h.marked j (by simp [hj])
    exact h.closer (q := .peeked s.current) (fun _ hd => by cases hd; rfl)
      (fun hd => by cases hd) (h.shut hc) rfl hc rfl rfl rfl rfl
  | closeCurrent j =>
    obtain ⟨c, hj, rfl⟩ := closeCurrent_cases hs
    obtain rfl := h.peeked j c hj
    have hc := h.marked j (by simp [hj])
    have dropped : Sealed (s.setConn s.current { s.conns s.current with live := false }) :=
      h.drop rfl rfl rfl rfl rfl rfl
    exact dropped.closer (q := .returned) (fun _ hd => by cases hd)
      (fun _ => by simp [State.setConn]) (h.shut hc) rfl hc rfl rfl rfl rfl
  | read k order =>
    obtain ⟨c, hk, -, ⟨-, rfl⟩ | rfl⟩ := read_cases hs
    · exact h.replay (p := .done (.ok c)) (by rw [hk]; rfl) (.inl rfl) rfl rfl
        rfl rfl rfl rfl rfl rfl
    · exact h.replay (p := .openingChannel c) (by rw [hk]; rfl) (.inr (.inl rfl)) rfl rfl
        rfl rfl rfl rfl rfl rfl
  | openChannel k opened =>
    obtain ⟨c, hk, rfl | rfl⟩ := openChannel_cases hs
    · exact h.pass (p := .redeclaring c (s.conns c).order) (by rw [hk]; rfl)
        (fun _ hd => by cases hd) (fun hd => by cases hd) rfl rfl rfl rfl rfl rfl rfl
    · exact h.replay (p := .done (.ok c)) (by rw [hk]; rfl) (.inl rfl) rfl rfl
        rfl rfl rfl rfl rfl rfl
  | redeclare k accepted =>
    obtain ⟨c, config, rest, hk, ⟨-, rfl⟩ | ⟨-, rfl⟩⟩ := redeclare_cases hs
    · exact h.replay (p := .redeclaring c rest) (by rw [hk]; rfl) (.inr (.inl rfl)) rfl rfl
        rfl rfl rfl rfl rfl rfl
    · exact h.replay (p := .closingChannel c) (by rw [hk]; rfl) (.inr (.inr rfl)) rfl rfl
        rfl rfl rfl rfl rfl rfl
  | cancel k =>
    obtain ⟨-, hk, rfl⟩ | ⟨c, hk, rfl⟩ | ⟨c, -, hk, rfl⟩ := cancel_cases hs
    · exact h.pass (p := .cancelled) hk (fun _ hd => by cases hd) (fun hd => by cases hd) rfl
        rfl rfl rfl rfl rfl rfl
    · exact h.discard (p := .cancelled) hk (.inr rfl) rfl rfl rfl rfl rfl rfl
    · exact h.replay (p := .cancelled) hk (.inl rfl) rfl rfl rfl rfl rfl rfl rfl rfl

theorem reachable_sealed (h : Reach system Unraced s) : Sealed s := by
  refine h.strengthen (K := Locked) (fun _ hr => reachable_locked hr.reachable) ?_
    fun _ _ _ hl _ hsealed hg hs => hsealed.step hl hg hs
  rintro _ ⟨reconnects, rfl⟩
  constructor <;> simp +contextual [connected, Phase.unshared, Phase.replaces]
  omega

/-! ## Calls that start late -/

/-- A call that started after `mark_closing` has dialled nothing, and its only check fails. -/
structure Late (s : State) : Prop where
  fails : ∀ k, s.late k = true → s.closing = true ∧ s.dials k = false ∧
    (s.phase k = .checking false ∨ s.phase k = .done closed)
  idle : ∀ k, s.phase k = .idle → s.dials k = false

theorem Late.early (h : Late s) (hk : ¬(s.phase k = .checking false ∨ s.phase k = .done closed)) :
    s.late k = false := by
  by_contra hl
  exact hk (h.fails k (by simpa using hl)).2.2

/-- Calls that started in time may do anything. -/
theorem Late.move (h : Late s) (hk : s.late k = false ∨ p = .done closed)
    (phase : t.phase = Function.update s.phase k p) (hp : p ≠ .idle) (late : t.late = s.late)
    (dials : ∀ j, j ≠ k ∨ s.late j = true → t.dials j = s.dials j)
    (closing : t.closing = s.closing) : Late t := by
  constructor
  · intro j hj
    rw [late] at hj
    obtain ⟨hc, hd, hphase⟩ := h.fails j hj
    refine ⟨closing.trans hc, (dials j (.inr hj)).trans hd, ?_⟩
    rw [phase]
    by_cases hjk : j = k
    · subst j
      rcases hk with hk | hk
      · rw [hj] at hk
        cases hk
      · rw [Function.update_self]
        exact .inr hk
    · rw [Function.update_of_ne hjk]
      exact hphase
  · intro j hj
    have hjk : j ≠ k := by
      rintro rfl
      rw [phase, Function.update_self] at hj
      exact hp hj
    rw [phase, Function.update_of_ne hjk] at hj
    exact (dials j (.inl hjk)).trans (h.idle j hj)

theorem Late.frame (h : Late s) (phase : t.phase = s.phase) (late : t.late = s.late)
    (dials : t.dials = s.dials) (closing : s.closing = true → t.closing = true) : Late t := by
  constructor
  · intro j hj
    rw [late] at hj
    rw [phase, dials]
    exact ⟨closing (h.fails j hj).1, (h.fails j hj).2⟩
  · rw [phase, dials]
    exact h.idle

/-- What a new call is depends on whether the handle is closing. -/
theorem Late.call (h : Late s) (hk : s.phase k = .idle)
    (phase : t.phase = Function.update s.phase k (.checking false))
    (late : t.late = Function.update s.late k s.closing) (dials : t.dials = s.dials)
    (closing : t.closing = s.closing) : Late t := by
  constructor
  · intro j hj
    rw [closing, dials, phase]
    rw [late] at hj
    by_cases hjk : j = k
    · subst j
      rw [Function.update_self] at hj ⊢
      exact ⟨hj, h.idle k hk, .inl rfl⟩
    · rw [Function.update_of_ne hjk] at hj ⊢
      exact h.fails j hj
  · intro j hj
    rw [dials]
    by_cases hjk : j = k
    · subst j
      exact h.idle k hk
    · rw [phase, Function.update_of_ne hjk] at hj
      exact h.idle j hj

/-- A call that started in time moves on. -/
theorem Late.pass (h : Late s) (hearly : s.late k = false)
    (phase : t.phase = Function.update s.phase k p) (hp : p ≠ .idle) (late : t.late = s.late)
    (dials : t.dials = s.dials) (closing : t.closing = s.closing) : Late t :=
  h.move (.inl hearly) phase hp late (fun j _ => congrFun dials j) closing

theorem Late.step {a : Action} (h : Late s) (hs : ConnectionHandle.step s a = some t) : Late t := by
  cases a with
  | call k =>
    obtain ⟨hk, rfl⟩ := call_cases hs
    exact h.call hk rfl rfl rfl rfl
  | check k =>
    obtain ⟨locked, hk, ⟨-, rfl⟩ | ⟨hopen, rfl⟩⟩ := check_cases hs
    · exact h.move (.inr rfl) rfl (by simp) rfl (fun _ _ => rfl) rfl
    · refine h.move (p := .peeking locked) (.inl ?_) rfl (by simp) rfl (fun _ _ => rfl) rfl
      by_contra hl
      have hc := (h.fails k (by simpa using hl)).1
      rw [hopen] at hc
      cases hc
  | «open» k =>
    obtain ⟨failures, last, hk, ⟨-, rfl⟩ | ⟨-, rfl⟩⟩ := open_cases hs
    · exact h.move (.inr rfl) rfl (by simp) rfl (fun _ _ => rfl) rfl
    · have hearly := h.early (k := k) (by simp [hk])
      refine h.move (p := .dialling failures) (.inl hearly) rfl (by simp) rfl (fun j hj => ?_) rfl
      have hjk : j ≠ k := by
        rcases hj with hj | hj
        · exact hj
        · rintro rfl
          rw [hearly] at hj
          cases hj
      exact Function.update_of_ne hjk _ _
  | peek k =>
    obtain ⟨locked, hk, rfl⟩ := peek_cases hs
    exact h.pass (h.early (by simp [hk])) rfl (by simp) rfl rfl rfl
  | judge k =>
    obtain ⟨locked, c, hk, hjudged⟩ := judge_cases hs
    have hearly := h.early (k := k) (by simp [hk])
    obtain ⟨-, rfl⟩ | ⟨-, ⟨-, rfl⟩ | ⟨-, rfl⟩ | rfl⟩ := hjudged
    · exact h.pass (p := .done (.ok c)) hearly rfl (by simp) rfl rfl rfl
    · exact h.pass hearly rfl (by simp) rfl rfl rfl
    · exact h.pass hearly rfl (by simp) rfl rfl rfl
    · exact h.pass hearly rfl (by simp) rfl rfl rfl
  | lock k =>
    obtain ⟨hk, -, rfl⟩ := lock_cases hs
    exact h.pass (p := .checking true) (h.early (by simp [hk])) rfl (by simp) rfl rfl rfl
  | pace k delay =>
    obtain ⟨failures, last, hk, hpaced⟩ := pace_cases hs
    have hearly := h.early (k := k) (by simp [hk])
    obtain ⟨-, rfl⟩ | ⟨d, -, -, rfl⟩ | ⟨d, -, rfl⟩ := hpaced <;>
      exact h.pass hearly rfl (by simp) rfl rfl rfl
  | wake k =>
    obtain ⟨failures, last, hk, hwoken⟩ := wake_cases hs
    have hearly := h.early (k := k) (by simp [hk])
    obtain ⟨-, rfl⟩ | ⟨-, rfl⟩ := hwoken <;>
      exact h.pass hearly rfl (by simp) rfl rfl rfl
  | dial k failed =>
    obtain ⟨failures, hk, hdialled⟩ := dial_cases hs
    have hearly := h.early (k := k) (by simp [hk])
    obtain ⟨e, -, rfl⟩ | ⟨-, rfl⟩ := hdialled
    · exact h.pass hearly rfl (by simp) rfl rfl rfl
    · exact h.pass (p := .dialled s.next) hearly rfl (by simp) rfl rfl rfl
  | recheck k =>
    obtain ⟨c, hk, hchecked⟩ := recheck_cases hs
    have hearly := h.early (k := k) (by simp [hk])
    obtain ⟨-, rfl⟩ | ⟨-, rfl⟩ := hchecked <;>
      exact h.pass hearly rfl (by simp) rfl rfl rfl
  | closeQuietly k =>
    obtain ⟨c, hk, rfl⟩ := closeQuietly_cases hs
    exact h.move (p := .done closed) (.inr rfl) rfl (by simp) rfl (fun _ _ => rfl) rfl
  | install k =>
    obtain ⟨c, hk, rfl⟩ := install_cases hs
    exact h.pass (p := .bumping c) (h.early (by simp [hk])) rfl (by simp) rfl rfl rfl
  | bump k =>
    obtain ⟨c, hk, rfl⟩ := bump_cases hs
    exact h.pass (p := .reading c) (h.early (by simp [hk])) rfl (by simp) rfl rfl rfl
  | read k order =>
    obtain ⟨c, hk, -, hread⟩ := read_cases hs
    have hearly := h.early (k := k) (by simp [hk])
    obtain ⟨-, rfl⟩ | rfl := hread
    · exact h.pass (p := .done (.ok c)) hearly rfl (by simp) rfl rfl rfl
    · exact h.pass (p := .openingChannel c) hearly rfl (by simp) rfl rfl rfl
  | openChannel k opened =>
    obtain ⟨c, hk, hopened⟩ := openChannel_cases hs
    have hearly := h.early (k := k) (by simp [hk])
    obtain rfl | rfl := hopened
    · exact h.pass hearly rfl (by simp) rfl rfl rfl
    · exact h.pass (p := .done (.ok c)) hearly rfl (by simp) rfl rfl rfl
  | redeclare k accepted =>
    obtain ⟨c, config, rest, hk, hnext⟩ := redeclare_cases hs
    have hearly := h.early (k := k) (by simp [hk])
    obtain ⟨-, rfl⟩ | ⟨-, rfl⟩ := hnext
    · exact h.pass (p := .redeclaring c rest) hearly rfl (by simp) rfl rfl rfl
    · exact h.pass (p := .closingChannel c) hearly rfl (by simp) rfl rfl rfl
  | closeChannel k =>
    obtain ⟨c, hk, rfl⟩ := closeChannel_cases hs
    exact h.pass (h.early (by simp [hk])) rfl (by simp) rfl rfl rfl
  | cancel k =>
    have hearly : s.late k = false := h.early (by grind [ConnectionHandle.step, stepCancel])
    obtain ⟨-, -, rfl⟩ | ⟨c, -, rfl⟩ | ⟨c, -, -, rfl⟩ := cancel_cases hs <;>
      exact h.pass (p := .cancelled) hearly rfl (by simp) rfl rfl rfl
  | subscribe k =>
    obtain ⟨c, -, -, rfl⟩ := subscribe_cases hs
    exact h.frame rfl rfl rfl id
  | mark j | markAgain j =>
    obtain ⟨u, hu, rfl⟩ := Option.map_eq_some_iff.mp hs
    obtain ⟨-, rfl⟩ := closer_cases hu
    exact h.frame rfl rfl rfl fun _ => rfl
  | drain j | peekCurrent j =>
    obtain ⟨-, rfl⟩ := closer_cases hs
    exact h.frame rfl rfl rfl id
  | closeCurrent j =>
    obtain ⟨c, -, rfl⟩ := closeCurrent_cases hs
    exact h.frame rfl rfl rfl id
  | remember config | drop c =>
    obtain rfl := Option.some.inj hs
    exact h.frame rfl rfl rfl id

theorem reachable_late (h : Reachable system s) : Late s := by
  refine h.invariant ?_ fun _ _ _ hlate _ hs => hlate.step hs
  rintro _ ⟨reconnects, rfl⟩
  exact ⟨nofun, fun _ _ => rfl⟩

/-- Where no `mark_closing` falls between a reconnect's last check and its swap, a returned
`close` leaves nothing open once the last call has ended, and nobody has subscribed on a
connection swapped in after the mark. A call that starts late never dials and only fails. -/
theorem close_final_unless_raced (s : State) :
    (Reach system Unraced s →
      ((∃ j, s.closer j = .returned) → (∀ k, (s.phase k).running = false) →
        (∀ c < s.next, (s.conns c).live = false) ∧ (s.conns s.current).live = false) ∧
      ∀ c ∈ s.subscribed, (s.conns c).raced = false) ∧
    (Reachable system s → ∀ k, s.late k = true →
      s.dials k = false ∧ (s.phase k = .checking false ∨ s.phase k = .done closed)) := by
  constructor
  · intro h
    have hsealed := reachable_sealed h
    refine ⟨fun ⟨j, hj⟩ hidle => ?_, fun c _ => hsealed.raced c⟩
    have hcurrent := hsealed.returned j hj
    refine ⟨fun c _ => ?_, hcurrent⟩
    by_contra hlive
    rcases hsealed.live c (by simpa using hlive) with rfl | ⟨k, hk⟩
    · exact hlive hcurrent
    · have hrunning := hidle k
      cases hp : s.phase k with
      | dialled | closingQuietly | installing => rw [hp] at hrunning; cases hrunning
      | _ => rw [hp] at hk; cases hk
  · intro h k hk
    exact ((reachable_late h).fails k hk).2

/-- The connection drops, and call 0 dials another. -/
def redialRun : List Action :=
  [.drop 0, .call 0, .check 0, .peek 0, .judge 0, .lock 0, .check 0, .peek 0, .judge 0,
    .pace 0 (some .zero), .open 0, .dial 0 none]

def closeRun (j : ℕ) : List Action :=
  [.mark j, .drain j, .markAgain j, .peekCurrent j, .closeCurrent j]

/-- Marked before the last check, the call closes what it dialled, and call 1 never dials. -/
theorem close_during_dial : ∃ s, Reach system Unraced s ∧ s.next = 2 ∧
    (∀ c < s.next, (s.conns c).live = false) ∧ s.phase 1 = .done closed ∧ s.dials 1 = false := by
  have start : Reach system Unraced (connected true) := .start ⟨true, rfl⟩
  have dialled := start.guardedRun redialRun (guarded_of_forall (by simp [redialRun, Unraced]) _) rfl
  have marked := dialled.next (a := Action.mark 0)
    (.inr fun k c => by rcases k with _ | k <;> exact nofun) rfl
  have reached := marked.guardedRun [.drain 0, .markAgain 0, .peekCurrent 0, .closeCurrent 0,
    .call 1, .check 1, .recheck 0, .closeQuietly 0] (guarded_of_forall (by simp [Unraced]) _) rfl
  exact ⟨_, reached, rfl, (((close_final_unless_raced _).1 reached).1 ⟨0, rfl⟩
    (fun k => by rcases k with _ | _ | k <;> rfl)).1, rfl,
    ((close_final_unless_raced _).2 reached.reachable 1 rfl).1⟩

/-- Marked after the last check, the handle gets a connection that nobody closes, and a
consumer subscribes on it. -/
theorem close_leaves_raced_connection : ∃ s, Reachable system s ∧ s.closer 0 = .returned ∧
    (∀ k, (s.phase k).running = false) ∧ s.current = 1 ∧ (s.conns 1).live = true ∧
    1 ∈ s.subscribed ∧ (s.conns 1).raced = true := by
  have start : Reachable system (connected true) := .start ⟨true, rfl⟩
  have reached := start.run (redialRun ++ Action.recheck 0 :: closeRun 0 ++
    [Action.install 0, .bump 0, .read 0 [], .subscribe 0]) rfl
  exact ⟨_, reached, rfl, fun k => by rcases k with _ | k <;> rfl, rfl, rfl, .head _, rfl⟩

end Queuey.Rabbit.ConnectionHandle
