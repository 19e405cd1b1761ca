import Queuey.Library.Tally
import Queuey.Rabbit.ConfirmPool

/-!
# The bound on the pool, and its close

Permits and channels are counted apart: every idle channel is backed by a permit that no
call has turned into a channel of its own, so idle, leased and opening channels never
exceed the permits. A closer with all the permits leaves none for a lease, and the closed
semaphore keeps it so.
-/
namespace Queuey.Rabbit.ConfirmPool
open Transition Tally

variable {s t : State} {k j : ℕ} {p : Phase} {x : Closer} {a : Action}

/-- The channel that is there for a call, leased or being opened. -/
def Phase.pooled : Phase → ℕ
  | opening | leased _ | sending _ | confirming _ | returning _ _ => 1
  | idle | waiting | permitted | releasing _ | done _ => 0

/-- The permit of a call with no channel: not yet, or given back already. -/
def Phase.vacant : Phase → ℕ
  | permitted | releasing _ => 1
  | _ => 0

def Phase.permit (p : Phase) : ℕ := p.pooled + p.vacant

/-- The closer holds all the permits. -/
def Closer.took : Closer → ℕ
  | locked true | drained true | closing true _ _ => 1
  | _ => 0

/-- Every permit is free, with a call or with a closer, and every idle channel is backed by
one that is with no channel. -/
structure Banked (s : State) : Prop where
  pooled : Light Phase.pooled s.phase
  vacant : Light Phase.vacant s.phase
  took : Light Closer.took s.closer
  permits : s.permits + tally Phase.pooled s.phase + tally Phase.vacant s.phase +
    tally Closer.took s.closer * s.size = s.size
  idle : s.idle.length ≤ s.permits + tally Phase.vacant s.phase +
    tally Closer.took s.closer * s.size

/-- A call moves on; what it takes or gives back is accounted for. -/
theorem Banked.rephase (h : Banked s) (phase : t.phase = Function.update s.phase k p)
    (closer : t.closer = s.closer) (size : t.size = s.size)
    (permits : t.permits + p.permit = s.permits + (s.phase k).permit)
    (idle : t.idle = [] ∨ t.idle.length + (s.permits + (s.phase k).vacant) ≤
      s.idle.length + (t.permits + p.vacant)) : Banked t := by
  have hpooled := h.pooled.tally_update k p
  have hvacant := h.vacant.tally_update k p
  have hpermits := h.permits
  have hidle := h.idle
  unfold Phase.permit at permits
  refine ⟨phase ▸ h.pooled.update k p, phase ▸ h.vacant.update k p, closer ▸ h.took, ?_, ?_⟩
  · rw [phase, closer, size]
    omega
  · rw [phase, closer, size]
    obtain hnil | hle := idle
    · simp [hnil]
    · omega

/-- A call moves on with what it has. -/
theorem Banked.move (h : Banked s) (pooled : p.pooled = (s.phase k).pooled)
    (vacant : p.vacant = (s.phase k).vacant) (phase : t.phase = Function.update s.phase k p)
    (closer : t.closer = s.closer) (size : t.size = s.size) (permits : t.permits = s.permits)
    (idle : t.idle = s.idle) : Banked t := by
  refine h.rephase phase closer size ?_ (.inr ?_)
  · rw [permits, Phase.permit, Phase.permit, pooled, vacant]
  · rw [permits, idle, vacant]

theorem Banked.frame (h : Banked s) (phase : t.phase = s.phase) (closer : t.closer = s.closer)
    (size : t.size = s.size) (permits : t.permits = s.permits) (idle : t.idle = s.idle) :
    Banked t := by
  refine h.move (k := 0) (p := s.phase 0) rfl rfl ?_ closer size permits idle
  rw [phase, Function.update_eq_self]

/-- A closer moves on; what it takes or gives back is accounted for. -/
theorem Banked.reclose (h : Banked s) (closer : t.closer = Function.update s.closer j x)
    (phase : t.phase = s.phase) (size : t.size = s.size)
    (permits : t.permits + x.took * s.size = s.permits + (s.closer j).took * s.size)
    (idle : t.idle.length ≤ s.idle.length) : Banked t := by
  have hupdate := h.took.tally_update j x
  have htook : tally Closer.took t.closer * s.size + (s.closer j).took * s.size =
      tally Closer.took s.closer * s.size + x.took * s.size := by
    rw [closer, ← Nat.add_mul, ← Nat.add_mul, hupdate]
  have hpermits := h.permits
  have hidle := h.idle
  refine ⟨phase ▸ h.pooled, phase ▸ h.vacant, closer ▸ h.took.update j x, ?_, ?_⟩
  · rw [phase, size]
    omega
  · rw [phase, size]
    omega

theorem Banked.pop (h : Banked s) (hs : stepPop s k = some t) : Banked t := by
  obtain ⟨hk, ⟨hidle, rfl⟩ | ⟨c, rest, hidle, ⟨-, rfl⟩ | ⟨-, rfl⟩⟩⟩ := pop_cases hs
  · refine h.rephase rfl rfl rfl ?_ (.inl hidle)
    rw [hk]
    rfl
  all_goals
    refine h.rephase rfl rfl rfl ?_ (.inr ?_)
    · rw [hk]
      rfl
    · simp [hk, hidle, State.setPhase, Phase.vacant]
      omega

theorem Banked.step (h : Banked s) (hs : ConfirmPool.step s a = some t) : Banked t := by
  cases a with
  | call k queue =>
    obtain ⟨hk, rfl | ⟨e, rfl⟩⟩ := call_cases hs
    · exact h.move (k := k) (p := .waiting) (by rw [hk]; rfl) (by rw [hk]; rfl) rfl rfl rfl rfl rfl
    · exact h.move (by rw [hk]; rfl) (by rw [hk]; rfl) rfl rfl rfl rfl rfl
  | acquire k =>
    obtain ⟨hk, ⟨-, rfl⟩ | ⟨-, hfree, rfl⟩⟩ := acquire_cases hs
    · exact h.move (by rw [hk]; rfl) (by rw [hk]; rfl) rfl rfl rfl rfl rfl
    · refine h.rephase (p := .permitted) rfl rfl rfl ?_ (.inr ?_) <;>
        simp [hk, State.setPhase, Phase.permit, Phase.pooled, Phase.vacant] <;> omega
  | pop k => exact h.pop hs
  | opened k result =>
    obtain ⟨hk, rfl | ⟨e, rfl⟩⟩ := opened_cases hs
    · exact h.move (k := k) (p := .leased s.next) (by rw [hk]; rfl) (by rw [hk]; rfl) rfl rfl rfl
        rfl rfl
    · refine h.rephase rfl rfl rfl ?_ (.inr ?_) <;>
        simp [hk, State.setPhase, Phase.permit, Phase.pooled, Phase.vacant]
  | publish k refused =>
    obtain ⟨c, hk, ⟨e, rfl⟩ | ⟨-, rfl⟩⟩ := publish_cases hs
    · exact h.move (by rw [hk]; rfl) (by rw [hk]; rfl) rfl rfl rfl rfl rfl
    · exact h.move (p := .sending c) (by rw [hk]; rfl) (by rw [hk]; rfl) rfl rfl rfl rfl rfl
  | sent k failed =>
    obtain ⟨c, hk, rfl | ⟨-, e, rfl⟩⟩ := sent_cases hs <;>
      exact h.move (by rw [hk]; rfl) (by rw [hk]; rfl) rfl rfl rfl rfl rfl
  | confirm k =>
    obtain ⟨c, hk, ⟨confirmation, -, rfl⟩ | ⟨e, -, rfl⟩⟩ := confirm_cases hs <;>
      exact h.move (by rw [hk]; rfl) (by rw [hk]; rfl) rfl rfl rfl rfl rfl
  | pushBack k =>
    obtain ⟨c, outcome, hk, rfl⟩ := pushBack_cases hs
    refine h.rephase (p := .releasing outcome) rfl rfl rfl ?_ (.inr ?_) <;>
      simp [hk, State.setPhase, Phase.permit, Phase.pooled, Phase.vacant]
    omega
  | release k =>
    obtain ⟨outcome, hk, rfl⟩ := release_cases hs
    refine h.rephase (p := .done outcome) rfl rfl rfl ?_ (.inr ?_) <;>
      simp [hk, State.setPhase, Phase.permit, Phase.pooled, Phase.vacant]
  | cancel k =>
    obtain ⟨hk, rfl⟩ | ⟨hk, rfl⟩ | ⟨c, hk | hk, rfl⟩ := cancel_cases hs
    · exact h.move (by rw [hk]; rfl) (by rw [hk]; rfl) rfl rfl rfl rfl rfl
    · refine h.rephase rfl rfl rfl ?_ (.inr ?_) <;>
        simp [hk, State.setPhase, Phase.permit, Phase.pooled, Phase.vacant]
    · exact h.move (by rw [hk]; rfl) (by rw [hk]; rfl) rfl rfl rfl rfl rfl
    · exact h.move (by rw [hk]; rfl) (by rw [hk]; rfl) rfl rfl rfl rfl rfl
  | route c k =>
    obtain ⟨-, -, rfl⟩ := route_cases hs
    exact h.frame rfl rfl rfl rfl rfl
  | giveBack c k replyCode replyText =>
    obtain ⟨-, -, -, rfl⟩ := giveBack_cases hs
    exact h.frame rfl rfl rfl rfl rfl
  | resolve c k acked =>
    obtain ⟨-, -, -, rfl⟩ := resolve_cases hs
    exact h.frame rfl rfl rfl rfl rfl
  | die c error =>
    obtain rfl := die_cases hs
    exact h.frame rfl rfl rfl rfl rfl
  | close j =>
    obtain ⟨hj, rfl⟩ := close_cases hs
    refine h.reclose rfl rfl rfl ?_ le_rfl
    rw [hj]
    rfl
  | takePermits j =>
    obtain ⟨hj, ⟨-, rfl⟩ | ⟨-, hall, rfl⟩⟩ := takePermits_cases hs
    · refine h.reclose rfl rfl rfl ?_ le_rfl
      rw [hj]
      rfl
    · refine h.reclose (x := .locked true) rfl rfl rfl ?_ le_rfl
      simp [hj, Closer.took]
      omega
  | closePermits j =>
    obtain ⟨took, hj, rfl⟩ := closePermits_cases hs
    refine h.reclose (x := .drained took) rfl rfl rfl ?_ le_rfl
    cases took <;> simp [hj, State.setCloser, Closer.took]
  | takeIdle j =>
    obtain ⟨took, hj, rfl⟩ := takeIdle_cases hs
    refine h.reclose (x := .closing took s.idle (.ok ())) rfl rfl rfl ?_ (Nat.zero_le _)
    cases took <;> simp [hj, State.setCloser, Closer.took]
  | closeChannel j result =>
    obtain ⟨took, c, rest, first, after, hj, rfl | rfl⟩ := closeChannel_cases hs
    all_goals
      refine h.reclose rfl rfl rfl ?_ le_rfl
      rw [hj]
      cases took <;> rfl
  | closeDone j =>
    obtain ⟨took, result, hj, rfl⟩ := closeDone_cases hs
    refine h.reclose (x := .done result) rfl rfl rfl ?_ le_rfl
    cases took <;> simp [hj, Closer.took]

theorem banked_seeded (size : ℕ) (hsize : 0 < size) : Banked (seeded size) := by
  have hpooled : tally Phase.pooled (seeded size).phase = 0 := tally_of_zero fun _ => rfl
  have hvacant : tally Phase.vacant (seeded size).phase = 0 := tally_of_zero fun _ => rfl
  have htook : tally Closer.took (seeded size).closer = 0 := tally_of_zero fun _ => rfl
  refine ⟨light_of_zero fun _ => rfl, light_of_zero fun _ => rfl, light_of_zero fun _ => rfl, ?_, ?_⟩
  · rw [hpooled, hvacant, htook]
    simp [seeded]
  · rw [hvacant, htook]
    simp [seeded]
    omega

theorem banked_start (h : system.start s) : Banked s := by
  obtain ⟨publishConcurrency, rfl⟩ := h
  exact banked_seeded _ (by simp [poolSize])

theorem banked_of_reach {G : State → Action → Prop} (h : Reach system G s) : Banked s :=
  h.invariant (fun _ => banked_start) fun _ _ _ hb _ hs => hb.step hs

/-! ## Closing -/

/-- The closer has found the semaphore closed, or has closed it. -/
def Closer.past : Closer → Bool
  | locked false | drained _ | closing _ _ _ | done _ => true
  | _ => false

/-- The closer has taken the idle channels. -/
def Closer.emptied : Closer → Bool
  | closing _ _ _ | done _ => true
  | _ => false

/-- A closed semaphore leaves no permit with a call, and nothing brings a channel back. -/
structure Sealed (s : State) : Prop where
  free : s.closed = true → ∀ k, (s.phase k).permit = 0
  past : ∀ j, (s.closer j).past = true → s.closed = true
  emptied : ∀ j, (s.closer j).emptied = true → s.idle = []

theorem Closer.past_of_emptied {x : Closer} (h : x.emptied = true) : x.past = true := by
  cases x <;> simp_all [past, emptied]

/-- A call that holds a permit has the semaphore open. -/
theorem Sealed.open (h : Sealed s) (hk : (s.phase k).permit = 1) : s.closed = false := by
  by_contra hc
  have hfree := h.free (by simpa using hc) k
  omega

/-- While the semaphore is open, calls may move and the idle list may change. -/
theorem Sealed.busy (h : Sealed s) (hopen : s.closed = false) (closed : t.closed = s.closed)
    (closer : t.closer = s.closer) : Sealed t where
  free hc := by
    rw [closed, hopen] at hc
    cases hc
  past j hj := by
    rw [closer] at hj
    rw [closed]
    exact h.past j hj
  emptied j hj := by
    rw [closer] at hj
    have hc := h.past j (Closer.past_of_emptied hj)
    rw [hopen] at hc
    cases hc

/-- A call moves on without a permit. -/
theorem Sealed.bare (h : Sealed s) (hp : p.permit = 0)
    (phase : t.phase = Function.update s.phase k p) (closed : t.closed = s.closed)
    (closer : t.closer = s.closer) (idle : t.idle = s.idle) : Sealed t where
  free hc i := by
    rw [phase, Function.update_apply]
    split_ifs
    · exact hp
    · exact h.free (closed ▸ hc) i
  past j hj := by
    rw [closer] at hj
    rw [closed]
    exact h.past j hj
  emptied j hj := by
    rw [closer] at hj
    rw [idle]
    exact h.emptied j hj

theorem Sealed.frame (h : Sealed s) (phase : t.phase = s.phase) (closed : t.closed = s.closed)
    (closer : t.closer = s.closer) (idle : t.idle = s.idle) : Sealed t where
  free hc i := by
    rw [phase]
    exact h.free (closed ▸ hc) i
  past j hj := by
    rw [closer] at hj
    rw [closed]
    exact h.past j hj
  emptied j hj := by
    rw [closer] at hj
    rw [idle]
    exact h.emptied j hj

/-- A closer moves on. -/
theorem Sealed.reclose (h : Sealed s) (closer : t.closer = Function.update s.closer j x)
    (phase : t.phase = s.phase) (free : t.closed = true → ∀ k, (s.phase k).permit = 0)
    (closed : s.closed = true → t.closed = true) (past : x.past = true → t.closed = true)
    (idle : t.idle = s.idle ∨ t.idle = []) (emptied : x.emptied = true → t.idle = []) :
    Sealed t where
  free hc i := by
    rw [phase]
    exact free hc i
  past i hi := by
    rw [closer, Function.update_apply] at hi
    split_ifs at hi
    · exact past hi
    · exact closed (h.past i hi)
  emptied i hi := by
    rw [closer, Function.update_apply] at hi
    split_ifs at hi
    · exact emptied hi
    · obtain hsame | hnil := idle
      · rw [hsame]
        exact h.emptied i hi
      · exact hnil

/-- A closer that holds all the permits leaves none to a call. -/
theorem Banked.free (h : Banked s) (hj : (s.closer j).took = 1) (k : ℕ) :
    (s.phase k).permit = 0 := by
  have htook : 1 ≤ tally Closer.took s.closer := hj ▸ h.took.le_tally j
  have hall : s.size ≤ tally Closer.took s.closer * s.size := Nat.le_mul_of_pos_left _ htook
  have hpermits := h.permits
  have hpooled := h.pooled.eq_zero (by omega) k
  have hvacant := h.vacant.eq_zero (by omega) k
  rw [Phase.permit, hpooled, hvacant]

theorem Sealed.step (h : Sealed s) (hb : Banked s) (hs : ConfirmPool.step s a = some t) :
    Sealed t := by
  cases a with
  | call k queue =>
    obtain ⟨-, rfl | ⟨e, rfl⟩⟩ := call_cases hs
    · exact h.bare (k := k) (p := .waiting) rfl rfl rfl rfl rfl
    · exact h.bare rfl rfl rfl rfl rfl
  | acquire k =>
    obtain ⟨-, ⟨-, rfl⟩ | ⟨hopen, -, rfl⟩⟩ := acquire_cases hs
    · exact h.bare rfl rfl rfl rfl rfl
    · exact h.busy hopen rfl rfl
  | pop k =>
    obtain ⟨hk, ⟨-, rfl⟩ | ⟨c, rest, -, ⟨-, rfl⟩ | ⟨-, rfl⟩⟩⟩ := pop_cases hs <;>
      exact h.busy (h.open (k := k) (by rw [hk]; rfl)) rfl rfl
  | opened k result =>
    obtain ⟨hk, rfl | ⟨e, rfl⟩⟩ := opened_cases hs <;>
      exact h.busy (h.open (k := k) (by rw [hk]; rfl)) rfl rfl
  | publish k refused =>
    obtain ⟨c, hk, ⟨e, rfl⟩ | ⟨-, rfl⟩⟩ := publish_cases hs <;>
      exact h.busy (h.open (k := k) (by rw [hk]; rfl)) rfl rfl
  | sent k failed =>
    obtain ⟨c, hk, rfl | ⟨-, e, rfl⟩⟩ := sent_cases hs <;>
      exact h.busy (h.open (k := k) (by rw [hk]; rfl)) rfl rfl
  | confirm k =>
    obtain ⟨c, hk, ⟨confirmation, -, rfl⟩ | ⟨e, -, rfl⟩⟩ := confirm_cases hs <;>
      exact h.busy (h.open (k := k) (by rw [hk]; rfl)) rfl rfl
  | pushBack k =>
    obtain ⟨c, outcome, hk, rfl⟩ := pushBack_cases hs
    exact h.busy (h.open (k := k) (by rw [hk]; rfl)) rfl rfl
  | release k =>
    obtain ⟨outcome, hk, rfl⟩ := release_cases hs
    exact h.busy (h.open (k := k) (by rw [hk]; rfl)) rfl rfl
  | cancel k =>
    obtain ⟨-, rfl⟩ | ⟨hk, rfl⟩ | ⟨c, hk | hk, rfl⟩ := cancel_cases hs
    · exact h.bare rfl rfl rfl rfl rfl
    all_goals exact h.busy (h.open (k := k) (by rw [hk]; rfl)) rfl rfl
  | route c k =>
    obtain ⟨-, -, rfl⟩ := route_cases hs
    exact h.frame rfl rfl rfl rfl
  | giveBack c k replyCode replyText =>
    obtain ⟨-, -, -, rfl⟩ := giveBack_cases hs
    exact h.frame rfl rfl rfl rfl
  | resolve c k acked =>
    obtain ⟨-, -, -, rfl⟩ := resolve_cases hs
    exact h.frame rfl rfl rfl rfl
  | die c error =>
    obtain rfl := die_cases hs
    exact h.frame rfl rfl rfl rfl
  | close j =>
    obtain ⟨-, rfl⟩ := close_cases hs
    exact h.reclose rfl rfl h.free id nofun (.inl rfl) nofun
  | takePermits j =>
    obtain ⟨-, ⟨hclosed, rfl⟩ | ⟨-, -, rfl⟩⟩ := takePermits_cases hs
    · exact h.reclose rfl rfl h.free id (fun _ => hclosed) (.inl rfl) nofun
    · exact h.reclose (x := .locked true) rfl rfl h.free id nofun (.inl rfl) nofun
  | closePermits j =>
    obtain ⟨took, hj, rfl⟩ := closePermits_cases hs
    refine h.reclose (x := .drained took) rfl rfl (fun _ => ?_) (fun _ => rfl) (fun _ => rfl)
      (.inl rfl) nofun
    cases took with
    | true => exact hb.free (by rw [hj]; rfl)
    | false => exact h.free (h.past j (by rw [hj]; rfl))
  | takeIdle j =>
    obtain ⟨took, hj, rfl⟩ := takeIdle_cases hs
    exact h.reclose (x := .closing took s.idle (.ok ())) rfl rfl h.free id
      (fun _ => h.past j (by rw [hj]; rfl)) (.inr rfl) fun _ => rfl
  | closeChannel j result =>
    obtain ⟨took, c, rest, first, after, hj, rfl | rfl⟩ := closeChannel_cases hs <;>
      exact h.reclose rfl rfl h.free id (fun _ => h.past j (by rw [hj]; rfl)) (.inl rfl)
        fun _ => h.emptied j (by rw [hj]; rfl)
  | closeDone j =>
    obtain ⟨took, result, hj, rfl⟩ := closeDone_cases hs
    exact h.reclose (x := .done result) rfl rfl h.free id (fun _ => h.past j (by rw [hj]; rfl))
      (.inl rfl) fun _ => h.emptied j (by rw [hj]; rfl)

theorem sealed_of_reach {G : State → Action → Prop} (h : Reach system G s) : Sealed s := by
  refine h.strengthen (fun _ => banked_of_reach) (fun s hs => ?_) fun _ _ _ hb _ hi _ hs =>
    hi.step hb hs
  obtain ⟨publishConcurrency, rfl⟩ := hs
  exact ⟨nofun, nofun, nofun⟩

/-- Once closed, the pool opens no channel any more. -/
theorem Sealed.no_opening (h : Sealed s) (hclosed : s.closed = true)
    (result : Except Failure Unit) : ConfirmPool.step s (.opened k result) = none := by
  cases hs : ConfirmPool.step s (.opened k result) with
  | none => rfl
  | some t =>
    obtain ⟨hk, -⟩ := opened_cases hs
    have hfree := h.free hclosed k
    rw [hk] at hfree
    cases hfree

/-- The pool never has more channels than permits and loses none of these; no lease is alive
when a close starts on the channels, and none comes back after it has returned. -/
theorem pool_bound_and_close (h : Reachable system s) :
    s.idle.length + tally Phase.pooled s.phase ≤ s.size ∧
    s.permits + tally Phase.permit s.phase + tally Closer.took s.closer * s.size = s.size ∧
    (∀ j, (s.closer j).emptied = true → ∀ k, (s.phase k).permit = 0) ∧
    ∀ j result, s.closer j = .done result → s.idle = [] ∧ (∀ k, (s.phase k).permit = 0) ∧
      (∀ k, s.phase k = .waiting → ConfirmPool.step s (.acquire k) =
        some (s.setPhase k (.done (.returned (.error RabbitMqError.closed.intoCore))))) ∧
      ∀ k result, ConfirmPool.step s (.opened k result) = none := by
  have banked := banked_of_reach h
  have sealed := sealed_of_reach h
  have permits := banked.permits
  have idle := banked.idle
  have both : tally Phase.permit s.phase = tally Phase.pooled s.phase + tally Phase.vacant s.phase :=
    banked.pooled.tally_add banked.vacant
  refine ⟨by omega, by omega, fun j hj => sealed.free (sealed.past j (Closer.past_of_emptied hj)),
    fun j result hj => ?_⟩
  have hclosed : s.closed = true := sealed.past j (by rw [hj]; rfl)
  refine ⟨sealed.emptied j (by rw [hj]; rfl), sealed.free hclosed, fun k hk => ?_,
    fun k => sealed.no_opening hclosed⟩
  simp [ConfirmPool.step, stepAcquire, hk, hclosed]

/-- Two closes race while a publish on a dead channel fails to open a replacement: the first
waits for its permit, the second is woken by the first. -/
theorem pool_closed_twice : ∃ s, Reachable system s ∧ s.closer 0 = .done (.ok ()) ∧
    s.closer 1 = .done (.ok ()) ∧ s.idle = [] ∧ s.permits = 1 := by
  have start : Reachable system (seeded 1) := .start ⟨1, rfl⟩
  have reached := start.run [.call 0 "jobs", .acquire 0, .close 0, .close 1,
    .die 0 (.other "connection lost"), .pop 0, .opened 0 (.error RabbitMqError.closed.intoCore),
    .release 0, .takePermits 0, .closePermits 0, .takePermits 1, .closePermits 1, .takeIdle 1,
    .takeIdle 0, .closeDone 0, .closeDone 1] rfl
  exact ⟨_, reached, rfl, rfl, ((pool_bound_and_close reached).2.2.2 0 _ rfl).1, rfl⟩

end Queuey.Rabbit.ConfirmPool
