import Queuey.Core.MemoryFlow
import Queuey.Core.RacingClose
import Queuey.Library.Tally

/-!
# Counting holds

What `deferred` counts. A hold is counted before its guard exists, and released in the
critical section that inserts its message, or by the guard's `Drop`.
-/
namespace Queuey.MemoryBackend
open Transition Tally

variable {V : Type} {s t : State V} {a : Action V} {k c n : ℕ} {r : Request V} {m : Message V}
  {name : String}

/-- The timer has a guard on the hold of `name`, armed or in the act of releasing. -/
def Timer.guards (name : String) : Timer V → Bool
  | sleeping m true => m.envelope.queue = name
  | releasing queue => queue = name
  | _ => false

/-- `hold` has counted a message of `name` and has not created its guard yet. -/
def Call.counts (name : String) : Call V → Bool
  | guarding r _ => r.envelope.queue = name
  | _ => false

abbrev guardWeight (name : String) (timer : Timer V) : ℕ := if timer.guards name then 1 else 0

abbrev callWeight (name : String) (call : Call V) : ℕ := if call.counts name then 1 else 0

/-- The counter of every queue is the number of its guards and of the calls about to create one. -/
structure HoldsCounted (s : State V) : Prop where
  timers : ∀ name, Light (guardWeight name) s.timers
  calls : ∀ name, Light (callWeight name) s.calls
  held : ∀ name, (s.queue name).held =
    tally (guardWeight name) s.timers + tally (callWeight name) s.calls

theorem holdsCounted_start (h : (system V).start s) : HoldsCounted s := by
  obtain ⟨now, horizon, -, rfl⟩ := h
  have timers : ∀ name (n : ℕ), guardWeight name (Timer.unborn : Timer V) = 0 := fun _ _ => rfl
  have calls : ∀ name (n : ℕ), callWeight name (Call.idle : Call V) = 0 := fun _ _ => rfl
  refine ⟨fun name => light_of_zero (timers name), fun name => light_of_zero (calls name),
    fun name => ?_⟩
  have hguards : tally (guardWeight name) (initial (V := V) now horizon).timers = 0 :=
    tally_of_zero (timers name)
  have hcalls : tally (callWeight name) (initial (V := V) now horizon).calls = 0 :=
    tally_of_zero (calls name)
  rw [hguards, hcalls]
  rfl

/-- One timer and one call change, and the counters with them. -/
theorem HoldsCounted.move (h : HoldsCounted s) (timer : Timer V) (call : Call V)
    (timers : t.timers = Function.update s.timers n timer)
    (calls : t.calls = Function.update s.calls k call)
    (held : ∀ name, (t.queue name).held + guardWeight name (s.timers n) +
      callWeight name (s.calls k) =
        (s.queue name).held + guardWeight name timer + callWeight name call) :
    HoldsCounted t where
  timers name := by
    rw [timers]
    exact (h.timers name).update n timer
  calls name := by
    rw [calls]
    exact (h.calls name).update k call
  held name := by
    have hguards := (h.timers name).tally_update n timer
    have hcalls := (h.calls name).tally_update k call
    have hbefore := h.held name
    have hstep := held name
    rw [timers, calls]
    omega

theorem HoldsCounted.moveCall (h : HoldsCounted s) (call : Call V) (timers : t.timers = s.timers)
    (calls : t.calls = Function.update s.calls k call)
    (held : ∀ name, (t.queue name).held + callWeight name (s.calls k) =
      (s.queue name).held + callWeight name call) : HoldsCounted t := by
  refine h.move (n := 0) (s.timers 0) call (by rw [timers, Function.update_eq_self]) calls ?_
  intro name
  have := held name
  omega

theorem HoldsCounted.moveTimer (h : HoldsCounted s) (timer : Timer V)
    (timers : t.timers = Function.update s.timers n timer) (calls : t.calls = s.calls)
    (held : ∀ name, (t.queue name).held + guardWeight name (s.timers n) =
      (s.queue name).held + guardWeight name timer) : HoldsCounted t := by
  refine h.move (k := 0) timer (s.calls 0) timers (by rw [calls, Function.update_eq_self]) ?_
  intro name
  have := held name
  omega

theorem HoldsCounted.frame (h : HoldsCounted s) (timers : t.timers = s.timers)
    (calls : t.calls = s.calls) (held : ∀ name, (t.queue name).held = (s.queue name).held) :
    HoldsCounted t := by
  refine h.moveCall (k := 0) (s.calls 0) timers (by rw [calls, Function.update_eq_self]) fun name => ?_
  rw [held name]

theorem HoldsCounted.setQueue {q : QueueState V} (h : HoldsCounted s)
    (hq : q.held = (s.queue name).held) : HoldsCounted (s.setQueue name q) :=
  h.frame rfl rfl (same_setQueue QueueState.held hq)

theorem HoldsCounted.setConsumer {x : Consumer V} (h : HoldsCounted s) :
    HoldsCounted (s.setConsumer c x) :=
  h.frame rfl rfl fun _ => rfl

theorem HoldsCounted.note {effect : Effect V} (h : HoldsCounted s) :
    HoldsCounted (s.note k effect) :=
  h.frame rfl rfl fun _ => rfl

/-- A call moves on between steps that count nothing. -/
theorem HoldsCounted.setCall {call : Call V} (h : HoldsCounted s)
    (before : ∀ name, (s.calls k).counts name = false) (after : ∀ name, call.counts name = false) :
    HoldsCounted (s.setCall k call) := by
  refine h.moveCall call rfl rfl fun name => ?_
  show (s.queue name).held + _ = _
  simp [callWeight, before, after]

theorem HoldsCounted.insert (h : HoldsCounted s) (m : Message V) : HoldsCounted (s.insert m) := by
  refine h.frame rfl rfl fun other => ?_
  show ((s.setQueue _ _).queue other).held = _
  rw [field_setQueue QueueState.held]
  split_ifs with ho
  · rw [ho]
    rfl
  · rfl

theorem HoldsCounted.dropPermit (h : HoldsCounted s) (d : MemoryDelivery V) :
    HoldsCounted (s.dropPermit d) :=
  h.setConsumer

theorem HoldsCounted.dropOrigin (h : HoldsCounted s) (r : Request V) :
    HoldsCounted (s.dropOrigin r) := by
  unfold State.dropOrigin
  split
  · exact h.dropPermit _
  · exact h

theorem HoldsCounted.recordAck {kind : AckKind} (h : HoldsCounted s) :
    HoldsCounted (s.recordAck k m kind) := by
  refine HoldsCounted.note (h.setQueue ?_)
  rfl

/-- Releasing a hold that is counted takes one off its counter. -/
theorem held_releaseHold (s : State V) (name other : String) :
    ((s.releaseHold name).queue other).held =
      if other = name then (s.queue other).held - 1 else (s.queue other).held := by
  unfold State.releaseHold
  cases hq : s.queues name with
  | none =>
    split_ifs with ho
    · subst ho
      simp [State.queue, hq, QueueState.new]
    · rfl
  | some q =>
    show ((s.setQueue name { q with held := q.held - 1 }).queue other).held = _
    rw [field_setQueue QueueState.held]
    split_ifs with ho
    · rw [ho, queue_eq hq]
    · rfl

/-- Every guard is counted. -/
theorem HoldsCounted.pos (h : HoldsCounted s) (hn : (s.timers n).guards name = true) :
    0 < (s.queue name).held := by
  have hle := (h.timers name).le_tally n
  have hweight : guardWeight name (s.timers n) = 1 := by simp [guardWeight, hn]
  have := h.held name
  omega

/-- Where a call goes on once its request is scheduled. -/
theorem counts_scheduled (r : Request V) (name : String) :
    (if r.origin.isSome then Call.recording r else .returned (some r) (.ok ())).counts name =
      false := by
  split_ifs <;> rfl

theorem HoldsCounted.schedule (h : HoldsCounted s) (wired : Wired s)
    (hs : stepSchedule s k = some t) : HoldsCounted t := by
  obtain ⟨r, hk, hcases⟩ := schedule_cases hs
  have before : ∀ name, (s.calls k).counts name = false := fun name => by rw [hk]; rfl
  obtain ⟨-, -, rfl⟩ | ⟨-, -, rfl⟩ | ⟨-, -, -, rfl⟩ | ⟨-, -, -, rfl⟩ | ⟨-, -, rfl⟩ := hcases
  · exact h.setCall before (counts_scheduled r)
  · have inserted : HoldsCounted (({ s.insert (s.message r) with
        accepted := s.accepted ++ [s.message r] } : State V).note k (.inserted (s.message r))) :=
      (h.insert (s.message r)).frame rfl rfl fun _ => rfl
    exact inserted.setCall before (counts_scheduled r)
  · exact h.setCall before fun _ => rfl
  · refine h.move (n := s.accepted.length) (k := k) _ _ rfl rfl fun name => ?_
    show (s.queue name).held + _ + _ = _
    rw [wired.timers _ le_rfl]
    simp [guardWeight, Timer.guards, callWeight, before, counts_scheduled]
  · refine (h.dropOrigin r).setCall (fun name => ?_) fun _ => rfl
    rw [dropOrigin_calls]
    exact before name

theorem HoldsCounted.count (h : HoldsCounted s) (hs : stepCount s k = some t) :
    HoldsCounted t := by
  obtain ⟨r, deadline, hk, rfl⟩ := count_cases hs
  refine h.moveCall (k := k) _ rfl rfl fun name => ?_
  show ((s.setQueue _ _).queue name).held + _ = _
  rw [field_setQueue QueueState.held, hk]
  by_cases hn : name = r.envelope.queue
  · simp [callWeight, Call.counts, hn]
  · simp [callWeight, Call.counts, hn, Ne.symm hn]

/-- The guard takes the place of the call's own count. -/
theorem HoldsCounted.guard (h : HoldsCounted s) (wired : Wired s) (hs : stepGuard s k = some t) :
    HoldsCounted t := by
  obtain ⟨r, deadline, hk, rfl⟩ := guard_cases hs
  refine h.move (n := s.accepted.length) (k := k) _ _ rfl rfl fun name => ?_
  show (s.queue name).held + _ + _ = _
  rw [wired.timers _ le_rfl, hk, callWeight, callWeight, counts_scheduled]
  by_cases hn : r.envelope.queue = name <;>
    simp [guardWeight, Timer.guards, Call.counts, State.message, hn]

theorem HoldsCounted.record (h : HoldsCounted s) (hs : stepRecord s k = some t) :
    HoldsCounted t := by
  obtain ⟨r, d, hk, -, rfl⟩ | ⟨d, hk, rfl⟩ | ⟨d, reason, hk, -, rfl⟩ | ⟨d, reason, hk, -, rfl⟩ :=
    record_cases hs
  all_goals have before : ∀ name, (s.calls k).counts name = false := fun name => by rw [hk]; rfl
  · exact (h.recordAck.dropPermit d).setCall before fun _ => rfl
  · exact (h.recordAck.dropPermit d).setCall before fun _ => rfl
  · exact (h.dropPermit d).setCall before fun _ => rfl
  · refine (HoldsCounted.dropPermit (.note (h.setQueue ?_)) d).setCall before fun _ => rfl
    rfl

/-- A guard is released, and its timer over. -/
theorem HoldsCounted.released (h : HoldsCounted s)
    (hn : ∀ other, (s.timers n).guards other = decide (name = other)) :
    HoldsCounted ((s.releaseHold name).setTimer n .finished) := by
  refine h.moveTimer (n := n) .finished ?_ (releaseHold_calls s name) fun other => ?_
  · show Function.update (s.releaseHold name).timers n _ = _
    rw [releaseHold_timers]
  · show ((s.releaseHold name).queue other).held + _ = (s.queue other).held + 0
    rw [held_releaseHold]
    by_cases ho : other = name
    · have hguards : (s.timers n).guards other = true := by simp [hn, ho]
      have hpos := h.pos hguards
      rw [if_pos ho, guardWeight, if_pos hguards]
      omega
    · simp [guardWeight, hn, ho, Ne.symm ho]

/-- The hold of a message is over in the step that inserts the message. -/
theorem HoldsCounted.fire (h : HoldsCounted s) (hs : stepFire s n = some t) : HoldsCounted t := by
  obtain ⟨m, guarded, hn, -, rfl⟩ := fire_cases hs
  obtain ⟨u, hu⟩ : ∃ u, u = if guarded then s.releaseHold m.envelope.queue else s := ⟨_, rfl⟩
  have finished : HoldsCounted (u.setTimer n .finished) := by
    cases guarded with
    | false =>
      refine h.moveTimer (n := n) .finished ?_ ?_ fun name => ?_
      · rw [hu]
        rfl
      · rw [hu]
        rfl
      · rw [hu, hn]
        rfl
    | true =>
      rw [hu]
      refine h.released fun other => ?_
      rw [hn]
      rfl
  unfold State.enqueueNow
  rw [← hu]
  dsimp only
  split_ifs
  · exact finished
  · exact finished.insert m

theorem HoldsCounted.abort (h : HoldsCounted s) (hs : stepAbort s n = some t) :
    HoldsCounted t := by
  obtain ⟨m, guarded, hn, rfl⟩ := abort_cases hs
  refine h.moveTimer (n := n) _ rfl rfl fun name => ?_
  show (s.queue name).held + _ = _
  rw [hn]
  cases guarded <;> rfl

theorem HoldsCounted.consumer (h : HoldsCounted s) (ha : a.ofConsumer = true)
    (hs : step s a = some t) : HoldsCounted t := by
  obtain ⟨c, x, rfl | ⟨name, pending, consumers, signal, rfl⟩⟩ := consumer_cases ha hs
  · exact h.setConsumer
  · refine HoldsCounted.setConsumer (h.setQueue ?_)
    rfl

theorem holdsCounted_step (h : HoldsCounted s) (wired : Wired s) (hs : step s a = some t) :
    HoldsCounted t := by
  cases a with
  | tick elapsed =>
    obtain ⟨-, rfl⟩ := tick_cases hs
    exact h.frame rfl rfl fun _ => rfl
  | declare configs =>
    obtain rfl := Option.some.inj hs
    split_ifs
    · exact h
    · refine h.frame rfl rfl ?_
      exact declared_same QueueState.held (fun _ _ => rfl) configs s.queues
  | publish k envelope delay =>
    obtain ⟨hk, rfl⟩ := call_cases hs
    exact h.setCall (fun _ => by rw [hk]; rfl) fun _ => rfl
  | defer k envelope delay =>
    obtain ⟨hk, rfl⟩ := call_cases hs
    exact h.setCall (fun _ => by rw [hk]; rfl) fun _ => rfl
  | settle k c i op =>
    obtain ⟨hk, m, -, rfl⟩ := settle_cases hs
    refine HoldsCounted.setCall h.setConsumer (fun name => ?_) fun name => by cases op <;> rfl
    show (s.calls k).counts name = false
    rw [hk]
    rfl
  | check k =>
    obtain ⟨r, hk, ⟨-, rfl⟩ | ⟨-, rfl⟩⟩ := check_cases hs
    · refine (h.dropOrigin r).setCall (fun name => ?_) fun _ => rfl
      rw [dropOrigin_calls, hk]
      rfl
    · exact h.setCall (fun _ => by rw [hk]; rfl) fun _ => rfl
  | schedule k => exact h.schedule wired hs
  | count k => exact h.count hs
  | guard k => exact h.guard wired hs
  | record k => exact h.record hs
  | fire n => exact h.fire hs
  | abort n => exact h.abort hs
  | release n =>
    obtain ⟨name, hn, rfl⟩ := release_cases hs
    refine h.released fun other => ?_
    rw [hn]
    rfl
  | close =>
    obtain rfl := Option.some.inj hs
    refine h.frame rfl rfl fun name => ?_
    cases hq : s.queues name <;> simp [State.queue, hq, QueueState.wake]
  | _ => exact h.consumer rfl hs

theorem reachable_holdsCounted (h : Reachable (system V) s) : HoldsCounted s :=
  h.strengthen (fun _ => reachable_wired) (fun _ => holdsCounted_start) fun _ _ _ hw _ hi _ =>
    (holdsCounted_step hi hw ·)

/-! ## What the counter says -/

/-- The timers with a guard on the hold of `name`. -/
def State.guarding (s : State V) (name : String) : Set ℕ := {n | (s.timers n).guards name = true}

/-- The calls of `hold` on `name` between their increment and the creation of their guard. -/
def State.counting (s : State V) (name : String) : Set ℕ := {k | (s.calls k).counts name = true}

/-- In every state the counter is the number of guards and of calls about to create one, so
releasing a hold never saturates; a message in hold is not pending; and without any hold,
on an open or a closed backend, the counter is zero. -/
theorem hold_accounting (h : Reachable (system V) s) (name : String) :
    ((s.guarding name).Finite ∧ (s.counting name).Finite) ∧
    (s.queue name).held = (s.guarding name).ncard + (s.counting name).ncard ∧
    (∀ n ∈ s.guarding name, ((s.releaseHold name).queue name).held + 1 = (s.queue name).held) ∧
    (∀ n ∈ s.guarding name, (∀ m, s.timers n = .sleeping m true → m.id = n) ∧
      ∀ other, ∀ m ∈ (s.queue other).pending, m.id ≠ n) ∧
    (s.guarding name = ∅ → s.counting name = ∅ → (s.queue name).held = 0) := by
  have counted := reachable_holdsCounted h
  have rested := reachable_rested h
  have held : (s.queue name).held = (s.guarding name).ncard + (s.counting name).ncard := by
    rw [counted.held name]
    have hguards := tally_count (fun timer : Timer V => timer.guards name = true) s.timers
    have hcalls := tally_count (fun call : Call V => call.counts name = true) s.calls
    exact congrArg₂ (· + ·) hguards hcalls
  refine ⟨⟨(counted.timers name).finite, (counted.calls name).finite⟩, held, fun n hn => ?_,
    fun n hn => ⟨fun m hm => rested.asleep n m true hm, fun other m hm hid => ?_⟩, fun hg hc => ?_⟩
  · have hpos := counted.pos (n := n) hn
    rw [held_releaseHold, if_pos rfl]
    omega
  · have hidle := (rested.awake m (awake_pending other hm)).2
    have hguards : (s.timers n).guards name = true := hn
    obtain hidle | hidle := hidle <;> rw [hid] at hidle <;> rw [hidle] at hguards <;> cases hguards
  · rw [held, hg, hc, Set.ncard_empty]

/-- One job is in hold and another just counted; the guard of the first is aborted. -/
theorem hold_accounting_two : ∃ s : State Unit, Reachable (system Unit) s ∧
    (s.guarding "mail").ncard + (s.counting "mail").ncard = 2 ∧
    ((s.releaseHold "mail").queue "mail").held + 1 = 2 := by
  have start : Reachable (system Unit) (initial 0 10) := .start ⟨0, 10, by decide, rfl⟩
  have reached := start.run [.defer 0 mail ⟨5, by decide⟩, .check 0, .schedule 0, .count 0, .guard 0,
    .defer 1 mail ⟨6, by decide⟩, .check 1, .schedule 1, .count 1, .abort 0] rfl
  have accounted := hold_accounting reached "mail"
  exact ⟨_, reached, accounted.2.1.symm, accounted.2.2.1 0 rfl⟩

end Queuey.MemoryBackend
