import Queuey.Core.MemoryFlow
import Queuey.Core.RacingClose
import Queuey.Library.Tally

/-!
# The prefetch window

A permit of a consumer is free, held by its task between acquiring and sending, or attached
to a delivery: one that the stream has not read, one handed out, or one that a settle
operation has in hand. Steps pass permits on, and none is made or lost.
-/
namespace Queuey.MemoryBackend
open Transition Tally

variable {V : Type} {s t u : State V} {a : Action V} {k c i n : ℕ} {r : Request V} {m : Message V}
  {d : MemoryDelivery V} {config : QueueConfig} {x : Consumer V}

/-- The permit a task holds. -/
def Task.permit : Task V → ℕ
  | popping | waiting | sending _ => 1
  | _ => 0

/-- The delivery a call is settling. -/
def Call.delivery : Call V → Option (MemoryDelivery V)
  | checking r | scheduling r | counting r _ | guarding r _ | recording r => r.origin
  | acking d | burying d _ => some d
  | idle | returned _ _ | panicked _ => none

/-- The call is settling a delivery of consumer `c`. -/
def Call.settling (c : ℕ) (call : Call V) : Bool := call.delivery.any fun d => d.consumer = c

abbrev settlingWeight (c : ℕ) (call : Call V) : ℕ := if call.settling c then 1 else 0

theorem settlingWeight_some {call : Call V} (h : call.delivery = some d) (c : ℕ) :
    settlingWeight c call = if d.consumer = c then 1 else 0 := by
  simp [settlingWeight, Call.settling, h]

theorem settlingWeight_none {call : Call V} (h : call.delivery = none) (c : ℕ) :
    settlingWeight c call = 0 := by
  simp [settlingWeight, Call.settling, h]

/-- The consumer's permits but for those of the deliveries being settled. -/
def Consumer.slots (x : Consumer V) : ℕ :=
  x.permits + x.task.permit + x.unread.length + x.out.length

/-- All permits of a consumer. -/
noncomputable def State.slots (s : State V) (c : ℕ) : ℕ :=
  (s.consumers c).slots + tally (settlingWeight c) s.calls

/-- Only finitely many deliveries are being settled at a time. -/
def Bounded (s : State V) : Prop := ∀ c, Light (settlingWeight c) s.calls

/-- No consumer's permits change in number, and no consumer starts. -/
structure Passed (s t : State V) : Prop where
  bounded : Bounded t
  slots : ∀ c, t.slots c = s.slots c
  born : ∀ c, (t.consumers c).task = .unborn → (s.consumers c).task = .unborn

/-- One consumer and one call change, and pass permits between them. -/
theorem Bounded.move (h : Bounded s) (call : Call V)
    (consumers : t.consumers = Function.update s.consumers c x)
    (calls : t.calls = Function.update s.calls k call)
    (own : x.slots + settlingWeight c call =
      (s.consumers c).slots + settlingWeight c (s.calls k))
    (others : ∀ e, e ≠ c → settlingWeight e call = settlingWeight e (s.calls k))
    (born : x.task = .unborn → (s.consumers c).task = .unborn) : Passed s t := by
  refine ⟨fun e => ?_, fun e => ?_, fun e he => ?_⟩
  · rw [calls]
    exact (h e).update k call
  · have hupdate := (h e).tally_update k call
    unfold State.slots
    rw [consumers, calls, Function.update_apply]
    split_ifs with hec
    · subst hec
      omega
    · have := others e hec
      omega
  · rw [consumers, Function.update_apply] at he
    split_ifs at he with hec
    · exact hec ▸ born he
    · exact he

/-- A consumer passes permits between its own parts. -/
theorem Bounded.consumer (h : Bounded s) (consumers : t.consumers = Function.update s.consumers c x)
    (calls : t.calls = s.calls) (own : x.slots = (s.consumers c).slots)
    (born : x.task = .unborn → (s.consumers c).task = .unborn) : Passed s t := by
  refine h.move (k := 0) (s.calls 0) consumers ?_ (by rw [own]) (fun _ _ => rfl) born
  rw [calls, Function.update_eq_self]

/-- The task goes on with the permit it has, or without. -/
theorem Bounded.task (task : Task V) (h : Bounded s)
    (consumers : t.consumers = Function.update s.consumers c { s.consumers c with task := task })
    (calls : t.calls = s.calls) (permit : task.permit = (s.consumers c).task.permit)
    (born : task ≠ .unborn) : Passed s t :=
  h.consumer consumers calls (by simp only [Consumer.slots, permit]) fun ht => absurd ht born

/-- A call goes on with the delivery it has. -/
theorem Bounded.call {call : Call V} (h : Bounded s) (consumers : t.consumers = s.consumers)
    (calls : t.calls = Function.update s.calls k call)
    (same : call.delivery = (s.calls k).delivery) : Passed s t := by
  have hweight : ∀ e, settlingWeight e call = settlingWeight e (s.calls k) := fun e => by
    unfold settlingWeight Call.settling
    rw [same]
  refine h.move (c := 0) (x := s.consumers 0) call ?_ calls (by rw [hweight]) (fun e _ => hweight e) id
  rw [consumers, Function.update_eq_self]

theorem Bounded.same (h : Bounded s) (consumers : t.consumers = s.consumers)
    (calls : t.calls = s.calls) : Passed s t := by
  refine ⟨fun c => ?_, fun c => ?_, fun c hc => ?_⟩
  · rw [calls]
    exact h c
  · unfold State.slots
    rw [consumers, calls]
  · rwa [← consumers]

/-- A call drops its delivery, and its permit is free again. -/
theorem Bounded.drop {call : Call V} (h : Bounded s) (hk : (s.calls k).delivery = some d)
    (consumers : t.consumers = (s.dropPermit d).consumers)
    (calls : t.calls = Function.update s.calls k call) (finished : call.delivery = none) :
    Passed s t := by
  refine h.move call consumers calls ?_ (fun e he => ?_) id
  · rw [settlingWeight_some hk, settlingWeight_none finished, if_pos rfl]
    simp only [Consumer.slots]
    omega
  · rw [settlingWeight_some hk, settlingWeight_none finished, if_neg (Ne.symm he)]

theorem Bounded.dropOrigin (call : Call V) (h : Bounded s)
    (hk : (s.calls k).delivery = r.origin) (consumers : t.consumers = (s.dropOrigin r).consumers)
    (calls : t.calls = Function.update s.calls k call) (finished : call.delivery = none) :
    Passed s t := by
  cases hr : r.origin with
  | none =>
    refine h.call (k := k) ?_ calls (by rw [finished, hk, hr])
    rw [consumers, State.dropOrigin, hr]
  | some d =>
    refine h.drop (hk.trans hr) ?_ calls finished
    rw [consumers, State.dropOrigin, hr]

/-! ## Steps of calls -/

theorem Bounded.settle {op : Settle V} (h : Bounded s) (hs : stepSettle s k c i op = some t) :
    Passed s t := by
  obtain ⟨hk, m, hm, rfl⟩ := settle_cases hs
  obtain ⟨hi, -⟩ := List.getElem?_eq_some_iff.mp hm
  have hop : (op.call ⟨m, c⟩ : Call V).delivery = some ⟨m, c⟩ := by cases op <;> rfl
  refine h.move (k := k) (c := c) _ rfl rfl ?_ (fun e he => ?_) id
  · rw [settlingWeight_some hop, if_pos rfl, hk, settlingWeight_none rfl]
    simp only [Consumer.slots, List.length_eraseIdx_of_lt hi]
    omega
  · rw [settlingWeight_some hop, if_neg (Ne.symm he), hk, settlingWeight_none rfl]

theorem delivery_scheduled (r : Request V) :
    (if r.origin.isSome then Call.recording r else .returned (some r) (.ok ())).delivery =
      r.origin := by
  split_ifs with hr
  · rfl
  · rw [Option.not_isSome_iff_eq_none.mp hr]
    rfl

theorem Bounded.check (h : Bounded s) (hs : stepCheck s k = some t) : Passed s t := by
  obtain ⟨r, hk, ⟨-, rfl⟩ | ⟨-, rfl⟩⟩ := check_cases hs
  · refine Bounded.dropOrigin (k := k) (r := r) (.returned (some r) (.error .shutDown)) h
      (by rw [hk]; rfl) rfl ?_ rfl
    show Function.update (s.dropOrigin r).calls k _ = _
    rw [dropOrigin_calls]
  · exact h.call rfl rfl (by rw [hk]; rfl)

theorem Bounded.schedule (h : Bounded s) (hs : stepSchedule s k = some t) : Passed s t := by
  obtain ⟨r, hk, hcases⟩ := schedule_cases hs
  have same : (if r.origin.isSome then Call.recording r else .returned (some r) (.ok ())).delivery =
      (s.calls k).delivery := by
    rw [delivery_scheduled, hk]
    rfl
  obtain ⟨-, -, rfl⟩ | ⟨-, -, rfl⟩ | ⟨-, -, -, rfl⟩ | ⟨-, -, -, rfl⟩ | ⟨-, -, rfl⟩ := hcases
  · exact h.call rfl rfl same
  · exact h.call rfl rfl same
  · exact h.call rfl rfl (by rw [hk]; rfl)
  · exact h.call rfl rfl same
  · refine Bounded.dropOrigin (k := k) (r := r) (.panicked r) h (by rw [hk]; rfl) rfl ?_ rfl
    show Function.update (s.dropOrigin r).calls k _ = _
    rw [dropOrigin_calls]

theorem Bounded.guard (h : Bounded s) (hs : stepGuard s k = some t) : Passed s t := by
  obtain ⟨r, deadline, hk, rfl⟩ := guard_cases hs
  refine h.call (k := k) rfl rfl ?_
  rw [delivery_scheduled, hk]
  rfl

theorem Bounded.record (h : Bounded s) (hs : stepRecord s k = some t) : Passed s t := by
  obtain ⟨r, d, hk, hr, rfl⟩ | ⟨d, hk, rfl⟩ | ⟨d, reason, hk, -, rfl⟩ | ⟨d, reason, hk, -, rfl⟩ :=
    record_cases hs
  · exact h.drop (k := k) (d := d) (by rw [hk]; exact hr) rfl rfl rfl
  · exact h.drop (k := k) (d := d) (by rw [hk]; rfl) rfl rfl rfl
  · exact h.drop (k := k) (d := d) (by rw [hk]; rfl) rfl rfl rfl
  · exact h.drop (k := k) (d := d) (by rw [hk]; rfl) rfl rfl rfl

/-! ## Steps of consumers -/

theorem Bounded.acquire (h : Bounded s) (hs : stepAcquire s c = some t) : Passed s t := by
  obtain ⟨hc, ⟨-, rfl⟩ | ⟨-, hfree, rfl⟩⟩ := acquire_cases hs
  · exact h.task .leaving rfl rfl (by rw [hc]; rfl) nofun
  · refine h.consumer rfl rfl ?_ nofun
    simp only [Consumer.slots, hc, Task.permit]
    omega

theorem Bounded.pop (h : Bounded s) (hs : stepPop s c = some t) : Passed s t := by
  obtain ⟨hc, ⟨-, rfl⟩ | ⟨-, -, rfl⟩ | ⟨-, q, m, rest, -, -, rfl⟩⟩ := pop_cases hs
  · refine h.consumer rfl rfl ?_ nofun
    simp only [Consumer.slots, hc, Task.permit]
  · exact h.task .waiting rfl rfl (by rw [hc]; rfl) nofun
  · exact h.task (.sending m) rfl rfl (by rw [hc]; rfl) nofun

theorem Bounded.giveUp (h : Bounded s) (hs : stepGiveUp s c = some t) : Passed s t := by
  obtain ⟨-, ⟨hc, rfl⟩ | ⟨hc, rfl⟩⟩ := giveUp_cases hs
  · exact h.task .leaving rfl rfl (by rw [hc]; rfl) nofun
  · refine h.consumer rfl rfl ?_ nofun
    simp only [Consumer.slots, hc, Task.permit]

/-- A delivery takes the task's permit with it, or is dropped with it. -/
theorem Bounded.send (h : Bounded s) (hs : stepSend s c = some t) : Passed s t := by
  obtain ⟨m, hc, ⟨-, rfl⟩ | ⟨-, rfl⟩⟩ := send_cases hs
  · refine h.consumer rfl rfl ?_ nofun
    simp only [Consumer.slots, hc, Task.permit, List.length_append, List.length_singleton]
    omega
  · refine h.consumer rfl rfl ?_ nofun
    simp only [Consumer.slots, hc, Task.permit]

theorem Bounded.requeue (h : Bounded s) (hs : stepRequeue s c = some t) : Passed s t := by
  obtain ⟨m, hc, ⟨q, -, rfl⟩ | ⟨-, rfl⟩⟩ := requeue_cases hs <;>
    exact h.task .leaving rfl rfl (by rw [hc]; rfl) nofun

theorem Bounded.leave (h : Bounded s) (hs : stepLeave s c = some t) : Passed s t := by
  obtain ⟨hc, ⟨q, -, rfl⟩ | ⟨-, rfl⟩⟩ := leave_cases hs <;>
    exact h.task .ended rfl rfl (by rw [hc]; rfl) nofun

theorem Bounded.poll (h : Bounded s) (hs : stepPoll s c = some t) : Passed s t := by
  obtain ⟨m, rest, -, hm, rfl⟩ := poll_cases hs
  refine h.consumer rfl rfl ?_ id
  simp only [Consumer.slots, hm, List.length_append, List.length_cons, List.length_nil]
  omega

/-- The stream's `Drop` gives the permit of every unread delivery back. -/
theorem Bounded.drain (h : Bounded s) (hs : stepDrain s c = some t) : Passed s t := by
  obtain ⟨collected, m, rest, -, hm, rfl⟩ := drain_cases hs
  refine h.consumer rfl rfl ?_ id
  simp only [Consumer.slots, hm, List.length_cons]
  omega

theorem Bounded.dropDelivery (h : Bounded s) (hs : stepDropDelivery s c i = some t) :
    Passed s t := by
  obtain ⟨hi, rfl⟩ := dropDelivery_cases hs
  refine h.consumer rfl rfl ?_ id
  simp only [Consumer.slots, List.length_eraseIdx_of_lt hi]
  omega

theorem Bounded.close (h : Bounded s) (hs : stepClose s = some t) : Passed s t := by
  obtain rfl := Option.some.inj hs
  refine ⟨h, fun c => ?_, fun c hc => ?_⟩
  · unfold State.slots
    dsimp only
    split_ifs <;> rfl
  · dsimp only at hc
    split_ifs at hc <;> exact hc

/-- Every step but the start of a consumer passes permits on. -/
theorem passed_step (h : Bounded s) (ha : ∀ c config, a ≠ .consume c config)
    (hs : step s a = some t) : Passed s t := by
  cases a with
  | tick elapsed =>
    obtain ⟨-, rfl⟩ := tick_cases hs
    exact h.same rfl rfl
  | declare configs =>
    obtain rfl := Option.some.inj hs
    split_ifs <;> exact h.same rfl rfl
  | publish k envelope delay =>
    obtain ⟨hk, rfl⟩ := call_cases hs
    exact h.call rfl rfl (by rw [hk]; rfl)
  | defer k envelope delay =>
    obtain ⟨hk, rfl⟩ := call_cases hs
    exact h.call rfl rfl (by rw [hk]; rfl)
  | settle k c i op => exact h.settle hs
  | check k => exact h.check hs
  | schedule k => exact h.schedule hs
  | count k =>
    obtain ⟨r, deadline, hk, rfl⟩ := count_cases hs
    exact h.call (k := k) rfl rfl (by rw [hk]; rfl)
  | guard k => exact h.guard hs
  | record k => exact h.record hs
  | fire n =>
    obtain ⟨m, guarded, -, -, rfl⟩ := fire_cases hs
    exact h.same (enqueueNow_consumers s m guarded) (enqueueNow_calls s m guarded)
  | abort n =>
    obtain ⟨m, guarded, -, rfl⟩ := abort_cases hs
    exact h.same rfl rfl
  | release n =>
    obtain ⟨name, -, rfl⟩ := release_cases hs
    exact h.same (releaseHold_consumers s name) (releaseHold_calls s name)
  | consume c config => exact absurd rfl (ha c config)
  | acquire c => exact h.acquire hs
  | pop c => exact h.pop hs
  | notice c =>
    obtain ⟨hc, -, rfl⟩ := notice_cases hs
    exact h.consumer rfl rfl (by simp [Consumer.slots, hc, Task.permit]) nofun
  | giveUp c => exact h.giveUp hs
  | send c => exact h.send hs
  | requeue c => exact h.requeue hs
  | leave c => exact h.leave hs
  | poll c => exact h.poll hs
  | dropStream c =>
    obtain ⟨-, rfl⟩ := dropStream_cases hs
    exact h.consumer rfl rfl rfl id
  | drain c => exact h.drain hs
  | giveBack c =>
    obtain ⟨collected, -, -, ⟨-, rfl⟩ | ⟨-, rfl⟩⟩ := giveBack_cases hs <;>
      exact h.consumer rfl rfl rfl id
  | dropDelivery c i => exact h.dropDelivery hs
  | close => exact h.close hs

/-! ## The window -/

/-- A consumer not yet started has no permits. -/
structure Slotted (s : State V) : Prop where
  bounded : Bounded s
  unborn : ∀ c, (s.consumers c).task = .unborn → s.slots c = 0

theorem slotted_start (h : (system V).start s) : Slotted s := by
  obtain ⟨now, horizon, -, rfl⟩ := h
  have idle : ∀ c (k : ℕ), settlingWeight c (Call.idle : Call V) = 0 := fun _ _ => rfl
  refine ⟨fun c => light_of_zero (idle c), fun c _ => ?_⟩
  have hcalls : tally (settlingWeight c) (initial (V := V) now horizon).calls = 0 :=
    tally_of_zero (idle c)
  unfold State.slots
  rw [hcalls]
  rfl

/-- The permits a consumer starts with. -/
def prefetchPermits (config : QueueConfig) : ℕ :=
  if config.prefetch = 0 then maxPermits else config.prefetch.toNat

/-- A consumer starts with its prefetch, and the others keep what they have. -/
theorem slots_consume (h : Slotted s) (hs : stepConsume s c config = some t) :
    Bounded t ∧ (t.consumers c).task ≠ .unborn ∧ t.slots c = prefetchPermits config ∧
      ∀ e, e ≠ c → t.slots e = s.slots e ∧ (t.consumers e).task = (s.consumers e).task := by
  obtain ⟨hc, hcases⟩ := consume_cases hs
  obtain ⟨task, htask, hpermit, hcalls, hconsumers⟩ : ∃ task : Task V, task ≠ .unborn ∧
      task.permit = 0 ∧ t.calls = s.calls ∧ t.consumers =
        Function.update s.consumers c (.fresh config (s.queue config.name).signal task) := by
    obtain ⟨-, rfl⟩ | ⟨-, rfl⟩ := hcases
    · exact ⟨.ended, nofun, rfl, rfl, rfl⟩
    · exact ⟨.acquiring, nofun, rfl, rfl, rfl⟩
  have hnone := h.unborn c hc
  refine ⟨fun e => by rw [hcalls]; exact h.bounded e, ?_, ?_, fun e he => ?_⟩
  · rw [hconsumers, Function.update_self]
    exact htask
  · unfold State.slots at hnone ⊢
    rw [hcalls, hconsumers, Function.update_self]
    simp only [Consumer.slots, Consumer.fresh, hpermit, prefetchPermits, List.length_nil]
    omega
  · unfold State.slots
    rw [hcalls, hconsumers, Function.update_of_ne he]
    exact ⟨rfl, rfl⟩

theorem slotted_step (h : Slotted s) (hs : step s a = some t) : Slotted t := by
  by_cases ha : ∀ c config, a ≠ .consume c config
  · have passed := passed_step h.bounded ha hs
    refine ⟨passed.bounded, fun c hc => ?_⟩
    rw [passed.slots]
    exact h.unborn c (passed.born c hc)
  · push Not at ha
    obtain ⟨c, config, rfl⟩ := ha
    obtain ⟨bounded, hborn, -, others⟩ := slots_consume h hs
    refine ⟨bounded, fun e he => ?_⟩
    have hec : e ≠ c := by
      rintro rfl
      exact hborn he
    rw [(others e hec).1]
    exact h.unborn e ((others e hec).2 ▸ he)

theorem reachable_slotted (h : Reachable (system V) s) : Slotted s :=
  h.invariant (fun _ => slotted_start) fun _ _ _ hi _ => slotted_step hi

/-- A consumer that has started keeps its number of permits. -/
theorem slots_step (h : Slotted s) (hc : (s.consumers c).task ≠ .unborn)
    (hs : step s a = some t) : (t.consumers c).task ≠ .unborn ∧ t.slots c = s.slots c := by
  by_cases ha : ∀ c config, a ≠ .consume c config
  · have passed := passed_step h.bounded ha hs
    exact ⟨fun ht => hc (passed.born c ht), passed.slots c⟩
  · push Not at ha
    obtain ⟨e, config, rfl⟩ := ha
    obtain ⟨-, -, -, others⟩ := slots_consume h hs
    have hce : c ≠ e := by
      rintro rfl
      exact hc (consume_cases hs).1
    obtain ⟨hslots, htask⟩ := others c hce
    exact ⟨htask ▸ hc, hslots⟩

theorem slots_run (actions : List (Action V)) (h : Slotted s)
    (hc : (s.consumers c).task ≠ .unborn) (hrun : (system V).run s actions = some t) :
    Slotted t ∧ (t.consumers c).task ≠ .unborn ∧ t.slots c = s.slots c := by
  induction actions generalizing s with
  | nil =>
    obtain rfl : s = t := by simpa using hrun
    exact ⟨h, hc, rfl⟩
  | cons a rest ih =>
    obtain ⟨u, hu, hrest⟩ := Option.bind_eq_some_iff.mp hrun
    obtain ⟨hborn, hslots⟩ := slots_step h hc hu
    obtain ⟨slotted, hafter, hsame⟩ := ih (slotted_step h hu) hborn hrest
    exact ⟨slotted, hafter, hsame.trans hslots⟩

/-- The calls that are settling a delivery of the consumer. -/
def State.beingSettled (s : State V) (c : ℕ) : Set ℕ := {k | (s.calls k).settling c = true}

/-- The consumer's deliveries that are unread, or handed out and not settled. -/
noncomputable def State.outstanding (s : State V) (c : ℕ) : ℕ :=
  (s.consumers c).unread.length + (s.consumers c).out.length + (s.beingSettled c).ncard

/-- From the start of a consumer with a prefetch, whatever happens, its permits that are free,
held by its task or attached to a delivery sum to the prefetch, and so its deliveries
outstanding are never more. -/
theorem prefetch_window (h : Reachable (system V) s)
    (hs : (system V).step s (.consume c config) = some t) (hn : 1 ≤ config.prefetch.toNat)
    (actions : List (Action V)) (hrun : (system V).run t actions = some u) :
    (u.beingSettled c).Finite ∧
    (u.consumers c).permits + (u.consumers c).task.permit + u.outstanding c =
      config.prefetch.toNat ∧
    u.outstanding c ≤ config.prefetch.toNat := by
  have slotted := reachable_slotted h
  obtain ⟨-, hborn, hstart, -⟩ := slots_consume slotted hs
  have started : Slotted t := slotted_step (a := .consume c config) slotted hs
  obtain ⟨after, -, hslots⟩ := slots_run actions started hborn hrun
  have hprefetch : config.prefetch ≠ 0 := by
    rintro hzero
    rw [hzero] at hn
    cases hn
  have hcalls : tally (settlingWeight c) u.calls = (u.beingSettled c).ncard :=
    tally_count (fun call : Call V => call.settling c = true) u.calls
  have hsum : u.slots c = config.prefetch.toNat := by
    rw [hslots, hstart, prefetchPermits, if_neg hprefetch]
  unfold State.slots Consumer.slots at hsum
  unfold State.outstanding
  exact ⟨(after.bounded c).finite, by omega, by omega⟩

/-- A prefetch of two: one delivery is being retried and another unread when the stream is
dropped and the backend closed. -/
theorem prefetch_window_two : ∃ s : State Unit, s.closed = true ∧
    (s.consumers 0).unread ≠ [] ∧
    (s.consumers 0).permits + (s.consumers 0).task.permit + s.outstanding 0 = 2 ∧
    s.outstanding 0 ≤ 2 := by
  have start : Reachable (system Unit) (initial 0 10) := .start ⟨0, 10, by decide, rfl⟩
  have started : (system Unit).step (initial 0 10)
      (.consume 0 { QueueConfig.new "mail" with prefetch := 2 }) = some _ := rfl
  have window := prefetch_window start started (by decide) [.publish 0 mail none, .check 0,
    .schedule 0, .publish 1 mail none, .check 1, .schedule 1, .acquire 0, .pop 0, .send 0,
    .acquire 0, .pop 0, .send 0, .poll 0, .settle 2 0 0 (.retry mail .zero), .check 2,
    .dropStream 0, .close] rfl
  exact ⟨_, rfl, List.cons_ne_nil _ _, window.2⟩

end Queuey.MemoryBackend
