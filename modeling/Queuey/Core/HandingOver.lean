import Queuey.Core.Prefetch
import Queuey.Core.Registry

/-!
# Handing over

A consumer whose stream is open does not leave a message waiting: with a permit it hands the
next one over by itself. It lacks a permit only while deliveries of its own are unread or
unsettled, and a settle operation, once begun, gives its permit back by itself.
-/
namespace Queuey.MemoryBackend
open Transition Tally

variable {V : Type} {s t u : State V} {a : Action V} {k c n : ℕ} {r : Request V} {m : Message V}
  {d : MemoryDelivery V} {x : Consumer V}

/-! ## The rounds of a task -/

/-- The task is on its way from one delivery to the next. -/
def Task.attends : Task V → Bool
  | acquiring | popping | waiting | sending _ => true
  | _ => false

/-- As long as the backend and its stream are open, a task goes on with its rounds. -/
def Attended (s : State V) : Prop :=
  s.closed = false → ∀ c, (s.consumers c).stream = .open → (s.consumers c).task.attends = true

theorem Attended.same (h : Attended s) (closed : t.closed = s.closed)
    (consumers : t.consumers = s.consumers) : Attended t := by
  unfold Attended
  rw [closed, consumers]
  exact h

/-- The task of one consumer goes on, and ends its rounds only with the stream. -/
theorem Attended.own (h : Attended s) (closed : t.closed = s.closed)
    (consumers : t.consumers = Function.update s.consumers c x)
    (hx : s.closed = false → x.stream = .open → x.task.attends = true) : Attended t := by
  intro ho e he
  rw [closed] at ho
  rw [consumers, Function.update_apply] at he ⊢
  split at he
  · next hec =>
    rw [if_pos hec]
    exact hx ho he
  · next hec =>
    rw [if_neg hec]
    exact h ho e he

/-- Anything else of one consumer changes. -/
theorem Attended.beside (h : Attended s) (closed : t.closed = s.closed)
    (consumers : t.consumers = Function.update s.consumers c x)
    (task : x.task = (s.consumers c).task) (stream : x.stream = (s.consumers c).stream) :
    Attended t :=
  h.own closed consumers fun ho hopen => task ▸ h ho c (stream ▸ hopen)

theorem Attended.dropPermit (h : Attended s) (d : MemoryDelivery V) : Attended (s.dropPermit d) :=
  h.beside rfl rfl rfl rfl

theorem Attended.dropOrigin (h : Attended s) (r : Request V) : Attended (s.dropOrigin r) := by
  unfold State.dropOrigin
  split
  · exact h.dropPermit _
  · exact h

theorem Attended.schedule (h : Attended s) (hs : stepSchedule s k = some t) : Attended t := by
  obtain ⟨r, -, ⟨-, -, rfl⟩ | ⟨-, -, rfl⟩ | ⟨-, -, -, rfl⟩ | ⟨-, -, -, rfl⟩ | ⟨-, -, rfl⟩⟩ :=
    schedule_cases hs
  · exact h.same rfl rfl
  · exact h.same rfl rfl
  · exact h.same rfl rfl
  · exact h.same rfl rfl
  · exact (h.dropOrigin r).same rfl rfl

theorem Attended.record (h : Attended s) (hs : stepRecord s k = some t) : Attended t := by
  obtain ⟨r, d, -, -, rfl⟩ | ⟨d, -, rfl⟩ | ⟨d, reason, -, -, rfl⟩ | ⟨d, reason, -, -, rfl⟩ :=
    record_cases hs
  · exact h.beside rfl rfl rfl rfl
  · exact h.beside rfl rfl rfl rfl
  · exact h.beside rfl rfl rfl rfl
  · exact h.beside rfl rfl rfl rfl

theorem Attended.fire (h : Attended s) (hs : stepFire s n = some t) : Attended t := by
  obtain ⟨m, guarded, -, -, rfl⟩ := fire_cases hs
  have enqueued : Enrolled none s (s.enqueueNow m guarded) := .enqueueNow s m guarded
  exact h.same enqueued.closed (enqueueNow_consumers s m guarded)

theorem attended_step (h : Attended s) (registered : Registered s) (hs : step s a = some t) :
    Attended t := by
  cases a with
  | tick elapsed =>
    obtain ⟨-, rfl⟩ := tick_cases hs
    exact h.same rfl rfl
  | declare configs =>
    obtain rfl := Option.some.inj hs
    split_ifs
    · exact h
    · exact h.same rfl rfl
  | publish k envelope delay | defer k envelope delay =>
    obtain ⟨-, rfl⟩ := call_cases hs
    exact h.same rfl rfl
  | settle k c i op =>
    obtain ⟨-, m, -, rfl⟩ := settle_cases hs
    exact h.beside rfl rfl rfl rfl
  | check k =>
    obtain ⟨r, -, ⟨-, rfl⟩ | ⟨-, rfl⟩⟩ := check_cases hs
    · exact (h.dropOrigin r).same rfl rfl
    · exact h.same rfl rfl
  | schedule k => exact h.schedule hs
  | count k =>
    obtain ⟨r, deadline, -, rfl⟩ := count_cases hs
    exact h.same rfl rfl
  | guard k =>
    obtain ⟨r, deadline, -, rfl⟩ := guard_cases hs
    exact h.same rfl rfl
  | record k => exact h.record hs
  | fire n => exact h.fire hs
  | abort n =>
    obtain ⟨m, guarded, -, rfl⟩ := abort_cases hs
    exact h.same rfl rfl
  | release n =>
    obtain ⟨name, -, rfl⟩ := release_cases hs
    exact h.same (releaseHold_closed s name) (releaseHold_consumers s name)
  | consume c config =>
    obtain ⟨-, ⟨hclosed, rfl⟩ | ⟨-, rfl⟩⟩ := consume_cases hs
    · exact h.own rfl rfl fun ho => by cases hclosed.symm.trans ho
    · exact h.own rfl rfl fun _ _ => rfl
  | acquire c =>
    obtain ⟨-, ⟨hclosed, rfl⟩ | ⟨-, -, rfl⟩⟩ := acquire_cases hs
    · exact h.own rfl rfl fun ho => by cases hclosed.symm.trans (registered.working ho c)
    · exact h.own rfl rfl fun _ _ => rfl
  | pop c =>
    obtain ⟨-, ⟨hclosed, rfl⟩ | ⟨-, -, rfl⟩ | ⟨-, q, m, rest, -, -, rfl⟩⟩ := pop_cases hs
    · exact h.own rfl rfl fun ho => by cases hclosed.symm.trans ho
    · exact h.own rfl rfl fun _ _ => rfl
    · exact h.own rfl rfl fun _ _ => rfl
  | notice c =>
    obtain ⟨-, -, rfl⟩ := notice_cases hs
    exact h.own rfl rfl fun _ _ => rfl
  | giveUp c =>
    obtain ⟨hgone, ⟨-, rfl⟩ | ⟨-, rfl⟩⟩ := giveUp_cases hs <;>
      exact h.own rfl rfl fun _ hopen => by simp_all [Stream.isOpen]
  | send c =>
    obtain ⟨m, -, ⟨-, rfl⟩ | ⟨hgone, rfl⟩⟩ := send_cases hs
    · exact h.own rfl rfl fun _ _ => rfl
    · exact h.own rfl rfl fun _ hopen => by simp_all [Stream.isOpen]
  | requeue c =>
    obtain ⟨m, hc, ⟨q, -, rfl⟩ | ⟨-, rfl⟩⟩ := requeue_cases hs <;>
      exact h.own rfl rfl fun ho hopen => by cases hc ▸ h ho c hopen
  | leave c =>
    obtain ⟨hc, ⟨q, -, rfl⟩ | ⟨-, rfl⟩⟩ := leave_cases hs <;>
      exact h.own rfl rfl fun ho hopen => by cases hc ▸ h ho c hopen
  | poll c =>
    obtain ⟨m, rest, -, -, rfl⟩ := poll_cases hs
    exact h.beside rfl rfl rfl rfl
  | dropStream c =>
    obtain ⟨-, rfl⟩ := dropStream_cases hs
    exact h.own rfl rfl fun _ => by rintro ⟨⟩
  | drain c =>
    obtain ⟨collected, m, rest, -, -, rfl⟩ := drain_cases hs
    exact h.own rfl rfl fun _ => by rintro ⟨⟩
  | giveBack c =>
    obtain ⟨collected, -, -, ⟨-, rfl⟩ | ⟨-, rfl⟩⟩ := giveBack_cases hs <;>
      exact h.own rfl rfl fun _ => by rintro ⟨⟩
  | dropDelivery c i =>
    obtain ⟨-, rfl⟩ := dropDelivery_cases hs
    exact h.beside rfl rfl rfl rfl
  | close =>
    obtain rfl := Option.some.inj hs
    rintro ⟨⟩

theorem reachable_attended (h : Reachable (system V) s) : Attended s := by
  refine h.strengthen (K := Registered) (fun _ => reachable_registered) ?_
    fun _ _ _ registered _ ha _ hs => attended_step ha registered hs
  rintro _ ⟨now, horizon, -, rfl⟩ - c ⟨⟩

/-! ## From the queue into the stream -/

/-- The message that the task has in hand, or else the first of its queue. -/
def State.ahead (s : State V) (c : ℕ) : Option (Message V) :=
  match (s.consumers c).task with
  | .sending m => some m
  | _ => (s.queue (s.consumers c).queue).pending.head?

/-- In so many steps of its own the consumer puts the message into its stream. -/
def HandsOver (c : ℕ) (m : Message V) (steps : ℕ) (s : State V) : Prop :=
  ∃ rest t, rest.length ≤ steps ∧ (∀ a ∈ rest, a.actor = some c) ∧
    (system V).run s rest = some t ∧ (t.consumers c).unread = (s.consumers c).unread ++ [m]

theorem HandsOver.after {steps : ℕ} (h : HandsOver c m steps u) (ha : a.actor = some c)
    (hs : step s a = some u) (unread : (u.consumers c).unread = (s.consumers c).unread) :
    HandsOver c m (steps + 1) s := by
  obtain ⟨rest, t, hlength, hall, hrun, hunread⟩ := h
  refine ⟨a :: rest, t, Nat.succ_le_succ hlength, ?_, ?_, by rw [hunread, unread]⟩
  · simpa using ⟨ha, hall⟩
  · exact run_step hs hrun

theorem HandsOver.mono {steps more : ℕ} (h : HandsOver c m steps s) (hle : steps ≤ more) :
    HandsOver c m more s := by
  obtain ⟨rest, t, hlength, hrest⟩ := h
  exact ⟨rest, t, hlength.trans hle, hrest⟩

theorem sends (hc : (s.consumers c).task = .sending m) (hstream : (s.consumers c).stream = .open) :
    HandsOver c m 1 s := by
  have hs : (system V).step s (.send c) = some (s.setConsumer c { s.consumers c with
      task := .acquiring, unread := (s.consumers c).unread ++ [m] }) := by
    show stepSend s c = _
    simp [stepSend, hc, hstream, Stream.isOpen]
  refine ⟨[.send c], s.setConsumer c { s.consumers c with
    task := .acquiring, unread := (s.consumers c).unread ++ [m] }, le_rfl, by simp [Action.actor],
    ?_, ?_⟩
  · exact run_step hs rfl
  · simp [State.setConsumer]

theorem pops (hc : (s.consumers c).task = .popping) (hstream : (s.consumers c).stream = .open)
    (hopen : s.closed = false)
    (hm : (s.queue (s.consumers c).queue).pending.head? = some m) : HandsOver c m 2 s := by
  obtain ⟨rest, hpending⟩ := List.head?_eq_some_iff.mp hm
  obtain ⟨q, hq⟩ : ∃ q, s.queues (s.consumers c).queue = some q := by
    cases hq : s.queues (s.consumers c).queue with
    | none => simp [State.queue, hq, QueueState.new] at hpending
    | some q => exact ⟨q, rfl⟩
  rw [queue_eq hq] at hpending
  have hs : step s (.pop c) = some ((s.setQueue (s.consumers c).queue
      { q with pending := rest }).setTask c (.sending m)) := by
    simp [step, stepPop, hc, hopen, hq, hpending]
  refine (sends ?_ ?_).after rfl hs ?_ <;> simp [State.setTask, State.setConsumer, State.setQueue,
    hstream]

/-- A task that comes to look at its queue pops the message, and sends it. -/
theorem HandsOver.look (ha : a.actor = some c) (hs : step s a = some (s.setConsumer c x))
    (task : x.task = .popping) (stream : x.stream = .open)
    (queue : x.queue = (s.consumers c).queue) (unread : x.unread = (s.consumers c).unread)
    (hopen : s.closed = false) (hm : (s.queue (s.consumers c).queue).pending.head? = some m) :
    HandsOver c m 3 s := by
  have same : (s.setConsumer c x).consumers c = x := Function.update_self _ _ _
  have next : HandsOver c m 2 (s.setConsumer c x) := by
    refine pops ?_ ?_ hopen ?_ <;> rw [same]
    · exact task
    · exact stream
    · rw [queue]
      exact hm
  exact next.after ha hs (by rw [same, unread])

/-- A task that has a permit, or can have one, hands over what is ahead of it. -/
theorem takes_over (h : Reachable (system V) s) (hopen : s.closed = false)
    (hstream : (s.consumers c).stream = .open) (hm : s.ahead c = some m)
    (hfree : (s.consumers c).task = .acquiring → 0 < (s.consumers c).permits) :
    HandsOver c m 3 s := by
  have attends := reachable_attended h hopen c hstream
  cases hc : (s.consumers c).task with
  | unborn | requeueing _ | leaving | ended =>
    rw [hc] at attends
    cases attends
  | sending m' =>
    obtain rfl : m' = m := by simpa [State.ahead, hc] using hm
    exact (sends hc hstream).mono (by decide)
  | popping =>
    have hhead : (s.queue (s.consumers c).queue).pending.head? = some m := by
      simpa [State.ahead, hc] using hm
    exact (pops hc hstream hopen hhead).mono (by decide)
  | acquiring =>
    have hhead : (s.queue (s.consumers c).queue).pending.head? = some m := by
      simpa [State.ahead, hc] using hm
    have working := (reachable_registered h).working hopen c
    have hs : step s (.acquire c) = some (s.setConsumer c { s.consumers c with
        task := .popping, permits := (s.consumers c).permits - 1 }) := by
      simp [step, stepAcquire, hc, working, hfree hc]
    exact .look rfl hs rfl hstream rfl rfl hopen hhead
  | waiting =>
    have hhead : (s.queue (s.consumers c).queue).pending.head? = some m := by
      simpa [State.ahead, hc] using hm
    have hpending : (s.queue (s.consumers c).queue).pending ≠ [] := by
      intro hnil
      rw [hnil] at hhead
      cases hhead
    have hs : step s (.notice c) = some (s.setConsumer c { s.consumers c with
        task := .popping, seen := (s.queue (s.consumers c).queue).signal }) := by
      simp [step, stepNotice, hc, unseen h hc (.inl hpending)]
    exact .look rfl hs rfl hstream rfl rfl hopen hhead

/-! ## Permits that come back -/

/-- The call that takes the step. -/
def Action.settler : Action V → Option ℕ
  | check k | schedule k | count k | guard k | record k => some k
  | _ => none

/-- How many steps a call has left. -/
def Call.rank : Call V → ℕ
  | checking _ => 5
  | scheduling _ => 4
  | counting _ _ => 3
  | guarding _ _ => 2
  | recording _ | acking _ | burying _ _ => 1
  | idle | returned _ _ | panicked _ => 0

/-- A settle operation goes on with its delivery, or is done and gives the permit back. -/
structure Settles (s t : State V) (k : ℕ) (d : MemoryDelivery V) : Prop where
  rank : (t.calls k).rank < (s.calls k).rank
  permit : (t.calls k).delivery = some d ∧ t.consumers = s.consumers ∨
    (t.calls k).delivery = none ∧
      (t.consumers d.consumer).permits = (s.consumers d.consumer).permits + 1

theorem Settles.goOn (call : Call V) (rank : call.rank < (s.calls k).rank)
    (delivery : call.delivery = some d) (calls : t.calls = Function.update s.calls k call)
    (consumers : t.consumers = s.consumers) : Settles s t k d := by
  refine ⟨?_, .inl ⟨?_, consumers⟩⟩ <;> rw [calls, Function.update_self]
  · exact rank
  · exact delivery

/-- The call returns or panics, and its delivery is dropped. -/
theorem Settles.drop (call : Call V) (rank : call.rank < (s.calls k).rank)
    (delivery : call.delivery = none) (calls : t.calls = Function.update s.calls k call)
    (consumers : t.consumers = (s.dropPermit d).consumers) : Settles s t k d := by
  refine ⟨?_, .inr ⟨?_, ?_⟩⟩
  · rw [calls, Function.update_self]
    exact rank
  · rw [calls, Function.update_self]
    exact delivery
  · rw [consumers]
    simp [State.dropPermit, State.setConsumer]

theorem Settles.dropOrigin (call : Call V) (hr : r.origin = some d)
    (rank : call.rank < (s.calls k).rank) (delivery : call.delivery = none) :
    Settles s ((s.dropOrigin r).setCall k call) k d := by
  have hdrop : s.dropOrigin r = s.dropPermit d := by simp [State.dropOrigin, hr]
  rw [hdrop]
  exact .drop call rank delivery rfl rfl

/-- What has been scheduled for a delivery has its ack to record. -/
theorem Settles.scheduled (hr : r.origin = some d) (rank : 1 < (s.calls k).rank)
    (calls : u.calls = s.calls) (consumers : u.consumers = s.consumers) :
    Settles s (u.scheduled k r) k d := by
  have hgoes : u.scheduled k r = u.setCall k (.recording r) := by simp [State.scheduled, hr]
  rw [hgoes]
  refine .goOn (.recording r) rank hr ?_ consumers
  show Function.update u.calls k _ = _
  rw [calls]

/-- The next step of a settle operation is always there. -/
theorem next_settling (hk : (s.calls k).delivery = some d) :
    ∃ a t, a.settler = some k ∧ step s a = some t ∧ Settles s t k d := by
  cases hcall : s.calls k with
  | idle | returned _ _ | panicked _ =>
    rw [hcall] at hk
    cases hk
  | checking r =>
    rw [hcall] at hk
    obtain ⟨t, ht⟩ : ∃ t, stepCheck s k = some t := by simp [stepCheck, hcall]
    refine ⟨.check k, t, rfl, ht, ?_⟩
    obtain ⟨r', hr', ⟨-, rfl⟩ | ⟨-, rfl⟩⟩ := check_cases ht <;> obtain rfl : r = r' := by
      simpa [hcall] using hr'
    · exact .dropOrigin (.returned (some r) _) hk (by simp [hcall, Call.rank]) rfl
    · exact .goOn (.scheduling r) (by simp [hcall, Call.rank]) hk rfl rfl
  | scheduling r =>
    rw [hcall] at hk
    obtain ⟨t, ht⟩ : ∃ t, stepSchedule s k = some t := by
      refine Option.isSome_iff_exists.mp ?_
      simp only [stepSchedule, hcall]
      split_ifs <;> rfl
    refine ⟨.schedule k, t, rfl, ht, ?_⟩
    obtain ⟨r', hr', hcases⟩ := schedule_cases ht
    obtain rfl : r = r' := by simpa [hcall] using hr'
    obtain ⟨-, -, rfl⟩ | ⟨-, -, rfl⟩ | ⟨-, -, -, rfl⟩ | ⟨-, -, -, rfl⟩ | ⟨-, -, rfl⟩ := hcases
    · exact .scheduled hk (by simp [hcall, Call.rank]) rfl rfl
    · exact .scheduled hk (by simp [hcall, Call.rank]) rfl rfl
    · exact .goOn (.counting r (s.now + r.delay.nanos)) (by simp [hcall, Call.rank]) hk rfl rfl
    · exact .scheduled hk (by simp [hcall, Call.rank]) rfl rfl
    · exact .dropOrigin (.panicked r) hk (by simp [hcall, Call.rank]) rfl
  | counting r deadline =>
    rw [hcall] at hk
    obtain ⟨t, ht⟩ : ∃ t, stepCount s k = some t := by simp [stepCount, hcall]
    refine ⟨.count k, t, rfl, ht, ?_⟩
    obtain ⟨r', deadline', hr', rfl⟩ := count_cases ht
    obtain ⟨rfl, rfl⟩ : r = r' ∧ deadline = deadline' := by simpa [hcall] using hr'
    exact .goOn (.guarding r deadline) (by simp [hcall, Call.rank]) hk rfl rfl
  | guarding r deadline =>
    rw [hcall] at hk
    obtain ⟨t, ht⟩ : ∃ t, stepGuard s k = some t := by simp [stepGuard, hcall]
    refine ⟨.guard k, t, rfl, ht, ?_⟩
    obtain ⟨r', deadline', hr', rfl⟩ := guard_cases ht
    obtain ⟨rfl, rfl⟩ : r = r' ∧ deadline = deadline' := by simpa [hcall] using hr'
    exact .scheduled hk (by simp [hcall, Call.rank]) rfl rfl
  | recording r | acking _ | burying _ _ =>
    obtain ⟨t, ht⟩ : ∃ t, stepRecord s k = some t := by
      refine Option.isSome_iff_exists.mp ?_
      simp only [stepRecord, hcall]
      rw [hcall] at hk
      first
        | rfl
        | (split_ifs <;> rfl)
        | (rw [show r.origin = some d from hk]; rfl)
    refine ⟨.record k, t, rfl, ht, ?_⟩
    obtain ⟨r, d', hr, hd, rfl⟩ | ⟨d', hr, rfl⟩ | ⟨d', reason, hr, -, rfl⟩ |
      ⟨d', reason, hr, -, rfl⟩ := record_cases ht
    all_goals
      obtain rfl : d' = d := by simpa [hr, Call.delivery, *] using hk
      exact .drop (.returned _ _) (by simp [hr, Call.rank]) rfl rfl rfl

/-- The call is done with the delivery in between, and the permit is free. -/
def Frees (k : ℕ) (d : MemoryDelivery V) (s t : State V) : Prop :=
  (t.calls k).delivery = none ∧
    (t.consumers d.consumer).permits = (s.consumers d.consumer).permits + 1

/-- A settle operation ends by itself, whatever becomes of it, and its permit is free again. -/
theorem settling_ends (hk : (s.calls k).delivery = some d) : ∃ rest t,
    rest.length ≤ (s.calls k).rank ∧ (∀ a ∈ rest, a.settler = some k) ∧
      (system V).run s rest = some t ∧ (t.calls k).delivery = none ∧
      (t.consumers d.consumer).permits = (s.consumers d.consumer).permits + 1 := by
  have next : ∀ v : State V, (v.calls k).delivery = some d → ∃ a u, a.settler = some k ∧
      (system V).step v a = some u ∧ (u.calls k).rank < (v.calls k).rank ∧
        ((u.calls k).delivery = some d ∧ (∀ t, Frees k d u t → Frees k d v t) ∨
          Frees k d v u) := by
    intro v hv
    obtain ⟨a, u, ha, hu, hrank, ⟨hdelivery, hconsumers⟩ | hdone⟩ := next_settling hv
    · refine ⟨a, u, ha, hu, hrank, .inl ⟨hdelivery, fun t ht => ⟨ht.1, ?_⟩⟩⟩
      rw [ht.2, hconsumers]
    · exact ⟨a, u, ha, hu, hrank, .inr hdone⟩
  exact run_until next hk

/-- A living task has a permit somewhere. -/
def Roomy (s : State V) : Prop := ∀ c, (s.consumers c).task.live = true → 0 < s.slots c

theorem live_step (ha : ∀ e config, a ≠ .consume e config) (hs : step s a = some t)
    (hlive : (t.consumers c).task.live = true) : (s.consumers c).task.live = true := by
  cases hr : a.registers with
  | false =>
    have hentry := (enrolled_step hr hs).entry c
    simp only [Consumer.entry, Prod.mk.injEq] at hentry
    exact hentry.2.1 ▸ hlive
  | true =>
    cases a with
    | consume e config => exact absurd rfl (ha e config)
    | leave e =>
      by_cases hce : c = e
      · obtain ⟨-, ⟨q, -, rfl⟩ | ⟨-, rfl⟩⟩ := leave_cases hs <;>
          simp [State.setTask, State.setConsumer, hce, Task.live] at hlive
      · obtain ⟨-, ⟨q, -, rfl⟩ | ⟨-, rfl⟩⟩ := leave_cases hs <;>
          simpa [State.setTask, State.setConsumer, State.setQueue, hce] using hlive
    | close =>
      obtain rfl := Option.some.inj hs
      dsimp only at hlive
      split_ifs at hlive <;> exact hlive
    | _ => cases hr

theorem prefetchPermits_pos (config : QueueConfig) : 0 < prefetchPermits config := by
  unfold prefetchPermits
  split_ifs with hzero
  · decide
  · have hne : config.prefetch.toNat ≠ 0 := fun h => hzero (UInt16.toNat_inj.mp h)
    omega

theorem roomy_step (h : Roomy s) (slotted : Slotted s) (hs : step s a = some t) : Roomy t := by
  intro c hlive
  by_cases ha : ∀ e config, a ≠ .consume e config
  · rw [(passed_step slotted.bounded ha hs).slots]
    exact h c (live_step ha hs hlive)
  · push Not at ha
    obtain ⟨e, config, rfl⟩ := ha
    obtain ⟨-, -, hstart, others⟩ := slots_consume slotted hs
    by_cases hce : c = e
    · rw [hce, hstart]
      exact prefetchPermits_pos config
    · rw [(others c hce).1]
      exact h c ((others c hce).2 ▸ hlive)

theorem reachable_roomy (h : Reachable (system V) s) : Roomy s := by
  refine h.strengthen (K := Slotted) (fun _ => reachable_slotted) ?_
    fun _ _ _ slotted _ hi _ hs => roomy_step hi slotted hs
  rintro _ ⟨now, horizon, -, rfl⟩ c ⟨⟩

/-- The task waits for a permit. -/
def State.starved (s : State V) (c : ℕ) : Prop :=
  (s.consumers c).task = .acquiring ∧ (s.consumers c).permits = 0

/-- While the backend and a stream are open its consumer needs three steps at most, all its own,
to put what is ahead of it into the stream, unless it lacks a permit. Then deliveries of its own
are unread or unsettled, and a settle operation under way ends by itself, in five steps at most,
and frees its permit. -/
theorem hands_over (h : Reachable (system V) s) (hopen : s.closed = false)
    (hstream : (s.consumers c).stream = .open) :
    (∀ m, s.ahead c = some m → HandsOver c m 3 s ∨ s.starved c) ∧
    (s.starved c → 0 < s.outstanding c) ∧
    ∀ k ∈ s.beingSettled c, ∃ rest t, rest.length ≤ 5 ∧ (∀ a ∈ rest, a.settler = some k) ∧
      (system V).run s rest = some t ∧ k ∉ t.beingSettled c ∧
        (t.consumers c).permits = (s.consumers c).permits + 1 := by
  refine ⟨fun m hm => ?_, fun ⟨htask, hpermits⟩ => ?_, fun k hk => ?_⟩
  · by_cases hstarved : s.starved c
    · exact .inr hstarved
    · refine .inl (takes_over h hopen hstream hm fun hacquiring => ?_)
      exact Nat.pos_of_ne_zero fun hzero => hstarved ⟨hacquiring, hzero⟩
  · have hroom := reachable_roomy h c (by rw [htask]; rfl)
    have hcalls : tally (settlingWeight c) s.calls = (s.beingSettled c).ncard :=
      tally_count (fun call : Call V => call.settling c = true) s.calls
    unfold State.slots Consumer.slots at hroom
    rw [htask, hpermits, hcalls] at hroom
    simpa [State.outstanding, Task.permit] using hroom
  · obtain ⟨d, hd, hc⟩ : ∃ d, (s.calls k).delivery = some d ∧ d.consumer = c := by
      simpa [State.beingSettled, Call.settling, Option.any_eq_true] using hk
    obtain ⟨rest, t, hlength, hall, hrun, hnone, hfreed⟩ := settling_ends hd
    refine ⟨rest, t, hlength.trans ?_, hall, hrun, ?_, hc ▸ hfreed⟩
    · cases s.calls k <;> simp [Call.rank]
    · simp [State.beingSettled, Call.settling, hnone]

/-- A prefetch of one: a job is being deferred, and the next waits for its permit. -/
theorem hands_over_deferred : ∃ s : State Unit, Reachable (system Unit) s ∧ s.starved 0 ∧
    (s.queue "mail").pending ≠ [] ∧ 2 ∈ s.beingSettled 0 ∧ ∃ rest t, rest.length ≤ 5 ∧
      (system Unit).run s rest = some t ∧ (t.consumers 0).permits = 1 := by
  have start : Reachable (system Unit) (initial 0 10) := .start ⟨0, 10, by decide, rfl⟩
  have reached := start.run [.consume 0 { QueueConfig.new "mail" with prefetch := 1 },
    .publish 0 mail none, .check 0, .schedule 0, .publish 1 mail none, .check 1, .schedule 1,
    .acquire 0, .pop 0, .send 0, .poll 0, .settle 2 0 0 (.defer mail .zero), .check 2] rfl
  obtain ⟨rest, t, hlength, -, hrun, -, hfreed⟩ :=
    (hands_over (c := 0) reached rfl rfl).2.2 2 (Set.mem_ofPred.mpr rfl)
  exact ⟨_, reached, ⟨rfl, rfl⟩, List.cons_ne_nil _ _, Set.mem_ofPred.mpr rfl, rest, t, hlength,
    hrun, hfreed⟩

end Queuey.MemoryBackend
