import Queuey.Core.MemoryFlow
import Queuey.Core.RacingClose

/-!
# No lost wake-up

A consumer task looks for a message and waits in two steps, and other tasks run in between.
The version of the queue's signal moves with every insertion and with the close, so a task
whose version is up to date has nothing to look for.
-/
namespace Queuey.MemoryBackend
open Transition

variable {V : Type} {s t u : State V} {a : Action V} {k c n : ℕ} {r : Request V} {m : Message V}
  {name : String} {q : QueueState V} {x : Consumer V}

/-! ## What a step does to the queues -/

/-- Queues stay, versions only grow, and one that stays has seen no insertion and no close. -/
structure Hushed (s t : State V) : Prop where
  exist : ∀ name, (s.queues name).isSome → (t.queues name).isSome
  grows : ∀ name, (s.queue name).signal ≤ (t.queue name).signal
  empty : ∀ name, (t.queue name).signal = (s.queue name).signal →
    (s.queue name).pending = [] → (t.queue name).pending = []
  opened : ∀ name, (s.queues name).isSome → (t.queue name).signal = (s.queue name).signal →
    s.closed = false → t.closed = false

theorem Hushed.same (queues : t.queues = s.queues) (closed : t.closed = s.closed) :
    Hushed s t := by
  have hqueue : t.queue = s.queue := by
    funext name
    rw [State.queue, queues]
    rfl
  exact ⟨fun name h => by rwa [queues], fun name => by rw [hqueue], fun name _ h => by rwa [hqueue],
    fun _ _ _ h => by rwa [closed]⟩

theorem Hushed.trans (h : Hushed s u) (h' : Hushed u t) : Hushed s t := by
  -- A version that is the same in the end was the same in between.
  have between : ∀ name, (t.queue name).signal = (s.queue name).signal →
      (u.queue name).signal = (s.queue name).signal ∧
        (t.queue name).signal = (u.queue name).signal := fun name heq => by
    have := h.grows name
    have := h'.grows name
    omega
  refine ⟨fun name hs => h'.exist name (h.exist name hs),
    fun name => (h.grows name).trans (h'.grows name), fun name heq hempty => ?_,
    fun name hs heq hopen => ?_⟩
  · obtain ⟨hu, ht⟩ := between name heq
    exact h'.empty name ht (h.empty name hu hempty)
  · obtain ⟨hu, ht⟩ := between name heq
    exact h'.opened name (h.exist name hs) ht (h.opened name hs hu hopen)

theorem queue_setQueue (s : State V) (name : String) (q : QueueState V) :
    (s.setQueue name q).queue name = q := by
  simp [State.queue, State.setQueue]

theorem queue_setQueue_of_ne {other : String} (ho : other ≠ name) :
    (s.setQueue name q).queue other = s.queue other := by
  simp [State.queue, State.setQueue, ho]

/-- One queue changes: its version moves, or nothing comes to it. -/
theorem Hushed.setQueue (grows : (s.queue name).signal ≤ q.signal)
    (quiet : q.signal = (s.queue name).signal → (s.queue name).pending = [] → q.pending = []) :
    Hushed s (s.setQueue name q) := by
  refine ⟨fun other h => ?_, fun other => ?_, fun other heq hempty => ?_, fun _ _ _ h => h⟩ <;>
    by_cases ho : other = name
  · simp [State.setQueue, ho]
  · simpa [State.setQueue, ho] using h
  · rwa [ho, queue_setQueue]
  · rw [queue_setQueue_of_ne ho]
  · rw [ho, queue_setQueue] at heq ⊢
    exact quiet heq (ho ▸ hempty)
  · rwa [queue_setQueue_of_ne ho]

/-- The queue's other fields change. -/
theorem Hushed.rest (signal : q.signal = (s.queue name).signal)
    (pending : q.pending = (s.queue name).pending) : Hushed s (s.setQueue name q) :=
  .setQueue signal.ge fun _ hempty => by rw [pending, hempty]

/-- The queue's consumers are told of its change. -/
theorem Hushed.woken (name : String) (hq : q.signal = (s.queue name).signal) :
    Hushed s (s.setQueue name q.wake) := by
  have hsignal : q.wake.signal = (s.queue name).signal + 1 := by rw [← hq]; rfl
  refine .setQueue ?_ fun heq => ?_ <;> omega

theorem Hushed.insert (s : State V) (m : Message V) : Hushed s (s.insert m) := by
  refine Hushed.trans (.woken m.envelope.queue (q := { s.queue m.envelope.queue with
    pending := insertByPriority (s.queue m.envelope.queue).pending m }) rfl) ?_
  exact .same rfl rfl

theorem Hushed.releaseHold (s : State V) (name : String) : Hushed s (s.releaseHold name) := by
  unfold State.releaseHold
  cases hq : s.queues name with
  | none => exact .same rfl rfl
  | some q => exact .rest (by rw [queue_eq hq]) (by rw [queue_eq hq])

theorem Hushed.enqueueNow (s : State V) (m : Message V) (guarded : Bool) :
    Hushed s (s.enqueueNow m guarded) := by
  obtain ⟨u, hu, he⟩ := enqueueNow_cases s m guarded
  have released : Hushed s u := by
    obtain rfl | rfl := hu
    · exact .same rfl rfl
    · exact .releaseHold s _
  obtain ⟨-, he⟩ | ⟨-, he⟩ := he <;> rw [he]
  · exact released
  · exact released.trans (.insert u m)

theorem Hushed.setConsumer (s : State V) (c : ℕ) (x : Consumer V) : Hushed s (s.setConsumer c x) :=
  .same rfl rfl

theorem Hushed.dropOrigin (s : State V) (r : Request V) : Hushed s (s.dropOrigin r) := by
  unfold State.dropOrigin
  split
  · exact .setConsumer _ _ _
  · exact .same rfl rfl

theorem Hushed.schedule (hs : stepSchedule s k = some t) : Hushed s t := by
  obtain ⟨r, -, ⟨-, -, rfl⟩ | ⟨-, -, rfl⟩ | ⟨-, -, -, rfl⟩ | ⟨-, -, -, rfl⟩ | ⟨-, -, rfl⟩⟩ :=
    schedule_cases hs
  · exact .same rfl rfl
  · exact (Hushed.insert s (s.message r)).trans (.same rfl rfl)
  · exact .same rfl rfl
  · exact .same rfl rfl
  · exact (Hushed.dropOrigin s r).trans (.same rfl rfl)

theorem Hushed.recordAck (s : State V) (k : ℕ) (m : Message V) (kind : AckKind) :
    Hushed s (s.recordAck k m kind) := by
  refine Hushed.trans (u := s.setQueue m.envelope.queue { s.queue m.envelope.queue with
    settled := (s.queue m.envelope.queue).settled ++ [(m, kind)] }) ?_ ?_
  · exact .rest rfl rfl
  · exact .same rfl rfl

theorem Hushed.record (hs : stepRecord s k = some t) : Hushed s t := by
  obtain ⟨r, d, -, -, rfl⟩ | ⟨d, -, rfl⟩ | ⟨d, reason, -, -, rfl⟩ | ⟨d, reason, -, -, rfl⟩ :=
    record_cases hs
  · exact (Hushed.recordAck s k d.message r.kind).trans (.same rfl rfl)
  · exact (Hushed.recordAck s k d.message .succeeded).trans (.same rfl rfl)
  · exact .same rfl rfl
  · refine Hushed.trans (u := s.setQueue d.message.envelope.queue
      { s.queue d.message.envelope.queue with
        dead := (s.queue d.message.envelope.queue).dead ++ [(d.message, reason)] }) ?_ ?_
    · exact .rest rfl rfl
    · exact .same rfl rfl

theorem Hushed.declare {configs : List QueueConfig} (hs : stepDeclare s configs = some t) :
    Hushed s t := by
  obtain rfl := Option.some.inj hs
  split_ifs
  · exact .same rfl rfl
  · refine ⟨fun name h => declared_isSome configs s.queues h, fun name => ?_, fun name _ h => ?_,
      fun _ _ _ h => h⟩
    · exact (declared_same QueueState.signal (fun _ _ => rfl) configs s.queues name).ge
    · exact (declared_same QueueState.pending (fun _ _ => rfl) configs s.queues name).trans h

/-- The close moves every version. -/
theorem Hushed.close (hs : stepClose s = some t) : Hushed s t := by
  obtain rfl := Option.some.inj hs
  refine ⟨fun name h => by simpa using h, fun name => ?_, fun name heq h => ?_,
    fun name hsome heq _ => ?_⟩ <;> cases hq : s.queues name
  all_goals simp_all [State.queue, QueueState.wake]

/-! ## What a step does to the consumers -/

/-- The task has not started to wait, nor seen another version, since. -/
structure Steady (x y : Consumer V) : Prop where
  queue : y.queue = x.queue
  seen : y.seen = x.seen
  waiting : y.task = .waiting → x.task = .waiting
  live : y.task.live = true → x.task.live = true

theorem Steady.refl (x : Consumer V) : Steady x x := ⟨rfl, rfl, id, id⟩

/-- A task that is awake, or at its end, has seen no version that is not there yet; one that
waits with the last version has nothing to look for. -/
structure Alert (s : State V) : Prop where
  seen : ∀ c, (s.consumers c).task.live = true →
    (s.consumers c).seen ≤ (s.queue (s.consumers c).queue).signal
  parked : ∀ c, (s.consumers c).task = .waiting →
    (s.consumers c).seen = (s.queue (s.consumers c).queue).signal →
      (s.queue (s.consumers c).queue).pending = [] ∧ s.closed = false

theorem alert_start (h : (system V).start s) : Alert s := by
  obtain ⟨now, horizon, -, rfl⟩ := h
  exact ⟨nofun, nofun⟩

theorem Alert.keep (h : Alert s) (wired : Wired s) (hushed : Hushed s t)
    (steady : ∀ c, Steady (s.consumers c) (t.consumers c)) : Alert t where
  seen c hc := by
    have hseen := h.seen c ((steady c).live hc)
    rw [(steady c).seen, (steady c).queue]
    exact hseen.trans (hushed.grows _)
  parked c hc heq := by
    have hwaiting := (steady c).waiting hc
    rw [(steady c).seen, (steady c).queue] at heq
    rw [(steady c).queue]
    -- The version it waits for is the one from before the step.
    have hseen := h.seen c (by rw [hwaiting]; rfl)
    have hgrows := hushed.grows (s.consumers c).queue
    obtain ⟨hempty, hopen⟩ := h.parked c hwaiting (by omega)
    have hsame : (t.queue (s.consumers c).queue).signal =
        (s.queue (s.consumers c).queue).signal := by omega
    exact ⟨hushed.empty _ hsame hempty,
      hushed.opened _ (wired.queues c (by rw [hwaiting]; rfl)) hsame hopen⟩

theorem Alert.hush (h : Alert s) (wired : Wired s) (hushed : Hushed s t)
    (consumers : t.consumers = s.consumers) : Alert t := by
  refine h.keep wired hushed fun c => ?_
  rw [consumers]
  exact .refl _

theorem Alert.setConsumer (h : Alert s)
    (seen : x.task.live = true → x.seen ≤ (s.queue x.queue).signal)
    (parked : x.task = .waiting → x.seen = (s.queue x.queue).signal →
      (s.queue x.queue).pending = [] ∧ s.closed = false) : Alert (s.setConsumer c x) where
  seen d hd := by
    by_cases hdc : d = c
    · simp only [State.setConsumer, hdc, Function.update_self] at hd ⊢
      exact seen hd
    · simp only [State.setConsumer, Function.update_of_ne hdc] at hd ⊢
      exact h.seen d hd
  parked d hd := by
    by_cases hdc : d = c
    · simp only [State.setConsumer, hdc, Function.update_self] at hd ⊢
      exact parked hd
    · simp only [State.setConsumer, Function.update_of_ne hdc] at hd ⊢
      exact h.parked d hd

theorem Alert.steady (h : Alert s) (steady : Steady (s.consumers c) x) :
    Alert (s.setConsumer c x) := by
  refine h.setConsumer (fun hx => ?_) fun hx => ?_ <;> rw [steady.seen, steady.queue]
  · exact h.seen c (steady.live hx)
  · exact h.parked c (steady.waiting hx)

theorem steady_dropPermit (s : State V) (d : MemoryDelivery V) (c : ℕ) :
    Steady (s.consumers c) ((s.dropPermit d).consumers c) := by
  by_cases hc : c = d.consumer
  · subst hc
    simp only [State.dropPermit, State.setConsumer, Function.update_self]
    exact ⟨rfl, rfl, id, id⟩
  · simp only [State.dropPermit, State.setConsumer, Function.update_of_ne hc]
    exact .refl _

theorem steady_dropOrigin (s : State V) (r : Request V) (c : ℕ) :
    Steady (s.consumers c) ((s.dropOrigin r).consumers c) := by
  unfold State.dropOrigin
  split
  · exact steady_dropPermit s _ c
  · exact .refl _

theorem Alert.check (h : Alert s) (wired : Wired s) (hs : stepCheck s k = some t) : Alert t := by
  obtain ⟨r, -, ⟨-, rfl⟩ | ⟨-, rfl⟩⟩ := check_cases hs
  · exact h.keep wired ((Hushed.dropOrigin s r).trans (.same rfl rfl)) (steady_dropOrigin s r)
  · exact h.hush wired (.same rfl rfl) rfl

theorem Alert.schedule (h : Alert s) (wired : Wired s) (hs : stepSchedule s k = some t) :
    Alert t := by
  refine h.keep wired (.schedule hs) fun c => ?_
  obtain ⟨r, -, ⟨-, -, rfl⟩ | ⟨-, -, rfl⟩ | ⟨-, -, -, rfl⟩ | ⟨-, -, -, rfl⟩ | ⟨-, -, rfl⟩⟩ :=
    schedule_cases hs
  · exact .refl _
  · exact .refl _
  · exact .refl _
  · exact .refl _
  · exact steady_dropOrigin s r c

theorem Alert.record (h : Alert s) (wired : Wired s) (hs : stepRecord s k = some t) :
    Alert t := by
  refine h.keep wired (.record hs) fun c => ?_
  obtain ⟨r, d, -, -, rfl⟩ | ⟨d, -, rfl⟩ | ⟨d, reason, -, -, rfl⟩ | ⟨d, reason, -, -, rfl⟩ :=
    record_cases hs <;> exact steady_dropPermit _ d c

theorem Alert.leave (h : Alert s) (wired : Wired s) (hs : stepLeave s c = some t) : Alert t := by
  obtain ⟨-, ⟨q, hq, rfl⟩ | ⟨-, rfl⟩⟩ := leave_cases hs
  · have hushed : Hushed s (s.setQueue (s.consumers c).queue
        { q with consumers := q.consumers.filter (· ≠ c) }) :=
      .rest (by rw [queue_eq hq]) (by rw [queue_eq hq])
    exact (h.hush wired hushed rfl).setConsumer nofun nofun
  · exact h.setConsumer nofun nofun

theorem Alert.pop (h : Alert s) (wired : Wired s) (hs : stepPop s c = some t) : Alert t := by
  obtain ⟨hc, hcases⟩ := pop_cases hs
  have live : (s.consumers c).task.live = true := by rw [hc]; rfl
  obtain ⟨-, rfl⟩ | ⟨hopen, hempty, rfl⟩ | ⟨-, q, m, rest, hq, hm, rfl⟩ := hcases
  · exact h.steady ⟨rfl, rfl, nofun, fun _ => live⟩
  · -- It starts to wait with whatever version it has seen: nothing is pending.
    exact h.setConsumer (fun _ => h.seen c live) fun _ _ => ⟨hempty, hopen⟩
  · have hushed : Hushed s (s.setQueue (s.consumers c).queue { q with pending := rest }) := by
      refine .setQueue (by rw [queue_eq hq]) fun _ hempty => ?_
      rw [queue_eq hq, hm] at hempty
      cases hempty
    exact (h.hush wired hushed rfl).steady ⟨rfl, rfl, nofun, fun _ => live⟩

theorem Alert.requeue (h : Alert s) (wired : Wired s) (hs : stepRequeue s c = some t) :
    Alert t := by
  obtain ⟨m, hc, hcases⟩ := requeue_cases hs
  have live : (s.consumers c).task.live = true := by rw [hc]; rfl
  obtain ⟨q, hq, rfl⟩ | ⟨-, rfl⟩ := hcases
  · have hushed := Hushed.woken (s := s) (s.consumers c).queue
      (q := { q with pending := m :: q.pending }) (by rw [queue_eq hq])
    exact (h.hush wired hushed rfl).steady ⟨rfl, rfl, nofun, fun _ => live⟩
  · exact h.steady ⟨rfl, rfl, nofun, fun _ => live⟩

theorem Alert.giveBack (h : Alert s) (wired : Wired s) (hs : stepGiveBack s c = some t) :
    Alert t := by
  obtain ⟨collected, -, -, ⟨-, rfl⟩ | ⟨-, rfl⟩⟩ := giveBack_cases hs
  · exact h.steady ⟨rfl, rfl, id, id⟩
  · have hushed := Hushed.woken (s := s) (s.consumers c).queue
      (q := { s.queue (s.consumers c).queue with
        pending := collected ++ (s.queue (s.consumers c).queue).pending }) rfl
    exact (h.hush wired hushed rfl).steady ⟨rfl, rfl, id, id⟩

theorem Alert.consume {config : QueueConfig} (h : Alert s) (wired : Wired s)
    (hs : stepConsume s c config = some t) : Alert t := by
  obtain ⟨-, ⟨-, rfl⟩ | ⟨-, rfl⟩⟩ := consume_cases hs
  · exact h.setConsumer nofun nofun
  · have hushed : Hushed s (s.setQueue config.name { s.queue config.name with
        consumers := (s.queue config.name).consumers ++ [c] }) := .rest rfl rfl
    refine (h.hush wired hushed rfl).setConsumer (fun _ => ?_) nofun
    show (s.queue config.name).signal ≤ ((s.setQueue config.name _).queue config.name).signal
    rw [queue_setQueue]

theorem Alert.close (h : Alert s) (wired : Wired s) (hs : stepClose s = some t) : Alert t := by
  refine h.keep wired (.close hs) fun c => ?_
  obtain rfl := Option.some.inj hs
  dsimp only
  split_ifs
  · exact ⟨rfl, rfl, id, id⟩
  · exact .refl _

theorem alert_step (h : Alert s) (wired : Wired s) (hs : step s a = some t) : Alert t := by
  cases a with
  | tick elapsed =>
    obtain ⟨-, rfl⟩ := tick_cases hs
    exact h.hush wired (.same rfl rfl) rfl
  | declare configs =>
    refine h.hush wired (.declare hs) ?_
    obtain rfl := Option.some.inj hs
    split_ifs <;> rfl
  | publish k envelope delay =>
    obtain ⟨-, rfl⟩ := call_cases hs
    exact h.hush wired (.same rfl rfl) rfl
  | defer k envelope delay =>
    obtain ⟨-, rfl⟩ := call_cases hs
    exact h.hush wired (.same rfl rfl) rfl
  | settle k c i op =>
    obtain ⟨-, m, -, rfl⟩ := settle_cases hs
    have settled : Alert (s.setConsumer c
        { s.consumers c with out := (s.consumers c).out.eraseIdx i }) := h.steady ⟨rfl, rfl, id, id⟩
    exact ⟨settled.seen, settled.parked⟩
  | check k => exact h.check wired hs
  | schedule k => exact h.schedule wired hs
  | count k =>
    obtain ⟨r, deadline, -, rfl⟩ := count_cases hs
    refine h.hush wired (.trans (.rest (q := { s.queue r.envelope.queue with
      held := (s.queue r.envelope.queue).held + 1 }) rfl rfl) (.same rfl rfl)) rfl
  | guard k =>
    obtain ⟨r, deadline, -, rfl⟩ := guard_cases hs
    exact h.hush wired (.same rfl rfl) rfl
  | record k => exact h.record wired hs
  | fire n =>
    obtain ⟨m, guarded, -, -, rfl⟩ := fire_cases hs
    exact h.hush wired ((Hushed.enqueueNow s m guarded).trans (.same rfl rfl))
      (enqueueNow_consumers s m guarded)
  | abort n =>
    obtain ⟨m, guarded, -, rfl⟩ := abort_cases hs
    exact h.hush wired (.same rfl rfl) rfl
  | release n =>
    obtain ⟨name, -, rfl⟩ := release_cases hs
    exact h.hush wired ((Hushed.releaseHold s name).trans (.same rfl rfl))
      (releaseHold_consumers s name)
  | consume c config => exact h.consume wired hs
  | acquire c =>
    obtain ⟨hc, ⟨-, rfl⟩ | ⟨-, -, rfl⟩⟩ := acquire_cases hs <;>
      exact h.steady ⟨rfl, rfl, nofun, fun _ => by rw [hc]; rfl⟩
  | pop c => exact h.pop wired hs
  | notice c =>
    obtain ⟨-, -, rfl⟩ := notice_cases hs
    exact h.setConsumer (fun _ => le_rfl) nofun
  | giveUp c =>
    obtain ⟨-, ⟨hc, rfl⟩ | ⟨hc, rfl⟩⟩ := giveUp_cases hs <;>
      exact h.steady ⟨rfl, rfl, nofun, fun _ => by rw [hc]; rfl⟩
  | send c =>
    obtain ⟨m, hc, ⟨-, rfl⟩ | ⟨-, rfl⟩⟩ := send_cases hs <;>
      exact h.steady ⟨rfl, rfl, nofun, fun _ => by rw [hc]; rfl⟩
  | requeue c => exact h.requeue wired hs
  | leave c => exact h.leave wired hs
  | poll c =>
    obtain ⟨m, rest, -, -, rfl⟩ := poll_cases hs
    exact h.steady ⟨rfl, rfl, id, id⟩
  | dropStream c =>
    obtain ⟨-, rfl⟩ := dropStream_cases hs
    exact h.steady ⟨rfl, rfl, id, id⟩
  | drain c =>
    obtain ⟨collected, m, rest, -, -, rfl⟩ := drain_cases hs
    exact h.steady ⟨rfl, rfl, id, id⟩
  | giveBack c => exact h.giveBack wired hs
  | dropDelivery c i =>
    obtain ⟨-, rfl⟩ := dropDelivery_cases hs
    exact h.steady ⟨rfl, rfl, id, id⟩
  | close => exact h.close wired hs

theorem reachable_alert (h : Reachable (system V) s) : Alert s :=
  h.strengthen (fun _ => reachable_wired) (fun _ => alert_start) fun _ _ _ hw _ hi _ =>
    (alert_step hi hw ·)

/-- A task that waits and has seen the current version has nothing to wake up for; as long as
something is pending, a task that waits is told, and one with a free slot takes it. -/
theorem no_lost_wakeup (h : Reachable (system V) s) (c : ℕ) :
    ((s.consumers c).task = .waiting →
      (s.consumers c).seen = (s.queue (s.consumers c).queue).signal →
        (s.queue (s.consumers c).queue).pending = [] ∧ s.closed = false) ∧
    ((s.queue (s.consumers c).queue).pending ≠ [] ∨ s.closed = true →
      ((s.consumers c).task = .waiting → (step s (.notice c)).isSome) ∧
      ((s.consumers c).task = .popping → (step s (.pop c)).isSome) ∧
      ((s.consumers c).task = .acquiring → 0 < (s.consumers c).permits →
        (step s (.acquire c)).isSome)) := by
  have alert := reachable_alert h
  refine ⟨alert.parked c, fun hwork => ⟨fun hc => ?_, fun hc => ?_, fun hc hfree => ?_⟩⟩
  · have hseen : (s.consumers c).seen ≠ (s.queue (s.consumers c).queue).signal := by
      intro heq
      obtain ⟨hempty, hopen⟩ := alert.parked c hc heq
      obtain hpending | hclosed := hwork
      · exact hpending hempty
      · rw [hopen] at hclosed
        cases hclosed
    simp [step, stepNotice, hc, hseen]
  · show (stepPop s c).isSome
    simp only [stepPop, hc]
    split_ifs
    · rfl
    · grind
  · cases hclosed : (s.consumers c).closed <;> simp [step, stepAcquire, hc, hclosed, hfree]

/-- A job is published after the consumer has found its queue empty, and before it waits. -/
theorem no_lost_wakeup_published : ∃ s : State Unit, Reachable (system Unit) s ∧
    (s.consumers 0).task = .waiting ∧ (s.queue "mail").pending ≠ [] ∧
    (step s (.notice 0)).isSome := by
  have start : Reachable (system Unit) (initial 0 10) := .start ⟨0, 10, by decide, rfl⟩
  have reached := start.run [.consume 0 (.new "mail"), .acquire 0, .publish 0 mail none, .check 0,
    .pop 0, .schedule 0] rfl
  exact ⟨_, reached, rfl, nofun, ((no_lost_wakeup reached 0).2 (.inl nofun)).1 rfl⟩

end Queuey.MemoryBackend
