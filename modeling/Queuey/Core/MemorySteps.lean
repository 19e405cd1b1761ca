import Queuey.Core.Memory

/-!
# What each step of the in-memory backend does

One lemma for each action that does more than one thing, with its guards and the state it
leads to. Everything that is proved about runs goes through these.
-/
namespace Queuey.MemoryBackend

variable {V : Type} {s t : State V} {k c i n elapsed : ℕ} {r : Request V} {op : Settle V}
  {config : QueueConfig}

theorem tick_cases (hs : stepTick s elapsed = some t) :
    s.now + elapsed ≤ s.horizon ∧ t = { s with now := s.now + elapsed } := by
  grind [stepTick]

theorem call_cases (hs : stepCall s k r = some t) :
    s.calls k = .idle ∧ t = s.setCall k (.checking r) := by
  unfold stepCall at hs
  grind

theorem settle_cases (hs : stepSettle s k c i op = some t) :
    s.calls k = .idle ∧ ∃ m, (s.consumers c).out[i]? = some m ∧
      t = (s.setConsumer c
        { s.consumers c with out := (s.consumers c).out.eraseIdx i }).setCall k (op.call ⟨m, c⟩) := by
  unfold stepSettle at hs
  grind

theorem check_cases (hs : stepCheck s k = some t) :
    ∃ r, s.calls k = .checking r ∧
      ((s.closed = true ∧
          t = (s.dropOrigin r).setCall k (.returned (some r) (.error .shutDown))) ∨
        (s.closed = false ∧ t = s.setCall k (.scheduling r))) := by
  unfold stepCheck at hs
  grind

theorem schedule_cases (hs : stepSchedule s k = some t) :
    ∃ r, s.calls k = .scheduling r ∧
      ((r.delay.isZero = true ∧ s.closed = true ∧ t = s.scheduled k r) ∨
        (r.delay.isZero = true ∧ s.closed = false ∧
          t = (({ s.insert (s.message r) with accepted := s.accepted ++ [s.message r] }).note k
            (.inserted (s.message r))).scheduled k r) ∨
        (r.delay.isZero = false ∧ s.now + r.delay.nanos ≤ s.horizon ∧ r.held = true ∧
          t = s.setCall k (.counting r (s.now + r.delay.nanos))) ∨
        (r.delay.isZero = false ∧ s.now + r.delay.nanos ≤ s.horizon ∧ r.held = false ∧
          t = (s.spawnTimer k (s.message r) false).scheduled k r) ∨
        (r.delay.isZero = false ∧ ¬s.now + r.delay.nanos ≤ s.horizon ∧
          t = (s.dropOrigin r).setCall k (.panicked r))) := by
  unfold stepSchedule at hs
  split at hs
  · next r hk =>
    refine ⟨r, hk, ?_⟩
    split_ifs at hs with hzero hclosed hclock hheld <;> obtain rfl := Option.some.inj hs
    · exact .inl ⟨hzero, hclosed, rfl⟩
    · exact .inr (.inl ⟨hzero, by simpa using hclosed, rfl⟩)
    · exact .inr (.inr (.inl ⟨by simpa using hzero, hclock, hheld, rfl⟩))
    · exact .inr (.inr (.inr (.inl ⟨by simpa using hzero, hclock, by simpa using hheld, rfl⟩)))
    · exact .inr (.inr (.inr (.inr ⟨by simpa using hzero, hclock, rfl⟩)))
  · cases hs

theorem count_cases (hs : stepCount s k = some t) :
    ∃ r deadline, s.calls k = .counting r deadline ∧
      t = ((s.setQueue r.envelope.queue
        { s.queue r.envelope.queue with held := (s.queue r.envelope.queue).held + 1 }).note k
          (.counted r.envelope.queue)).setCall k (.guarding r deadline) := by
  unfold stepCount at hs
  grind

theorem guard_cases (hs : stepGuard s k = some t) :
    ∃ r deadline, s.calls k = .guarding r deadline ∧
      t = (s.spawnTimer k { s.message r with due := deadline } true).scheduled k r := by
  unfold stepGuard at hs
  grind

theorem record_cases (hs : stepRecord s k = some t) :
    (∃ r d, s.calls k = .recording r ∧ r.origin = some d ∧
        t = ((s.recordAck k d.message r.kind).dropPermit d).setCall k
          (.returned (some r) (.ok ()))) ∨
      (∃ d, s.calls k = .acking d ∧
        t = ((s.recordAck k d.message .succeeded).dropPermit d).setCall k
          (.returned none (.ok ()))) ∨
      (∃ d reason, s.calls k = .burying d reason ∧ s.closed = true ∧
        t = (s.dropPermit d).setCall k (.returned none (.error .shutDown))) ∨
      ∃ d reason, s.calls k = .burying d reason ∧ s.closed = false ∧
        t = (((s.setQueue d.message.envelope.queue
          { s.queue d.message.envelope.queue with
            dead := (s.queue d.message.envelope.queue).dead ++ [(d.message, reason)] }).note k
              (.buried d.message reason)).dropPermit d).setCall k (.returned none (.ok ())) := by
  unfold stepRecord at hs
  grind

theorem fire_cases (hs : stepFire s n = some t) :
    ∃ m guarded, s.timers n = .sleeping m guarded ∧ m.due ≤ s.now ∧
      t = (s.enqueueNow m guarded).setTimer n .finished := by
  unfold stepFire at hs
  grind

theorem abort_cases (hs : stepAbort s n = some t) :
    ∃ m guarded, s.timers n = .sleeping m guarded ∧
      t = s.setTimer n (if guarded then .releasing m.envelope.queue else .finished) := by
  unfold stepAbort at hs
  grind

theorem release_cases (hs : stepRelease s n = some t) :
    ∃ name, s.timers n = .releasing name ∧ t = (s.releaseHold name).setTimer n .finished := by
  unfold stepRelease at hs
  grind

/-- The consumer that `consume` registers. -/
def Consumer.fresh (config : QueueConfig) (seen : ℕ) (task : Task V) : Consumer V where
  queue := config.name
  permits := if config.prefetch = 0 then maxPermits else config.prefetch.toNat
  closed := false
  seen := seen
  task := task
  unread := []
  out := []
  stream := .open

theorem consume_cases (hs : stepConsume s c config = some t) :
    (s.consumers c).task = .unborn ∧
      ((s.closed = true ∧ t = s.setConsumer c (.fresh config (s.queue config.name).signal .ended)) ∨
        (s.closed = false ∧
          t = (s.setQueue config.name { s.queue config.name with
            consumers := (s.queue config.name).consumers ++ [c] }).setConsumer c
              (.fresh config (s.queue config.name).signal .acquiring))) := by
  unfold stepConsume at hs
  grind [Consumer.fresh]

theorem acquire_cases (hs : stepAcquire s c = some t) :
    (s.consumers c).task = .acquiring ∧
      (((s.consumers c).closed = true ∧ t = s.setTask c .leaving) ∨
        ((s.consumers c).closed = false ∧ 0 < (s.consumers c).permits ∧
          t = s.setConsumer c
            { s.consumers c with task := .popping, permits := (s.consumers c).permits - 1 })) := by
  unfold stepAcquire at hs
  grind

theorem pop_cases (hs : stepPop s c = some t) :
    (s.consumers c).task = .popping ∧
      ((s.closed = true ∧ t = s.setConsumer c
          { s.consumers c with task := .leaving, permits := (s.consumers c).permits + 1 }) ∨
        (s.closed = false ∧ (s.queue (s.consumers c).queue).pending = [] ∧
          t = s.setTask c .waiting) ∨
        (s.closed = false ∧ ∃ q m rest, s.queues (s.consumers c).queue = some q ∧
          q.pending = m :: rest ∧
          t = (s.setQueue (s.consumers c).queue { q with pending := rest }).setTask c
            (.sending m))) := by
  unfold stepPop at hs
  grind [State.queue, QueueState.new]

theorem notice_cases (hs : stepNotice s c = some t) :
    (s.consumers c).task = .waiting ∧
      (s.consumers c).seen ≠ (s.queue (s.consumers c).queue).signal ∧
        t = s.setConsumer c { s.consumers c with
          task := .popping, seen := (s.queue (s.consumers c).queue).signal } := by
  unfold stepNotice at hs
  grind

theorem giveUp_cases (hs : stepGiveUp s c = some t) :
    (s.consumers c).stream.isOpen = false ∧
      (((s.consumers c).task = .acquiring ∧ t = s.setTask c .leaving) ∨
        ((s.consumers c).task = .waiting ∧ t = s.setConsumer c
          { s.consumers c with task := .leaving, permits := (s.consumers c).permits + 1 })) := by
  unfold stepGiveUp at hs
  grind

theorem send_cases (hs : stepSend s c = some t) :
    ∃ m, (s.consumers c).task = .sending m ∧
      (((s.consumers c).stream.isOpen = true ∧ t = s.setConsumer c
          { s.consumers c with task := .acquiring, unread := (s.consumers c).unread ++ [m] }) ∨
        ((s.consumers c).stream.isOpen = false ∧ t = s.setConsumer c
          { s.consumers c with
            task := .requeueing m, permits := (s.consumers c).permits + 1 })) := by
  unfold stepSend at hs
  grind

theorem requeue_cases (hs : stepRequeue s c = some t) :
    ∃ m, (s.consumers c).task = .requeueing m ∧
      ((∃ q, s.queues (s.consumers c).queue = some q ∧
          t = (s.setQueue (s.consumers c).queue
            { q with pending := m :: q.pending }.wake).setTask c .leaving) ∨
        (s.queues (s.consumers c).queue = none ∧ t = s.setTask c .leaving)) := by
  unfold stepRequeue at hs
  grind

theorem leave_cases (hs : stepLeave s c = some t) :
    (s.consumers c).task = .leaving ∧
      ((∃ q, s.queues (s.consumers c).queue = some q ∧
          t = (s.setQueue (s.consumers c).queue
            { q with consumers := q.consumers.filter (· ≠ c) }).setTask c .ended) ∨
        (s.queues (s.consumers c).queue = none ∧ t = s.setTask c .ended)) := by
  unfold stepLeave at hs
  grind

theorem poll_cases (hs : stepPoll s c = some t) :
    ∃ m rest, (s.consumers c).stream = .open ∧ (s.consumers c).unread = m :: rest ∧
      t = s.setConsumer c
        { s.consumers c with unread := rest, out := (s.consumers c).out ++ [m] } := by
  unfold stepPoll at hs
  grind

theorem dropStream_cases (hs : stepDropStream s c = some t) :
    (s.consumers c).stream = .open ∧
      t = s.setConsumer c { s.consumers c with stream := .draining [] } := by
  unfold stepDropStream at hs
  grind

theorem drain_cases (hs : stepDrain s c = some t) :
    ∃ collected m rest, (s.consumers c).stream = .draining collected ∧
      (s.consumers c).unread = m :: rest ∧
      t = s.setConsumer c { s.consumers c with
        stream := .draining (collected ++ [m]), unread := rest
        permits := (s.consumers c).permits + 1 } := by
  unfold stepDrain at hs
  grind

theorem giveBack_cases (hs : stepGiveBack s c = some t) :
    ∃ collected, (s.consumers c).stream = .draining collected ∧ (s.consumers c).unread = [] ∧
      (((collected = [] ∨ s.closed = true) ∧
          t = s.setConsumer c { s.consumers c with stream := .gone }) ∨
        (s.closed = false ∧ t = (s.setQueue (s.consumers c).queue
          { s.queue (s.consumers c).queue with
            pending := collected ++ (s.queue (s.consumers c).queue).pending }.wake).setConsumer c
              { s.consumers c with stream := .gone })) := by
  unfold stepGiveBack at hs
  grind

theorem dropDelivery_cases (hs : stepDropDelivery s c i = some t) :
    i < (s.consumers c).out.length ∧ t = s.setConsumer c { s.consumers c with
      out := (s.consumers c).out.eraseIdx i, permits := (s.consumers c).permits + 1 } := by
  unfold stepDropDelivery at hs
  grind

/-! ## The consumers' side -/

theorem queue_eq {name : String} {q : QueueState V} (h : s.queues name = some q) :
    s.queue name = q := by
  simp [State.queue, h]

theorem field_setQueue {β : Type} (f : QueueState V → β) (s : State V) (name : String)
    (q : QueueState V) (other : String) :
    f ((s.setQueue name q).queue other) = if other = name then f q else f (s.queue other) := by
  by_cases ho : other = name <;> simp [State.queue, State.setQueue, ho]

/-- What the new state of one queue keeps is kept in all. -/
theorem same_setQueue {β : Type} (f : QueueState V → β) {name : String} {q : QueueState V}
    (h : f q = f (s.queue name)) (other : String) :
    f ((s.setQueue name q).queue other) = f (s.queue other) := by
  rw [field_setQueue f]
  split_ifs with ho
  · rw [h, ho]
  · rfl

/-- The step is a consumer's: of its task, of its stream or of a delivery it has handed out. -/
def Action.ofConsumer : Action V → Bool
  | consume _ _ | acquire _ | pop _ | notice _ | giveUp _ | send _ | requeue _ | leave _ | poll _
  | dropStream _ | drain _ | giveBack _ | dropDelivery _ _ => true
  | _ => false

/-- Beside the consumer, its steps change at most what one queue has to give, and to whom. -/
theorem consumer_cases {a : Action V} (ha : a.ofConsumer = true) (hs : step s a = some t) :
    ∃ c x, t = s.setConsumer c x ∨ ∃ name pending consumers signal,
      t = (s.setQueue name { s.queue name with pending, consumers, signal }).setConsumer c x := by
  cases a with
  | consume c config =>
    obtain ⟨-, ⟨-, h⟩ | ⟨-, h⟩⟩ := consume_cases hs
    · exact ⟨c, _, .inl h⟩
    · exact ⟨c, _, .inr ⟨config.name, _, _, _, h⟩⟩
  | acquire c => obtain ⟨-, ⟨-, h⟩ | ⟨-, -, h⟩⟩ := acquire_cases hs <;> exact ⟨c, _, .inl h⟩
  | pop c =>
    obtain ⟨-, ⟨-, h⟩ | ⟨-, -, h⟩ | ⟨-, q, m, rest, hq, -, h⟩⟩ := pop_cases hs
    · exact ⟨c, _, .inl h⟩
    · exact ⟨c, _, .inl h⟩
    · rw [← queue_eq hq] at h
      exact ⟨c, _, .inr ⟨_, _, _, _, h⟩⟩
  | notice c =>
    obtain ⟨-, -, h⟩ := notice_cases hs
    exact ⟨c, _, .inl h⟩
  | giveUp c => obtain ⟨-, ⟨-, h⟩ | ⟨-, h⟩⟩ := giveUp_cases hs <;> exact ⟨c, _, .inl h⟩
  | send c => obtain ⟨m, -, ⟨-, h⟩ | ⟨-, h⟩⟩ := send_cases hs <;> exact ⟨c, _, .inl h⟩
  | requeue c =>
    obtain ⟨m, -, ⟨q, hq, h⟩ | ⟨-, h⟩⟩ := requeue_cases hs
    · rw [← queue_eq hq] at h
      exact ⟨c, _, .inr ⟨_, _, _, _, h⟩⟩
    · exact ⟨c, _, .inl h⟩
  | leave c =>
    obtain ⟨-, ⟨q, hq, h⟩ | ⟨-, h⟩⟩ := leave_cases hs
    · rw [← queue_eq hq] at h
      exact ⟨c, _, .inr ⟨_, _, _, _, h⟩⟩
    · exact ⟨c, _, .inl h⟩
  | poll c =>
    obtain ⟨m, rest, -, -, h⟩ := poll_cases hs
    exact ⟨c, _, .inl h⟩
  | dropStream c =>
    obtain ⟨-, h⟩ := dropStream_cases hs
    exact ⟨c, _, .inl h⟩
  | drain c =>
    obtain ⟨collected, m, rest, -, -, h⟩ := drain_cases hs
    exact ⟨c, _, .inl h⟩
  | giveBack c =>
    obtain ⟨collected, -, -, ⟨-, h⟩ | ⟨-, h⟩⟩ := giveBack_cases hs
    · exact ⟨c, _, .inl h⟩
    · exact ⟨c, _, .inr ⟨_, _, _, _, h⟩⟩
  | dropDelivery c i =>
    obtain ⟨-, h⟩ := dropDelivery_cases hs
    exact ⟨c, _, .inl h⟩
  | _ => cases ha

end Queuey.MemoryBackend
