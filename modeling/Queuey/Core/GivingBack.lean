import Queuey.Core.Succession
import Queuey.Library.StableQueue

/-!
# Giving messages back

Both requeue paths of the in-memory backend push to the front. A queue stays in the order of
a stable priority queue as long as nothing that is pending ranks before what is given back;
it is then the list that its members alone would have led to, had nobody taken a message.
-/
namespace Queuey.MemoryBackend
open Transition StableQueue

variable {V : Type} {s t : State V} {a : Action V} {k c n : ℕ} {r : Request V} {m o : Message V}
  {name : String} {q : QueueState V} {x : Consumer V}

def Message.rank (m : Message V) : ℕ := m.envelope.priority.toNat

theorem insertByPriority_eq (pending : List (Message V)) (m : Message V) :
    insertByPriority pending m = enqueue Message.rank pending m := by
  have hless : (fun p : Message V => decide (p.envelope.priority < m.envelope.priority)) =
      fun p => decide (p.rank < m.rank) := by
    funext p
    exact decide_eq_decide.mpr UInt8.lt_iff_toNat_lt
  unfold insertByPriority enqueue
  rw [hless]

/-- The list is in order, and all its members have been inserted. -/
def InOrder (history pending : List (Message V)) : Prop :=
  pending.Pairwise (Outranks Message.rank history) ∧ ∀ m ∈ pending, m ∈ history

theorem InOrder.append {pending : List (Message V)} {history : List (Message V)}
    (h : InOrder history pending) (m : Message V) : InOrder (history ++ [m]) pending :=
  ⟨h.1.imp fun hab => hab.mono (List.sublist_append_left _ _), fun o ho =>
    List.mem_append_left _ (h.2 o ho)⟩

theorem InOrder.insert {pending : List (Message V)} {history : List (Message V)}
    (h : InOrder history pending) (m : Message V) :
    InOrder (history ++ [m]) (insertByPriority pending m) := by
  refine ⟨by rw [insertByPriority_eq]; exact enqueue_pairwise h.1 h.2, fun o ho => ?_⟩
  rw [(insertByPriority_perm pending m).mem_iff, List.mem_cons] at ho
  obtain rfl | ho := ho
  · exact List.mem_append_right _ (List.mem_singleton_self _)
  · exact List.mem_append_left _ (h.2 o ho)

/-- Nothing pending ranks before what is given back, and neither does a later part of it. -/
def Orderly (s : State V) : Action V → Prop
  | .requeue c => ∀ m, (s.consumers c).task = .requeueing m →
      ∀ p ∈ (s.queue (s.consumers c).queue).pending, Outranks Message.rank s.inserted m p
  | .giveBack c => s.closed = false → ∀ collected, (s.consumers c).stream = .draining collected →
      collected.Pairwise (Outranks Message.rank s.inserted) ∧ ∀ m ∈ collected,
        ∀ p ∈ (s.queue (s.consumers c).queue).pending, Outranks Message.rank s.inserted m p
  | _ => True

/-- Every message is inserted once, a sleeping one not yet; what is away from a queue was
inserted in it; and the queues are in order. -/
structure Ranked (s : State V) : Prop where
  queues : ∀ name, InOrder s.inserted (s.queue name).pending
  away : ∀ c part, part ≠ .unsettled → ∀ m ∈ (s.consumers c).box part, m ∈ s.inserted
  distinct : s.inserted.Pairwise fun m o => m.id ≠ o.id
  below : ∀ o ∈ s.inserted, o.id < s.accepted.length
  asleep : ∀ n m guarded, s.timers n = .sleeping m guarded →
    m.id = n ∧ n < s.accepted.length ∧ ∀ o ∈ s.inserted, o.id ≠ n

theorem ranked_start (h : (system V).start s) : Ranked s := by
  obtain ⟨now, horizon, -, rfl⟩ := h
  refine ⟨fun name => ⟨.nil, nofun⟩, fun c part _ m hm => ?_, .nil, nofun, nofun⟩
  cases part <;> cases hm

theorem Ranked.setQueue (h : Ranked s) (hq : InOrder s.inserted q.pending) :
    Ranked (s.setQueue name q) where
  queues other := by
    by_cases ho : other = name
    · subst ho
      simpa [State.queue, State.setQueue] using hq
    · simpa [State.queue, State.setQueue, ho] using h.queues other
  away := h.away
  distinct := h.distinct
  below := h.below
  asleep := h.asleep

theorem Ranked.setConsumer (h : Ranked s)
    (hx : ∀ part, part ≠ .unsettled → ∀ m ∈ x.box part, m ∈ s.inserted) :
    Ranked (s.setConsumer c x) where
  queues := h.queues
  away d part hpart m hm := by
    by_cases hd : d = c
    · exact hx part hpart m (by simpa [State.setConsumer, hd] using hm)
    · exact h.away d part hpart m (by simpa [State.setConsumer, hd] using hm)
  distinct := h.distinct
  below := h.below
  asleep := h.asleep

/-- The consumer's task moves on with nothing but what it had in hand. -/
theorem Ranked.idleTask (h : Ranked s)
    (task : ∀ m ∈ x.task.hand, m ∈ (s.consumers c).task.hand)
    (unread : x.unread = (s.consumers c).unread)
    (stream : x.stream.collected = (s.consumers c).stream.collected) :
    Ranked (s.setConsumer c x) := by
  refine h.setConsumer fun part hpart m hm => ?_
  cases part with
  | transit => exact h.away c .transit nofun m (task m hm)
  | unread =>
    have hm : m ∈ x.unread := hm
    exact h.away c .unread nofun m (show m ∈ (s.consumers c).unread from unread ▸ hm)
  | returning =>
    have hm : m ∈ x.stream.collected := hm
    exact h.away c .returning nofun m
      (show m ∈ (s.consumers c).stream.collected from stream ▸ hm)
  | unsettled => exact absurd rfl hpart

theorem Ranked.setCall (h : Ranked s) (k : ℕ) (call : Call V) : Ranked (s.setCall k call) :=
  ⟨h.queues, h.away, h.distinct, h.below, h.asleep⟩

theorem Ranked.note (h : Ranked s) (k : ℕ) (effect : Effect V) : Ranked (s.note k effect) :=
  ⟨h.queues, h.away, h.distinct, h.below, h.asleep⟩

theorem Ranked.wakeTimer {timer : Timer V} (h : Ranked s)
    (hawake : ∀ m guarded, timer ≠ .sleeping m guarded) : Ranked (s.setTimer n timer) where
  queues := h.queues
  away := h.away
  distinct := h.distinct
  below := h.below
  asleep j m guarded hj := by
    simp only [State.setTimer] at hj
    rw [Function.update_apply] at hj
    split_ifs at hj
    · exact absurd hj (hawake m guarded)
    · exact h.asleep j m guarded hj

theorem Ranked.spawnTimer {guarded : Bool} (h : Ranked s) (hm : m.id = s.accepted.length) :
    Ranked (s.spawnTimer k m guarded) where
  queues := h.queues
  away := h.away
  distinct := h.distinct
  below o ho := by
    have := h.below o ho
    simp [State.spawnTimer]
    omega
  asleep j o g hj := by
    simp only [State.spawnTimer, State.note, State.setTimer] at hj ⊢
    rw [Function.update_apply] at hj
    rw [List.length_append, List.length_singleton]
    split_ifs at hj with hjm
    · obtain ⟨rfl, -⟩ : m = o ∧ guarded = g := by simpa using hj
      refine ⟨hjm.symm, by omega, fun o ho => ?_⟩
      have : o.id < s.accepted.length := h.below o ho
      omega
    · obtain ⟨hid, hlt, hne⟩ := h.asleep j o g hj
      exact ⟨hid, by omega, hne⟩

/-- A message that was never inserted, and sleeps nowhere, is inserted. -/
theorem Ranked.insert {accepted : List (Message V)} (h : Ranked s)
    (fresh : ∀ o ∈ s.inserted, o.id ≠ m.id)
    (awake : ∀ n o guarded, s.timers n = .sleeping o guarded → n ≠ m.id)
    (grown : s.accepted.length ≤ accepted.length) (below : m.id < accepted.length) :
    Ranked { s.insert m with accepted := accepted } where
  queues name := by
    by_cases hn : name = m.envelope.queue
    · subst hn
      have := (h.queues m.envelope.queue).insert m
      simpa [State.queue, State.insert, State.setQueue, QueueState.wake] using this
    · have := (h.queues name).append m
      simpa [State.queue, State.insert, State.setQueue, hn] using this
  away c part hpart o ho := List.mem_append_left _ (h.away c part hpart o ho)
  distinct := by
    refine List.pairwise_append.mpr ⟨h.distinct, List.pairwise_singleton _ _, fun o ho p hp => ?_⟩
    rw [List.mem_singleton] at hp
    exact hp ▸ fresh o ho
  below o ho := by
    obtain ho | ho := List.mem_append.mp ho
    · exact (h.below o ho).trans_le grown
    · rw [List.mem_singleton] at ho
      exact ho ▸ below
  asleep j o guarded hj := by
    obtain ⟨hid, hlt, hne⟩ := h.asleep j o guarded hj
    refine ⟨hid, hlt.trans_le grown, fun p hp => ?_⟩
    obtain hp | hp := List.mem_append.mp hp
    · exact hne p hp
    · rw [List.mem_singleton] at hp
      subst hp
      exact (awake j o guarded hj).symm

theorem Ranked.releaseHold (h : Ranked s) (name : String) : Ranked (s.releaseHold name) := by
  unfold State.releaseHold
  split
  · next q hq =>
    refine h.setQueue ?_
    have := h.queues name
    rwa [queue_eq hq] at this
  · exact h

theorem Ranked.dropPermit (h : Ranked s) (d : MemoryDelivery V) : Ranked (s.dropPermit d) :=
  h.idleTask (fun _ => id) rfl rfl

theorem Ranked.dropOrigin (h : Ranked s) (r : Request V) : Ranked (s.dropOrigin r) := by
  unfold State.dropOrigin
  split
  · exact h.dropPermit _
  · exact h

theorem Ranked.schedule (h : Ranked s) (hs : stepSchedule s k = some t) : Ranked t := by
  obtain ⟨r, -, ⟨-, -, rfl⟩ | ⟨-, -, rfl⟩ | ⟨-, -, -, rfl⟩ | ⟨-, -, -, rfl⟩ | ⟨-, -, rfl⟩⟩ :=
    schedule_cases hs
  · exact h.setCall _ _
  · have fresh : ∀ o ∈ s.inserted, o.id ≠ (s.message r).id := fun o ho => (h.below o ho).ne
    have awake : ∀ n o guarded, s.timers n = .sleeping o guarded → n ≠ (s.message r).id :=
      fun n o guarded hn => (h.asleep n o guarded hn).2.1.ne
    refine Ranked.setCall (.note (h.insert fresh awake ?_ ?_) _ _) _ _ <;>
      simp [State.message]
  · exact h.setCall _ _
  · exact (h.spawnTimer rfl).setCall _ _
  · exact (h.dropOrigin r).setCall _ _

theorem Ranked.record (h : Ranked s) (hs : stepRecord s k = some t) : Ranked t := by
  have acked : ∀ m kind, Ranked (s.recordAck k m kind) := by
    intro m kind
    refine Ranked.note (h.setQueue ?_) _ _
    exact h.queues m.envelope.queue
  obtain ⟨r, d, -, -, rfl⟩ | ⟨d, -, rfl⟩ | ⟨d, reason, -, -, rfl⟩ | ⟨d, reason, -, -, rfl⟩ :=
    record_cases hs
  · exact ((acked _ _).dropPermit d).setCall _ _
  · exact ((acked _ _).dropPermit d).setCall _ _
  · exact (h.dropPermit d).setCall _ _
  · refine Ranked.setCall (.dropPermit (.note (h.setQueue ?_) _ _) d) _ _
    exact h.queues d.message.envelope.queue

theorem Ranked.fire (h : Ranked s) (hs : stepFire s n = some t) : Ranked t := by
  obtain ⟨m, guarded, hn, -, rfl⟩ := fire_cases hs
  obtain ⟨u, hu, he⟩ := enqueueNow_cases s m guarded
  have aside : Ranked u ∧ u.timers = s.timers := by
    obtain rfl | rfl := hu
    · exact ⟨h, rfl⟩
    · exact ⟨h.releaseHold _, releaseHold_timers _ _⟩
  have finished : Ranked (u.setTimer n .finished) := aside.1.wakeTimer nofun
  obtain ⟨-, he⟩ | ⟨-, he⟩ := he <;> rw [he]
  · exact finished
  · have hu : u.timers n = .sleeping m guarded := by rw [aside.2, hn]
    obtain ⟨rfl, hlt, hne⟩ := aside.1.asleep n m guarded hu
    refine finished.insert hne (fun j o g hj heq => ?_) le_rfl hlt
    subst heq
    simp [State.setTimer] at hj

theorem Ranked.pop (h : Ranked s) (hs : stepPop s c = some t) : Ranked t := by
  obtain ⟨hc, ⟨-, rfl⟩ | ⟨-, -, rfl⟩ | ⟨-, q, m, rest, hq, hm, rfl⟩⟩ := pop_cases hs
  · exact h.idleTask nofun rfl rfl
  · exact h.idleTask nofun rfl rfl
  · have hin := h.queues (s.consumers c).queue
    rw [queue_eq hq, hm] at hin
    have hrest : InOrder s.inserted rest :=
      ⟨(List.pairwise_cons.mp hin.1).2, fun o ho => hin.2 o (List.mem_cons_of_mem _ ho)⟩
    refine (h.setQueue hrest).setConsumer fun part hpart o ho => ?_
    cases part with
    | transit =>
      obtain rfl : o = m := List.mem_singleton.mp ho
      exact hin.2 o List.mem_cons_self
    | _ => exact h.away c _ hpart o ho

theorem Ranked.send (h : Ranked s) (hs : stepSend s c = some t) : Ranked t := by
  obtain ⟨m, hc, ⟨-, rfl⟩ | ⟨-, rfl⟩⟩ := send_cases hs
  · refine h.setConsumer fun part hpart o ho => ?_
    cases part with
    | transit => cases ho
    | unread =>
      obtain ho | ho := List.mem_append.mp ho
      · exact h.away c .unread nofun o ho
      · exact h.away c .transit nofun o (by simpa [Consumer.box, hc, Task.hand] using ho)
    | _ => exact h.away c _ hpart o ho
  · exact h.idleTask (fun o ho => by simpa [hc, Task.hand] using ho) rfl rfl

/-- A message put in front of what it outranks. -/
theorem Ranked.requeue (h : Ranked s) (orderly : Orderly s (.requeue c))
    (hs : stepRequeue s c = some t) : Ranked t := by
  obtain ⟨m, hc, ⟨q, hq, rfl⟩ | ⟨hq, rfl⟩⟩ := requeue_cases hs
  · have hin := h.queues (s.consumers c).queue
    have hfront := orderly m hc
    rw [queue_eq hq] at hin hfront
    have hm : m ∈ s.inserted :=
      h.away c .transit (by simp) m (by simp [Consumer.box, hc, Task.hand])
    refine Ranked.idleTask (h.setQueue ⟨List.pairwise_cons.mpr ⟨hfront, hin.1⟩, fun o ho => ?_⟩)
      (by simp [Task.hand]) rfl rfl
    obtain rfl | ho := List.mem_cons.mp ho
    · exact hm
    · exact hin.2 o ho
  · exact h.idleTask (by simp [Task.hand]) rfl rfl

theorem Ranked.drain (h : Ranked s) (hs : stepDrain s c = some t) : Ranked t := by
  obtain ⟨collected, m, rest, hc, hm, rfl⟩ := drain_cases hs
  have hunread : ∀ o ∈ m :: rest, o ∈ s.inserted := fun o ho =>
    h.away c .unread nofun o (show o ∈ (s.consumers c).unread from hm ▸ ho)
  refine h.setConsumer fun part hpart o ho => ?_
  cases part with
  | transit => exact h.away c .transit nofun o ho
  | unread => exact hunread o (List.mem_cons_of_mem _ ho)
  | returning =>
    obtain ho | ho := List.mem_append.mp ho
    · exact h.away c .returning nofun o
        (show o ∈ (s.consumers c).stream.collected from hc ▸ ho)
    · exact hunread o (by simp [List.mem_singleton.mp ho])
  | unsettled => exact absurd rfl hpart

/-- Collected messages put in front of what they outrank. -/
theorem Ranked.giveBack (h : Ranked s) (orderly : Orderly s (.giveBack c))
    (hs : stepGiveBack s c = some t) : Ranked t := by
  obtain ⟨collected, hc, -, ⟨-, rfl⟩ | ⟨hopen, rfl⟩⟩ := giveBack_cases hs
  · refine h.setConsumer fun part hpart o ho => ?_
    cases part with
    | returning => cases ho
    | _ => exact h.away c _ hpart o ho
  · have hin := h.queues (s.consumers c).queue
    obtain ⟨hsorted, hfront⟩ := orderly hopen collected hc
    refine Ranked.setConsumer (h.setQueue ⟨List.pairwise_append.mpr ⟨hsorted, hin.1, hfront⟩,
      fun o ho => ?_⟩) fun part hpart o ho => ?_
    · obtain ho | ho := List.mem_append.mp ho
      · exact h.away c .returning nofun o
          (show o ∈ (s.consumers c).stream.collected from hc ▸ ho)
      · exact hin.2 o ho
    · cases part with
      | returning => cases ho
      | _ => exact h.away c _ hpart o ho

theorem Ranked.consume {config : QueueConfig} (h : Ranked s)
    (hs : stepConsume s c config = some t) : Ranked t := by
  have empty : ∀ seen task part m, part ≠ .unsettled → task.hand = [] →
      m ∈ (Consumer.fresh config seen task : Consumer V).box part → m ∈ s.inserted := by
    intro seen task part m hpart htask hm
    cases part with
    | transit => simp [Consumer.box, Consumer.fresh, htask] at hm
    | unread => cases hm
    | returning => cases hm
    | unsettled => exact absurd rfl hpart
  obtain ⟨-, ⟨-, rfl⟩ | ⟨-, rfl⟩⟩ := consume_cases hs
  · exact h.setConsumer fun part hpart m hm => empty _ _ part m hpart rfl hm
  · refine Ranked.setConsumer (h.setQueue ?_) fun part hpart m hm => empty _ _ part m hpart rfl hm
    exact h.queues config.name

theorem Ranked.close (h : Ranked s) (hs : stepClose s = some t) : Ranked t := by
  obtain rfl := Option.some.inj hs
  refine ⟨fun name => ?_, fun c part hpart m hm => ?_, h.distinct, h.below, h.asleep⟩
  · have := h.queues name
    cases hq : s.queues name with
    | none => simpa [State.queue, hq] using this
    | some q => simpa [State.queue, hq, QueueState.wake] using this
  · refine h.away c part hpart m ?_
    simp only at hm
    split_ifs at hm
    · cases part <;> exact hm
    · exact hm

theorem ranked_step (h : Ranked s) (orderly : Orderly s a) (hs : step s a = some t) : Ranked t := by
  cases a with
  | tick elapsed =>
    obtain ⟨-, rfl⟩ := tick_cases hs
    exact ⟨h.queues, h.away, h.distinct, h.below, h.asleep⟩
  | declare configs =>
    obtain rfl := Option.some.inj hs
    split_ifs
    · exact h
    · refine ⟨fun name => ?_, h.away, h.distinct, h.below, h.asleep⟩
      have hsame := declared_box configs s.queues name .pending
      show InOrder s.inserted (QueueState.box _ .pending)
      exact hsame ▸ h.queues name
  | publish k envelope delay =>
    obtain ⟨-, rfl⟩ := call_cases hs
    exact h.setCall _ _
  | defer k envelope delay =>
    obtain ⟨-, rfl⟩ := call_cases hs
    exact h.setCall _ _
  | settle k c i op =>
    obtain ⟨-, m, -, rfl⟩ := settle_cases hs
    apply Ranked.setCall
    refine h.idleTask ?_ rfl rfl
    exact fun _ => id
  | check k =>
    obtain ⟨r, -, ⟨-, rfl⟩ | ⟨-, rfl⟩⟩ := check_cases hs
    · exact (h.dropOrigin r).setCall _ _
    · exact h.setCall _ _
  | schedule k => exact h.schedule hs
  | count k =>
    obtain ⟨r, deadline, -, rfl⟩ := count_cases hs
    refine Ranked.setCall (.note (h.setQueue ?_) _ _) _ _
    exact h.queues r.envelope.queue
  | guard k =>
    obtain ⟨r, deadline, -, rfl⟩ := guard_cases hs
    exact (h.spawnTimer rfl).setCall _ _
  | record k => exact h.record hs
  | fire n => exact h.fire hs
  | abort n =>
    obtain ⟨m, guarded, -, rfl⟩ := abort_cases hs
    apply h.wakeTimer
    intro o g
    split_ifs <;> nofun
  | release n =>
    obtain ⟨name, -, rfl⟩ := release_cases hs
    exact (h.releaseHold name).wakeTimer nofun
  | consume c config => exact h.consume hs
  | acquire c =>
    obtain ⟨-, ⟨-, rfl⟩ | ⟨-, -, rfl⟩⟩ := acquire_cases hs <;> exact h.idleTask nofun rfl rfl
  | pop c => exact h.pop hs
  | notice c =>
    obtain ⟨-, -, rfl⟩ := notice_cases hs
    exact h.idleTask nofun rfl rfl
  | giveUp c =>
    obtain ⟨-, ⟨-, rfl⟩ | ⟨-, rfl⟩⟩ := giveUp_cases hs <;> exact h.idleTask nofun rfl rfl
  | send c => exact h.send hs
  | requeue c => exact h.requeue orderly hs
  | leave c =>
    obtain ⟨-, ⟨q, hq, rfl⟩ | ⟨-, rfl⟩⟩ := leave_cases hs
    · have hin := h.queues (s.consumers c).queue
      rw [queue_eq hq] at hin
      refine Ranked.idleTask (h.setQueue ?_) nofun rfl rfl
      exact hin
    · exact h.idleTask nofun rfl rfl
  | poll c =>
    obtain ⟨m, rest, -, hm, rfl⟩ := poll_cases hs
    refine h.setConsumer fun part hpart o ho => ?_
    cases part with
    | unread =>
      refine h.away c .unread nofun o (show o ∈ (s.consumers c).unread from ?_)
      rw [hm]
      exact List.mem_cons_of_mem _ ho
    | unsettled => exact absurd rfl hpart
    | _ => exact h.away c _ hpart o ho
  | dropStream c =>
    obtain ⟨hc, rfl⟩ := dropStream_cases hs
    exact h.idleTask (fun _ => id) rfl (by rw [hc]; rfl)
  | drain c => exact h.drain hs
  | giveBack c => exact h.giveBack orderly hs
  | dropDelivery c i =>
    obtain ⟨-, rfl⟩ := dropDelivery_cases hs
    exact h.idleTask (fun _ => id) rfl rfl
  | close => exact h.close hs

theorem reach_ranked (h : Reach (system V) Orderly s) : Ranked s :=
  h.invariant (fun _ => ranked_start) fun _ _ _ hi => ranked_step hi

/-- The queue that the messages now pending would have led to, had none ever been taken. -/
def State.neverTaken (s : State V) (name : String) : List (Message V) :=
  arrange Message.rank (s.inserted.filter fun m =>
    m.id ∈ (s.queue name).pending.map Message.id)

/-- As long as nothing pending ranks before what is given back, every queue is the list that
its members alone would have led to. -/
theorem given_back_in_order (h : Reach (system V) Orderly s) (name : String) :
    (s.queue name).pending = s.neverTaken name ∧
      (s.queue name).pending.Pairwise (Outranks Message.rank s.inserted) := by
  have ranked := reach_ranked h
  obtain ⟨hsorted, hin⟩ := ranked.queues name
  have hids : (s.inserted.map Message.id).Nodup := List.pairwise_map.mpr ranked.distinct
  have hnodup : s.inserted.Nodup := hids.of_map
  refine ⟨eq_arrange hsorted hnodup hin fun o ho => ?_, hsorted⟩
  rw [decide_eq_true_iff, List.mem_map]
  constructor
  · intro ⟨p, hp, hid⟩
    exact List.inj_on_of_nodup_map hids (hin p hp) ho hid ▸ hp
  · exact fun hp => ⟨o, hp, rfl⟩

/-- A queue in order after a message is put back had nothing pending that ranks before it. -/
theorem orderly_of_requeue (hs : stepRequeue s c = some t)
    (hafter : InOrder t.inserted (t.queue (s.consumers c).queue).pending) :
    Orderly s (.requeue c) := by
  intro m hm p hp
  obtain ⟨o, ho, ⟨q, hq, rfl⟩ | ⟨hq, -⟩⟩ := requeue_cases hs
  · obtain rfl : o = m := by simpa [ho] using hm
    rw [queue_eq hq] at hp
    have hcons : (o :: q.pending).Pairwise (Outranks Message.rank s.inserted) := by
      simpa [State.queue, State.setTask, State.setConsumer, State.setQueue, QueueState.wake] using
        hafter.1
    exact (List.pairwise_cons.mp hcons).1 p hp
  · have hnone : (s.queue (s.consumers c).queue).pending = [] := by
      rw [State.queue, hq]
      rfl
    rw [hnone] at hp
    cases hp

/-- `Orderly`, computed. -/
def orderlyNow (s : State Unit) : Action Unit → Bool
  | .requeue _ => false
  | .giveBack c =>
    match (s.consumers c).stream with
    | .draining collected =>
      decide (collected.Pairwise (Outranks Message.rank s.inserted)) && collected.all fun m =>
        (s.queue (s.consumers c).queue).pending.all fun p => Outranks Message.rank s.inserted m p
    | _ => true
  | _ => true

theorem orderly_of_orderlyNow (s : State Unit) (a : Action Unit) (h : orderlyNow s a = true) :
    Orderly s a := by
  cases a with
  | requeue c => cases h
  | giveBack c =>
    intro hopen collected hc
    simpa [orderlyNow, hc] using h
  | _ => trivial

/-- Two jobs are produced for a stream that is dropped unread; a deferred one overtakes a
third job meanwhile, and both are behind what comes back. -/
theorem given_back_unread : ∃ s : State Unit, Reach (system Unit) Orderly s ∧
    (s.queue "mail").pending.map Message.id = [0, 1, 2] ∧
    (s.queue "mail").pending = s.neverTaken "mail" := by
  let run : List (Action Unit) := [.publish 0 mail none, .check 0, .schedule 0,
    .publish 1 mail none, .check 1, .schedule 1, .consume 0 { QueueConfig.new "mail" with prefetch := 2 },
    .acquire 0, .pop 0, .send 0, .acquire 0, .pop 0, .send 0, .publish 2 mail none, .check 2,
    .schedule 2, .dropStream 0, .drain 0, .drain 0, .giveBack 0]
  have start : Reach (system Unit) Orderly (initial 0 10) := .start ⟨0, 10, by decide, rfl⟩
  have hrun : ((system Unit).checked orderlyNow (initial 0 10) run).map (fun s =>
      (s.queue "mail").pending.map Message.id) = some [0, 1, 2] := by decide
  obtain ⟨s, hs, hids⟩ := Option.map_eq_some_iff.mp hrun
  have reached := start.checkedRun orderly_of_orderlyNow run hs
  exact ⟨s, reached, hids, (given_back_in_order reached "mail").1⟩

/-- One job waits in the channel and the next is in transit when the stream is dropped: the
channel is emptied first, so the later job ends up in front. -/
theorem given_back_swapped : ∃ s : State Unit, Reachable (system Unit) s ∧
    (s.consumers 0).stream.isOpen = false ∧
    (s.consumers 0).task.hand ++ (s.consumers 0).unread ++ (s.consumers 0).stream.collected = [] ∧
    (s.queue "mail").pending.map Message.id = [1, 0] ∧
    (s.neverTaken "mail").map Message.id = [0, 1] := by
  let run : List (Action Unit) := [.publish 0 mail none, .check 0, .schedule 0,
    .publish 1 mail none, .check 1, .schedule 1, .consume 0 (.new "mail"), .acquire 0, .pop 0,
    .send 0, .acquire 0, .pop 0, .dropStream 0, .drain 0, .giveBack 0, .send 0, .requeue 0]
  have start : Reachable (system Unit) (initial 0 10) := .start ⟨0, 10, by decide, rfl⟩
  have hrun : ((system Unit).run (initial 0 10) run).map (fun s =>
      ((s.consumers 0).stream.isOpen, (s.consumers 0).task.hand ++ (s.consumers 0).unread ++
        (s.consumers 0).stream.collected, (s.queue "mail").pending.map Message.id,
          (s.neverTaken "mail").map Message.id)) =
      some (false, [], [1, 0], [0, 1]) := by decide +kernel
  obtain ⟨s, hs, hfacts⟩ := Option.map_eq_some_iff.mp hrun
  simp only [Prod.mk.injEq] at hfacts
  exact ⟨s, start.run run hs, hfacts⟩

end Queuey.MemoryBackend
