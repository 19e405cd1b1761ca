import Queuey.Core.GivingBack
import Queuey.Core.MemoryFlow

/-!
# Priority order

The pending list of a queue as a stable priority queue: what was inserted and not yet popped,
in the order that the stable sort by descending priority gives it, as long as no stream is
dropped.
-/
namespace Queuey.MemoryBackend
open Transition StableQueue

variable {V : Type} {s t u : State V} {a : Action V} {k c n : ℕ} {r : Request V} {m o : Message V}
  {name : String} {q : QueueState V} {x : Consumer V}

/-! ## What a step does to the pending lists -/

/-- Neither a pending list nor the history of insertions changes. -/
structure Untouched (s t : State V) : Prop where
  inserted : t.inserted = s.inserted
  pending : ∀ name, (t.queue name).pending = (s.queue name).pending

/-- One message is inserted in its queue. -/
structure Arrived (s t : State V) (m : Message V) : Prop where
  inserted : t.inserted = s.inserted ++ [m]
  pending : (t.queue m.envelope.queue).pending =
    insertByPriority (s.queue m.envelope.queue).pending m
  others : ∀ name, name ≠ m.envelope.queue → (t.queue name).pending = (s.queue name).pending

/-- The first message of a queue is taken. -/
structure Popped (s t : State V) (name : String) (m : Message V) : Prop where
  inserted : t.inserted = s.inserted
  pending : (s.queue name).pending = m :: (t.queue name).pending
  others : ∀ other, other ≠ name → (t.queue other).pending = (s.queue other).pending

theorem Untouched.refl (s : State V) : Untouched s s := ⟨rfl, fun _ => rfl⟩

theorem Untouched.trans (h : Untouched s u) (h' : Untouched u t) : Untouched s t :=
  ⟨h'.inserted.trans h.inserted, fun name => (h'.pending name).trans (h.pending name)⟩

theorem Untouched.of_queues (queues : t.queues = s.queues) (inserted : t.inserted = s.inserted) :
    Untouched s t := by
  refine ⟨inserted, fun name => ?_⟩
  rw [State.queue, queues]
  rfl

theorem Untouched.setQueue (name : String) (hq : q.pending = (s.queue name).pending) :
    Untouched s (s.setQueue name q) := ⟨rfl, same_setQueue QueueState.pending hq⟩

theorem Untouched.setConsumer (s : State V) (c : ℕ) (x : Consumer V) :
    Untouched s (s.setConsumer c x) :=
  .of_queues rfl rfl

theorem Untouched.releaseHold (s : State V) (name : String) : Untouched s (s.releaseHold name) := by
  unfold State.releaseHold
  cases hq : s.queues name with
  | none => exact .refl s
  | some q => exact .setQueue name (by rw [queue_eq hq])

theorem Untouched.dropOrigin (s : State V) (r : Request V) : Untouched s (s.dropOrigin r) := by
  unfold State.dropOrigin
  split
  · exact .setConsumer _ _ _
  · exact .refl s

theorem Untouched.recordAck (s : State V) (k : ℕ) (m : Message V) (kind : AckKind) :
    Untouched s (s.recordAck k m kind) := by
  refine Untouched.trans (.setQueue m.envelope.queue ?_) (.of_queues rfl rfl)
  rfl

theorem arrived_insert (s : State V) (m : Message V) : Arrived s (s.insert m) m := by
  have set : ∀ other, ((s.insert m).queue other).pending = if other = m.envelope.queue then
      insertByPriority (s.queue m.envelope.queue).pending m else (s.queue other).pending := by
    intro other
    exact field_setQueue QueueState.pending s _ _ other
  refine ⟨rfl, ?_, fun name hn => ?_⟩
  · rw [set, if_pos rfl]
  · rw [set, if_neg hn]

theorem Arrived.after (h : Arrived u t m) (before : Untouched s u) : Arrived s t m where
  inserted := by rw [h.inserted, before.inserted]
  pending := by rw [h.pending, before.pending]
  others name hn := by rw [h.others name hn, before.pending]

theorem Arrived.before (h : Arrived s u m) (after : Untouched u t) : Arrived s t m where
  inserted := by rw [after.inserted, h.inserted]
  pending := by rw [after.pending, h.pending]
  others name hn := by rw [after.pending, h.others name hn]

/-- What a step pops: the message its consumer has in hand after it. -/
def Action.takes (after : State V) : Action V → List (Message V)
  | pop c => (after.consumers c).task.hand
  | _ => []

/-- What becomes of the pending lists in a step; the last two cases give messages back. -/
inductive Shift (s t : State V) (a : Action V) : Prop where
  | untouched (h : Untouched s t) (takes : a.takes t = [])
  | arrived (m : Message V) (h : Arrived s t m) (takes : a.takes t = [])
  | popped (c : ℕ) (m : Message V) (ha : a = .pop c) (h : Popped s t (s.consumers c).queue m)
      (takes : a.takes t = [m])
  | requeued (c : ℕ) (m : Message V) (h : (s.consumers c).task = .requeueing m)
  | returned (c : ℕ) (collected : List (Message V))
      (h : (s.consumers c).stream = .draining collected)

theorem Shift.schedule (hs : stepSchedule s k = some t) : Shift s t (.schedule k) := by
  obtain ⟨r, -, ⟨-, -, rfl⟩ | ⟨-, -, rfl⟩ | ⟨-, -, -, rfl⟩ | ⟨-, -, -, rfl⟩ | ⟨-, -, rfl⟩⟩ :=
    schedule_cases hs
  · exact .untouched (.of_queues rfl rfl) rfl
  · exact .arrived _ ((arrived_insert s (s.message r)).before (.of_queues rfl rfl)) rfl
  · exact .untouched (.of_queues rfl rfl) rfl
  · exact .untouched (.of_queues rfl rfl) rfl
  · exact .untouched ((Untouched.dropOrigin s r).trans (.of_queues rfl rfl)) rfl

theorem Shift.record (hs : stepRecord s k = some t) : Shift s t (.record k) := by
  obtain ⟨r, d, -, -, rfl⟩ | ⟨d, -, rfl⟩ | ⟨d, reason, -, -, rfl⟩ | ⟨d, reason, -, -, rfl⟩ :=
    record_cases hs
  · exact .untouched ((Untouched.recordAck s k d.message r.kind).trans (.of_queues rfl rfl)) rfl
  · exact .untouched ((Untouched.recordAck s k d.message .succeeded).trans (.of_queues rfl rfl)) rfl
  · exact .untouched (.of_queues rfl rfl) rfl
  · refine .untouched (Untouched.trans (.setQueue d.message.envelope.queue ?_)
      (.of_queues rfl rfl)) rfl
    rfl

theorem Shift.fire (hs : stepFire s n = some t) : Shift s t (.fire n) := by
  obtain ⟨m, guarded, -, -, rfl⟩ := fire_cases hs
  obtain ⟨u, hu, he⟩ := enqueueNow_cases s m guarded
  have released : Untouched s u := by
    obtain rfl | rfl := hu
    · exact .refl _
    · exact .releaseHold s _
  obtain ⟨-, he⟩ | ⟨-, he⟩ := he <;> rw [he]
  · exact .untouched (released.trans (.of_queues rfl rfl)) rfl
  · exact .arrived m (((arrived_insert u m).after released).before (.of_queues rfl rfl)) rfl

theorem Shift.pop (hs : stepPop s c = some t) : Shift s t (.pop c) := by
  obtain ⟨hc, ⟨-, rfl⟩ | ⟨-, -, rfl⟩ | ⟨-, q, m, rest, hq, hm, rfl⟩⟩ := pop_cases hs
  · refine .untouched (.setConsumer _ _ _) ?_
    simp [Action.takes, State.setConsumer, Task.hand]
  · refine .untouched (.setConsumer _ _ _) ?_
    simp [Action.takes, State.setTask, State.setConsumer, Task.hand]
  · have set : ∀ other, (((s.setQueue (s.consumers c).queue { q with pending := rest }).setTask c
        (.sending m)).queue other).pending = if other = (s.consumers c).queue then rest
          else (s.queue other).pending := fun other => field_setQueue QueueState.pending s _ _ other
    refine .popped c m rfl ⟨rfl, ?_, fun other ho => ?_⟩ ?_
    · rw [set, if_pos rfl, queue_eq hq, hm]
    · rw [set, if_neg ho]
    · simp [Action.takes, State.setTask, State.setConsumer, Task.hand]

theorem shift_of_step (hs : step s a = some t) : Shift s t a := by
  cases a with
  | tick elapsed =>
    obtain ⟨-, rfl⟩ := tick_cases hs
    exact .untouched (.of_queues rfl rfl) rfl
  | declare configs =>
    obtain rfl := Option.some.inj hs
    split_ifs
    · exact .untouched (.refl s) rfl
    · refine .untouched ⟨rfl, fun name => ?_⟩ rfl
      exact declared_same QueueState.pending (fun _ _ => rfl) configs s.queues name
  | publish k envelope delay =>
    obtain ⟨-, rfl⟩ := call_cases hs
    exact .untouched (.of_queues rfl rfl) rfl
  | defer k envelope delay =>
    obtain ⟨-, rfl⟩ := call_cases hs
    exact .untouched (.of_queues rfl rfl) rfl
  | settle k c i op =>
    obtain ⟨-, m, -, rfl⟩ := settle_cases hs
    exact .untouched (.of_queues rfl rfl) rfl
  | check k =>
    obtain ⟨r, -, ⟨-, rfl⟩ | ⟨-, rfl⟩⟩ := check_cases hs
    · exact .untouched ((Untouched.dropOrigin s r).trans (.of_queues rfl rfl)) rfl
    · exact .untouched (.of_queues rfl rfl) rfl
  | schedule k => exact .schedule hs
  | count k =>
    obtain ⟨r, deadline, -, rfl⟩ := count_cases hs
    refine .untouched (Untouched.trans (.setQueue r.envelope.queue ?_)
      (.of_queues rfl rfl)) rfl
    rfl
  | guard k =>
    obtain ⟨r, deadline, -, rfl⟩ := guard_cases hs
    exact .untouched (.of_queues rfl rfl) rfl
  | record k => exact .record hs
  | fire n => exact .fire hs
  | abort n =>
    obtain ⟨m, guarded, -, rfl⟩ := abort_cases hs
    exact .untouched (.of_queues rfl rfl) rfl
  | release n =>
    obtain ⟨name, -, rfl⟩ := release_cases hs
    exact .untouched ((Untouched.releaseHold s name).trans (.of_queues rfl rfl)) rfl
  | consume c config =>
    obtain ⟨-, ⟨-, rfl⟩ | ⟨-, rfl⟩⟩ := consume_cases hs
    · exact .untouched (.of_queues rfl rfl) rfl
    · refine .untouched (Untouched.trans (.setQueue config.name ?_)
        (.of_queues rfl rfl)) rfl
      rfl
  | acquire c =>
    obtain ⟨-, ⟨-, rfl⟩ | ⟨-, -, rfl⟩⟩ := acquire_cases hs <;>
      exact .untouched (.of_queues rfl rfl) rfl
  | pop c => exact .pop hs
  | notice c =>
    obtain ⟨-, -, rfl⟩ := notice_cases hs
    exact .untouched (.of_queues rfl rfl) rfl
  | giveUp c =>
    obtain ⟨-, ⟨-, rfl⟩ | ⟨-, rfl⟩⟩ := giveUp_cases hs <;>
      exact .untouched (.of_queues rfl rfl) rfl
  | send c =>
    obtain ⟨m, -, ⟨-, rfl⟩ | ⟨-, rfl⟩⟩ := send_cases hs <;>
      exact .untouched (.of_queues rfl rfl) rfl
  | requeue c =>
    obtain ⟨m, hc, -⟩ := requeue_cases hs
    exact .requeued c m hc
  | leave c =>
    obtain ⟨-, ⟨q, hq, rfl⟩ | ⟨-, rfl⟩⟩ := leave_cases hs
    · exact .untouched (Untouched.trans (.setQueue (s.consumers c).queue
        (by rw [queue_eq hq])) (.of_queues rfl rfl)) rfl
    · exact .untouched (.of_queues rfl rfl) rfl
  | poll c =>
    obtain ⟨m, rest, -, -, rfl⟩ := poll_cases hs
    exact .untouched (.of_queues rfl rfl) rfl
  | dropStream c =>
    obtain ⟨-, rfl⟩ := dropStream_cases hs
    exact .untouched (.of_queues rfl rfl) rfl
  | drain c =>
    obtain ⟨collected, m, rest, hc, -, -⟩ := drain_cases hs
    exact .returned c collected hc
  | giveBack c =>
    obtain ⟨collected, hc, -⟩ := giveBack_cases hs
    exact .returned c collected hc
  | dropDelivery c i =>
    obtain ⟨-, rfl⟩ := dropDelivery_cases hs
    exact .untouched (.of_queues rfl rfl) rfl
  | close =>
    obtain rfl := Option.some.inj hs
    refine .untouched ⟨rfl, fun name => ?_⟩ rfl
    cases hq : s.queues name <;> simp [State.queue, hq, QueueState.wake]

/-! ## Streams that are never dropped -/

/-- The stream of a consumer is there, and so its task never has to requeue. -/
structure Consumer.Streaming (x : Consumer V) : Prop where
  stream : x.task = .unborn ∨ x.stream = .open
  requeue : ∀ m, x.task ≠ .requeueing m
  drain : ∀ collected, x.stream ≠ .draining collected

abbrev Streaming (s : State V) : Prop := ∀ c, (s.consumers c).Streaming

/-- No stream is dropped. -/
def Undropped (_ : State V) : Action V → Prop
  | .dropStream _ => False
  | _ => True

theorem streaming_start (h : (system V).start s) : Streaming s := by
  obtain ⟨now, horizon, -, rfl⟩ := h
  exact fun c => ⟨.inl rfl, nofun, nofun⟩

theorem Streaming.frame (h : Streaming s) (consumers : t.consumers = s.consumers) :
    Streaming t := by
  intro c
  rw [consumers]
  exact h c

theorem Streaming.setConsumer (h : Streaming s) (hx : x.Streaming) :
    Streaming (s.setConsumer c x) := by
  intro d
  by_cases hd : d = c
  · simpa [State.setConsumer, hd] using hx
  · simpa [State.setConsumer, hd] using h d

/-- The task goes on, and the stream stays. -/
theorem Consumer.Streaming.goOn {y : Consumer V} (hx : x.Streaming) (stream : y.stream = x.stream)
    (born : y.task = .unborn ∨ x.task ≠ .unborn) (task : ∀ m, y.task ≠ .requeueing m) :
    y.Streaming where
  stream := born.imp_right fun hborn => stream.trans (hx.stream.resolve_left hborn)
  requeue := task
  drain collected := stream ▸ hx.drain collected

theorem Streaming.dropPermit (h : Streaming s) (d : MemoryDelivery V) :
    Streaming (s.dropPermit d) :=
  h.setConsumer ⟨(h d.consumer).stream, (h d.consumer).requeue, (h d.consumer).drain⟩

theorem Streaming.dropOrigin (h : Streaming s) (r : Request V) : Streaming (s.dropOrigin r) := by
  unfold State.dropOrigin
  split
  · exact h.dropPermit _
  · exact h

theorem Streaming.send (h : Streaming s) (hs : stepSend s c = some t) : Streaming t := by
  obtain ⟨m, hc, ⟨-, rfl⟩ | ⟨hgone, rfl⟩⟩ := send_cases hs
  · exact h.setConsumer ((h c).goOn rfl (.inr (by rw [hc]; nofun)) nofun)
  · have hopen := (h c).stream.resolve_left (by rw [hc]; nofun)
    rw [hopen] at hgone
    cases hgone

theorem streaming_step (h : Streaming s) (undropped : Undropped s a) (hs : step s a = some t) :
    Streaming t := by
  cases a with
  | tick elapsed =>
    obtain ⟨-, rfl⟩ := tick_cases hs
    exact h
  | declare configs =>
    obtain rfl := Option.some.inj hs
    split_ifs <;> exact h
  | publish k envelope delay =>
    obtain ⟨-, rfl⟩ := call_cases hs
    exact h
  | defer k envelope delay =>
    obtain ⟨-, rfl⟩ := call_cases hs
    exact h
  | settle k c i op =>
    obtain ⟨-, m, -, rfl⟩ := settle_cases hs
    exact h.setConsumer ⟨(h c).stream, (h c).requeue, (h c).drain⟩
  | check k =>
    obtain ⟨r, -, ⟨-, rfl⟩ | ⟨-, rfl⟩⟩ := check_cases hs
    · exact h.dropOrigin r
    · exact h
  | schedule k =>
    obtain ⟨r, -, ⟨-, -, rfl⟩ | ⟨-, -, rfl⟩ | ⟨-, -, -, rfl⟩ | ⟨-, -, -, rfl⟩ | ⟨-, -, rfl⟩⟩ :=
      schedule_cases hs
    · exact h
    · exact h
    · exact h
    · exact h
    · exact h.dropOrigin r
  | count k =>
    obtain ⟨r, deadline, -, rfl⟩ := count_cases hs
    exact h
  | guard k =>
    obtain ⟨r, deadline, -, rfl⟩ := guard_cases hs
    exact h
  | record k =>
    obtain ⟨r, d, -, -, rfl⟩ | ⟨d, -, rfl⟩ | ⟨d, reason, -, -, rfl⟩ | ⟨d, reason, -, -, rfl⟩ :=
      record_cases hs <;> exact h.dropPermit d
  | fire n =>
    obtain ⟨m, guarded, -, -, rfl⟩ := fire_cases hs
    exact h.frame (enqueueNow_consumers s m guarded)
  | abort n =>
    obtain ⟨m, guarded, -, rfl⟩ := abort_cases hs
    exact h
  | release n =>
    obtain ⟨name, -, rfl⟩ := release_cases hs
    exact h.frame (releaseHold_consumers s name)
  | consume c config =>
    obtain ⟨-, ⟨-, rfl⟩ | ⟨-, rfl⟩⟩ := consume_cases hs
    · exact h.setConsumer ⟨.inr rfl, nofun, nofun⟩
    · exact Streaming.setConsumer h ⟨.inr rfl, nofun, nofun⟩
  | acquire c =>
    obtain ⟨hc, ⟨-, rfl⟩ | ⟨-, -, rfl⟩⟩ := acquire_cases hs <;>
      exact h.setConsumer ((h c).goOn rfl (.inr (by rw [hc]; nofun)) nofun)
  | pop c =>
    obtain ⟨hc, ⟨-, rfl⟩ | ⟨-, -, rfl⟩ | ⟨-, q, m, rest, -, -, rfl⟩⟩ := pop_cases hs <;>
      exact Streaming.setConsumer h ((h c).goOn rfl (.inr (by rw [hc]; nofun)) nofun)
  | notice c =>
    obtain ⟨hc, -, rfl⟩ := notice_cases hs
    exact h.setConsumer ((h c).goOn rfl (.inr (by rw [hc]; nofun)) nofun)
  | giveUp c =>
    obtain ⟨-, ⟨hc, rfl⟩ | ⟨hc, rfl⟩⟩ := giveUp_cases hs <;>
      exact h.setConsumer ((h c).goOn rfl (.inr (by rw [hc]; nofun)) nofun)
  | send c => exact h.send hs
  | requeue c =>
    obtain ⟨m, hc, -⟩ := requeue_cases hs
    exact absurd hc ((h c).requeue m)
  | leave c =>
    obtain ⟨hc, ⟨q, -, rfl⟩ | ⟨-, rfl⟩⟩ := leave_cases hs <;>
      exact Streaming.setConsumer h ((h c).goOn rfl (.inr (by rw [hc]; nofun)) nofun)
  | poll c =>
    obtain ⟨m, rest, -, -, rfl⟩ := poll_cases hs
    exact h.setConsumer ⟨(h c).stream, (h c).requeue, (h c).drain⟩
  | dropStream c => exact undropped.elim
  | drain c =>
    obtain ⟨collected, m, rest, hc, -, -⟩ := drain_cases hs
    exact absurd hc ((h c).drain collected)
  | giveBack c =>
    obtain ⟨collected, hc, -⟩ := giveBack_cases hs
    exact absurd hc ((h c).drain collected)
  | dropDelivery c i =>
    obtain ⟨-, rfl⟩ := dropDelivery_cases hs
    exact h.setConsumer ⟨(h c).stream, (h c).requeue, (h c).drain⟩
  | close =>
    obtain rfl := Option.some.inj hs
    intro c
    dsimp only
    split_ifs
    · exact ⟨(h c).stream, (h c).requeue, (h c).drain⟩
    · exact h c

theorem reach_streaming (h : Reach (system V) Undropped s) : Streaming s :=
  h.invariant (fun _ => streaming_start) fun _ _ _ hi => streaming_step hi

/-- Where no stream is dropped, nothing is ever given back out of order. -/
theorem reach_orderly (h : Reach (system V) Undropped s) : Reach (system V) Orderly s := by
  induction h with
  | start hs => exact .start hs
  | @next s t a hr hg hstep ih =>
    refine ih.next ?_ hstep
    have streaming := reach_streaming hr
    cases a with
    | requeue c => exact fun m hm => absurd hm ((streaming c).requeue m)
    | giveBack c => exact fun _ collected hc => absurd hc ((streaming c).drain collected)
    | _ => trivial

/-! ## Insertions and pops -/

/-- The backend with the messages its consumers have popped, in order. -/
structure History (V : Type) where
  state : State V
  popped : List (Message V)

namespace History

def step (w : History V) (a : Action V) : Option (History V) :=
  (MemoryBackend.step w.state a).map fun t => ⟨t, w.popped ++ a.takes t⟩

def system (V : Type) : System (History V) (Action V) where
  start w := (MemoryBackend.system V).start w.state ∧ w.popped = []
  step := step

/-- The messages inserted in a queue and not yet popped, in the order of their insertion. -/
def waiting (w : History V) (name : String) : List (Message V) :=
  w.state.inserted.filter fun m => m.envelope.queue = name ∧ m.id ∉ w.popped.map Message.id

/-- No stream is dropped. -/
def Undropped (w : History V) (a : Action V) : Prop := MemoryBackend.Undropped w.state a

variable {w w' : History V}

theorem step_cases (hs : step w a = some w') : MemoryBackend.step w.state a = some w'.state ∧
    w'.popped = w.popped ++ a.takes w'.state := by
  obtain ⟨t, ht, rfl⟩ := Option.map_eq_some_iff.mp hs
  exact ⟨ht, rfl⟩

theorem reach_state (h : Reach (system V) Undropped w) :
    Reach (MemoryBackend.system V) MemoryBackend.Undropped w.state := by
  induction h with
  | start hs => exact .start hs.1
  | next _ hg hstep ih => exact ih.next hg (step_cases hstep).1

/-- What is pending is in its queue and was not popped; what was inserted is pending or was
popped, and only that. -/
structure Kept (w : History V) : Prop where
  queue : ∀ name, ∀ m ∈ (w.state.queue name).pending, m.envelope.queue = name
  pending : ∀ m ∈ w.state.inserted,
    m ∈ (w.state.queue m.envelope.queue).pending ↔ m.id ∉ w.popped.map Message.id
  popped : ∀ m ∈ w.popped, m ∈ w.state.inserted

theorem kept_start (h : (system V).start w) : Kept w := by
  obtain ⟨⟨now, horizon, -, hstate⟩, hpopped⟩ := h
  refine ⟨fun name m hm => ?_, fun m hm => ?_, fun m hm => ?_⟩
  · rw [hstate] at hm
    cases hm
  · rw [hstate] at hm
    cases hm
  · rw [hpopped] at hm
    cases hm

theorem Kept.untouched (h : Kept w) (untouched : Untouched w.state w'.state)
    (popped : w'.popped = w.popped) : Kept w' where
  queue name m hm := h.queue name m (untouched.pending name ▸ hm)
  pending m hm := by
    rw [untouched.pending, popped]
    exact h.pending m (untouched.inserted ▸ hm)
  popped m hm := by
    rw [untouched.inserted]
    exact h.popped m (popped ▸ hm)

theorem Kept.arrived (h : Kept w) (ranked : Ranked w'.state) (arrived : Arrived w.state w'.state m)
    (popped : w'.popped = w.popped) : Kept w' := by
  have hinserted := arrived.inserted
  -- Its number is new.
  have fresh : ∀ o ∈ w.state.inserted, o.id ≠ m.id := by
    have hdistinct := ranked.distinct
    rw [hinserted] at hdistinct
    exact fun o ho => (List.pairwise_append.mp hdistinct).2.2 o ho m (List.mem_singleton_self m)
  have unpopped : m.id ∉ w.popped.map Message.id := by
    rw [List.mem_map]
    rintro ⟨o, ho, hid⟩
    exact fresh o (h.popped o ho) hid
  have mem : ∀ o, o ∈ (w'.state.queue m.envelope.queue).pending ↔
      o = m ∨ o ∈ (w.state.queue m.envelope.queue).pending := by
    intro o
    rw [arrived.pending, (insertByPriority_perm _ m).mem_iff, List.mem_cons]
  refine ⟨fun name o ho => ?_, fun o ho => ?_, fun o ho => ?_⟩
  · by_cases hn : name = m.envelope.queue
    · subst hn
      obtain rfl | ho := (mem o).mp ho
      · rfl
      · exact h.queue _ o ho
    · rw [arrived.others name hn] at ho
      exact h.queue name o ho
  · rw [popped]
    rw [hinserted, List.mem_append, List.mem_singleton] at ho
    obtain ho | rfl := ho
    · have hne : o ≠ m := fun heq => fresh o ho (heq ▸ rfl)
      rw [← h.pending o ho]
      by_cases hn : o.envelope.queue = m.envelope.queue
      · rw [hn, mem]
        exact or_iff_right hne
      · rw [arrived.others _ hn]
    · exact iff_of_true ((mem o).mpr (.inl rfl)) unpopped
  · rw [hinserted]
    exact List.mem_append_left _ (h.popped o (popped ▸ ho))

/-- Messages are told apart by their numbers. -/
theorem unique (ranked : Ranked w.state) (hm : m ∈ w.state.inserted) (ho : o ∈ w.state.inserted)
    (hid : m.id = o.id) : m = o := by
  have hids : (w.state.inserted.map Message.id).Nodup := List.pairwise_map.mpr ranked.distinct
  exact List.inj_on_of_nodup_map hids hm ho hid

theorem Kept.popped_step (h : Kept w) (ranked : Ranked w.state)
    (popped : MemoryBackend.Popped w.state w'.state name m) (hw : w'.popped = w.popped ++ [m]) :
    Kept w' := by
  have hpending := popped.pending
  have hm : m ∈ (w.state.queue name).pending := by rw [hpending]; exact List.mem_cons_self
  have hqueue : m.envelope.queue = name := h.queue name m hm
  have hin : m ∈ w.state.inserted := (ranked.queues name).2 m hm
  have mem : ∀ o, o ∈ (w.state.queue name).pending ↔
      o = m ∨ o ∈ (w'.state.queue name).pending := by
    intro o
    rw [hpending, List.mem_cons]
  -- It is pending once.
  have gone : m ∉ (w'.state.queue name).pending := by
    have hsorted := (ranked.queues name).1
    have hnodup : w.state.inserted.Nodup :=
      List.Nodup.of_map Message.id (List.pairwise_map.mpr ranked.distinct)
    rw [hpending] at hsorted
    intro hrest
    have hself := (List.pairwise_cons.mp hsorted).1 m hrest
    exact hself.asymm hnodup hself
  refine ⟨fun other o ho => ?_, fun o ho => ?_, fun o ho => ?_⟩
  · by_cases hn : other = name
    · subst hn
      exact h.queue _ o ((mem o).mpr (.inr ho))
    · rw [popped.others other hn] at ho
      exact h.queue other o ho
  · rw [popped.inserted] at ho
    have hmap : w'.popped.map Message.id = w.popped.map Message.id ++ [m.id] := by
      rw [hw, List.map_append, List.map_singleton]
    rw [hmap, List.mem_append, List.mem_singleton, not_or]
    by_cases hom : o = m
    · subst hom
      rw [hqueue]
      exact iff_of_false gone fun hid => hid.2 rfl
    · have hid : o.id ≠ m.id := fun heq => hom (unique ranked ho hin heq)
      rw [and_iff_left hid, ← h.pending o ho]
      by_cases hn : o.envelope.queue = name
      · rw [hn, mem]
        exact (or_iff_right hom).symm
      · rw [popped.others _ hn]
  · rw [popped.inserted]
    rw [hw, List.mem_append, List.mem_singleton] at ho
    obtain ho | rfl := ho
    · exact h.popped o ho
    · exact hin

theorem kept_step {a : Action V} (h : Kept w) (ranked : Ranked w.state) (after : Ranked w'.state)
    (streaming : Streaming w.state) (hs : step w a = some w') : Kept w' := by
  obtain ⟨hstep, hpopped⟩ := step_cases hs
  cases shift_of_step hstep with
  | untouched untouched takes =>
    refine h.untouched untouched ?_
    rw [hpopped, takes, List.append_nil]
  | arrived m arrived takes =>
    refine h.arrived after arrived ?_
    rw [hpopped, takes, List.append_nil]
  | popped c m ha popped takes =>
    refine h.popped_step ranked popped ?_
    rw [hpopped, takes]
  | requeued c m hc => exact absurd hc ((streaming c).requeue m)
  | returned c collected hc => exact absurd hc ((streaming c).drain collected)

theorem reach_ranked (h : Reach (system V) Undropped w) : Ranked w.state :=
  MemoryBackend.reach_ranked (reach_orderly (reach_state h))

theorem reach_kept (h : Reach (system V) Undropped w) : Kept w :=
  h.strengthen (K := fun w => Ranked w.state ∧ Streaming w.state)
    (fun _ hw => ⟨reach_ranked hw, reach_streaming (reach_state hw)⟩) (fun _ => kept_start)
    fun _ _ _ hk hk' hi _ => kept_step hi hk.1 hk'.1 hk.2

theorem mem_waiting_iff : m ∈ w.waiting name ↔ m ∈ w.state.inserted ∧ m.envelope.queue = name ∧
    m.id ∉ w.popped.map Message.id := by
  unfold waiting
  rw [List.mem_filter, decide_eq_true_iff]

theorem Kept.mem_waiting (h : Kept w) (ranked : Ranked w.state) (name : String) (m : Message V) :
    m ∈ w.waiting name ↔ m ∈ (w.state.queue name).pending := by
  rw [mem_waiting_iff]
  constructor
  · rintro ⟨hin, rfl, hid⟩
    exact (h.pending m hin).mpr hid
  · intro hm
    obtain rfl := h.queue name m hm
    have hin := (ranked.queues _).2 m hm
    exact ⟨hin, rfl, (h.pending m hin).mp hm⟩

/-- The pending list is the stable sort of what waits. -/
theorem pending_eq_mergeSort (h : Reach (system V) Undropped w) (name : String) :
    (w.state.queue name).pending = (w.waiting name).mergeSort fun m o => o.rank ≤ m.rank := by
  have ranked := reach_ranked h
  have kept := reach_kept h
  obtain ⟨hsorted, hin⟩ := ranked.queues name
  have hnodup : w.state.inserted.Nodup :=
    List.Nodup.of_map Message.id (List.pairwise_map.mpr ranked.distinct)
  have hwaiting : (w.waiting name).Nodup := hnodup.filter _
  rw [← arrange_eq_mergeSort hwaiting]
  refine eq_arrange hsorted hnodup hin fun m hm => ?_
  rw [← kept.mem_waiting ranked name m, waiting, List.mem_filter]
  exact ⟨fun hkept => ⟨hm, hkept⟩, fun hkept => hkept.2⟩

/-- Who is popped outranks all that wait with it. -/
theorem popped_first {a : Action V} (h : Reach (system V) Undropped w) (hs : step w a = some w')
    (hm : w'.popped ≠ w.popped) : ∃ c m, a = .pop c ∧ w'.popped = w.popped ++ [m] ∧
      m ∈ w.waiting (w.state.consumers c).queue ∧
      ∀ o ∈ w.waiting (w.state.consumers c).queue, o ≠ m →
        Outranks Message.rank w.state.inserted m o := by
  have ranked := reach_ranked h
  have kept := reach_kept h
  have streaming := reach_streaming (reach_state h)
  obtain ⟨hstep, hpopped⟩ := step_cases hs
  cases shift_of_step hstep with
  | untouched untouched takes =>
    rw [takes, List.append_nil] at hpopped
    exact absurd hpopped hm
  | arrived m arrived takes =>
    rw [takes, List.append_nil] at hpopped
    exact absurd hpopped hm
  | popped c m ha popped takes =>
    have hpending := popped.pending
    have hsorted := (ranked.queues (w.state.consumers c).queue).1
    rw [hpending] at hsorted
    refine ⟨c, m, ha, by rw [hpopped, takes], ?_, fun o ho hne => ?_⟩
    · rw [kept.mem_waiting ranked, hpending]
      exact List.mem_cons_self
    · rw [kept.mem_waiting ranked, hpending, List.mem_cons] at ho
      exact (List.pairwise_cons.mp hsorted).1 o (ho.resolve_left hne)
  | requeued c m hc => exact absurd hc ((streaming c).requeue m)
  | returned c collected hc => exact absurd hc ((streaming c).drain collected)

theorem inserted_step {a : Action V} (streaming : Streaming w.state) (hs : step w a = some w')
    (hm : m ∈ w.state.inserted) : m ∈ w'.state.inserted := by
  cases shift_of_step (step_cases hs).1 with
  | untouched untouched => rwa [untouched.inserted]
  | arrived o arrived =>
    rw [arrived.inserted]
    exact List.mem_append_left _ hm
  | popped c o ha popped => rwa [popped.inserted]
  | requeued c o hc => exact absurd hc ((streaming c).requeue o)
  | returned c collected hc => exact absurd hc ((streaming c).drain collected)

/-- What waits is popped in a step, or waits on. -/
theorem waiting_step {a : Action V} (streaming : Streaming w.state) (hs : step w a = some w')
    (hm : m ∈ w.waiting name) : m ∈ w'.waiting name ∨ m.id ∈ w'.popped.map Message.id := by
  by_cases hpopped : m.id ∈ w'.popped.map Message.id
  · exact .inr hpopped
  · rw [mem_waiting_iff] at hm ⊢
    exact .inl ⟨inserted_step streaming hs hm.1, hm.2.1, hpopped⟩

theorem popped_run {actions : List (Action V)} (hrun : (system V).run w actions = some w') :
    w.popped <+: w'.popped := by
  have grow : ∀ u a v, (system V).step u a = some v → u.popped <+: v.popped := fun u a v hs => by
    rw [(step_cases hs).2]
    exact List.prefix_append _ _
  exact run_ascends (R := fun u v => u.popped <+: v.popped) (fun u => List.prefix_refl u.popped)
    (fun _ _ _ => List.IsPrefix.trans) grow hrun

/-- Of two that wait, the more important one is popped first. -/
theorem popped_before {actions : List (Action V)} (h : Reach (system V) Undropped w)
    (hm : m ∈ w.waiting name) (ho : o ∈ w.waiting name) (hlt : o.rank < m.rank)
    (guarded : (system V).Guarded Undropped w actions)
    (hrun : (system V).run w actions = some w') (hpopped : o.id ∈ w'.popped.map Message.id) :
    m.id ∈ w'.popped.map Message.id := by
  induction actions generalizing w with
  | nil =>
    obtain rfl : w = w' := by simpa using hrun
    exact absurd hpopped (mem_waiting_iff.mp ho).2.2
  | cons a rest ih =>
    obtain ⟨u, hu, hrest⟩ := Option.bind_eq_some_iff.mp hrun
    have reached : Reach (system V) Undropped u := h.next guarded.1 hu
    have streaming := reach_streaming (reach_state h)
    obtain hm' | hm' := waiting_step streaming hu hm
    · obtain ho' | ho' := waiting_step streaming hu ho
      · exact ih reached hm' ho' (guarded.2 u hu) hrest
      · -- The less important one would have been popped over the other.
        have hunpopped : o.id ∉ w.popped.map Message.id := (mem_waiting_iff.mp ho).2.2
        have hne : u.popped ≠ w.popped := fun heq => hunpopped (heq ▸ ho')
        obtain ⟨c, x, -, hx, hin, hfirst⟩ := popped_first h hu hne
        rw [hx, List.map_append, List.mem_append, List.map_singleton, List.mem_singleton] at ho'
        have hox := unique (reach_ranked h) (mem_waiting_iff.mp ho).1 (mem_waiting_iff.mp hin).1
          (ho'.resolve_left hunpopped)
        subst hox
        have hname : (w.state.consumers c).queue = name :=
          (mem_waiting_iff.mp hin).2.1.symm.trans (mem_waiting_iff.mp ho).2.1
        rw [hname] at hfirst
        have hmo : m ≠ o := by
          rintro rfl
          exact lt_irrefl _ hlt
        exact absurd (hfirst m hm hmo).le hlt.not_ge
    · obtain ⟨later, hlater⟩ := popped_run hrest
      rw [← hlater, List.map_append]
      exact List.mem_append_left _ hm'

/-- In every run that drops no stream, a queue's pending list is what was inserted and not yet
popped, sorted by descending priority with ties in the order of insertion; every pop takes
the oldest of the highest priority; and of two that wait the more important one goes first. -/
theorem priority_order (h : Reach (system V) Undropped w) (name : String) :
    (w.state.queue name).pending = (w.waiting name).mergeSort (fun m o => o.rank ≤ m.rank) ∧
    (∀ a w', step w a = some w' → w'.popped ≠ w.popped → ∃ c m, a = .pop c ∧
      w'.popped = w.popped ++ [m] ∧ m ∈ w.waiting (w.state.consumers c).queue ∧
      ∀ o ∈ w.waiting (w.state.consumers c).queue, o ≠ m →
        Outranks Message.rank w.state.inserted m o) ∧
    (∀ m ∈ w.waiting name, ∀ o ∈ w.waiting name, o.rank < m.rank → ∀ actions w',
      (system V).Guarded Undropped w actions → (system V).run w actions = some w' →
        o.id ∈ w'.popped.map Message.id → m.id ∈ w'.popped.map Message.id) :=
  ⟨pending_eq_mergeSort h name, fun _ _ hs hm => popped_first h hs hm,
    fun _ hm _ ho hlt _ _ guarded hrun hpopped => popped_before h hm ho hlt guarded hrun hpopped⟩

/-- Three jobs, the last one of top priority: it is popped first. -/
theorem priority_order_top : ∃ w : History Unit, Reach (system Unit) Undropped w ∧
    w.popped.map Message.id = [2] ∧ (w.state.queue "mail").pending.map Message.id = [0, 1] ∧
    (w.state.queue "mail").pending =
      (w.waiting "mail").mergeSort (fun m o => o.rank ≤ m.rank) := by
  have start : Reach (system Unit) Undropped ⟨initial 0 10, []⟩ :=
    .start ⟨⟨0, 10, by decide, rfl⟩, rfl⟩
  have reached := start.guardedRun [.publish 0 mail none, .check 0, .schedule 0, .publish 1 mail none,
    .check 1, .schedule 1, .publish 2 { mail with priority := 9 } none, .check 2, .schedule 2,
    .consume 0 (.new "mail"), .acquire 0, .pop 0]
    (guarded_of_forall (by simp [Undropped, MemoryBackend.Undropped]) _) rfl
  exact ⟨_, reached, rfl, rfl, (priority_order reached "mail").1⟩

end History

end Queuey.MemoryBackend
