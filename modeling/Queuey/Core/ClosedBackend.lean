import Queuey.Core.Registry
import Queuey.Core.RacingClose

/-!
# What lasts, and what a close puts an end to

The record a queue keeps of its messages is only added to, and its configuration is that of
its first declaration. After a close nothing is inserted and nothing is buried any more: what
comes back to a queue was in a consumer's hand, and whatever is called is refused, except that
an ack is still recorded.
-/
namespace Queuey.MemoryBackend
open Transition

variable {V : Type} {s t u : State V} {a : Action V} {k c d n : ℕ} {r : Request V} {m : Message V}
  {name : String} {q q' : QueueState V} {x : Consumer V}

/-! ## The record of a queue -/

structure QueueState.Lasts (q q' : QueueState V) : Prop where
  config : q'.config = q.config
  settled : q.settled <+: q'.settled
  dead : q.dead <+: q'.dead

/-- Queues stay, and so does what they have recorded. -/
def Lasting (s t : State V) : Prop :=
  ∀ name q, s.queues name = some q → ∃ q', t.queues name = some q' ∧ q.Lasts q'

theorem QueueState.Lasts.refl (q : QueueState V) : q.Lasts q :=
  ⟨rfl, List.prefix_refl _, List.prefix_refl _⟩

theorem Lasting.of_queues (h : t.queues = s.queues) : Lasting s t := fun name q hq =>
  ⟨q, by rw [h, hq], .refl q⟩

theorem Lasting.trans (h : Lasting s u) (h' : Lasting u t) : Lasting s t := by
  intro name q hq
  obtain ⟨q', hq', hlast⟩ := h name q hq
  obtain ⟨q'', hq'', hlast'⟩ := h' name q' hq'
  exact ⟨q'', hq'', hlast'.config.trans hlast.config, hlast.settled.trans hlast'.settled,
    hlast.dead.trans hlast'.dead⟩

theorem Lasting.setQueue (h : (s.queue name).Lasts q) : Lasting s (s.setQueue name q) := by
  intro other p hp
  by_cases ho : other = name
  · subst ho
    rw [queue_eq hp] at h
    exact ⟨q, by simp [State.setQueue], h⟩
  · exact ⟨p, by simp [State.setQueue, ho, hp], .refl p⟩

theorem Lasting.insert (s : State V) (m : Message V) : Lasting s (s.insert m) := by
  refine Lasting.trans (u := s.setQueue m.envelope.queue { s.queue m.envelope.queue with
    pending := insertByPriority (s.queue m.envelope.queue).pending m }.wake) ?_ ?_
  · exact .setQueue ⟨rfl, List.prefix_refl _, List.prefix_refl _⟩
  · exact .of_queues rfl

theorem Lasting.releaseHold (s : State V) (name : String) : Lasting s (s.releaseHold name) := by
  unfold State.releaseHold
  cases hq : s.queues name with
  | none => exact .of_queues rfl
  | some q =>
    refine .setQueue ?_
    rw [queue_eq hq]
    exact ⟨rfl, List.prefix_refl _, List.prefix_refl _⟩

theorem Lasting.dropOrigin (s : State V) (r : Request V) : Lasting s (s.dropOrigin r) := by
  unfold State.dropOrigin
  split <;> exact .of_queues rfl

theorem Lasting.schedule (hs : stepSchedule s k = some t) : Lasting s t := by
  obtain ⟨r, -, ⟨-, -, rfl⟩ | ⟨-, -, rfl⟩ | ⟨-, -, -, rfl⟩ | ⟨-, -, -, rfl⟩ | ⟨-, -, rfl⟩⟩ :=
    schedule_cases hs
  · exact .of_queues rfl
  · exact (Lasting.insert s (s.message r)).trans (.of_queues rfl)
  · exact .of_queues rfl
  · exact .of_queues rfl
  · exact (Lasting.dropOrigin s r).trans (.of_queues rfl)

theorem Lasting.recordAck (s : State V) (k : ℕ) (m : Message V) (kind : AckKind) :
    Lasting s (s.recordAck k m kind) := by
  refine Lasting.trans (u := s.setQueue m.envelope.queue { s.queue m.envelope.queue with
    settled := (s.queue m.envelope.queue).settled ++ [(m, kind)] }) ?_ (.of_queues rfl)
  exact .setQueue ⟨rfl, List.prefix_append _ _, List.prefix_refl _⟩

theorem Lasting.record (hs : stepRecord s k = some t) : Lasting s t := by
  obtain ⟨r, d, -, -, rfl⟩ | ⟨d, -, rfl⟩ | ⟨d, reason, -, -, rfl⟩ | ⟨d, reason, -, -, rfl⟩ :=
    record_cases hs
  · exact (Lasting.recordAck s k d.message r.kind).trans (.of_queues rfl)
  · exact (Lasting.recordAck s k d.message .succeeded).trans (.of_queues rfl)
  · exact .of_queues rfl
  · refine Lasting.trans (u := s.setQueue d.message.envelope.queue
      { s.queue d.message.envelope.queue with
        dead := (s.queue d.message.envelope.queue).dead ++ [(d.message, reason)] }) ?_
      (.of_queues rfl)
    exact .setQueue ⟨rfl, List.prefix_refl _, List.prefix_append _ _⟩

/-- A queue that is there is not declared again. -/
theorem declared_eq (configs : List QueueConfig) (queues : String → Option (QueueState V))
    (hq : queues name = some q) : configs.foldl declareOne queues name = some q := by
  induction configs generalizing queues with
  | nil => exact hq
  | cons config rest ih =>
    apply ih
    cases hc : queues config.name with
    | some _ => simp [declareOne, hc, hq]
    | none =>
      have hne : name ≠ config.name := by
        rintro rfl
        rw [hq] at hc
        cases hc
      simp [declareOne, hc, hne, hq]

theorem Lasting.fire (hs : stepFire s n = some t) : Lasting s t := by
  obtain ⟨m, guarded, -, -, rfl⟩ := fire_cases hs
  obtain ⟨u, hu, he⟩ := enqueueNow_cases s m guarded
  have released : Lasting s u := by
    obtain rfl | rfl := hu
    · exact .of_queues rfl
    · exact .releaseHold s _
  refine Lasting.trans (u := s.enqueueNow m guarded) ?_ (.of_queues rfl)
  obtain ⟨-, he⟩ | ⟨-, he⟩ := he <;> rw [he]
  · exact released
  · exact released.trans (.insert u m)

theorem lasting_step (hs : step s a = some t) : Lasting s t := by
  cases hconsumer : a.ofConsumer with
  | true =>
    obtain ⟨c, x, rfl | ⟨name, pending, consumers, signal, rfl⟩⟩ := consumer_cases hconsumer hs
    · exact .of_queues rfl
    · refine Lasting.trans (u := s.setQueue name
        { s.queue name with pending, consumers, signal }) ?_ (.of_queues rfl)
      exact .setQueue ⟨rfl, List.prefix_refl _, List.prefix_refl _⟩
  | false =>
    cases a with
    | tick elapsed =>
      obtain ⟨-, rfl⟩ := tick_cases hs
      exact .of_queues rfl
    | declare configs =>
      obtain rfl := Option.some.inj hs
      split_ifs
      · exact .of_queues rfl
      · exact fun name q hq => ⟨q, declared_eq configs s.queues hq, .refl q⟩
    | publish k envelope delay =>
      obtain ⟨-, rfl⟩ := call_cases hs
      exact .of_queues rfl
    | defer k envelope delay =>
      obtain ⟨-, rfl⟩ := call_cases hs
      exact .of_queues rfl
    | settle k c i op =>
      obtain ⟨-, m, -, rfl⟩ := settle_cases hs
      exact .of_queues rfl
    | check k =>
      obtain ⟨r, -, ⟨-, rfl⟩ | ⟨-, rfl⟩⟩ := check_cases hs
      · exact (Lasting.dropOrigin s r).trans (.of_queues rfl)
      · exact .of_queues rfl
    | schedule k => exact .schedule hs
    | count k =>
      obtain ⟨r, deadline, -, rfl⟩ := count_cases hs
      refine Lasting.trans (u := s.setQueue r.envelope.queue { s.queue r.envelope.queue with
        held := (s.queue r.envelope.queue).held + 1 }) ?_ (.of_queues rfl)
      exact .setQueue ⟨rfl, List.prefix_refl _, List.prefix_refl _⟩
    | guard k =>
      obtain ⟨r, deadline, -, rfl⟩ := guard_cases hs
      exact .of_queues rfl
    | record k => exact .record hs
    | fire n => exact .fire hs
    | abort n =>
      obtain ⟨m, guarded, -, rfl⟩ := abort_cases hs
      exact .of_queues rfl
    | release n =>
      obtain ⟨name, -, rfl⟩ := release_cases hs
      exact (Lasting.releaseHold s name).trans (.of_queues rfl)
    | close =>
      obtain rfl := Option.some.inj hs
      intro name q hq
      exact ⟨{ q with consumers := [] }.wake, by simp [hq], rfl, List.prefix_refl _,
        List.prefix_refl _⟩
    | _ => cases hconsumer

/-- The configuration of a queue is the one it was first declared with, and the record of what
was acked and of what was buried is only added to. -/
theorem records_permanent (actions : List (Action V)) (hrun : (system V).run s actions = some t) :
    Lasting s t := by
  have keep : ∀ u a t, Lasting s u → (system V).step u a = some t → Lasting s t :=
    fun _ _ _ h hs => h.trans (lasting_step hs)
  exact run_preserves keep (.of_queues rfl) hrun

/-- A job is acked, and then the queue is declared with other options. -/
theorem records_permanent_mail : ∃ s t : State Unit,
    (system Unit).run (initial 0 10) (handedOut mail ++ [.settle 1 0 0 .ack, .record 1]) = some s ∧
    (system Unit).run s [.declare [{ QueueConfig.new "mail" with prefetch := 3 }]] = some t ∧
    (s.queue "mail").settled.length = 1 ∧ Lasting s t := by
  refine ⟨_, _, rfl, rfl, rfl, ?_⟩
  exact records_permanent [.declare [{ QueueConfig.new "mail" with prefetch := 3 }]] rfl

/-! ## After the close -/

/-- A consumer of the queue has taken the message from it and not handed it on. -/
def State.InHand (s : State V) (name : String) (m : Message V) : Prop :=
  ∃ c, (s.consumers c).queue = name ∧ m ∈ (s.consumers c).task.hand

/-- Nothing is inserted or buried, and what comes back to a queue was in hand. -/
structure Frozen (s t : State V) : Prop where
  inserted : t.inserted = s.inserted
  dead : ∀ name, (t.queue name).dead = (s.queue name).dead
  pending : ∀ name, ∃ back, (t.queue name).pending = back ++ (s.queue name).pending ∧
    ∀ m ∈ back, s.InHand name m
  hand : ∀ name m, t.InHand name m → s.InHand name m

theorem Frozen.same (queues : t.queues = s.queues) (inserted : t.inserted = s.inserted)
    (consumers : t.consumers = s.consumers) : Frozen s t := by
  have hqueue : ∀ name, t.queue name = s.queue name := fun name => by
    unfold State.queue
    rw [queues]
  refine ⟨inserted, fun name => by rw [hqueue], fun name => ⟨[], by rw [hqueue]; rfl, by rintro _ ⟨⟩⟩, ?_⟩
  intro name m hm
  unfold State.InHand at hm
  rw [consumers] at hm
  exact hm

theorem Frozen.trans (h : Frozen s u) (h' : Frozen u t) : Frozen s t := by
  refine ⟨h'.inserted.trans h.inserted, fun name => (h'.dead name).trans (h.dead name),
    fun name => ?_, fun name m hm => h.hand name m (h'.hand name m hm)⟩
  obtain ⟨back, hback, hin⟩ := h.pending name
  obtain ⟨back', hback', hin'⟩ := h'.pending name
  refine ⟨back' ++ back, by rw [hback', hback, List.append_assoc], fun m hm => ?_⟩
  obtain hm | hm := List.mem_append.mp hm
  · exact h.hand name m (hin' m hm)
  · exact hin m hm

theorem Frozen.setQueue (dead : q.dead = (s.queue name).dead)
    (pending : q.pending = (s.queue name).pending) : Frozen s (s.setQueue name q) :=
  ⟨rfl, same_setQueue QueueState.dead dead, fun other =>
    ⟨[], same_setQueue QueueState.pending pending other, by rintro _ ⟨⟩⟩, fun _ _ hm => hm⟩

theorem Frozen.setConsumer (h : ∀ m ∈ x.task.hand, m ∈ (s.consumers c).task.hand ∧
    x.queue = (s.consumers c).queue) : Frozen s (s.setConsumer c x) := by
  refine ⟨rfl, fun _ => rfl, fun _ => ⟨[], rfl, by rintro _ ⟨⟩⟩, ?_⟩
  rintro name m ⟨e, hname, hm⟩
  by_cases hec : e = c
  · subst hec
    simp only [State.setConsumer, Function.update_self] at hname hm
    obtain ⟨hm, hqueue⟩ := h m hm
    exact ⟨e, by rw [← hqueue, hname], hm⟩
  · simp only [State.setConsumer, Function.update_of_ne hec] at hname hm
    exact ⟨e, hname, hm⟩

/-- The consumer's task goes on with nothing in its hand. -/
theorem Frozen.empty (h : x.task.hand = []) : Frozen s (s.setConsumer c x) :=
  .setConsumer (by simp [h])

/-- Its task stays as it is. -/
theorem Frozen.beside (task : x.task = (s.consumers c).task)
    (queue : x.queue = (s.consumers c).queue) : Frozen s (s.setConsumer c x) :=
  .setConsumer fun _ hm => ⟨task ▸ hm, queue⟩

theorem Frozen.releaseHold (s : State V) (name : String) : Frozen s (s.releaseHold name) := by
  unfold State.releaseHold
  cases hq : s.queues name with
  | none => exact .same rfl rfl rfl
  | some q => exact .setQueue (by rw [queue_eq hq]) (by rw [queue_eq hq])

theorem Frozen.dropPermit (s : State V) (d : MemoryDelivery V) : Frozen s (s.dropPermit d) :=
  .beside rfl rfl

theorem Frozen.dropOrigin (s : State V) (r : Request V) : Frozen s (s.dropOrigin r) := by
  unfold State.dropOrigin
  split
  · exact .dropPermit _ _
  · exact .same rfl rfl rfl

theorem Frozen.recordAck (s : State V) (k : ℕ) (m : Message V) (kind : AckKind) :
    Frozen s (s.recordAck k m kind) := by
  refine Frozen.trans (u := s.setQueue m.envelope.queue { s.queue m.envelope.queue with
    settled := (s.queue m.envelope.queue).settled ++ [(m, kind)] }) ?_ (.same rfl rfl rfl)
  exact .setQueue rfl rfl

theorem Frozen.schedule (hclosed : s.closed = true) (hs : stepSchedule s k = some t) :
    Frozen s t := by
  obtain ⟨r, -, ⟨-, -, rfl⟩ | ⟨-, hopen, -⟩ | ⟨-, -, -, rfl⟩ | ⟨-, -, -, rfl⟩ | ⟨-, -, rfl⟩⟩ :=
    schedule_cases hs
  · exact .same rfl rfl rfl
  · cases hopen.symm.trans hclosed
  · exact .same rfl rfl rfl
  · exact .same rfl rfl rfl
  · exact (Frozen.dropOrigin s r).trans (.same rfl rfl rfl)

theorem Frozen.record (hclosed : s.closed = true) (hs : stepRecord s k = some t) : Frozen s t := by
  obtain ⟨r, d, -, -, rfl⟩ | ⟨d, -, rfl⟩ | ⟨d, reason, -, -, rfl⟩ | ⟨d, reason, -, hopen, -⟩ :=
    record_cases hs
  · exact ((Frozen.recordAck s k d.message r.kind).trans (.dropPermit _ d)).trans (.same rfl rfl rfl)
  · exact ((Frozen.recordAck s k d.message .succeeded).trans (.dropPermit _ d)).trans
      (.same rfl rfl rfl)
  · exact (Frozen.dropPermit s d).trans (.same rfl rfl rfl)
  · cases hopen.symm.trans hclosed

/-- A task whose receiver is gone puts its message back, whether or not the backend is closed. -/
theorem Frozen.requeue (hs : stepRequeue s c = some t) : Frozen s t := by
  obtain ⟨m, hc, ⟨q, hq, rfl⟩ | ⟨-, rfl⟩⟩ := requeue_cases hs
  · refine Frozen.trans (u := s.setQueue (s.consumers c).queue
      { q with pending := m :: q.pending }.wake) ?_ (.empty rfl)
    have hin : s.InHand (s.consumers c).queue m := ⟨c, rfl, by simp [hc, Task.hand]⟩
    refine ⟨rfl, same_setQueue QueueState.dead (by rw [queue_eq hq]; rfl), fun name => ?_,
      fun _ _ hm => hm⟩
    by_cases hname : name = (s.consumers c).queue
    · subst hname
      exact ⟨[m], by rw [queue_setQueue, queue_eq hq]; rfl, by simpa using hin⟩
    · exact ⟨[], by rw [queue_setQueue_of_ne hname]; rfl, by rintro _ ⟨⟩⟩
  · exact .empty rfl

theorem frozen_step (hclosed : s.closed = true) (hs : step s a = some t) : Frozen s t := by
  cases a with
  | tick elapsed =>
    obtain ⟨-, rfl⟩ := tick_cases hs
    exact .same rfl rfl rfl
  | declare configs =>
    obtain rfl := Option.some.inj hs
    rw [if_pos hclosed]
    exact .same rfl rfl rfl
  | publish k envelope delay =>
    obtain ⟨-, rfl⟩ := call_cases hs
    exact .same rfl rfl rfl
  | defer k envelope delay =>
    obtain ⟨-, rfl⟩ := call_cases hs
    exact .same rfl rfl rfl
  | settle k c i op =>
    obtain ⟨-, m, -, rfl⟩ := settle_cases hs
    refine Frozen.trans (u := s.setConsumer c
      { s.consumers c with out := (s.consumers c).out.eraseIdx i }) ?_ (.same rfl rfl rfl)
    exact .beside rfl rfl
  | check k =>
    obtain ⟨r, -, ⟨-, rfl⟩ | ⟨-, rfl⟩⟩ := check_cases hs
    · exact (Frozen.dropOrigin s r).trans (.same rfl rfl rfl)
    · exact .same rfl rfl rfl
  | schedule k => exact .schedule hclosed hs
  | count k =>
    obtain ⟨r, deadline, -, rfl⟩ := count_cases hs
    refine Frozen.trans (u := s.setQueue r.envelope.queue { s.queue r.envelope.queue with
      held := (s.queue r.envelope.queue).held + 1 }) ?_ (.same rfl rfl rfl)
    exact .setQueue rfl rfl
  | guard k =>
    obtain ⟨r, deadline, -, rfl⟩ := guard_cases hs
    exact .same rfl rfl rfl
  | record k => exact .record hclosed hs
  | fire n =>
    obtain ⟨m, guarded, -, -, rfl⟩ := fire_cases hs
    obtain ⟨u, hu, ⟨-, he⟩ | ⟨hopen, -⟩⟩ := enqueueNow_cases s m guarded
    · refine Frozen.trans (u := s.enqueueNow m guarded) ?_ (.same rfl rfl rfl)
      rw [he]
      obtain rfl | rfl := hu
      · exact .same rfl rfl rfl
      · exact .releaseHold s _
    · cases hopen.symm.trans hclosed
  | abort n =>
    obtain ⟨m, guarded, -, rfl⟩ := abort_cases hs
    exact .same rfl rfl rfl
  | release n =>
    obtain ⟨name, -, rfl⟩ := release_cases hs
    exact (Frozen.releaseHold s name).trans (.same rfl rfl rfl)
  | consume c config =>
    obtain ⟨-, ⟨-, rfl⟩ | ⟨hopen, -⟩⟩ := consume_cases hs
    · exact .empty rfl
    · cases hopen.symm.trans hclosed
  | acquire c =>
    obtain ⟨-, ⟨-, rfl⟩ | ⟨-, -, rfl⟩⟩ := acquire_cases hs <;> exact .empty rfl
  | pop c =>
    obtain ⟨-, ⟨-, rfl⟩ | ⟨hopen, -⟩ | ⟨hopen, -⟩⟩ := pop_cases hs
    · exact .empty rfl
    · cases hopen.symm.trans hclosed
    · cases hopen.symm.trans hclosed
  | notice c =>
    obtain ⟨-, -, rfl⟩ := notice_cases hs
    exact .empty rfl
  | giveUp c =>
    obtain ⟨-, ⟨-, rfl⟩ | ⟨-, rfl⟩⟩ := giveUp_cases hs <;> exact .empty rfl
  | send c =>
    obtain ⟨m, hc, ⟨-, rfl⟩ | ⟨-, rfl⟩⟩ := send_cases hs
    · exact .empty rfl
    · exact .setConsumer fun o ho => ⟨by simpa [hc, Task.hand] using ho, rfl⟩
  | requeue c => exact .requeue hs
  | leave c =>
    obtain ⟨-, ⟨q, hq, rfl⟩ | ⟨-, rfl⟩⟩ := leave_cases hs
    · exact Frozen.trans (.setQueue (by rw [queue_eq hq]) (by rw [queue_eq hq])) (.empty rfl)
    · exact .empty rfl
  | poll c =>
    obtain ⟨m, rest, -, -, rfl⟩ := poll_cases hs
    exact .beside rfl rfl
  | dropStream c =>
    obtain ⟨-, rfl⟩ := dropStream_cases hs
    exact .beside rfl rfl
  | drain c =>
    obtain ⟨collected, m, rest, -, -, rfl⟩ := drain_cases hs
    exact .beside rfl rfl
  | giveBack c =>
    obtain ⟨collected, -, -, ⟨-, rfl⟩ | ⟨hopen, -⟩⟩ := giveBack_cases hs
    · exact .beside rfl rfl
    · cases hopen.symm.trans hclosed
  | dropDelivery c i =>
    obtain ⟨-, rfl⟩ := dropDelivery_cases hs
    exact .beside rfl rfl
  | close =>
    obtain rfl := Option.some.inj hs
    refine ⟨rfl, fun name => ?_, fun name => ⟨[], ?_, by rintro _ ⟨⟩⟩, fun name m hm => ?_⟩
    · cases hq : s.queues name <;> simp [State.queue, QueueState.wake, hq]
    · cases hq : s.queues name <;> simp [State.queue, QueueState.wake, hq]
    · obtain ⟨c, hname, hm⟩ := hm
      refine ⟨c, ?_, ?_⟩
      · dsimp only at hname
        split_ifs at hname <;> exact hname
      · dsimp only at hm
        split_ifs at hm <;> exact hm

/-- What a call that starts on a closed backend comes to: it is refused and has done nothing,
unless it acks. -/
def Call.Late (did : List (Effect V)) : Call V → Prop
  | idle | checking _ | acking _ | burying _ _ => did = []
  | returned none (.ok ()) => ∃ m, did = [.acked m .succeeded]
  | returned _ (.error e) => e = .shutDown ∧ did = []
  | _ => False

/-- The backend is closed, and the calls of a set have come after. -/
def Turned (late : ℕ → Prop) (s : State V) : Prop :=
  s.closed = true ∧ ∀ k, late k → (s.calls k).Late (s.did k)

variable {late : ℕ → Prop} {call : Call V}

theorem Turned.aside (h : Turned late s) (ht : Aside s t) : Turned late t := by
  refine ⟨ht.closed.trans h.1, fun k hk => ?_⟩
  rw [ht.calls, ht.did]
  exact h.2 k hk

theorem Turned.move (h : Turned late s) (hclosed : t.closed = s.closed)
    (hcalls : t.calls = s.calls) (hdid : ∀ j, j ≠ k → t.did j = s.did j)
    (hk : late k → call.Late (t.did k)) : Turned late (t.setCall k call) := by
  refine ⟨hclosed.trans h.1, fun j hj => ?_⟩
  by_cases hjk : j = k
  · subst hjk
    simpa [State.setCall] using hk hj
  · simp only [State.setCall, Function.update_of_ne hjk, hcalls, hdid j hjk]
    exact h.2 j hj

/-- A call where no late one stands is not one. -/
theorem Turned.earlier (h : Turned late s) (hk : ¬(s.calls k).Late (s.did k)) : ¬late k :=
  fun hl => hk (h.2 k hl)

theorem Turned.idle (h : Turned late s) (hk : s.calls k = .idle) (hl : late k) : s.did k = [] := by
  have hlate := h.2 k hl
  rwa [hk] at hlate

theorem Turned.schedule (h : Turned late s) (hs : stepSchedule s k = some t) : Turned late t := by
  obtain ⟨r, hk, hcases⟩ := schedule_cases hs
  have hnot : ¬late k := h.earlier (by rw [hk]; exact id)
  obtain ⟨-, -, rfl⟩ | ⟨-, hopen, -⟩ | ⟨-, -, -, rfl⟩ | ⟨-, -, -, rfl⟩ | ⟨-, -, rfl⟩ := hcases
  · exact h.move rfl rfl (fun _ _ => rfl) fun hl => absurd hl hnot
  · cases hopen.symm.trans h.1
  · exact h.move rfl rfl (fun _ _ => rfl) fun hl => absurd hl hnot
  · exact h.move rfl rfl (fun j hj => did_note_ne hj _) fun hl => absurd hl hnot
  · exact (h.aside (.dropOrigin s r)).move rfl rfl (fun _ _ => rfl) fun hl => absurd hl hnot

theorem Turned.record (h : Turned late s) (hs : stepRecord s k = some t) : Turned late t := by
  have hlate := h.2 k
  obtain ⟨r, d, hk, -, rfl⟩ | ⟨d, hk, rfl⟩ | ⟨d, reason, hk, -, rfl⟩ | ⟨d, reason, -, hopen, -⟩ :=
    record_cases hs
  · rw [hk] at hlate
    exact h.move rfl rfl (fun j hj => did_note_ne hj _) fun hl => (hlate hl).elim
  · rw [hk] at hlate
    refine h.move rfl rfl (fun j hj => did_note_ne hj _) fun hl => ⟨d.message, ?_⟩
    refine (did_note _ _ _).trans ?_
    show s.did k ++ _ = _
    rw [show s.did k = [] from hlate hl]
    rfl
  · rw [hk] at hlate
    exact h.move rfl rfl (fun _ _ => rfl) fun hl => ⟨rfl, hlate hl⟩
  · cases hopen.symm.trans h.1

theorem turned_step (h : Turned late s) (hs : step s a = some t) : Turned late t := by
  by_cases ha : a.ofCall = false
  · exact h.aside (aside_of_step ha hs)
  cases a with
  | publish k envelope delay =>
    obtain ⟨hk, rfl⟩ := call_cases hs
    exact h.move rfl rfl (fun _ _ => rfl) (h.idle hk)
  | defer k envelope delay =>
    obtain ⟨hk, rfl⟩ := call_cases hs
    exact h.move rfl rfl (fun _ _ => rfl) (h.idle hk)
  | settle k c i op =>
    obtain ⟨hk, m, -, rfl⟩ := settle_cases hs
    refine (h.aside (.setConsumer _ _ _)).move rfl rfl (fun _ _ => rfl) fun hl => ?_
    cases op <;> exact h.idle hk hl
  | check k =>
    have hlate := h.2 k
    obtain ⟨r, hk, ⟨-, rfl⟩ | ⟨hopen, -⟩⟩ := check_cases hs
    · rw [hk] at hlate
      have aside := Aside.dropOrigin s r
      refine (h.aside aside).move rfl rfl (fun _ _ => rfl) fun hl => ⟨rfl, ?_⟩
      rw [aside.did]
      exact hlate hl
    · cases hopen.symm.trans h.1
  | schedule k => exact h.schedule hs
  | count k =>
    obtain ⟨r, deadline, hk, rfl⟩ := count_cases hs
    have hnot : ¬late k := h.earlier (by rw [hk]; exact id)
    exact h.move rfl rfl (fun j hj => did_note_ne hj _) fun hl => absurd hl hnot
  | guard k =>
    obtain ⟨r, deadline, hk, rfl⟩ := guard_cases hs
    have hnot : ¬late k := h.earlier (by rw [hk]; exact id)
    exact h.move rfl rfl (fun j hj => did_note_ne hj _) fun hl => absurd hl hnot
  | record k => exact h.record hs
  | close =>
    have h' : Turned late { s with closed := true } := ⟨rfl, h.2⟩
    exact h'.aside (aside_of_close hs)
  | _ => exact absurd rfl ha

/-- A closed backend stays closed. Whatever runs on it, nothing is inserted or buried any more,
what comes back to a queue was in a consumer's hand at the close, and a call that had not begun
by then is refused without effect, unless it is an ack. -/
theorem closed_backend (h : Reachable (system V) s) (hclosed : s.closed = true)
    (actions : List (Action V)) (hrun : (system V).run s actions = some t) :
    t.closed = true ∧ Frozen s t ∧ ∀ k, s.calls k = .idle → (t.calls k).Late (t.did k) := by
  have keep : ∀ u a t, Turned (fun k => s.calls k = .idle) u ∧ Frozen s u →
      (system V).step u a = some t → Turned (fun k => s.calls k = .idle) t ∧ Frozen s t :=
    fun u a t hu hs => ⟨turned_step hu.1 hs, hu.2.trans (frozen_step hu.1.1 hs)⟩
  have start : Turned (fun k => s.calls k = .idle) s := by
    refine ⟨hclosed, fun k hk => ?_⟩
    have hlog := reachable_logged h k
    rw [hk] at hlog ⊢
    exact hlog
  obtain ⟨ht, hfrozen⟩ := run_preserves keep ⟨start, .same rfl rfl rfl⟩ hrun
  exact ⟨ht.1, hfrozen, ht.2⟩

/-- The close finds a job handed out. Its ack is recorded, and a publish is refused. -/
theorem closed_backend_mail : ∃ s t : State Unit, Reachable (system Unit) s ∧ s.closed = true ∧
    (system Unit).run s [.settle 1 0 0 .ack, .record 1, .publish 2 mail none, .check 2] = some t ∧
    t.calls 1 = .returned none (.ok ()) ∧ (t.calls 1).Late (t.did 1) ∧
    (t.calls 2).Late (t.did 2) := by
  have start : Reachable (system Unit) (initial 0 10) := .start ⟨0, 10, by decide, rfl⟩
  have reached := start.run (handedOut mail ++ [Action.close]) rfl
  have hrun := closed_backend reached rfl
    [.settle 1 0 0 .ack, .record 1, .publish 2 mail none, .check 2] rfl
  exact ⟨_, _, reached, rfl, rfl, rfl, hrun.2.2 1 rfl, hrun.2.2 2 rfl⟩

end Queuey.MemoryBackend
