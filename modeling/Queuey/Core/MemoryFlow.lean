import Queuey.Core.Conservation

/-!
# Awake and asleep

A message sleeps in its timer or is awake in a queue, with a consumer or with a call. Steps
pass awake messages on or lose them; a message wakes up when its timer fires, and its timer
is over then. This holds in every run, whatever is dropped, aborted or closed.
-/
namespace Queuey.MemoryBackend
open Transition

variable {V : Type} {s t : State V} {a : Action V} {k c i n : ℕ} {r : Request V} {op : Settle V}
  {config : QueueConfig} {m o : Message V} {name : String}

def Place.awake : Place → Bool
  | .timer _ => false
  | _ => true

/-- The message is in a box that is not a timer's. -/
def Awake (box : Place → List (Message V)) (m : Message V) : Prop :=
  ∃ p, p.awake = true ∧ m ∈ box p

theorem Awake.update {box : Place → List (Message V)} {p : Place} {l : List (Message V)}
    (h : Awake (Function.update box p l) m) (hl : p.awake = true → m ∈ l → Awake box m) :
    Awake box m := by
  obtain ⟨p', hp', hm⟩ := h
  by_cases heq : p' = p
  · subst heq
    exact hl hp' (by simpa using hm)
  · exact ⟨p', hp', by simpa [heq] using hm⟩

/-- What is awake after a step of one of the parts was awake before. -/
theorem Awake.setQueue {q : QueueState V} (part : QueuePart)
    (same : ∀ p, p ≠ part → q.box p = (s.queue name).box p)
    (hq : ∀ o ∈ q.box part, Awake s.box o) (h : Awake (s.setQueue name q).box m) :
    Awake s.box m := by
  rw [box_setQueue part same] at h
  exact h.update fun _ => hq m

theorem Awake.setConsumer {x : Consumer V} (hx : ∀ p, ∀ o ∈ x.box p, Awake s.box o)
    (h : Awake (s.setConsumer c x).box m) : Awake s.box m := by
  obtain ⟨p, hp, hm⟩ := h
  cases p with
  | consumer d part =>
    by_cases hd : d = c
    · exact hx part m (by simpa [State.box, State.setConsumer, hd] using hm)
    · exact ⟨.consumer d part, rfl, by simpa [State.box, State.setConsumer, hd] using hm⟩
  | queue other part => exact ⟨.queue other part, rfl, hm⟩
  | timer n => cases hp
  | call k => exact ⟨.call k, rfl, hm⟩

theorem Awake.setCall {call : Call V} (hk : ∀ o ∈ call.box, Awake s.box o)
    (h : Awake (s.setCall k call).box m) : Awake s.box m := by
  rw [box_setCall] at h
  exact h.update fun _ => hk m

/-- The call has come to its end. -/
theorem Awake.endCall {call : Call V} (hk : call.box = [])
    (h : Awake (s.setCall k call).box m) : Awake s.box m := by
  refine h.setCall fun o ho => ?_
  rw [hk] at ho
  cases ho

theorem Awake.setTimer {timer : Timer V} (h : Awake (s.setTimer n timer).box m) :
    Awake s.box m := by
  rw [box_setTimer] at h
  exact h.update nofun

/-- The box of a consumer, by its part. -/
theorem awake_part (c : ℕ) (part : ConsumerPart) (h : m ∈ (s.consumers c).box part) :
    Awake s.box m :=
  ⟨.consumer c part, rfl, h⟩

theorem awake_pending (name : String) (h : m ∈ (s.queue name).pending) : Awake s.box m :=
  ⟨.queue name .pending, rfl, h⟩

theorem awake_call (h : m ∈ (s.calls k).box) : Awake s.box m := ⟨.call k, rfl, h⟩

theorem Awake.scheduled (hk : ∀ o ∈ r.original, Awake s.box o)
    (h : Awake (s.scheduled k r).box m) : Awake s.box m := by
  refine h.setCall fun o ho => hk o ?_
  unfold Request.original
  cases hr : r.origin with
  | none => simp [hr, Call.box] at ho
  | some d => simpa [hr, Call.box, Request.original] using ho

theorem Awake.dropPermit {d : MemoryDelivery V} (h : Awake (s.dropPermit d).box m) :
    Awake s.box m := by
  rwa [box_dropPermit] at h

theorem Awake.dropOrigin (h : Awake (s.dropOrigin r).box m) : Awake s.box m := by
  unfold State.dropOrigin at h
  split at h
  · exact h.dropPermit
  · exact h

theorem Awake.insert (h : Awake (s.insert m).box o) : o = m ∨ Awake s.box o := by
  by_cases ho : o = m
  · exact .inl ho
  · rw [box_insert] at h
    refine .inr (h.update fun _ hin => ?_)
    rw [(insertByPriority_perm _ m).mem_iff, List.mem_cons] at hin
    exact awake_pending _ (hin.resolve_left ho)

theorem Awake.recordAck {kind : AckKind} (h : Awake (s.recordAck k m kind).box o)
    (hm : Awake s.box m) : Awake s.box o := by
  rw [box_recordAck] at h
  refine h.update fun _ hin => ?_
  obtain hin | hin := List.mem_append.mp hin
  · exact ⟨.queue m.envelope.queue .settled, rfl, hin⟩
  · rw [List.mem_singleton.mp hin]
    exact hm

/-! ## What is awake, step by step -/

/-- Nobody wakes up. -/
abbrev Dozes (s t : State V) : Prop := ∀ m, Awake t.box m → Awake s.box m

theorem Dozes.setConsumer {x : Consumer V}
    (transit : ∀ o ∈ x.task.hand, Awake s.box o) (unread : ∀ o ∈ x.unread, Awake s.box o)
    (returning : ∀ o ∈ x.stream.collected, Awake s.box o) (out : ∀ o ∈ x.out, Awake s.box o) :
    Dozes s (s.setConsumer c x) := by
  intro m h
  refine h.setConsumer fun p o ho => ?_
  cases p with
  | transit => exact transit o ho
  | unread => exact unread o ho
  | returning => exact returning o ho
  | unsettled => exact out o ho

/-- The consumer's task moves on with nothing but what it had in hand. -/
theorem Dozes.idleTask {x : Consumer V} (task : ∀ o ∈ x.task.hand, o ∈ (s.consumers c).task.hand)
    (unread : x.unread = (s.consumers c).unread) (out : x.out = (s.consumers c).out)
    (stream : x.stream.collected = (s.consumers c).stream.collected) :
    Dozes s (s.setConsumer c x) := by
  refine .setConsumer (fun o ho => ?_) (fun o ho => ?_) (fun o ho => ?_) fun o ho => ?_
  · exact awake_part c .transit (task o ho)
  · exact awake_part c .unread (show o ∈ (s.consumers c).unread from unread ▸ ho)
  · exact awake_part c .returning (show o ∈ (s.consumers c).stream.collected from stream ▸ ho)
  · exact awake_part c .unsettled (show o ∈ (s.consumers c).out from out ▸ ho)

theorem Dozes.settle (hs : stepSettle s k c i op = some t) : Dozes s t := by
  obtain ⟨-, o, ho, rfl⟩ := settle_cases hs
  have hout : Awake s.box o := awake_part c .unsettled (List.mem_of_getElem? ho)
  have rest : Dozes s (s.setConsumer c
      { s.consumers c with out := (s.consumers c).out.eraseIdx i }) :=
    .setConsumer (fun _ => awake_part c .transit) (fun _ => awake_part c .unread)
      (fun _ => awake_part c .returning) fun p hp =>
        awake_part c .unsettled (List.mem_of_mem_eraseIdx hp)
  intro m h
  rw [box_setCall] at h
  by_cases hm : m = o
  · exact hm ▸ hout
  · refine rest m (h.update fun _ hin => absurd ?_ hm)
    cases op <;> simpa [Settle.call, Call.box, Request.original] using hin

theorem Dozes.check (hs : stepCheck s k = some t) : Dozes s t := by
  intro m h
  obtain ⟨r, hk, ⟨-, rfl⟩ | ⟨-, rfl⟩⟩ := check_cases hs
  · exact (h.endCall rfl).dropOrigin
  · exact h.setCall fun o ho => awake_call (k := k) (by rwa [hk])

theorem Dozes.count (hs : stepCount s k = some t) : Dozes s t := by
  intro m h
  obtain ⟨r, deadline, hk, rfl⟩ := count_cases hs
  have hbox : ∀ o, Awake (s.setQueue r.envelope.queue
      { s.queue r.envelope.queue with held := (s.queue r.envelope.queue).held + 1 }).box o ↔
        Awake s.box o := fun o => by
    rw [box_setQueue_same fun p => by cases p <;> rfl]
  refine (hbox m).mp (h.setCall fun o ho => (hbox o).mpr ?_)
  exact awake_call (k := k) (by rwa [hk])

theorem Dozes.guard (hs : stepGuard s k = some t) : Dozes s t := by
  intro m h
  obtain ⟨r, deadline, hk, rfl⟩ := guard_cases hs
  refine Awake.setTimer (n := s.accepted.length) (h.scheduled fun o ho => ?_)
  exact ⟨.call k, rfl, by show o ∈ (s.calls k).box; rwa [hk]⟩

theorem Dozes.record (hs : stepRecord s k = some t) : Dozes s t := by
  intro m h
  obtain ⟨r, d, hk, hr, rfl⟩ | ⟨d, hk, rfl⟩ | ⟨d, reason, -, -, rfl⟩ | ⟨d, reason, hk, -, rfl⟩ :=
    record_cases hs
  · refine (h.endCall rfl).dropPermit.recordAck (awake_call (k := k) ?_)
    rw [hk]
    simp [Call.box, Request.original, hr]
  · refine (h.endCall rfl).dropPermit.recordAck (awake_call (k := k) ?_)
    rw [hk]
    exact List.mem_singleton_self _
  · exact (h.endCall rfl).dropPermit
  · have hd : Awake s.box d.message :=
      awake_call (k := k) (by rw [hk]; exact List.mem_singleton_self _)
    refine Awake.setQueue .dead (fun p hp => ?_) (fun o ho => ?_) ((h.endCall rfl).dropPermit)
    · cases p <;> first | exact absurd rfl hp | rfl
    · obtain ⟨entry, hentry, rfl⟩ := List.mem_map.mp ho
      obtain hentry | hentry := List.mem_append.mp hentry
      · exact ⟨.queue d.message.envelope.queue .dead, rfl, List.mem_map_of_mem hentry⟩
      · rw [List.mem_singleton.mp hentry]
        exact hd

theorem Dozes.pop (hs : stepPop s c = some t) : Dozes s t := by
  obtain ⟨hc, ⟨-, rfl⟩ | ⟨-, -, rfl⟩ | ⟨-, q, m, rest, hq, hm, rfl⟩⟩ := pop_cases hs
  · exact .idleTask nofun rfl rfl rfl
  · exact .idleTask nofun rfl rfl rfl
  · have pending : ∀ o ∈ q.pending, Awake s.box o := fun o ho =>
      awake_pending (s.consumers c).queue (by rwa [queue_eq hq])
    intro o h
    by_cases ho : o = m
    · exact pending o (by rw [hm, ho]; exact List.mem_cons_self)
    · have popped : Awake (s.setQueue (s.consumers c).queue { q with pending := rest }).box o := by
        rw [State.setTask, box_setConsumer .transit fun p hp => by
          cases p <;> first | exact absurd rfl hp | rfl] at h
        exact h.update fun _ hin => absurd (List.mem_singleton.mp hin) ho
      refine popped.setQueue .pending (fun p hp => ?_) fun o ho => ?_
      · rw [queue_eq hq]
        cases p <;> first | exact absurd rfl hp | rfl
      · exact pending o (by rw [hm]; exact List.mem_cons_of_mem _ ho)

theorem Dozes.send (hs : stepSend s c = some t) : Dozes s t := by
  obtain ⟨m, hc, ⟨-, rfl⟩ | ⟨-, rfl⟩⟩ := send_cases hs
  · have hm : m ∈ (s.consumers c).box .transit := by simp [Consumer.box, hc, Task.hand]
    refine .setConsumer (by simp [Task.hand]) (fun o ho => ?_) (fun _ => awake_part c .returning) fun _ =>
      awake_part c .unsettled
    obtain ho | ho := List.mem_append.mp ho
    · exact awake_part c .unread ho
    · exact awake_part c .transit (List.mem_singleton.mp ho ▸ hm)
  · exact .idleTask (fun o ho => by rwa [hc]) rfl rfl rfl

theorem Dozes.requeue (hs : stepRequeue s c = some t) : Dozes s t := by
  obtain ⟨m, hc, ⟨q, hq, rfl⟩ | ⟨hq, rfl⟩⟩ := requeue_cases hs
  · intro o h
    have idle := Dozes.idleTask (s := s.setQueue _ _)
      (x := { s.consumers c with task := .leaving }) (by simp [Task.hand]) rfl rfl rfl o h
    refine idle.setQueue .pending (fun p hp => ?_) fun o ho => ?_
    · rw [queue_eq hq]
      cases p <;> first | exact absurd rfl hp | rfl
    · obtain rfl | ho := List.mem_cons.mp ho
      · exact awake_part c .transit (by simp [Consumer.box, hc, Task.hand])
      · exact awake_pending (s.consumers c).queue (by rwa [queue_eq hq])
  · exact .idleTask (by simp [Task.hand]) rfl rfl rfl

theorem Dozes.poll (hs : stepPoll s c = some t) : Dozes s t := by
  obtain ⟨m, rest, -, hm, rfl⟩ := poll_cases hs
  have unread : ∀ o ∈ m :: rest, Awake s.box o := fun o ho =>
    awake_part c .unread (show o ∈ (s.consumers c).unread from hm ▸ ho)
  refine .setConsumer (fun _ => awake_part c .transit)
    (fun o ho => unread o (List.mem_cons_of_mem _ ho)) (fun _ => awake_part c .returning)
    fun o ho => ?_
  obtain ho | ho := List.mem_append.mp ho
  · exact awake_part c .unsettled ho
  · exact unread o (List.mem_singleton.mp ho ▸ List.mem_cons_self)

theorem Dozes.drain (hs : stepDrain s c = some t) : Dozes s t := by
  obtain ⟨collected, m, rest, hc, hm, rfl⟩ := drain_cases hs
  have unread : ∀ o ∈ m :: rest, Awake s.box o := fun o ho =>
    awake_part c .unread (show o ∈ (s.consumers c).unread from hm ▸ ho)
  refine .setConsumer (fun _ => awake_part c .transit)
    (fun o ho => unread o (List.mem_cons_of_mem _ ho)) (fun o ho => ?_) fun _ =>
      awake_part c .unsettled
  obtain ho | ho := List.mem_append.mp ho
  · exact awake_part c .returning (show o ∈ (s.consumers c).stream.collected from hc ▸ ho)
  · exact unread o (List.mem_singleton.mp ho ▸ List.mem_cons_self)

theorem Dozes.giveBack (hs : stepGiveBack s c = some t) : Dozes s t := by
  have gone : ∀ {u : State V}, u.consumers c = s.consumers c →
      Dozes u (u.setConsumer c { s.consumers c with stream := .gone }) := by
    intro u hu
    rw [← hu]
    exact .setConsumer (fun _ => awake_part c .transit) (fun _ => awake_part c .unread) nofun
      fun _ => awake_part c .unsettled
  obtain ⟨collected, hc, -, ⟨-, rfl⟩ | ⟨-, rfl⟩⟩ := giveBack_cases hs
  · exact gone rfl
  · intro o h
    refine Awake.setQueue .pending (fun p hp => ?_) (fun o ho => ?_)
      (gone (u := s.setQueue _ _) rfl o h)
    · cases p <;> first | exact absurd rfl hp | rfl
    · obtain ho | ho := List.mem_append.mp ho
      · exact awake_part c .returning (show o ∈ (s.consumers c).stream.collected from hc ▸ ho)
      · exact awake_pending _ ho

theorem Dozes.consume (hs : stepConsume s c config = some t) : Dozes s t := by
  obtain ⟨-, ⟨-, rfl⟩ | ⟨-, rfl⟩⟩ := consume_cases hs
  · exact .setConsumer nofun nofun nofun nofun
  · intro o h
    have idle := Dozes.setConsumer (s := s.setQueue _ _)
      (x := .fresh config (s.queue config.name).signal .acquiring) nofun nofun nofun nofun o h
    rwa [box_setQueue_same fun p => by cases p <;> rfl] at idle

theorem Dozes.leave (hs : stepLeave s c = some t) : Dozes s t := by
  obtain ⟨-, ⟨q, hq, rfl⟩ | ⟨-, rfl⟩⟩ := leave_cases hs
  · intro o h
    have idle := Dozes.idleTask (s := s.setQueue _ _) (x := { s.consumers c with task := .ended })
      nofun rfl rfl rfl o h
    rwa [box_setQueue_same fun p => by rw [queue_eq hq]; cases p <;> rfl] at idle
  · exact .idleTask nofun rfl rfl rfl

theorem Dozes.close (hs : stepClose s = some t) : Dozes s t := by
  obtain rfl := Option.some.inj hs
  rintro o ⟨p, hp, ho⟩
  refine ⟨p, hp, ?_⟩
  cases p with
  | queue name part =>
    cases hq : s.queues name <;> cases part <;>
      simpa [State.box, State.queue, hq, QueueState.box, QueueState.wake] using ho
  | consumer c part =>
    simp only [State.box] at ho ⊢
    split_ifs at ho
    · cases part <;> exact ho
    · exact ho
  | timer n => cases hp
  | call k => exact ho

/-- Only a scheduling or a timer that fires wakes a message up. -/
def Action.wakes : Action V → Bool
  | schedule _ | fire _ => true
  | _ => false

theorem dozes_of_step (ha : a.wakes = false) (hs : step s a = some t) : Dozes s t := by
  cases a with
  | tick elapsed =>
    obtain ⟨-, rfl⟩ := tick_cases hs
    exact fun m h => h
  | declare configs =>
    obtain rfl := Option.some.inj hs
    intro m h
    split_ifs at h
    · exact h
    · obtain ⟨p, hp, hm⟩ := h
      refine ⟨p, hp, ?_⟩
      cases p with
      | queue name part =>
        have hsame := declared_box configs s.queues name part
        exact (congrArg (m ∈ ·) hsame).mp hm
      | _ => exact hm
  | publish k envelope delay =>
    obtain ⟨-, rfl⟩ := call_cases hs
    exact fun m h => h.endCall rfl
  | defer k envelope delay =>
    obtain ⟨-, rfl⟩ := call_cases hs
    exact fun m h => h.endCall rfl
  | settle k c i op => exact .settle hs
  | check k => exact .check hs
  | count k => exact .count hs
  | guard k => exact .guard hs
  | record k => exact .record hs
  | abort n =>
    obtain ⟨o, guarded, -, rfl⟩ := abort_cases hs
    exact fun m h => h.setTimer
  | release n =>
    obtain ⟨name, -, rfl⟩ := release_cases hs
    intro m h
    have h := h.setTimer
    rwa [box_releaseHold] at h
  | consume c config => exact .consume hs
  | acquire c =>
    obtain ⟨-, ⟨-, rfl⟩ | ⟨-, -, rfl⟩⟩ := acquire_cases hs <;> exact .idleTask nofun rfl rfl rfl
  | pop c => exact .pop hs
  | notice c =>
    obtain ⟨-, -, rfl⟩ := notice_cases hs
    exact .idleTask nofun rfl rfl rfl
  | giveUp c =>
    obtain ⟨-, ⟨-, rfl⟩ | ⟨-, rfl⟩⟩ := giveUp_cases hs <;> exact .idleTask nofun rfl rfl rfl
  | send c => exact .send hs
  | requeue c => exact .requeue hs
  | leave c => exact .leave hs
  | poll c => exact .poll hs
  | dropStream c =>
    obtain ⟨hc, rfl⟩ := dropStream_cases hs
    exact .idleTask (fun _ => id) rfl rfl (by rw [hc]; rfl)
  | drain c => exact .drain hs
  | giveBack c => exact .giveBack hs
  | dropDelivery c i =>
    obtain ⟨-, rfl⟩ := dropDelivery_cases hs
    refine .setConsumer (fun _ => awake_part c .transit) (fun _ => awake_part c .unread)
      (fun _ => awake_part c .returning) fun p hp => ?_
    exact awake_part c .unsettled (List.mem_of_mem_eraseIdx hp)
  | close => exact .close hs
  | _ => cases ha

/-- Who is awake after a step was awake before, is new, or wakes up as its timer fires. -/
inductive Woken (s t : State V) (m : Message V) : Prop where
  | before (h : Awake s.box m)
  | fresh (id : m.id = s.accepted.length) (accepted : t.accepted = s.accepted ++ [m])
      (timers : t.timers = s.timers)
  | fired (n : ℕ) (guarded : Bool) (slept : s.timers n = .sleeping m guarded)
      (finished : t.timers n = .finished)

theorem Woken.dozes (h : Awake t.box m) (hd : Dozes s t) : Woken s t m := .before (hd m h)

/-- A message that a scheduling wakes up has no delay. -/
theorem awake_of_schedule (hs : stepSchedule s k = some t) (h : Awake t.box m) :
    Awake s.box m ∨ ∃ r, r.delay.isZero = true ∧ m = s.message r ∧
      t.accepted = s.accepted ++ [m] ∧ t.timers = s.timers := by
  obtain ⟨r, hk, ⟨-, -, rfl⟩ | ⟨hzero, -, rfl⟩ | ⟨-, -, -, rfl⟩ | ⟨-, -, -, rfl⟩ | ⟨-, -, rfl⟩⟩ :=
    schedule_cases hs
  all_goals have original : ∀ o ∈ r.original, Awake s.box o := fun o ho =>
    awake_call (k := k) (by rwa [hk])
  · exact .inl (h.scheduled original)
  · have inserted : Awake (s.insert (s.message r)).box m :=
      h.scheduled fun o ho => by
        show Awake (s.insert (s.message r)).box o
        exact ⟨.call k, rfl, by show o ∈ (s.calls k).box; rwa [hk]⟩
    obtain rfl | h := inserted.insert
    · exact .inr ⟨r, hzero, rfl, rfl, rfl⟩
    · exact .inl h
  · refine .inl (h.setCall ?_)
    exact original
  · refine .inl (Awake.setTimer (n := s.accepted.length) (h.scheduled fun o ho => ?_))
    exact ⟨.call k, rfl, by show o ∈ (s.calls k).box; rwa [hk]⟩
  · exact .inl (h.endCall rfl).dropOrigin

/-- A message that a timer wakes up is due. -/
theorem awake_of_fire (hs : stepFire s n = some t) (h : Awake t.box m) :
    Awake s.box m ∨ ∃ guarded, s.timers n = .sleeping m guarded ∧ m.due ≤ s.now ∧
      t.timers n = .finished := by
  obtain ⟨o, guarded, hn, hdue, rfl⟩ := fire_cases hs
  obtain ⟨u, hu, he⟩ := enqueueNow_cases s o guarded
  have hbox : u.box = s.box := by
    obtain rfl | rfl := hu
    · rfl
    · exact box_releaseHold _ _
  have h := h.setTimer
  obtain ⟨-, he⟩ | ⟨-, he⟩ := he <;> rw [he] at h
  · exact .inl (hbox ▸ h)
  · obtain rfl | h := h.insert
    · exact .inr ⟨guarded, hn, hdue, by simp [State.setTimer]⟩
    · exact .inl (hbox ▸ h)

theorem woken_of_step (hs : step s a = some t) (h : Awake t.box m) : Woken s t m := by
  by_cases ha : a.wakes = false
  · exact .dozes h (dozes_of_step ha hs)
  cases a with
  | schedule k =>
    obtain hbefore | ⟨r, -, rfl, accepted, timers⟩ := awake_of_schedule hs h
    · exact .before hbefore
    · exact .fresh rfl accepted timers
  | fire n =>
    obtain hbefore | ⟨guarded, slept, -, finished⟩ := awake_of_fire hs h
    · exact .before hbefore
    · exact .fired n guarded slept finished
  | _ => exact absurd rfl ha

/-! ## Timers -/

/-- Timers that are over or not yet started stay so, but for those of new messages. -/
structure Ticking (s t : State V) : Prop where
  accepted : s.accepted.length ≤ t.accepted.length
  idle : ∀ n, n < s.accepted.length → s.timers n = .unborn ∨ s.timers n = .finished →
    t.timers n = s.timers n
  asleep : ∀ n m guarded, t.timers n = .sleeping m guarded →
    s.timers n = .sleeping m guarded ∨ m.id = n

theorem Ticking.same (accepted : t.accepted = s.accepted) (timers : t.timers = s.timers) :
    Ticking s t :=
  ⟨by rw [accepted], fun n _ _ => by rw [timers], fun n m guarded h => .inl (by rwa [← timers])⟩

theorem Ticking.spawn {guarded : Bool} (hm : m.id = s.accepted.length)
    (accepted : t.accepted = s.accepted ++ [m])
    (timers : t.timers = Function.update s.timers m.id (.sleeping m guarded)) : Ticking s t where
  accepted := by simp [accepted]
  idle n hn _ := by rw [timers, Function.update_of_ne (by omega)]
  asleep n o g h := by
    rw [timers, Function.update_apply] at h
    split_ifs at h with hnm
    · obtain ⟨rfl, -⟩ : m = o ∧ guarded = g := by simpa using h
      exact .inr hnm.symm
    · exact .inl h

/-- A timer that sleeps or releases its hold goes on. -/
theorem Ticking.timer (timer : Timer V) (accepted : t.accepted = s.accepted)
    (timers : t.timers = Function.update s.timers n timer)
    (busy : s.timers n ≠ .unborn ∧ s.timers n ≠ .finished)
    (wakes : ∀ m guarded, timer ≠ .sleeping m guarded) : Ticking s t where
  accepted := by rw [accepted]
  idle j _ hj := by
    have hjn : j ≠ n := by
      rintro rfl
      exact hj.elim busy.1 busy.2
    rw [timers, Function.update_of_ne hjn]
  asleep j o g h := by
    rw [timers, Function.update_apply] at h
    split_ifs at h
    · exact absurd h (wakes o g)
    · exact .inl h

theorem dropOrigin_timers (s : State V) (r : Request V) : (s.dropOrigin r).timers = s.timers := by
  unfold State.dropOrigin
  split <;> rfl

theorem dropOrigin_accepted (s : State V) (r : Request V) :
    (s.dropOrigin r).accepted = s.accepted := by
  unfold State.dropOrigin
  split <;> rfl

theorem dropOrigin_calls (s : State V) (r : Request V) : (s.dropOrigin r).calls = s.calls := by
  unfold State.dropOrigin
  split <;> rfl

theorem releaseHold_calls (s : State V) (name : String) : (s.releaseHold name).calls = s.calls := by
  unfold State.releaseHold
  split <;> rfl

theorem releaseHold_accepted (s : State V) (name : String) :
    (s.releaseHold name).accepted = s.accepted := by
  unfold State.releaseHold
  split <;> rfl

theorem enqueueNow_accepted (s : State V) (m : Message V) (guarded : Bool) :
    (s.enqueueNow m guarded).accepted = s.accepted := by
  obtain ⟨u, rfl | rfl, ⟨-, he⟩ | ⟨-, he⟩⟩ := enqueueNow_cases s m guarded <;> rw [he]
  · rfl
  · exact releaseHold_accepted _ _
  · exact releaseHold_accepted _ _

theorem releaseHold_consumers (s : State V) (name : String) :
    (s.releaseHold name).consumers = s.consumers := by
  unfold State.releaseHold
  split <;> rfl

theorem enqueueNow_consumers (s : State V) (m : Message V) (guarded : Bool) :
    (s.enqueueNow m guarded).consumers = s.consumers := by
  obtain ⟨u, rfl | rfl, ⟨-, he⟩ | ⟨-, he⟩⟩ := enqueueNow_cases s m guarded <;> rw [he]
  · rfl
  · exact releaseHold_consumers _ _
  · exact releaseHold_consumers _ _

theorem enqueueNow_calls (s : State V) (m : Message V) (guarded : Bool) :
    (s.enqueueNow m guarded).calls = s.calls := by
  obtain ⟨u, rfl | rfl, ⟨-, he⟩ | ⟨-, he⟩⟩ := enqueueNow_cases s m guarded <;> rw [he]
  · rfl
  · exact releaseHold_calls _ _
  · exact releaseHold_calls _ _

theorem Ticking.schedule (hs : stepSchedule s k = some t) : Ticking s t := by
  obtain ⟨r, hk, ⟨-, -, rfl⟩ | ⟨-, -, rfl⟩ | ⟨-, -, -, rfl⟩ | ⟨-, -, -, rfl⟩ | ⟨-, -, rfl⟩⟩ :=
    schedule_cases hs
  · exact .same rfl rfl
  · refine ⟨?_, fun n _ _ => rfl, fun n m guarded h => .inl h⟩
    show s.accepted.length ≤ (s.accepted ++ [s.message r]).length
    simp
  · exact .same rfl rfl
  · exact .spawn rfl rfl rfl
  · exact .same (dropOrigin_accepted s r) (dropOrigin_timers s r)

theorem Ticking.fire (hs : stepFire s n = some t) : Ticking s t := by
  obtain ⟨m, guarded, hn, -, rfl⟩ := fire_cases hs
  refine .timer (n := n) .finished (enqueueNow_accepted s m guarded) ?_
    (by rw [hn]; exact ⟨nofun, nofun⟩) nofun
  show Function.update (s.enqueueNow m guarded).timers n .finished = _
  rw [enqueueNow_timers]

/-- Only a new message's timer is started, and only a running one goes on. -/
theorem ticking_step (hs : step s a = some t) : Ticking s t := by
  cases a with
  | tick elapsed =>
    obtain ⟨-, rfl⟩ := tick_cases hs
    exact .same rfl rfl
  | declare configs =>
    obtain rfl := Option.some.inj hs
    split_ifs <;> exact .same rfl rfl
  | publish k envelope delay =>
    obtain ⟨-, rfl⟩ := call_cases hs
    exact .same rfl rfl
  | defer k envelope delay =>
    obtain ⟨-, rfl⟩ := call_cases hs
    exact .same rfl rfl
  | settle k c i op =>
    obtain ⟨-, m, -, rfl⟩ := settle_cases hs
    exact .same rfl rfl
  | check k =>
    obtain ⟨r, -, ⟨-, rfl⟩ | ⟨-, rfl⟩⟩ := check_cases hs
    · exact .same (dropOrigin_accepted s r) (dropOrigin_timers s r)
    · exact .same rfl rfl
  | schedule k => exact .schedule hs
  | count k =>
    obtain ⟨r, deadline, -, rfl⟩ := count_cases hs
    exact .same rfl rfl
  | guard k =>
    obtain ⟨r, deadline, -, rfl⟩ := guard_cases hs
    exact .spawn (m := { s.message r with due := deadline }) rfl rfl rfl
  | record k =>
    obtain ⟨r, d, -, -, rfl⟩ | ⟨d, -, rfl⟩ | ⟨d, reason, -, -, rfl⟩ | ⟨d, reason, -, -, rfl⟩ :=
      record_cases hs <;> exact .same rfl rfl
  | fire n => exact .fire hs
  | abort n =>
    obtain ⟨m, guarded, hn, rfl⟩ := abort_cases hs
    refine .timer _ rfl rfl (by rw [hn]; exact ⟨nofun, nofun⟩) fun o g => ?_
    split_ifs <;> nofun
  | release n =>
    obtain ⟨name, hn, rfl⟩ := release_cases hs
    refine .timer (n := n) .finished (releaseHold_accepted s name) ?_
      (by rw [hn]; exact ⟨nofun, nofun⟩) nofun
    show Function.update (s.releaseHold name).timers n .finished = _
    rw [releaseHold_timers]
  | close =>
    obtain rfl := Option.some.inj hs
    exact .same rfl rfl
  | _ =>
    obtain ⟨c, x, rfl | ⟨name, pending, consumers, signal, rfl⟩⟩ := consumer_cases rfl hs <;>
      exact .same rfl rfl

/-- A message that is awake has no timer that waits for it, and every timer waits for its own. -/
structure Rested (s : State V) : Prop where
  awake : ∀ m, Awake s.box m →
    m.id < s.accepted.length ∧ (s.timers m.id = .unborn ∨ s.timers m.id = .finished)
  asleep : ∀ n m guarded, s.timers n = .sleeping m guarded → m.id = n

theorem rested_step (h : Rested s) (wired : Wired s) (hs : step s a = some t) : Rested t := by
  have ticking := ticking_step hs
  refine ⟨fun m hm => ?_, fun n m guarded hn => ?_⟩
  · obtain hbefore | ⟨hid, haccepted, htimers⟩ | ⟨n, guarded, hslept, hover⟩ := woken_of_step hs hm
    · obtain ⟨hlt, hidle⟩ := h.awake m hbefore
      rw [ticking.idle m.id hlt hidle]
      exact ⟨hlt.trans_le ticking.accepted, hidle⟩
    · rw [htimers, haccepted, hid, wired.timers _ le_rfl]
      exact ⟨by simp, .inl rfl⟩
    · obtain rfl := h.asleep n m guarded hslept
      have hlt : m.id < s.accepted.length := by
        by_contra hge
        rw [wired.timers m.id (by omega)] at hslept
        cases hslept
      exact ⟨hlt.trans_le ticking.accepted, .inr hover⟩
  · obtain hbefore | hid := ticking.asleep n m guarded hn
    · exact h.asleep n m guarded hbefore
    · exact hid

theorem rested_start (h : (system V).start s) : Rested s := by
  have conserved := conserved_start h
  obtain ⟨now, horizon, -, rfl⟩ := h
  refine ⟨fun m hm => ?_, nofun⟩
  obtain ⟨p, -, hm⟩ := hm
  cases (conserved.all m).mpr ⟨p, hm⟩

theorem reachable_rested (h : Reachable (system V) s) : Rested s :=
  h.strengthen (fun _ => reachable_wired) (fun _ => rested_start) fun _ _ _ hw _ hi _ =>
    rested_step hi hw

end Queuey.MemoryBackend
