import Queuey.Core.MemoryPlaces
import Queuey.Library.Ledger

/-!
# Conservation

The in-memory backend as a ledger. As long as it is open and nothing is thrown away, a step
moves messages from one box to another or schedules a new one.
-/
namespace Queuey.MemoryBackend
open Transition

variable {V : Type} {s t : State V} {k c i n : ℕ} {r : Request V} {op : Settle V}
  {config : QueueConfig} {m : Message V} {name : String} {q : QueueState V} {x : Consumer V}

/-- Every message accepted is in one place, once. -/
abbrev Conserved (s : State V) : Prop := Ledger.Holds s.box (· ∈ s.accepted)

/-- Nobody closes the backend or throws a message away, and every deadline can be represented. -/
def Kept (s : State V) : Action V → Prop
  | .close | .dropDelivery _ _ | .abort _ => False
  | .schedule k => ∀ r, s.calls k = .scheduling r → s.now + r.delay.nanos ≤ s.horizon
  | _ => True

/-- Every message accepted and not lost is in one place, once. -/
structure Scattered (lost : Message V → Prop) (s : State V) : Prop where
  ledger : Ledger.Holds s.box fun m => m ∈ s.accepted ∧ ¬lost m
  old : ∀ m, lost m → m ∈ s.accepted

theorem conserved_iff : Conserved s ↔ Scattered (fun _ => False) s := by
  constructor
  · intro h
    exact ⟨by simpa using h, fun _ => False.elim⟩
  · intro h
    simpa using h.ledger

variable {lost : Message V → Prop}

theorem Scattered.accepted {p : Place} (h : Scattered lost s) (hm : m ∈ s.box p) :
    m ∈ s.accepted :=
  (h.ledger.of_mem hm).1

theorem Scattered.frame (h : Scattered lost s) (box : t.box = s.box)
    (accepted : t.accepted = s.accepted) : Scattered lost t := by
  refine ⟨?_, ?_⟩
  · rw [box, accepted]
    exact h.ledger
  · rw [accepted]
    exact h.old

theorem Scattered.transfer {j k : Place} {l a b : List (Message V)} (h : Scattered lost s)
    (hjk : j ≠ k) (box : t.box = Function.update (Function.update s.box j a) k b)
    (accepted : t.accepted = s.accepted) (out : (s.box j).Perm (l ++ a))
    (into : b.Perm (l ++ s.box k)) : Scattered lost t := by
  refine ⟨?_, ?_⟩
  · rw [box, accepted]
    exact h.ledger.transfer hjk out into
  · rw [accepted]
    exact h.old

theorem Scattered.enter {k : Place} {b : List (Message V)} (h : Scattered lost s) (wired : Wired s)
    (hm : m.id = s.accepted.length) (box : t.box = Function.update s.box k b)
    (accepted : t.accepted = s.accepted ++ [m]) (into : b.Perm (m :: s.box k)) :
    Scattered lost t := by
  have fresh := wired.fresh hm
  have unlost : ¬lost m := fun hl => fresh (h.old m hl)
  refine ⟨?_, fun o ho => ?_⟩
  · rw [box, accepted]
    refine h.ledger.enter (fun hin => fresh hin.1) into fun o => ?_
    rw [List.mem_append, List.mem_singleton]
    constructor
    · rintro ⟨ho | ho, hl⟩
      · exact .inl ⟨ho, hl⟩
      · exact .inr ho
    · rintro (⟨ho, hl⟩ | rfl)
      · exact ⟨.inl ho, hl⟩
      · exact ⟨.inr rfl, unlost⟩
  · rw [accepted]
    exact List.mem_append_left _ (h.old o ho)

/-- A message is lost from its box. -/
theorem Scattered.lose {k : Place} {a : List (Message V)} (h : Scattered lost s)
    (box : t.box = Function.update s.box k a) (accepted : t.accepted = s.accepted)
    (out : (s.box k).Perm (m :: a)) : Scattered (fun o => lost o ∨ o = m) t := by
  have hin : m ∈ s.accepted := h.accepted (out.mem_iff.mpr List.mem_cons_self)
  refine ⟨?_, fun o ho => ?_⟩
  · rw [box, accepted]
    have held := h.ledger.lose out
    simpa only [not_or, and_assoc] using held
  · rw [accepted]
    obtain ho | rfl := ho
    · exact h.old o ho
    · exact hin

theorem conserved_start (h : (system V).start s) : Conserved s := by
  obtain ⟨now, horizon, -, rfl⟩ := h
  have empty : ∀ p, (initial (V := V) now horizon).box p = [] := by
    intro p
    rcases p with ⟨name, part⟩ | ⟨c, part⟩ | n | k
    · cases part <;> rfl
    · cases part <;> rfl
    · rfl
    · rfl
  refine ⟨fun p => ?_, fun m p p' hp => ?_, fun m => ?_⟩
  · rw [empty]
    exact List.nodup_nil
  · rw [empty] at hp
    cases hp
  · simp only [empty, List.not_mem_nil, exists_false, iff_false]
    exact List.not_mem_nil

attribute [local simp] State.box QueueState.box Consumer.box Timer.box Call.box

/-- The task moves on without a message in its hand. -/
theorem Scattered.idleTask (h : Scattered lost s) (task : x.task.hand = (s.consumers c).task.hand)
    (unread : x.unread = (s.consumers c).unread) (out : x.out = (s.consumers c).out)
    (stream : x.stream.collected = (s.consumers c).stream.collected) :
    Scattered lost (s.setConsumer c x) := by
  refine h.frame (box_setConsumer_same fun p => ?_) rfl
  cases p with
  | transit => exact task
  | unread => exact unread
  | returning => exact stream
  | unsettled => exact out

theorem Scattered.settle (h : Scattered lost s) (hs : stepSettle s k c i op = some t) :
    Scattered lost t := by
  obtain ⟨hk, m, hm, rfl⟩ := settle_cases hs
  obtain ⟨hi, rfl⟩ := List.getElem?_eq_some_iff.mp hm
  have hbox : ((op.call ⟨(s.consumers c).out[i], c⟩ : Call V)).box = [(s.consumers c).out[i]] := by
    cases op <;> rfl
  refine h.transfer (j := .consumer c .unsettled) (k := .call k) (l := [(s.consumers c).out[i]])
    (b := [(s.consumers c).out[i]]) nofun ?_ rfl (List.getElem_cons_eraseIdx_perm hi).symm ?_
  · rw [box_setCall, box_setConsumer .unsettled, hbox]
    · rfl
    · intro p hp
      cases p <;> first | exact absurd rfl hp | rfl
  · simp [hk]

theorem Scattered.schedule (h : Scattered lost s) (wired : Wired s)
    (clock : ∀ r, s.calls k = .scheduling r → r.delay.isZero = false →
      s.now + r.delay.nanos ≤ s.horizon)
    (hopen : s.closed = false) (hs : stepSchedule s k = some t) : Scattered lost t := by
  obtain ⟨r, hk, ⟨-, hc, -⟩ | ⟨-, -, rfl⟩ | ⟨-, -, -, rfl⟩ | ⟨-, -, -, rfl⟩ | ⟨hzero, hclock, -⟩⟩ :=
    schedule_cases hs
  · rw [hopen] at hc
    cases hc
  · refine h.enter wired (m := s.message r) (k := .queue r.envelope.queue .pending) rfl ?_ rfl
      (insertByPriority_perm _ _)
    rw [box_scheduled]
    · exact box_insert s (s.message r)
    · show (s.calls k).box = _
      rw [hk]
      rfl
  · exact h.frame (box_setCall_same (by rw [hk]; rfl)) rfl
  · refine h.enter wired (m := s.message r) (k := .timer s.accepted.length)
      (b := [s.message r]) rfl ?_ rfl ?_
    · rw [box_scheduled]
      · exact box_setTimer s _ _
      · show (s.calls k).box = _
        rw [hk]
        rfl
    · simp [wired.timers _ le_rfl]
  · exact absurd (clock r hk hzero) hclock

theorem Scattered.guard (h : Scattered lost s) (wired : Wired s) (hs : stepGuard s k = some t) :
    Scattered lost t := by
  obtain ⟨r, deadline, hk, rfl⟩ := guard_cases hs
  refine h.enter wired (m := { s.message r with due := deadline }) (k := .timer s.accepted.length)
    (b := [{ s.message r with due := deadline }]) rfl ?_ rfl ?_
  · rw [box_scheduled]
    · exact box_setTimer s _ _
    · show (s.calls k).box = _
      rw [hk]
      rfl
  · simp [wired.timers _ le_rfl]

theorem Scattered.count (h : Scattered lost s) (hs : stepCount s k = some t) : Scattered lost t := by
  obtain ⟨r, deadline, hk, rfl⟩ := count_cases hs
  refine h.frame ?_ rfl
  rw [box_setCall_same]
  · exact box_setQueue_same fun p => by cases p <;> rfl
  · show _ = (s.calls k).box
    rw [hk]
    rfl

theorem box_recordAck (s : State V) (k : ℕ) (m : Message V) (kind : AckKind) :
    (s.recordAck k m kind).box = Function.update s.box (.queue m.envelope.queue .settled)
      ((s.queue m.envelope.queue).settled.map Prod.fst ++ [m]) := by
  show (s.setQueue _ _).box = _
  rw [box_setQueue .settled]
  · simp
  · intro p hp
    cases p <;> first | exact absurd rfl hp | rfl

/-- The message of a settle operation that ends goes to a list of its queue. -/
theorem Scattered.put {p : QueuePart} {n : String} (h : Scattered lost s) (hk : (s.calls k).box = [m])
    (box : t.box = Function.update (Function.update s.box (.queue n p)
      ((s.queue n).box p ++ [m])) (.call k) [])
    (accepted : t.accepted = s.accepted) : Scattered lost t := by
  have hne : Place.queue n p ≠ .call k := nofun
  rw [Function.update_comm hne] at box
  refine h.transfer (l := [m]) hne.symm box accepted ?_ List.perm_append_comm
  show ((s.calls k).box).Perm _
  rw [hk]
  exact .refl _

theorem Scattered.record (h : Scattered lost s) (hopen : s.closed = false)
    (hs : stepRecord s k = some t) : Scattered lost t := by
  obtain ⟨r, d, hk, hr, rfl⟩ | ⟨d, hk, rfl⟩ | ⟨d, reason, -, hc, -⟩ | ⟨d, reason, hk, -, rfl⟩ :=
    record_cases hs
  · refine h.put (m := d.message) (n := d.message.envelope.queue) (p := .settled)
      (k := k) ?_ ?_ rfl
    · rw [hk]
      simp [Request.original, hr]
    · rw [box_setCall, box_dropPermit, box_recordAck]
      rfl
  · refine h.put (m := d.message) (n := d.message.envelope.queue) (p := .settled)
      (k := k) ?_ ?_ rfl
    · rw [hk]
      rfl
    · rw [box_setCall, box_dropPermit, box_recordAck]
      rfl
  · rw [hopen] at hc
    cases hc
  · refine h.put (m := d.message) (n := d.message.envelope.queue) (p := .dead)
      (k := k) ?_ ?_ rfl
    · rw [hk]
      rfl
    · rw [box_setCall, box_dropPermit, box_note, box_setQueue .dead]
      · simp
      · intro p hp
        cases p <;> first | exact absurd rfl hp | rfl

theorem Scattered.fire (h : Scattered lost s) (hopen : s.closed = false) (hs : stepFire s n = some t) :
    Scattered lost t := by
  obtain ⟨m, guarded, hn, -, rfl⟩ := fire_cases hs
  have hne : Place.queue m.envelope.queue .pending ≠ .timer n := nofun
  obtain ⟨u, hu, ⟨hc, -⟩ | ⟨-, he⟩⟩ := enqueueNow_cases s m guarded
  · rw [hopen] at hc
    cases hc
  · have hbox : u.box = s.box := by
      obtain rfl | rfl := hu
      · rfl
      · exact box_releaseHold _ _
    have haccepted : u.accepted = s.accepted := by
      obtain rfl | rfl := hu
      · rfl
      · unfold State.releaseHold
        split <;> rfl
    rw [he]
    refine h.transfer (j := .timer n) (k := .queue m.envelope.queue .pending) (l := [m]) (a := [])
      hne.symm ?_ haccepted ?_ (insertByPriority_perm (u.queue m.envelope.queue).pending m |>.trans ?_)
    · rw [box_setTimer, box_insert, hbox, Function.update_comm hne]
      rfl
    · simp [hn]
    · rw [← hbox]
      exact .refl _

theorem Scattered.consume (h : Scattered lost s) (wired : Wired s) (hopen : s.closed = false)
    (hs : stepConsume s c config = some t) : Scattered lost t := by
  obtain ⟨hc, ⟨hcl, -⟩ | ⟨-, rfl⟩⟩ := consume_cases hs
  · rw [hopen] at hcl
    cases hcl
  · refine h.frame ?_ rfl
    rw [box_setConsumer_same]
    · exact box_setQueue_same fun p => by cases p <;> rfl
    · intro p
      refine Eq.trans ?_ (wired.consumers c hc p).symm
      cases p <;> rfl

theorem Scattered.pop (h : Scattered lost s) (hopen : s.closed = false) (hs : stepPop s c = some t) :
    Scattered lost t := by
  obtain ⟨hc, ⟨hcl, -⟩ | ⟨-, -, rfl⟩ | ⟨-, q, m, rest, hq, hm, rfl⟩⟩ := pop_cases hs
  · rw [hopen] at hcl
    cases hcl
  · exact h.idleTask (by rw [hc]; rfl) rfl rfl rfl
  · refine h.transfer (j := .queue (s.consumers c).queue .pending) (k := .consumer c .transit)
      (l := [m]) (a := rest) (b := [m]) nofun ?_ rfl ?_ ?_
    · rw [State.setTask, box_setConsumer .transit, box_setQueue .pending]
      · rfl
      · intro p hp
        rw [queue_eq hq]
        cases p <;> first | exact absurd rfl hp | rfl
      · intro p hp
        cases p <;> first | exact absurd rfl hp | rfl
    · simp [queue_eq hq, hm]
    · simp [hc, Task.hand]

theorem Scattered.send (h : Scattered lost s) (hs : stepSend s c = some t) : Scattered lost t := by
  obtain ⟨m, hc, ⟨-, rfl⟩ | ⟨-, rfl⟩⟩ := send_cases hs
  · refine h.transfer (j := .consumer c .transit) (k := .consumer c .unread) (l := [m])
      (a := []) (b := (s.consumers c).unread ++ [m]) nofun ?_ rfl ?_ List.perm_append_comm
    · rw [box_setConsumer_two .transit .unread]
      · rfl
      · intro p hp hp'
        cases p <;> first | exact absurd rfl hp | exact absurd rfl hp' | rfl
    · simp [hc, Task.hand]
  · exact h.idleTask (by rw [hc]; rfl) rfl rfl rfl

theorem Scattered.requeue (h : Scattered lost s) (wired : Wired s) (hs : stepRequeue s c = some t) :
    Scattered lost t := by
  obtain ⟨m, hc, ⟨q, hq, rfl⟩ | ⟨hq, -⟩⟩ := requeue_cases hs
  · refine h.transfer (j := .consumer c .transit) (k := .queue (s.consumers c).queue .pending)
      (l := [m]) (a := []) (b := m :: q.pending) nofun ?_ rfl ?_ ?_
    · have hne : Place.queue (s.consumers c).queue .pending ≠ .consumer c .transit := nofun
      rw [State.setTask, box_setConsumer .transit, box_setQueue .pending, Function.update_comm hne]
      · rfl
      · intro p hp
        rw [queue_eq hq]
        cases p <;> first | exact absurd rfl hp | rfl
      · intro p hp
        cases p <;> first | exact absurd rfl hp | rfl
    · simp [hc, Task.hand]
    · simp [queue_eq hq]
  · have := wired.queues c (by rw [hc]; rfl)
    simp [hq] at this

theorem Scattered.poll (h : Scattered lost s) (hs : stepPoll s c = some t) : Scattered lost t := by
  obtain ⟨m, rest, -, hm, rfl⟩ := poll_cases hs
  refine h.transfer (j := .consumer c .unread) (k := .consumer c .unsettled) (l := [m])
    (a := rest) (b := (s.consumers c).out ++ [m]) nofun ?_ rfl ?_ List.perm_append_comm
  · rw [box_setConsumer_two .unread .unsettled]
    · rfl
    · intro p hp hp'
      cases p <;> first | exact absurd rfl hp | exact absurd rfl hp' | rfl
  · simp [hm]

theorem Scattered.drain (h : Scattered lost s) (hs : stepDrain s c = some t) : Scattered lost t := by
  obtain ⟨collected, m, rest, hc, hm, rfl⟩ := drain_cases hs
  refine h.transfer (j := .consumer c .unread) (k := .consumer c .returning) (l := [m])
    (a := rest) (b := collected ++ [m]) nofun ?_ rfl ?_ ?_
  · rw [box_setConsumer_two .unread .returning]
    · rfl
    · intro p hp hp'
      cases p <;> first | exact absurd rfl hp | exact absurd rfl hp' | rfl
  · simp [hm]
  · simp only [State.box, Consumer.box, hc, Stream.collected]
    exact List.perm_append_comm

theorem Scattered.giveBack (h : Scattered lost s) (hopen : s.closed = false)
    (hs : stepGiveBack s c = some t) : Scattered lost t := by
  obtain ⟨collected, hc, -, ⟨hnone, rfl⟩ | ⟨-, rfl⟩⟩ := giveBack_cases hs
  · obtain rfl : collected = [] := by simpa [hopen] using hnone
    exact h.idleTask rfl rfl rfl (by rw [hc]; rfl)
  · refine h.transfer (j := .consumer c .returning) (k := .queue (s.consumers c).queue .pending)
      (l := collected) (a := [])
      (b := collected ++ (s.queue (s.consumers c).queue).pending) nofun ?_ rfl ?_ (.refl _)
    · have hne : Place.queue (s.consumers c).queue .pending ≠ .consumer c .returning := nofun
      rw [box_setConsumer .returning, box_setQueue .pending, Function.update_comm hne]
      · rfl
      · intro p hp
        cases p <;> first | exact absurd rfl hp | rfl
      · intro p hp
        cases p <;> first | exact absurd rfl hp | rfl
    · simp [hc, Stream.collected]

/-- Redeclaring creates empty queues only. -/
theorem declared_box (configs : List QueueConfig) (queues : String → Option (QueueState V))
    (name : String) (part : QueuePart) :
    ((configs.foldl declareOne queues name).getD (.new (.new name))).box part =
      ((queues name).getD (.new (.new name))).box part := by
  apply declared_same (QueueState.box · part)
  intro config config'
  cases part <;> rfl

theorem scattered_kept {a : Action V} (wired : Wired s) (hopen : s.closed = false)
    (kept : Kept s a) (h : Scattered lost s) (hs : step s a = some t) : Scattered lost t := by
  cases a with
  | tick elapsed =>
    obtain ⟨-, rfl⟩ := tick_cases hs
    exact h.frame rfl rfl
  | declare configs =>
    obtain rfl := Option.some.inj hs
    rw [hopen]
    refine h.frame ?_ rfl
    funext p
    cases p with
    | queue name part => exact declared_box configs s.queues name part
    | _ => rfl
  | publish k envelope delay =>
    obtain ⟨hk, rfl⟩ := call_cases hs
    exact h.frame (box_setCall_same (by rw [hk]; rfl)) rfl
  | defer k envelope delay =>
    obtain ⟨hk, rfl⟩ := call_cases hs
    exact h.frame (box_setCall_same (by rw [hk]; rfl)) rfl
  | settle k c i op => exact h.settle hs
  | check k =>
    obtain ⟨r, hk, ⟨hc, -⟩ | ⟨-, rfl⟩⟩ := check_cases hs
    · rw [hopen] at hc
      cases hc
    · exact h.frame (box_setCall_same (by rw [hk]; rfl)) rfl
  | schedule k => exact h.schedule wired (fun r hr _ => kept r hr) hopen hs
  | count k => exact h.count hs
  | guard k => exact h.guard wired hs
  | record k => exact h.record hopen hs
  | fire n => exact h.fire hopen hs
  | abort n => exact kept.elim
  | release n =>
    obtain ⟨name, hn, rfl⟩ := release_cases hs
    refine h.frame ?_ ?_
    · rw [box_setTimer, box_releaseHold, Function.update_eq_self_iff]
      show _ = (s.timers n).box
      rw [hn]
      rfl
    · show (s.releaseHold name).accepted = s.accepted
      unfold State.releaseHold
      split <;> rfl
  | consume c config => exact h.consume wired hopen hs
  | acquire c =>
    obtain ⟨hc, ⟨-, rfl⟩ | ⟨-, -, rfl⟩⟩ := acquire_cases hs <;>
      exact h.idleTask (by rw [hc]; rfl) rfl rfl rfl
  | pop c => exact h.pop hopen hs
  | notice c =>
    obtain ⟨hc, -, rfl⟩ := notice_cases hs
    exact h.idleTask (by rw [hc]; rfl) rfl rfl rfl
  | giveUp c =>
    obtain ⟨-, ⟨hc, rfl⟩ | ⟨hc, rfl⟩⟩ := giveUp_cases hs <;>
      exact h.idleTask (by rw [hc]; rfl) rfl rfl rfl
  | send c => exact h.send hs
  | requeue c => exact h.requeue wired hs
  | leave c =>
    obtain ⟨hc, ⟨q, hq, rfl⟩ | ⟨-, rfl⟩⟩ := leave_cases hs
    · refine h.frame ?_ rfl
      rw [State.setTask, box_setConsumer_same]
      · refine box_setQueue_same fun p => ?_
        rw [queue_eq hq]
        cases p <;> rfl
      · intro p
        cases p with
        | transit =>
          show ([] : List (Message V)) = (s.consumers c).task.hand
          rw [hc]
          rfl
        | _ => rfl
    · exact h.idleTask (by rw [hc]; rfl) rfl rfl rfl
  | poll c => exact h.poll hs
  | dropStream c =>
    obtain ⟨hc, rfl⟩ := dropStream_cases hs
    exact h.idleTask rfl rfl rfl (by rw [hc]; rfl)
  | drain c => exact h.drain hs
  | giveBack c => exact h.giveBack hopen hs
  | dropDelivery c i => exact kept.elim
  | close => exact kept.elim

theorem conserved_step {a : Action V} (wired : Wired s) (hopen : s.closed = false)
    (kept : Kept s a) (h : Conserved s) (hs : step s a = some t) : Conserved t :=
  conserved_iff.mpr (scattered_kept wired hopen kept (conserved_iff.mp h) hs)

/-- The original of a successor whose delay the clock cannot represent is lost. -/
theorem scattered_schedule (wired : Wired s) (hopen : s.closed = false) (h : Scattered lost s)
    (hs : stepSchedule s k = some t) : ∃ lost' : Message V → Prop, (∀ m, lost m → lost' m) ∧
      Scattered lost' t ∧
        ∀ r d, t.calls k = .panicked r → r.origin = some d → lost' d.message := by
  obtain ⟨r, hk, hcases⟩ := schedule_cases hs
  by_cases clock : ∀ r, s.calls k = .scheduling r → r.delay.isZero = false →
      s.now + r.delay.nanos ≤ s.horizon
  · refine ⟨lost, fun _ => id, h.schedule wired clock hopen hs, fun r' d hr' => ?_⟩
    have going : ∀ u : State V, (u.scheduled k r).calls k ≠ .panicked r' := by
      intro u
      simp only [State.scheduled, State.setCall, Function.update_self]
      split_ifs <;> simp
    obtain ⟨-, -, rfl⟩ | ⟨-, -, rfl⟩ | ⟨-, -, -, rfl⟩ | ⟨-, -, -, rfl⟩ | ⟨hzero, hgt, -⟩ := hcases
    · exact absurd hr' (going _)
    · exact absurd hr' (going _)
    · simp [State.setCall] at hr'
    · exact absurd hr' (going _)
    · exact absurd (clock r hk hzero) hgt
  · push Not at clock
    obtain ⟨r', hk', hzero, hgt⟩ := clock
    cases hk.symm.trans hk'
    obtain ⟨hz, -⟩ | ⟨hz, -⟩ | ⟨-, hle, -⟩ | ⟨-, hle, -⟩ | ⟨-, -, rfl⟩ := hcases
    · rw [hz] at hzero
      cases hzero
    · rw [hz] at hzero
      cases hzero
    · omega
    · omega
    · have calls : ((s.dropOrigin r).setCall k (.panicked r)).calls k = .panicked r := by
        simp [State.setCall]
      simp only [calls, Call.panicked.injEq]
      cases hr : r.origin with
      | none =>
        refine ⟨lost, fun _ => id, h.frame ?_ (by simp [State.dropOrigin, hr, State.setCall]), ?_⟩
        · simp only [State.dropOrigin, hr]
          exact box_setCall_same (by rw [hk]; simp [Request.original, hr])
        · rintro _ d rfl hd
          rw [hr] at hd
          cases hd
      | some d =>
        refine ⟨fun m => lost m ∨ m = d.message, fun _ => .inl, h.lose (k := .call k) (a := []) ?_
          (by simp [State.dropOrigin, hr, State.setCall, State.dropPermit, State.setConsumer]) ?_, ?_⟩
        · simp only [State.dropOrigin, hr]
          rw [box_setCall, box_dropPermit]
          rfl
        · simp [hk, Request.original, hr]
        · rintro _ d' rfl hd
          obtain rfl := Option.some.inj (hr.symm.trans hd)
          exact .inr rfl

/-- On an open backend a message is lost when its delivery or its timer is, or when the clock
cannot represent the end of its successor's delay. -/
theorem scattered_step {a : Action V} (wired : Wired s) (hopen : s.closed = false)
    (ha : a ≠ .close) (h : Scattered lost s) (hs : step s a = some t) :
    ∃ lost' : Message V → Prop, (∀ m, lost m → lost' m) ∧ Scattered lost' t := by
  cases a with
  | schedule k =>
    obtain ⟨lost', grown, held, -⟩ := scattered_schedule wired hopen h hs
    exact ⟨lost', grown, held⟩
  | abort n =>
    obtain ⟨m, guarded, hn, rfl⟩ := abort_cases hs
    refine ⟨_, fun _ => .inl, h.lose (m := m) (k := .timer n) (a := []) ?_ rfl ?_⟩
    · rw [box_setTimer]
      congr 1
      split_ifs <;> rfl
    · simp [hn]
  | dropDelivery c i =>
    obtain ⟨hi, rfl⟩ := dropDelivery_cases hs
    refine ⟨_, fun _ => .inl, h.lose (m := (s.consumers c).out[i]) (k := .consumer c .unsettled)
      (a := (s.consumers c).out.eraseIdx i) ?_ rfl
      (List.getElem_cons_eraseIdx_perm hi).symm⟩
    rw [box_setConsumer .unsettled]
    · rfl
    · intro p hp
      cases p <;> first | exact absurd rfl hp | rfl
  | close => exact absurd rfl ha
  | _ =>
    refine ⟨lost, fun _ => id, scattered_kept wired hopen ?_ h hs⟩
    trivial

end Queuey.MemoryBackend
