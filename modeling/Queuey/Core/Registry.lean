import Queuey.Core.Wakeups
import Queuey.Library.Completion

/-!
# Who is registered on a queue

A consumer is on the list of its queue exactly while its task lives, up to the close, which
closes the semaphores of all that are on a list. So each of them comes to its end by itself.
-/
namespace Queuey.MemoryBackend
open Transition

variable {V : Type} {s t u : State V} {a : Action V} {k c d n : ℕ} {r : Request V} {m : Message V}
  {name : String} {q : QueueState V} {x : Consumer V} {who : Option ℕ}

/-! ## Steps that register nobody -/

/-- What the registry has to do with a consumer. -/
def Consumer.entry (x : Consumer V) : String × Bool × Bool := (x.queue, x.task.live, x.closed)

/-- The lists stay, and so do all consumers as far as they matter to them. Only the task of
`who` goes on. -/
structure Enrolled (who : Option ℕ) (s t : State V) : Prop where
  closed : t.closed = s.closed
  lists : ∀ name, (t.queue name).consumers = (s.queue name).consumers
  entry : ∀ c, (t.consumers c).entry = (s.consumers c).entry
  task : ∀ c, who ≠ some c → (t.consumers c).task = (s.consumers c).task

theorem Enrolled.same (queues : t.queues = s.queues) (closed : t.closed = s.closed)
    (consumers : t.consumers = s.consumers) : Enrolled who s t := by
  refine ⟨closed, fun name => ?_, fun c => by rw [consumers], fun c _ => by rw [consumers]⟩
  unfold State.queue
  rw [queues]

theorem Enrolled.trans (h : Enrolled who s u) (h' : Enrolled who u t) : Enrolled who s t :=
  ⟨h'.closed.trans h.closed, fun name => (h'.lists name).trans (h.lists name), fun c =>
    (h'.entry c).trans (h.entry c), fun c hc => (h'.task c hc).trans (h.task c hc)⟩

theorem Enrolled.setQueue (h : q.consumers = (s.queue name).consumers) :
    Enrolled who s (s.setQueue name q) :=
  ⟨rfl, same_setQueue QueueState.consumers h, fun _ => rfl, fun _ _ => rfl⟩

/-- The consumer's own task goes on. -/
theorem Enrolled.own (h : x.entry = (s.consumers c).entry) :
    Enrolled (some c) s (s.setConsumer c x) := by
  refine ⟨rfl, fun _ => rfl, fun e => ?_, fun e he => ?_⟩
  · by_cases hec : e = c
    · simpa [State.setConsumer, hec] using h
    · simp [State.setConsumer, hec]
  · have hec : e ≠ c := fun hec => he (by rw [hec])
    simp [State.setConsumer, hec]

/-- Anything else of the consumer changes. -/
theorem Enrolled.beside (h : x.entry = (s.consumers c).entry)
    (task : x.task = (s.consumers c).task) : Enrolled who s (s.setConsumer c x) := by
  refine ⟨rfl, fun _ => rfl, (Enrolled.own h).entry, fun e _ => ?_⟩
  by_cases hec : e = c
  · simpa [State.setConsumer, hec] using task
  · simp [State.setConsumer, hec]

theorem Enrolled.insert (s : State V) (m : Message V) : Enrolled who s (s.insert m) := by
  refine Enrolled.trans (u := s.setQueue m.envelope.queue { s.queue m.envelope.queue with
    pending := insertByPriority (s.queue m.envelope.queue).pending m }.wake) ?_ ?_
  · exact .setQueue rfl
  · exact .same rfl rfl rfl

theorem Enrolled.releaseHold (s : State V) (name : String) :
    Enrolled who s (s.releaseHold name) := by
  unfold State.releaseHold
  cases hq : s.queues name with
  | none => exact .same rfl rfl rfl
  | some q => exact .setQueue (by rw [queue_eq hq])

theorem Enrolled.enqueueNow (s : State V) (m : Message V) (guarded : Bool) :
    Enrolled who s (s.enqueueNow m guarded) := by
  obtain ⟨u, hu, he⟩ := enqueueNow_cases s m guarded
  have released : Enrolled who s u := by
    obtain rfl | rfl := hu
    · exact .same rfl rfl rfl
    · exact .releaseHold s _
  obtain ⟨-, he⟩ | ⟨-, he⟩ := he <;> rw [he]
  · exact released
  · exact released.trans (.insert u m)

theorem Enrolled.dropPermit (s : State V) (d : MemoryDelivery V) : Enrolled who s (s.dropPermit d) :=
  .beside rfl rfl

theorem Enrolled.dropOrigin (s : State V) (r : Request V) : Enrolled who s (s.dropOrigin r) := by
  unfold State.dropOrigin
  split
  · exact .dropPermit _ _
  · exact .same rfl rfl rfl

theorem Enrolled.recordAck (s : State V) (k : ℕ) (m : Message V) (kind : AckKind) :
    Enrolled who s (s.recordAck k m kind) := by
  refine Enrolled.trans (u := s.setQueue m.envelope.queue { s.queue m.envelope.queue with
    settled := (s.queue m.envelope.queue).settled ++ [(m, kind)] }) ?_ ?_
  · exact .setQueue rfl
  · exact .same rfl rfl rfl

theorem Enrolled.schedule (hs : stepSchedule s k = some t) : Enrolled who s t := by
  obtain ⟨r, -, ⟨-, -, rfl⟩ | ⟨-, -, rfl⟩ | ⟨-, -, -, rfl⟩ | ⟨-, -, -, rfl⟩ | ⟨-, -, rfl⟩⟩ :=
    schedule_cases hs
  · exact .same rfl rfl rfl
  · exact (Enrolled.insert s (s.message r)).trans (.same rfl rfl rfl)
  · exact .same rfl rfl rfl
  · exact .same rfl rfl rfl
  · exact (Enrolled.dropOrigin s r).trans (.same rfl rfl rfl)

theorem Enrolled.record (hs : stepRecord s k = some t) : Enrolled who s t := by
  obtain ⟨r, d, -, -, rfl⟩ | ⟨d, -, rfl⟩ | ⟨d, reason, -, -, rfl⟩ | ⟨d, reason, -, -, rfl⟩ :=
    record_cases hs
  · exact ((Enrolled.recordAck s k d.message r.kind).trans (.dropPermit _ d)).trans
      (.same rfl rfl rfl)
  · exact ((Enrolled.recordAck s k d.message .succeeded).trans (.dropPermit _ d)).trans
      (.same rfl rfl rfl)
  · exact (Enrolled.dropPermit s d).trans (.same rfl rfl rfl)
  · have buried : Enrolled who s (s.setQueue d.message.envelope.queue
        { s.queue d.message.envelope.queue with
          dead := (s.queue d.message.envelope.queue).dead ++ [(d.message, reason)] }) :=
      .setQueue rfl
    exact ((buried.trans (.same rfl rfl rfl)).trans (.dropPermit _ d)).trans (.same rfl rfl rfl)

/-- The consumer whose task takes the step. -/
def Action.actor : Action V → Option ℕ
  | acquire c | pop c | notice c | giveUp c | send c | requeue c | leave c => some c
  | _ => none

/-- The step puts a consumer on a list, or takes one off. -/
def Action.registers : Action V → Bool
  | consume _ _ | leave _ | close => true
  | _ => false

theorem enrolled_step (ha : a.registers = false) (hs : step s a = some t) :
    Enrolled a.actor s t := by
  cases a with
  | consume _ _ | leave _ | close => cases ha
  | tick elapsed =>
    obtain ⟨-, rfl⟩ := tick_cases hs
    exact .same rfl rfl rfl
  | declare configs =>
    obtain rfl := Option.some.inj hs
    split_ifs
    · exact .same rfl rfl rfl
    · exact ⟨rfl, fun name => declared_same QueueState.consumers (fun _ _ => rfl) configs s.queues
        name, fun _ => rfl, fun _ _ => rfl⟩
  | publish k envelope delay =>
    obtain ⟨-, rfl⟩ := call_cases hs
    exact .same rfl rfl rfl
  | defer k envelope delay =>
    obtain ⟨-, rfl⟩ := call_cases hs
    exact .same rfl rfl rfl
  | settle k c i op =>
    obtain ⟨-, m, -, rfl⟩ := settle_cases hs
    refine Enrolled.trans (u := s.setConsumer c
      { s.consumers c with out := (s.consumers c).out.eraseIdx i }) ?_ (.same rfl rfl rfl)
    exact .beside rfl rfl
  | check k =>
    obtain ⟨r, -, ⟨-, rfl⟩ | ⟨-, rfl⟩⟩ := check_cases hs
    · exact (Enrolled.dropOrigin s r).trans (.same rfl rfl rfl)
    · exact .same rfl rfl rfl
  | schedule k => exact .schedule hs
  | count k =>
    obtain ⟨r, deadline, -, rfl⟩ := count_cases hs
    refine Enrolled.trans (.setQueue (q := { s.queue r.envelope.queue with
      held := (s.queue r.envelope.queue).held + 1 }) rfl) (.same rfl rfl rfl)
  | guard k =>
    obtain ⟨r, deadline, -, rfl⟩ := guard_cases hs
    exact .same rfl rfl rfl
  | record k => exact .record hs
  | fire n =>
    obtain ⟨m, guarded, -, -, rfl⟩ := fire_cases hs
    exact (Enrolled.enqueueNow s m guarded).trans (.same rfl rfl rfl)
  | abort n =>
    obtain ⟨m, guarded, -, rfl⟩ := abort_cases hs
    exact .same rfl rfl rfl
  | release n =>
    obtain ⟨name, -, rfl⟩ := release_cases hs
    exact (Enrolled.releaseHold s name).trans (.same rfl rfl rfl)
  | acquire c =>
    obtain ⟨hc, ⟨-, rfl⟩ | ⟨-, -, rfl⟩⟩ := acquire_cases hs <;>
      exact .own (by simp [Consumer.entry, hc, Task.live])
  | pop c =>
    obtain ⟨hc, ⟨-, rfl⟩ | ⟨-, -, rfl⟩ | ⟨-, q, m, rest, hq, -, rfl⟩⟩ := pop_cases hs
    · exact .own (by simp [Consumer.entry, hc, Task.live])
    · exact .own (by simp [Consumer.entry, hc, Task.live])
    · refine Enrolled.trans (.setQueue (by rw [queue_eq hq])) (.own ?_)
      simp [Consumer.entry, State.setQueue, hc, Task.live]
  | notice c =>
    obtain ⟨hc, -, rfl⟩ := notice_cases hs
    exact .own (by simp [Consumer.entry, hc, Task.live])
  | giveUp c =>
    obtain ⟨-, ⟨hc, rfl⟩ | ⟨hc, rfl⟩⟩ := giveUp_cases hs <;>
      exact .own (by simp [Consumer.entry, hc, Task.live])
  | send c =>
    obtain ⟨m, hc, ⟨-, rfl⟩ | ⟨-, rfl⟩⟩ := send_cases hs <;>
      exact .own (by simp [Consumer.entry, hc, Task.live])
  | requeue c =>
    obtain ⟨m, hc, ⟨q, hq, rfl⟩ | ⟨-, rfl⟩⟩ := requeue_cases hs
    · refine Enrolled.trans (.setQueue (by rw [queue_eq hq]; rfl)) (.own ?_)
      simp [Consumer.entry, State.setQueue, hc, Task.live]
    · exact .own (by simp [Consumer.entry, hc, Task.live])
  | poll c =>
    obtain ⟨m, rest, -, -, rfl⟩ := poll_cases hs
    exact .beside rfl rfl
  | dropStream c =>
    obtain ⟨-, rfl⟩ := dropStream_cases hs
    exact .beside rfl rfl
  | drain c =>
    obtain ⟨collected, m, rest, -, -, rfl⟩ := drain_cases hs
    exact .beside rfl rfl
  | giveBack c =>
    obtain ⟨collected, -, -, ⟨-, rfl⟩ | ⟨-, rfl⟩⟩ := giveBack_cases hs
    · exact .beside rfl rfl
    · refine Enrolled.trans (u := s.setQueue (s.consumers c).queue
        { s.queue (s.consumers c).queue with
          pending := collected ++ (s.queue (s.consumers c).queue).pending }.wake) ?_ ?_
      · exact .setQueue rfl
      · exact .beside rfl rfl
  | dropDelivery c i =>
    obtain ⟨-, rfl⟩ := dropDelivery_cases hs
    exact .beside rfl rfl

/-! ## The registry -/

/-- While the backend is open the lists are exact and no semaphore is closed; once it is closed
they are empty, and the semaphores of all that still live are closed. -/
structure Registered (s : State V) : Prop where
  listed : s.closed = false → ∀ c name, c ∈ (s.queue name).consumers ↔
    (s.consumers c).queue = name ∧ (s.consumers c).task.live = true
  nodup : ∀ name, (s.queue name).consumers.Nodup
  working : s.closed = false → ∀ c, (s.consumers c).closed = false
  emptied : s.closed = true → ∀ name, (s.queue name).consumers = []
  told : s.closed = true → ∀ c, (s.consumers c).task.live = true → (s.consumers c).closed = true

theorem registered_start (h : (system V).start s) : Registered s := by
  obtain ⟨now, horizon, -, rfl⟩ := h
  refine ⟨fun _ c name => ?_, fun _ => List.nodup_nil, fun _ _ => rfl, nofun, nofun⟩
  simp [initial, State.queue, QueueState.new, Consumer.unborn, Task.live]

theorem Registered.enrolled (h : Registered s) (he : Enrolled who s t) : Registered t := by
  have entry : ∀ c, (t.consumers c).queue = (s.consumers c).queue ∧
      (t.consumers c).task.live = (s.consumers c).task.live ∧
      (t.consumers c).closed = (s.consumers c).closed := by
    intro c
    simpa [Consumer.entry] using he.entry c
  refine ⟨fun ho c name => ?_, fun name => ?_, fun ho c => ?_, fun hc name => ?_, fun hc c hl => ?_⟩
  · rw [he.lists, (entry c).1, (entry c).2.1]
    exact h.listed (he.closed ▸ ho) c name
  · rw [he.lists]
    exact h.nodup name
  · rw [(entry c).2.2]
    exact h.working (he.closed ▸ ho) c
  · rw [he.lists]
    exact h.emptied (he.closed ▸ hc) name
  · rw [(entry c).2.1] at hl
    rw [(entry c).2.2]
    exact h.told (he.closed ▸ hc) c hl

theorem Registered.unlisted (h : Registered s) (hopen : s.closed = false)
    (hdead : (s.consumers c).task.live = false) (name : String) :
    c ∉ (s.queue name).consumers := by
  intro hin
  have hlive := ((h.listed hopen c name).mp hin).2
  rw [hdead] at hlive
  cases hlive

theorem Registered.consume {config : QueueConfig} (h : Registered s)
    (hs : stepConsume s c config = some t) : Registered t := by
  obtain ⟨hunborn, ⟨hclosed, rfl⟩ | ⟨hopen, rfl⟩⟩ := consume_cases hs
  · refine ⟨fun ho => ?_, h.nodup, fun ho => ?_, fun _ => h.emptied hclosed, fun _ e he => ?_⟩
    · cases hclosed.symm.trans ho
    · cases hclosed.symm.trans ho
    · by_cases hec : e = c
      · simp [State.setConsumer, hec, Consumer.fresh, Task.live] at he
      · simp only [State.setConsumer, Function.update_of_ne hec] at he ⊢
        exact h.told hclosed e he
  · have hout := h.unlisted hopen (c := c) (by rw [hunborn]; rfl)
    have lists : ∀ name, (((s.setQueue config.name { s.queue config.name with
        consumers := (s.queue config.name).consumers ++ [c] }).setConsumer c
          (.fresh config (s.queue config.name).signal .acquiring)).queue name).consumers =
        if name = config.name then (s.queue config.name).consumers ++ [c]
        else (s.queue name).consumers :=
      field_setQueue QueueState.consumers s config.name _
    refine ⟨fun _ e name => ?_, fun name => ?_, fun _ e => ?_, fun hc => ?_, fun hc => ?_⟩
    · rw [lists]
      by_cases hec : e = c
      · subst hec
        have hnot := hout name
        simp only [State.setConsumer, Function.update_self, Consumer.fresh, Task.live, and_true]
        split_ifs with hname
        · simp [hname]
        · simp [hnot, Ne.symm hname]
      · simp only [State.setConsumer, State.setQueue, Function.update_of_ne hec]
        rw [← h.listed hopen e name]
        split_ifs with hname
        · simp [hname, hec]
        · rfl
    · rw [lists]
      split_ifs
      · exact List.nodup_append.mpr ⟨h.nodup _, List.nodup_singleton c, fun e he f hf hef => by
          rw [List.mem_singleton.mp hf] at hef
          exact hout _ (hef ▸ he)⟩
      · exact h.nodup name
    · by_cases hec : e = c
      · simp [State.setConsumer, hec, Consumer.fresh]
      · simpa [State.setConsumer, State.setQueue, hec] using h.working hopen e
    · cases hopen.symm.trans hc
    · cases hopen.symm.trans hc

theorem Registered.leave (h : Registered s) (wired : Wired s) (hs : stepLeave s c = some t) :
    Registered t := by
  obtain ⟨hc, ⟨q, hq, rfl⟩ | ⟨hq, rfl⟩⟩ := leave_cases hs
  · have lists : ∀ name, (((s.setQueue (s.consumers c).queue
        { q with consumers := q.consumers.filter (· ≠ c) }).setTask c .ended).queue name).consumers =
        if name = (s.consumers c).queue then
          (s.queue (s.consumers c).queue).consumers.filter (· ≠ c)
        else (s.queue name).consumers := by
      rw [queue_eq hq]
      exact field_setQueue QueueState.consumers s (s.consumers c).queue _
    refine ⟨fun ho e name => ?_, fun name => ?_, fun ho e => ?_, fun hcl name => ?_,
      fun hcl e he => ?_⟩
    · have hlisted := h.listed ho e name
      rw [lists]
      by_cases hec : e = c
      · subst hec
        simp only [State.setTask, State.setConsumer, Function.update_self, Task.live]
        split_ifs with hname
        · simp
        · simpa [hc, Ne.symm hname] using hlisted
      · simp only [State.setTask, State.setConsumer, State.setQueue, Function.update_of_ne hec]
        rw [← hlisted]
        split_ifs with hname
        · simp [hname, hec]
        · rfl
    · rw [lists]
      split_ifs
      · exact (h.nodup _).filter _
      · exact h.nodup name
    · by_cases hec : e = c
      · simpa [State.setTask, State.setConsumer, State.setQueue, hec] using h.working ho c
      · simpa [State.setTask, State.setConsumer, State.setQueue, hec] using h.working ho e
    · rw [lists, h.emptied hcl, h.emptied hcl]
      simp
    · by_cases hec : e = c
      · simp [State.setTask, State.setConsumer, hec, Task.live] at he
      · simp only [State.setTask, State.setConsumer, State.setQueue,
          Function.update_of_ne hec] at he ⊢
        exact h.told hcl e he
  · have hsome := wired.queues c (by rw [hc]; rfl)
    rw [hq] at hsome
    cases hsome

theorem Registered.close (h : Registered s) (hs : stepClose s = some t) : Registered t := by
  obtain rfl := Option.some.inj hs
  have lists : ∀ name, (((s.queues name).map fun q : QueueState V =>
      QueueState.wake { q with consumers := [] }).getD (.new (.new name))).consumers = [] := by
    intro name
    cases s.queues name <;> rfl
  refine ⟨nofun, fun name => ?_, nofun, fun _ => lists, fun _ c hc => ?_⟩
  · have hlist := lists name
    unfold State.queue
    rw [hlist]
    exact List.nodup_nil
  · dsimp only at hc ⊢
    split_ifs with hin
    · rfl
    · rw [if_neg hin] at hc
      cases hclosed : s.closed with
      | true => exact h.told hclosed c hc
      | false => exact absurd ((h.listed hclosed c _).mpr ⟨rfl, hc⟩) hin

theorem registered_step (h : Registered s) (wired : Wired s) (hs : step s a = some t) :
    Registered t := by
  cases ha : a.registers with
  | false => exact h.enrolled (enrolled_step ha hs)
  | true =>
    cases a with
    | consume c config => exact h.consume hs
    | leave c => exact h.leave wired hs
    | close => exact h.close hs
    | _ => cases ha

theorem reachable_registered (h : Reachable (system V) s) : Registered s :=
  h.strengthen (fun _ => reachable_wired) (fun _ => registered_start) fun _ _ _ hw _ hi _ =>
    registered_step hi hw

/-! ## After the close -/

/-- The steps that a task has yet to take once the backend is closed, at most. -/
def Task.remaining : Task V → ℕ
  | sending _ => 4
  | waiting => 3
  | acquiring | popping | requeueing _ => 2
  | leaving => 1
  | unborn | ended => 0

theorem closed_step (hclosed : s.closed = true) (hs : step s a = some t) : t.closed = true := by
  cases ha : a.registers with
  | false => exact (enrolled_step ha hs).closed.trans hclosed
  | true =>
    cases a with
    | consume c config => obtain ⟨-, ⟨-, rfl⟩ | ⟨-, rfl⟩⟩ := consume_cases hs <;> exact hclosed
    | leave c => obtain ⟨-, ⟨q, -, rfl⟩ | ⟨-, rfl⟩⟩ := leave_cases hs <;> exact hclosed
    | close =>
      obtain rfl := Option.some.inj hs
      rfl
    | _ => cases ha

/-- No other task's step takes a consumer's task on. -/
theorem remaining_others (hclosed : s.closed = true) (ha : a.actor ≠ some c)
    (hs : step s a = some t) :
    (t.consumers c).task.remaining = (s.consumers c).task.remaining := by
  cases hr : a.registers with
  | false => rw [(enrolled_step hr hs).task c ha]
  | true =>
    cases a with
    | consume d config =>
      obtain ⟨hunborn, ⟨-, rfl⟩ | ⟨hopen, -⟩⟩ := consume_cases hs
      · by_cases hdc : c = d
        · subst hdc
          simp [State.setConsumer, Consumer.fresh, hunborn, Task.remaining]
        · simp [State.setConsumer, hdc]
      · cases hopen.symm.trans hclosed
    | leave d =>
      have hdc : c ≠ d := fun hdc => ha (by rw [hdc]; rfl)
      obtain ⟨-, ⟨q, -, rfl⟩ | ⟨-, rfl⟩⟩ := leave_cases hs <;>
        simp [State.setTask, State.setConsumer, State.setQueue, hdc]
    | close =>
      obtain rfl := Option.some.inj hs
      dsimp only
      split_ifs <;> rfl
    | _ => cases hr

theorem remaining_own (h : Registered s) (hclosed : s.closed = true) (ha : a.actor = some c)
    (hs : step s a = some t) :
    (t.consumers c).task.remaining < (s.consumers c).task.remaining := by
  cases a with
  | acquire e =>
    obtain rfl := Option.some.inj ha
    obtain ⟨hc, ⟨-, rfl⟩ | ⟨hworking, -⟩⟩ := acquire_cases hs
    · simp [State.setTask, State.setConsumer, hc, Task.remaining]
    · have htold := h.told hclosed e (by rw [hc]; rfl)
      cases hworking.symm.trans htold
  | pop e =>
    obtain rfl := Option.some.inj ha
    obtain ⟨hc, ⟨-, rfl⟩ | ⟨hopen, -⟩ | ⟨hopen, -⟩⟩ := pop_cases hs
    · simp [State.setConsumer, hc, Task.remaining]
    · cases hopen.symm.trans hclosed
    · cases hopen.symm.trans hclosed
  | notice e =>
    obtain rfl := Option.some.inj ha
    obtain ⟨hc, -, rfl⟩ := notice_cases hs
    simp [State.setConsumer, hc, Task.remaining]
  | giveUp e =>
    obtain rfl := Option.some.inj ha
    obtain ⟨-, ⟨hc, rfl⟩ | ⟨hc, rfl⟩⟩ := giveUp_cases hs <;>
      simp [State.setTask, State.setConsumer, hc, Task.remaining]
  | send e =>
    obtain rfl := Option.some.inj ha
    obtain ⟨m, hc, ⟨-, rfl⟩ | ⟨-, rfl⟩⟩ := send_cases hs <;>
      simp [State.setConsumer, hc, Task.remaining]
  | requeue e =>
    obtain rfl := Option.some.inj ha
    obtain ⟨m, hc, ⟨q, -, rfl⟩ | ⟨-, rfl⟩⟩ := requeue_cases hs <;>
      simp [State.setTask, State.setConsumer, hc, Task.remaining]
  | leave e =>
    obtain rfl := Option.some.inj ha
    obtain ⟨hc, ⟨q, -, rfl⟩ | ⟨-, rfl⟩⟩ := leave_cases hs <;>
      simp [State.setTask, State.setConsumer, hc, Task.remaining]
  | _ => cases ha

/-- A task that waits beside work, or after the close, has a version to notice. -/
theorem unseen (h : Reachable (system V) s) (hc : (s.consumers c).task = .waiting)
    (hwork : (s.queue (s.consumers c).queue).pending ≠ [] ∨ s.closed = true) :
    (s.consumers c).seen ≠ (s.queue (s.consumers c).queue).signal := by
  intro heq
  obtain ⟨hempty, hopen⟩ := (reachable_alert h).parked c hc heq
  obtain hpending | hclosed := hwork
  · exact hpending hempty
  · cases hopen.symm.trans hclosed

/-- A task that still lives has a step to take, whatever the others do. -/
theorem own_enabled (h : Reachable (system V) s) (hclosed : s.closed = true)
    (hlive : (s.consumers c).task.live = true) :
    ∃ a : Action V, a.actor = some c ∧ (step s a).isSome = true := by
  cases hc : (s.consumers c).task with
  | unborn | ended =>
    rw [hc] at hlive
    cases hlive
  | acquiring =>
    have htold := (reachable_registered h).told hclosed c hlive
    exact ⟨.acquire c, rfl, by simp [step, stepAcquire, hc, htold]⟩
  | popping => exact ⟨.pop c, rfl, by simp [step, stepPop, hc, hclosed]⟩
  | waiting => exact ⟨.notice c, rfl, by simp [step, stepNotice, hc, unseen h hc (.inr hclosed)]⟩
  | sending m =>
    refine ⟨.send c, rfl, ?_⟩
    cases hopen : (s.consumers c).stream.isOpen <;> simp [step, stepSend, hc, hopen]
  | requeueing m =>
    refine ⟨.requeue c, rfl, ?_⟩
    cases hq : s.queues (s.consumers c).queue <;> simp [step, stepRequeue, hc, hq]
  | leaving =>
    refine ⟨.leave c, rfl, ?_⟩
    cases hq : s.queues (s.consumers c).queue <;> simp [step, stepLeave, hc, hq]

theorem consumer_completes (c : ℕ) :
    Completes (system V) (fun s => Reachable (system V) s ∧ s.closed = true)
      (fun s => (s.consumers c).task.live = false) (fun a => a.actor = some c)
      (fun a => a.actor = some c) (fun s => (s.consumers c).task.remaining) where
  keep s a t := by
    rintro ⟨hr, hclosed⟩ hs
    exact ⟨hr.next trivial hs, closed_step hclosed hs⟩
  idle s a t := by
    rintro ⟨hr, hclosed⟩ hs
    by_cases ha : a.actor = some c
    · exact (remaining_own (reachable_registered hr) hclosed ha hs).le
    · exact (remaining_others hclosed ha hs).le
  down s a t := by
    rintro ⟨hr, hclosed⟩ ha hs
    exact remaining_own (reachable_registered hr) hclosed ha hs
  works a ha := ha
  enabled s := by
    rintro ⟨hr, hclosed⟩
    cases hlive : (s.consumers c).task.live with
    | false => exact .inl rfl
    | true => exact .inr (own_enabled hr hclosed hlive)

/-- Every consumer is on the list of its queue while its task lives, once and nowhere else, and
on none once the backend is closed. -/
theorem consumer_registry (h : Reachable (system V) s) (c : ℕ) (name : String) :
    (c ∈ (s.queue name).consumers ↔ s.closed = false ∧ (s.consumers c).queue = name ∧
      (s.consumers c).task.live = true) ∧
    (s.queue name).consumers.count c ≤ 1 ∧
    ((s.consumers c).task.live = true → (s.consumers c).closed = s.closed) := by
  have registered := reachable_registered h
  refine ⟨?_, List.nodup_iff_count_le_one.mp (registered.nodup name) c, fun hlive => ?_⟩ <;>
    cases hclosed : s.closed
  · simpa using registered.listed hclosed c name
  · simp [registered.emptied hclosed]
  · exact registered.working hclosed c
  · exact registered.told hclosed c hlive

/-- Two consumers, of which one has gone after its stream was dropped. -/
theorem consumer_registry_two : ∃ s : State Unit, Reachable (system Unit) s ∧
    0 ∉ (s.queue "mail").consumers ∧ 1 ∈ (s.queue "mail").consumers ∧
    (s.queue "mail").consumers.count 1 ≤ 1 := by
  have start : Reachable (system Unit) (initial 0 10) := .start ⟨0, 10, by decide, rfl⟩
  have reached := start.run [.consume 0 (.new "mail"), .consume 1 (.new "mail"), .dropStream 0,
    .giveUp 0, .leave 0] rfl
  refine ⟨_, reached, fun hin => ?_, ?_, (consumer_registry reached 1 "mail").2.1⟩
  · obtain ⟨-, -, hlive⟩ := (consumer_registry reached 0 "mail").1.mp hin
    cases hlive
  · exact (consumer_registry reached 1 "mail").1.mpr ⟨rfl, rfl, rfl⟩

/-- Once the backend is closed, a consumer's task takes four more steps at most, and until it
has ended it can take one of them by itself. -/
theorem close_ends_consumers (h : Reachable (system V) s) (hclosed : s.closed = true) (c : ℕ)
    (actions : List (Action V)) (hrun : (system V).run s actions = some t) :
    actions.countP (fun a => a.actor = some c) ≤ 4 ∧
      ((t.consumers c).task.live = false ∨
        ∃ a : Action V, a.actor = some c ∧ (step t a).isSome = true) := by
  obtain ⟨ht, hbound⟩ := (consumer_completes c).bounded ⟨h, hclosed⟩ actions hrun
  have hrank : (s.consumers c).task.remaining ≤ 4 := by
    cases (s.consumers c).task <;> simp [Task.remaining]
  exact ⟨by omega, (consumer_completes c).enabled t ht⟩

/-- The close finds one consumer with a message in its hand, and one that waits. -/
theorem close_ends_consumers_two : ∃ s : State Unit, Reachable (system Unit) s ∧
    (s.consumers 0).task.live = true ∧ ∀ actions t, (system Unit).run s actions = some t →
      actions.countP (fun a => a.actor = some 0) ≤ 4 := by
  have start : Reachable (system Unit) (initial 0 10) := .start ⟨0, 10, by decide, rfl⟩
  have reached := start.run [.consume 0 (.new "mail"), .consume 1 (.new "mail"), .acquire 0,
    .publish 0 mail none, .check 0, .schedule 0, .pop 0, .acquire 1, .pop 1, .close] rfl
  exact ⟨_, reached, rfl, fun actions t hrun => (close_ends_consumers reached rfl 0 actions hrun).1⟩

end Queuey.MemoryBackend
