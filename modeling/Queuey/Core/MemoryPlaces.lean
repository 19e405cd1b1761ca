import Queuey.Core.MemorySteps
import Mathlib.Data.List.Basic

/-!
# Where a message can be

The boxes of the in-memory backend are the lists of its queues, the parts of its consumers,
its timers and the calls in progress. An update of one part of the state is an update of
its boxes, and the numbers and names that tie the parts together survive every step.
-/
namespace Queuey.MemoryBackend
open Transition

variable {V : Type} {s t : State V} {k c i n : ℕ} {r : Request V} {op : Settle V}
  {config : QueueConfig} {m : Message V} {name : String} {q : QueueState V} {x : Consumer V}

/-! ## The boxes -/

inductive QueuePart where
  | pending
  | settled
  | dead
deriving DecidableEq

/-- Between pop and send, in the channel, collected by the stream's `Drop`, handed out. -/
inductive ConsumerPart where
  | transit
  | unread
  | returning
  | unsettled
deriving DecidableEq

inductive Place where
  | queue (name : String) (part : QueuePart)
  | consumer (c : ℕ) (part : ConsumerPart)
  | timer (n : ℕ)
  | call (k : ℕ)
deriving DecidableEq

def QueueState.box (q : QueueState V) : QueuePart → List (Message V)
  | .pending => q.pending
  | .settled => q.settled.map Prod.fst
  | .dead => q.dead.map Prod.fst

def Task.hand : Task V → List (Message V)
  | sending m | requeueing m => [m]
  | _ => []

def Stream.collected : Stream V → List (Message V)
  | draining collected => collected
  | _ => []

def Consumer.box (x : Consumer V) : ConsumerPart → List (Message V)
  | .transit => x.task.hand
  | .unread => x.unread
  | .returning => x.stream.collected
  | .unsettled => x.out

def Timer.box : Timer V → List (Message V)
  | sleeping m _ => [m]
  | _ => []

/-- The message of the delivery a request settles. -/
def Request.original (r : Request V) : List (Message V) :=
  (r.origin.map MemoryDelivery.message).toList

def Call.box : Call V → List (Message V)
  | checking r | scheduling r | counting r _ | guarding r _ | recording r => r.original
  | acking d | burying d _ => [d.message]
  | idle | returned _ _ | panicked _ => []

def State.box (s : State V) : Place → List (Message V)
  | .queue name part => (s.queue name).box part
  | .consumer c part => (s.consumers c).box part
  | .timer n => (s.timers n).box
  | .call k => (s.calls k).box

/-! ## What an update does to the boxes -/

theorem box_setQueue (part : QueuePart) (h : ∀ p, p ≠ part → q.box p = (s.queue name).box p) :
    (s.setQueue name q).box = Function.update s.box (.queue name part) (q.box part) := by
  funext p
  cases p with
  | queue other p =>
    by_cases ho : other = name
    · subst ho
      by_cases hp : p = part
      · simp [State.box, State.queue, State.setQueue, hp]
      · simpa [State.box, State.queue, State.setQueue, hp] using h p hp
    · simp [State.box, State.queue, State.setQueue, ho]
  | _ => rfl

theorem box_setQueue_same (h : ∀ p, q.box p = (s.queue name).box p) :
    (s.setQueue name q).box = s.box := by
  rw [box_setQueue .pending fun p _ => h p, h]
  exact Function.update_eq_self _ _

theorem box_setConsumer (part : ConsumerPart)
    (h : ∀ p, p ≠ part → x.box p = (s.consumers c).box p) :
    (s.setConsumer c x).box = Function.update s.box (.consumer c part) (x.box part) := by
  funext p
  cases p with
  | consumer other p =>
    by_cases ho : other = c
    · subst ho
      by_cases hp : p = part
      · simp [State.box, State.setConsumer, hp]
      · simpa [State.box, State.setConsumer, hp] using h p hp
    · simp [State.box, State.setConsumer, ho]
  | _ => rfl

theorem box_setConsumer_same (h : ∀ p, x.box p = (s.consumers c).box p) :
    (s.setConsumer c x).box = s.box := by
  rw [box_setConsumer .transit fun p _ => h p, h]
  exact Function.update_eq_self _ _

/-- A consumer passes messages from one of its parts to another. -/
theorem box_setConsumer_two (p p' : ConsumerPart)
    (h : ∀ o, o ≠ p → o ≠ p' → x.box o = (s.consumers c).box o) :
    (s.setConsumer c x).box = Function.update (Function.update s.box (.consumer c p) (x.box p))
      (.consumer c p') (x.box p') := by
  funext o
  cases o with
  | consumer other o =>
    by_cases ho : other = c
    · subst ho
      by_cases hp' : o = p'
      · simp [State.box, State.setConsumer, hp']
      · by_cases hp : o = p
        · subst hp
          simp [State.box, State.setConsumer, hp']
        · simpa [State.box, State.setConsumer, hp, hp'] using h o hp hp'
    · simp [State.box, State.setConsumer, ho]
  | _ => rfl

theorem box_setTimer (s : State V) (n : ℕ) (timer : Timer V) :
    (s.setTimer n timer).box = Function.update s.box (.timer n) timer.box := by
  funext p
  cases p with
  | timer other =>
    by_cases ho : other = n
    · simp [State.box, State.setTimer, ho]
    · simp [State.box, State.setTimer, ho]
  | _ => rfl

theorem box_setCall (s : State V) (k : ℕ) (call : Call V) :
    (s.setCall k call).box = Function.update s.box (.call k) call.box := by
  funext p
  cases p with
  | call other =>
    by_cases ho : other = k
    · simp [State.box, State.setCall, ho]
    · simp [State.box, State.setCall, ho]
  | _ => rfl

theorem box_setCall_same {call : Call V} (h : call.box = (s.calls k).box) :
    (s.setCall k call).box = s.box := by
  rw [box_setCall, h]
  exact Function.update_eq_self _ _

theorem box_note (s : State V) (k : ℕ) (effect : Effect V) : (s.note k effect).box = s.box := rfl

theorem box_insert (s : State V) (m : Message V) :
    (s.insert m).box = Function.update s.box (.queue m.envelope.queue .pending)
      (insertByPriority (s.queue m.envelope.queue).pending m) := by
  show (s.setQueue _ _).box = _
  rw [box_setQueue .pending]
  · rfl
  · intro p hp
    cases p with
    | pending => exact absurd rfl hp
    | settled => rfl
    | dead => rfl

theorem box_releaseHold (s : State V) (name : String) : (s.releaseHold name).box = s.box := by
  unfold State.releaseHold
  split
  · next q hq =>
    apply box_setQueue_same
    intro p
    have hqueue : s.queue name = q := by simp [State.queue, hq]
    rw [hqueue]
    cases p <;> rfl
  · rfl

theorem box_dropPermit (s : State V) (d : MemoryDelivery V) : (s.dropPermit d).box = s.box :=
  box_setConsumer_same fun p => by cases p <;> rfl

theorem box_scheduled (hk : (s.calls k).box = r.original) : (s.scheduled k r).box = s.box := by
  apply box_setCall_same
  rw [hk]
  unfold Request.original
  cases hr : r.origin with
  | none => rfl
  | some d => simp [Call.box, Request.original, hr]

theorem insertByPriority_perm (pending : List (Message V)) (m : Message V) :
    (insertByPriority pending m).Perm (m :: pending) := by
  unfold insertByPriority
  refine List.perm_middle.trans ?_
  rw [List.take_append_drop]

/-! ## Numbers and names -/

/-- The task has its consumer's queue to work on. -/
def Task.live : Task V → Bool
  | unborn | ended => false
  | _ => true

def Numbered (messages : List (Message V)) : Prop :=
  ∀ (i : ℕ) (m : Message V), messages[i]? = some m → m.id = i

/-- Messages and timers are numbered in the order of acceptance, a consumer not yet started
holds nothing, and the queue of one that has started exists. -/
structure Wired (s : State V) : Prop where
  numbered : Numbered s.accepted
  timers : ∀ n, s.accepted.length ≤ n → s.timers n = .unborn
  consumers : ∀ c, (s.consumers c).task = .unborn → ∀ p, (s.consumers c).box p = []
  queues : ∀ c, (s.consumers c).task.live = true → (s.queues (s.consumers c).queue).isSome

theorem Wired.fresh (h : Wired s) (hm : m.id = s.accepted.length) : m ∉ s.accepted := by
  intro hin
  obtain ⟨i, hi, hget⟩ := List.mem_iff_getElem.mp hin
  have := h.numbered i m (by rw [List.getElem?_eq_getElem hi, hget])
  omega

theorem Wired.id_injective (h : Wired s) {o : Message V} (hm : m ∈ s.accepted)
    (ho : o ∈ s.accepted) (hid : m.id = o.id) : m = o := by
  obtain ⟨i, hi, rfl⟩ := List.mem_iff_getElem.mp hm
  obtain ⟨j, hj, rfl⟩ := List.mem_iff_getElem.mp ho
  have hij : i = j := by
    rw [← h.numbered i _ (List.getElem?_eq_getElem hi), hid]
    exact h.numbered j _ (List.getElem?_eq_getElem hj)
  subst hij
  rfl

theorem wired_start (h : (system V).start s) : Wired s := by
  obtain ⟨now, horizon, -, rfl⟩ := h
  exact ⟨nofun, fun _ _ => rfl, fun _ _ p => by cases p <;> rfl, nofun⟩

theorem Wired.setQueue (h : Wired s) (name : String) (q : QueueState V) :
    Wired (s.setQueue name q) where
  numbered := h.numbered
  timers := h.timers
  consumers := h.consumers
  queues c hc := by
    have := h.queues c hc
    by_cases hn : (s.consumers c).queue = name <;> simp_all [State.setQueue]

theorem Wired.setConsumer (h : Wired s) (queue : x.queue = (s.consumers c).queue)
    (empty : x.task = .unborn → ∀ p, x.box p = [])
    (live : x.task.live = true → (s.consumers c).task.live = true) :
    Wired (s.setConsumer c x) where
  numbered := h.numbered
  timers := h.timers
  consumers d hd := by
    by_cases hdc : d = c
    · simpa [State.setConsumer, hdc] using empty (by simpa [State.setConsumer, hdc] using hd)
    · simpa [State.setConsumer, hdc] using h.consumers d (by simpa [State.setConsumer, hdc] using hd)
  queues d hd := by
    by_cases hdc : d = c
    · subst hdc
      simpa [State.setConsumer, queue] using h.queues d (live (by simpa [State.setConsumer] using hd))
    · simpa [State.setConsumer, hdc] using h.queues d (by simpa [State.setConsumer, hdc] using hd)

/-- The consumer's task goes on. -/
theorem Wired.setTask {task : Task V} (h : Wired s) (born : task ≠ .unborn)
    (live : task.live = true → (s.consumers c).task.live = true) : Wired (s.setTask c task) :=
  h.setConsumer rfl (fun ht => absurd ht born) live

theorem Wired.setCall (h : Wired s) (k : ℕ) (call : Call V) : Wired (s.setCall k call) :=
  ⟨h.numbered, h.timers, h.consumers, h.queues⟩

theorem Wired.note (h : Wired s) (k : ℕ) (effect : Effect V) : Wired (s.note k effect) :=
  ⟨h.numbered, h.timers, h.consumers, h.queues⟩

theorem Wired.setTimer (h : Wired s) {timer : Timer V} (born : s.timers n ≠ .unborn) :
    Wired (s.setTimer n timer) where
  numbered := h.numbered
  timers m hm := by
    have hmn : m ≠ n := by
      rintro rfl
      exact born (h.timers m hm)
    simpa [State.setTimer, hmn] using h.timers m hm
  consumers := h.consumers
  queues := h.queues

theorem Wired.insert (h : Wired s) (m : Message V) : Wired (s.insert m) := by
  have h' := h.setQueue m.envelope.queue (QueueState.wake
    { s.queue m.envelope.queue with
      pending := insertByPriority (s.queue m.envelope.queue).pending m })
  exact ⟨h'.numbered, h'.timers, h'.consumers, h'.queues⟩

theorem Wired.releaseHold (h : Wired s) (name : String) : Wired (s.releaseHold name) := by
  unfold State.releaseHold
  split
  · exact h.setQueue _ _
  · exact h

theorem Numbered.append {messages : List (Message V)} (h : Numbered messages)
    (hm : m.id = messages.length) : Numbered (messages ++ [m]) := by
  intro i o ho
  by_cases hi : i < messages.length
  · exact h i o (by rwa [List.getElem?_append_left hi] at ho)
  · obtain ⟨hlast, rfl⟩ : i = messages.length ∧ m = o := by
      rw [List.getElem?_append_right (by omega), List.getElem?_singleton] at ho
      split_ifs at ho with hz
      exact ⟨by omega, Option.some.inj ho⟩
    rw [hm, hlast]

theorem Wired.accept (h : Wired s) (hm : m.id = s.accepted.length) :
    Wired { s with accepted := s.accepted ++ [m] } where
  numbered := h.numbered.append hm
  timers n hn := h.timers n (by simp at hn; omega)
  consumers := h.consumers
  queues := h.queues

theorem Wired.spawnTimer (h : Wired s) {guarded : Bool} (hm : m.id = s.accepted.length) :
    Wired (s.spawnTimer k m guarded) where
  numbered := h.numbered.append hm
  timers n hn := by
    have hlt : s.accepted.length < n := by
      simp [State.spawnTimer] at hn
      omega
    have hnm : n ≠ m.id := by omega
    simpa [State.spawnTimer, State.note, State.setTimer, hnm] using h.timers n hlt.le
  consumers := h.consumers
  queues := h.queues

theorem Wired.dropPermit (h : Wired s) (d : MemoryDelivery V) : Wired (s.dropPermit d) := by
  refine h.setConsumer rfl (fun ht p => ?_) id
  rw [← h.consumers d.consumer ht p]
  cases p <;> rfl

theorem Wired.dropOrigin (h : Wired s) (r : Request V) : Wired (s.dropOrigin r) := by
  unfold State.dropOrigin
  split
  · exact h.dropPermit _
  · exact h

theorem Wired.consume (h : Wired s) (hs : stepConsume s c config = some t) : Wired t := by
  obtain ⟨hc, ⟨-, rfl⟩ | ⟨-, rfl⟩⟩ := consume_cases hs
  · refine ⟨h.numbered, h.timers, fun d hd p => ?_, fun d hd => ?_⟩
    · by_cases hdc : d = c
      · subst hdc
        simp [State.setConsumer, Consumer.fresh] at hd
      · simpa [State.setConsumer, hdc] using h.consumers d (by simpa [State.setConsumer, hdc] using hd) p
    · by_cases hdc : d = c
      · subst hdc
        simp [State.setConsumer, Consumer.fresh, Task.live] at hd
      · simpa [State.setConsumer, hdc] using h.queues d (by simpa [State.setConsumer, hdc] using hd)
  · have h' := h.setQueue config.name { s.queue config.name with
      consumers := (s.queue config.name).consumers ++ [c] }
    refine ⟨h'.numbered, h'.timers, fun d hd p => ?_, fun d hd => ?_⟩
    · by_cases hdc : d = c
      · subst hdc
        simp [State.setConsumer, Consumer.fresh] at hd
      · simpa [State.setConsumer, hdc] using
          h'.consumers d (by simpa [State.setConsumer, hdc] using hd) p
    · by_cases hdc : d = c
      · subst hdc
        simp [State.setConsumer, State.setQueue, Consumer.fresh]
      · simpa [State.setConsumer, hdc] using
          h'.queues d (by simpa [State.setConsumer, hdc] using hd)

theorem declared_isSome (configs : List QueueConfig) (queues : String → Option (QueueState V))
    (h : (queues name).isSome) : (configs.foldl declareOne queues name).isSome := by
  induction configs generalizing queues with
  | nil => exact h
  | cons config rest ih =>
    apply ih
    cases hq : queues config.name with
    | some q => simpa only [declareOne, hq] using h
    | none => by_cases hn : name = config.name <;> simp [declareOne, hq, hn, h]

/-- Redeclaring creates queues that agree in all but their configuration with those that are
not declared yet. -/
theorem declared_same {β : Type} (f : QueueState V → β)
    (hf : ∀ config config', f (.new config) = f (.new config')) (configs : List QueueConfig)
    (queues : String → Option (QueueState V)) (name : String) :
    f ((configs.foldl declareOne queues name).getD (.new (.new name))) =
      f ((queues name).getD (.new (.new name))) := by
  induction configs generalizing queues with
  | nil => rfl
  | cons config rest ih =>
    refine (ih _).trans ?_
    cases hq : queues config.name with
    | some q => simp only [declareOne, hq]
    | none =>
      by_cases hn : name = config.name
      · subst hn
        simp only [declareOne, hq, Function.update_self, Option.getD_some, Option.getD_none]
        exact hf _ _
      · simp [declareOne, hq, hn]

theorem Wired.declare {configs : List QueueConfig} (h : Wired s)
    (hs : stepDeclare s configs = some t) : Wired t := by
  obtain rfl := Option.some.inj hs
  split_ifs
  · exact h
  · exact ⟨h.numbered, h.timers, h.consumers, fun c hc => declared_isSome _ _ (h.queues c hc)⟩

theorem Wired.schedule (h : Wired s) (hs : stepSchedule s k = some t) : Wired t := by
  obtain ⟨r, -, ⟨-, -, rfl⟩ | ⟨-, -, rfl⟩ | ⟨-, -, -, rfl⟩ | ⟨-, -, -, rfl⟩ | ⟨-, -, rfl⟩⟩ :=
    schedule_cases hs
  · exact h.setCall _ _
  · have h' := (h.insert (s.message r)).accept (m := s.message r) rfl
    exact (h'.note k _).setCall _ _
  · exact h.setCall _ _
  · exact (h.spawnTimer rfl).setCall _ _
  · exact (h.dropOrigin r).setCall _ _

theorem Wired.record (h : Wired s) (hs : stepRecord s k = some t) : Wired t := by
  have recordAck : ∀ m kind, Wired (s.recordAck k m kind) := fun m kind =>
    (h.setQueue _ _).note _ _
  obtain ⟨r, d, -, -, rfl⟩ | ⟨d, -, rfl⟩ | ⟨d, reason, -, -, rfl⟩ | ⟨d, reason, -, -, rfl⟩ :=
    record_cases hs
  · exact ((recordAck _ _).dropPermit d).setCall _ _
  · exact ((recordAck _ _).dropPermit d).setCall _ _
  · exact (h.dropPermit d).setCall _ _
  · exact (((h.setQueue _ _).note _ _).dropPermit d).setCall _ _

theorem releaseHold_timers (s : State V) (name : String) :
    (s.releaseHold name).timers = s.timers := by
  unfold State.releaseHold
  split <;> rfl

theorem releaseHold_closed (s : State V) (name : String) :
    (s.releaseHold name).closed = s.closed := by
  unfold State.releaseHold
  split <;> rfl

/-- The hold is released first, and the message inserted if the backend is open. -/
theorem enqueueNow_cases (s : State V) (m : Message V) (guarded : Bool) :
    ∃ u, (u = s ∨ u = s.releaseHold m.envelope.queue) ∧
      ((s.closed = true ∧ s.enqueueNow m guarded = u) ∨
        (s.closed = false ∧ s.enqueueNow m guarded = u.insert m)) := by
  cases guarded with
  | false =>
    refine ⟨s, .inl rfl, ?_⟩
    cases hc : s.closed <;> simp [State.enqueueNow, hc]
  | true =>
    refine ⟨_, .inr rfl, ?_⟩
    cases hc : s.closed <;> simp [State.enqueueNow, releaseHold_closed, hc]

theorem enqueueNow_timers (s : State V) (m : Message V) (guarded : Bool) :
    (s.enqueueNow m guarded).timers = s.timers := by
  obtain ⟨u, rfl | rfl, ⟨-, he⟩ | ⟨-, he⟩⟩ := enqueueNow_cases s m guarded <;> rw [he]
  · rfl
  · exact releaseHold_timers _ _
  · exact releaseHold_timers _ _

theorem Wired.enqueueNow (h : Wired s) (m : Message V) (guarded : Bool) :
    Wired (s.enqueueNow m guarded) := by
  obtain ⟨u, hu, he⟩ := enqueueNow_cases s m guarded
  have released : Wired u := by
    obtain rfl | rfl := hu
    · exact h
    · exact h.releaseHold _
  obtain ⟨-, he⟩ | ⟨-, he⟩ := he <;> rw [he]
  · exact released
  · exact released.insert m

theorem Wired.fire (h : Wired s) (hs : stepFire s n = some t) : Wired t := by
  obtain ⟨m, guarded, hn, -, rfl⟩ := fire_cases hs
  apply (h.enqueueNow m guarded).setTimer
  rw [enqueueNow_timers, hn]
  nofun

theorem Wired.pop (h : Wired s) (hs : stepPop s c = some t) : Wired t := by
  obtain ⟨hc, ⟨-, rfl⟩ | ⟨-, -, rfl⟩ | ⟨-, q, m, rest, -, -, rfl⟩⟩ := pop_cases hs
  · exact h.setConsumer rfl nofun fun _ => by rw [hc]; rfl
  · exact h.setTask nofun fun _ => by rw [hc]; rfl
  · exact (h.setQueue _ _).setTask nofun fun _ => by
      show (s.consumers c).task.live = true
      rw [hc]
      rfl

theorem Wired.giveBack (h : Wired s) (hs : stepGiveBack s c = some t) : Wired t := by
  have gone : ∀ {u : State V}, Wired u → u.consumers c = s.consumers c →
      Wired (u.setConsumer c { s.consumers c with stream := .gone }) := by
    intro u hu hc
    refine hu.setConsumer (by rw [hc]) (fun ht p => ?_) fun ht => by rwa [hc]
    have := h.consumers c ht p
    cases p <;> first | exact this | rfl
  obtain ⟨collected, -, -, ⟨-, rfl⟩ | ⟨-, rfl⟩⟩ := giveBack_cases hs
  · exact gone h rfl
  · exact gone (h.setQueue _ _) rfl

theorem Wired.close (h : Wired s) (hs : stepClose s = some t) : Wired t := by
  obtain rfl := Option.some.inj hs
  have same : ∀ c, ∃ closed,
      (if c ∈ (s.queue (s.consumers c).queue).consumers then { s.consumers c with closed := true }
        else s.consumers c) = { s.consumers c with closed := closed } := by
    intro c
    split_ifs
    · exact ⟨_, rfl⟩
    · exact ⟨(s.consumers c).closed, rfl⟩
  refine ⟨h.numbered, h.timers, fun c hc p => ?_, fun c hc => ?_⟩
  all_goals
    obtain ⟨closed, hsame⟩ := same c
    simp only [hsame] at hc ⊢
  · rw [← h.consumers c hc p]
    cases p <;> rfl
  · simpa using h.queues c hc

theorem wired_step {a : Action V} (h : Wired s) (hs : step s a = some t) : Wired t := by
  cases a with
  | tick elapsed =>
    obtain ⟨-, rfl⟩ := tick_cases hs
    exact ⟨h.numbered, h.timers, h.consumers, h.queues⟩
  | declare configs => exact h.declare hs
  | publish k envelope delay =>
    obtain ⟨-, rfl⟩ := call_cases hs
    exact h.setCall _ _
  | defer k envelope delay =>
    obtain ⟨-, rfl⟩ := call_cases hs
    exact h.setCall _ _
  | settle k c i op =>
    obtain ⟨-, m, hm, rfl⟩ := settle_cases hs
    apply Wired.setCall
    refine h.setConsumer rfl (fun ht p => ?_) id
    have hempty : (s.consumers c).out = [] := h.consumers c ht .unsettled
    simp [hempty] at hm
  | check k =>
    obtain ⟨r, -, ⟨-, rfl⟩ | ⟨-, rfl⟩⟩ := check_cases hs
    · exact (h.dropOrigin r).setCall _ _
    · exact h.setCall _ _
  | schedule k => exact h.schedule hs
  | count k =>
    obtain ⟨r, deadline, -, rfl⟩ := count_cases hs
    exact ((h.setQueue _ _).note _ _).setCall _ _
  | guard k =>
    obtain ⟨r, deadline, -, rfl⟩ := guard_cases hs
    exact (h.spawnTimer rfl).setCall _ _
  | record k => exact h.record hs
  | fire n => exact h.fire hs
  | abort n =>
    obtain ⟨m, guarded, hn, rfl⟩ := abort_cases hs
    exact h.setTimer (by rw [hn]; nofun)
  | release n =>
    obtain ⟨name, hn, rfl⟩ := release_cases hs
    apply (h.releaseHold name).setTimer
    rw [releaseHold_timers, hn]
    nofun
  | consume c config => exact h.consume hs
  | acquire c =>
    obtain ⟨hc, ⟨-, rfl⟩ | ⟨-, -, rfl⟩⟩ := acquire_cases hs
    · exact h.setTask nofun fun _ => by rw [hc]; rfl
    · exact h.setConsumer rfl nofun fun _ => by rw [hc]; rfl
  | pop c => exact h.pop hs
  | notice c =>
    obtain ⟨hc, -, rfl⟩ := notice_cases hs
    exact h.setConsumer rfl nofun fun _ => by rw [hc]; rfl
  | giveUp c =>
    obtain ⟨-, ⟨hc, rfl⟩ | ⟨hc, rfl⟩⟩ := giveUp_cases hs
    · exact h.setTask nofun fun _ => by rw [hc]; rfl
    · exact h.setConsumer rfl nofun fun _ => by rw [hc]; rfl
  | send c =>
    obtain ⟨m, hc, ⟨-, rfl⟩ | ⟨-, rfl⟩⟩ := send_cases hs <;>
      exact h.setConsumer rfl nofun fun _ => by rw [hc]; rfl
  | requeue c =>
    obtain ⟨m, hc, ⟨q, -, rfl⟩ | ⟨-, rfl⟩⟩ := requeue_cases hs
    · exact (h.setQueue _ _).setTask nofun fun _ => by
        show (s.consumers c).task.live = true
        rw [hc]
        rfl
    · exact h.setTask nofun fun _ => by rw [hc]; rfl
  | leave c =>
    obtain ⟨hc, ⟨q, -, rfl⟩ | ⟨-, rfl⟩⟩ := leave_cases hs
    · exact (h.setQueue _ _).setTask nofun nofun
    · exact h.setTask nofun nofun
  | poll c =>
    obtain ⟨m, rest, -, hm, rfl⟩ := poll_cases hs
    refine h.setConsumer rfl (fun ht p => ?_) id
    have hempty : (s.consumers c).unread = [] := h.consumers c ht .unread
    simp [hempty] at hm
  | dropStream c =>
    obtain ⟨hopen, rfl⟩ := dropStream_cases hs
    refine h.setConsumer rfl (fun ht p => ?_) id
    have := h.consumers c ht p
    cases p <;> first | exact this | rfl
  | drain c =>
    obtain ⟨collected, m, rest, -, hm, rfl⟩ := drain_cases hs
    refine h.setConsumer rfl (fun ht p => ?_) id
    have hempty : (s.consumers c).unread = [] := h.consumers c ht .unread
    simp [hempty] at hm
  | giveBack c => exact h.giveBack hs
  | dropDelivery c i =>
    obtain ⟨hi, rfl⟩ := dropDelivery_cases hs
    refine h.setConsumer rfl (fun ht p => ?_) id
    have hempty : (s.consumers c).out = [] := h.consumers c ht .unsettled
    simp [hempty] at hi
  | close => exact h.close hs

theorem reachable_wired (h : Reachable (system V) s) : Wired s :=
  h.invariant (fun _ => wired_start) fun _ _ _ hi _ => wired_step hi

end Queuey.MemoryBackend
