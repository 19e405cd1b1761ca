import Queuey.Core.MemoryPlaces

/-!
# What a call has done

The log of a call of the in-memory backend, read off the place where it stands, and how the
logs of all calls tie up with the messages accepted, inserted and acked.
-/
namespace Queuey.MemoryBackend
open Transition

variable {V : Type} {s t u : State V} {a : Action V} {k c i n : ℕ} {r : Request V} {op : Settle V}
  {config : QueueConfig} {m : Message V} {name : String} {q : QueueState V} {x : Consumer V}
  {did : List (Effect V)}

/-! ## Steps that are no call's -/

/-- Nothing that the calls see or have done is changed. -/
structure Aside (s t : State V) : Prop where
  closed : t.closed = s.closed
  calls : t.calls = s.calls
  did : t.did = s.did
  accepted : t.accepted = s.accepted
  inserted : ∀ m ∈ s.inserted, m ∈ t.inserted
  settled : ∀ name, (t.queue name).settled = (s.queue name).settled

theorem Aside.refl (s : State V) : Aside s s := ⟨rfl, rfl, rfl, rfl, fun _ => id, fun _ => rfl⟩

theorem Aside.trans (h : Aside s t) (h' : Aside t u) : Aside s u :=
  ⟨h'.closed.trans h.closed, h'.calls.trans h.calls, h'.did.trans h.did,
    h'.accepted.trans h.accepted, fun m hm => h'.inserted m (h.inserted m hm), fun name =>
    (h'.settled name).trans (h.settled name)⟩

theorem Aside.setConsumer (s : State V) (c : ℕ) (x : Consumer V) : Aside s (s.setConsumer c x) :=
  ⟨rfl, rfl, rfl, rfl, fun _ => id, fun _ => rfl⟩

theorem Aside.setTimer (s : State V) (n : ℕ) (timer : Timer V) : Aside s (s.setTimer n timer) :=
  ⟨rfl, rfl, rfl, rfl, fun _ => id, fun _ => rfl⟩

theorem Aside.setQueue (h : q.settled = (s.queue name).settled) : Aside s (s.setQueue name q) :=
  ⟨rfl, rfl, rfl, rfl, fun _ => id, same_setQueue QueueState.settled h⟩

theorem Aside.insert (s : State V) (m : Message V) : Aside s (s.insert m) :=
  ⟨rfl, rfl, rfl, rfl, fun _ => List.mem_append_left _,
    same_setQueue QueueState.settled rfl⟩

theorem Aside.releaseHold (s : State V) (name : String) : Aside s (s.releaseHold name) := by
  unfold State.releaseHold
  split
  · next q hq => exact .setQueue (by simp [State.queue, hq])
  · exact .refl s

theorem Aside.enqueueNow (s : State V) (m : Message V) (guarded : Bool) :
    Aside s (s.enqueueNow m guarded) := by
  obtain ⟨u, hu, he⟩ := enqueueNow_cases s m guarded
  have released : Aside s u := by
    obtain rfl | rfl := hu
    · exact .refl _
    · exact .releaseHold _ _
  obtain ⟨-, he⟩ | ⟨-, he⟩ := he <;> rw [he]
  · exact released
  · exact released.trans (.insert u m)

/-- The step belongs to a call of the backend or of a delivery, `close` among them. -/
def Action.ofCall : Action V → Bool
  | publish _ _ _ | defer _ _ _ | settle _ _ _ _ | check _ | schedule _ | count _ | guard _
  | record _ | close => true
  | _ => false

theorem declared_settled (configs : List QueueConfig) (queues : String → Option (QueueState V))
    (name : String) :
    ((configs.foldl declareOne queues name).getD (.new (.new name))).settled =
      ((queues name).getD (.new (.new name))).settled := by
  apply declared_same QueueState.settled
  exact fun _ _ => rfl

theorem Aside.consumer (ha : a.ofConsumer = true) (hs : step s a = some t) : Aside s t := by
  obtain ⟨c, x, rfl | ⟨name, pending, consumers, signal, rfl⟩⟩ := consumer_cases ha hs
  · exact .setConsumer _ _ _
  · refine Aside.trans ?_ (.setConsumer _ _ _)
    exact .setQueue rfl

theorem aside_of_step (ha : a.ofCall = false) (hs : step s a = some t) : Aside s t := by
  cases a with
  | tick elapsed =>
    obtain ⟨-, rfl⟩ := tick_cases hs
    exact ⟨rfl, rfl, rfl, rfl, fun _ => id, fun _ => rfl⟩
  | declare configs =>
    obtain rfl := Option.some.inj hs
    split_ifs
    · exact .refl s
    · exact ⟨rfl, rfl, rfl, rfl, fun _ => id, fun name => declared_settled configs s.queues name⟩
  | fire n =>
    obtain ⟨m, guarded, -, -, rfl⟩ := fire_cases hs
    exact (Aside.enqueueNow s m guarded).trans (.setTimer _ _ _)
  | abort n =>
    obtain ⟨m, guarded, -, rfl⟩ := abort_cases hs
    exact .setTimer _ _ _
  | release n =>
    obtain ⟨name, -, rfl⟩ := release_cases hs
    exact (Aside.releaseHold s name).trans (.setTimer _ _ _)
  | consume | acquire | pop | notice | giveUp | send | requeue | leave | poll | dropStream | drain
  | giveBack | dropDelivery => exact .consumer rfl hs
  | _ => cases ha

theorem aside_of_close (hs : stepClose s = some t) : Aside { s with closed := true } t := by
  obtain rfl := Option.some.inj hs
  refine ⟨rfl, rfl, rfl, rfl, fun _ => id, fun name => ?_⟩
  cases hq : s.queues name <;> simp [State.queue, QueueState.wake, hq]

/-! ## The log of a call -/

/-- The request's message was inserted, or its timer started. -/
def Scheduled (r : Request V) (did : List (Effect V)) : Prop :=
  ∃ m : Message V, m.envelope = r.envelope ∧ m.replaces = r.origin.map (fun d => d.message.id) ∧
    ((r.delay.isZero = true ∧ did = [.inserted m]) ∨
      (r.delay.isZero = false ∧ did = [.slept m]) ∨
      (r.delay.isZero = false ∧ did = [.counted r.envelope.queue, .slept m]))

/-- `enqueue_now` found the backend closed and dropped the message without a word. -/
def Silent (r : Request V) (did : List (Effect V)) : Prop := r.delay.isZero = true ∧ did = []

/-- The log of a call by where it stands. -/
def Call.Logs (did : List (Effect V)) : Call V → Prop
  | idle | checking _ | scheduling _ | acking _ | burying _ _ | panicked _ => did = []
  | counting r _ => r.delay.isZero = false ∧ did = []
  | guarding r _ => r.delay.isZero = false ∧ did = [.counted r.envelope.queue]
  | recording r => Scheduled r did ∨ Silent r did
  | returned (some r) (.ok ()) =>
    match r.origin with
    | none => Scheduled r did ∨ Silent r did
    | some d => ∃ before, (Scheduled r before ∨ Silent r before) ∧
        did = before ++ [.acked d.message r.kind]
  | returned none (.ok ()) =>
    ∃ m, did = [.acked m .succeeded] ∨ ∃ reason, did = [.buried m reason]
  | returned _ (.error e) => e = .shutDown ∧ did = []

def Logged (s : State V) : Prop := ∀ k, (s.calls k).Logs (s.did k)

attribute [local simp] Call.Logs

theorem logged_start (h : (system V).start s) : Logged s := by
  obtain ⟨now, horizon, -, rfl⟩ := h
  exact fun k => rfl

/-- Call `k` moves on, with its log as it is there. -/
theorem Logged.move {call : Call V} (h : Logged s) (hcalls : t.calls = s.calls)
    (hdid : ∀ j, j ≠ k → t.did j = s.did j) (hk : call.Logs (t.did k)) :
    Logged (t.setCall k call) := by
  intro j
  by_cases hj : j = k
  · subst hj
    simpa [State.setCall] using hk
  · simp only [State.setCall, Function.update_of_ne hj, hcalls, hdid j hj]
    exact h j

theorem Logged.aside (h : Logged s) (ht : Aside s t) : Logged t := by
  intro k
  rw [ht.calls, ht.did]
  exact h k

theorem Aside.dropPermit (s : State V) (d : MemoryDelivery V) : Aside s (s.dropPermit d) :=
  .setConsumer _ _ _

theorem Aside.dropOrigin (s : State V) (r : Request V) : Aside s (s.dropOrigin r) := by
  unfold State.dropOrigin
  split
  · exact .setConsumer _ _ _
  · exact .refl s

/-- What a request's call goes on to after scheduling accounts for the same log. -/
theorem Logged.scheduled (h : Logged s) (hcalls : t.calls = s.calls)
    (hdid : ∀ j, j ≠ k → t.did j = s.did j) (hk : Scheduled r (t.did k) ∨ Silent r (t.did k)) :
    Logged (t.scheduled k r) := by
  refine h.move hcalls hdid ?_
  cases hr : r.origin with
  | none => simpa [hr] using hk
  | some d => simpa using hk

theorem did_note (s : State V) (k : ℕ) (effect : Effect V) :
    (s.note k effect).did k = s.did k ++ [effect] := by
  simp [State.note]

theorem did_note_ne {j : ℕ} (hj : j ≠ k) (effect : Effect V) :
    (s.note k effect).did j = s.did j := by
  simp [State.note, hj]

theorem Logged.schedule (h : Logged s) (hs : stepSchedule s k = some t) : Logged t := by
  obtain ⟨r, hk, hcases⟩ := schedule_cases hs
  have hempty : s.did k = [] := by simpa [hk] using h k
  obtain ⟨hzero, -, rfl⟩ | ⟨hzero, -, rfl⟩ | ⟨hzero, -, -, rfl⟩ | ⟨hzero, -, -, rfl⟩ | ⟨-, -, rfl⟩ :=
    hcases
  · exact h.scheduled rfl (fun _ _ => rfl) (.inr ⟨hzero, hempty⟩)
  · refine h.scheduled rfl (fun j hj => did_note_ne hj _) (.inl ⟨s.message r, rfl, rfl, .inl ⟨hzero, ?_⟩⟩)
    rw [did_note]
    show s.did k ++ _ = _
    rw [hempty]
    rfl
  · exact h.move rfl (fun _ _ => rfl) ⟨hzero, hempty⟩
  · refine h.scheduled rfl (fun j hj => did_note_ne hj _)
      (.inl ⟨s.message r, rfl, rfl, .inr (.inl ⟨hzero, ?_⟩)⟩)
    show (State.note _ _ _).did k = _
    rw [did_note]
    show s.did k ++ _ = _
    rw [hempty]
    rfl
  · have aside := Aside.dropOrigin s r
    refine h.move aside.calls (fun j _ => by rw [aside.did]) ?_
    rw [aside.did]
    exact hempty

theorem Logged.record (h : Logged s) (hs : stepRecord s k = some t) : Logged t := by
  have hlog := h k
  obtain ⟨r, d, hk, hr, rfl⟩ | ⟨d, hk, rfl⟩ | ⟨d, reason, hk, -, rfl⟩ | ⟨d, reason, hk, -, rfl⟩ :=
    record_cases hs <;> rw [hk] at hlog
  · refine h.move rfl (fun j hj => did_note_ne hj _) ?_
    simp only [Call.Logs, hr]
    exact ⟨s.did k, hlog, did_note _ _ _⟩
  · refine h.move rfl (fun j hj => did_note_ne hj _) ⟨d.message, .inl ?_⟩
    refine (did_note _ _ _).trans ?_
    show s.did k ++ _ = _
    rw [show s.did k = [] from hlog]
    rfl
  · exact h.move rfl (fun _ _ => rfl) ⟨rfl, hlog⟩
  · refine h.move rfl (fun j hj => did_note_ne hj _) ⟨d.message, .inr ⟨reason, ?_⟩⟩
    refine (did_note _ _ _).trans ?_
    show s.did k ++ _ = _
    rw [show s.did k = [] from hlog]
    rfl

theorem logged_step (h : Logged s) (hs : step s a = some t) : Logged t := by
  by_cases ha : a.ofCall = false
  · exact h.aside (aside_of_step ha hs)
  cases a with
  | publish k envelope delay =>
    obtain ⟨hk, rfl⟩ := call_cases hs
    exact h.move rfl (fun _ _ => rfl) (by simpa [hk] using h k)
  | defer k envelope delay =>
    obtain ⟨hk, rfl⟩ := call_cases hs
    exact h.move rfl (fun _ _ => rfl) (by simpa [hk] using h k)
  | settle k c i op =>
    obtain ⟨hk, m, -, rfl⟩ := settle_cases hs
    refine h.move rfl (fun _ _ => rfl) ?_
    have hlog : s.did k = [] := by simpa [hk] using h k
    cases op <;> exact hlog
  | check k =>
    obtain ⟨r, hk, ⟨-, rfl⟩ | ⟨-, rfl⟩⟩ := check_cases hs
    · have aside := Aside.dropOrigin s r
      refine h.move aside.calls (fun j _ => by rw [aside.did]) ⟨rfl, ?_⟩
      rw [aside.did]
      simpa [hk] using h k
    · exact h.move rfl (fun _ _ => rfl) (by simpa [hk] using h k)
  | schedule k => exact h.schedule hs
  | count k =>
    obtain ⟨r, deadline, hk, rfl⟩ := count_cases hs
    obtain ⟨hzero, hlog⟩ : r.delay.isZero = false ∧ s.did k = [] := by
      simpa [hk] using h k
    refine h.move rfl (fun j hj => did_note_ne hj _) ⟨hzero, ?_⟩
    refine (did_note _ _ _).trans ?_
    show s.did k ++ _ = _
    rw [hlog]
    rfl
  | guard k =>
    obtain ⟨r, deadline, hk, rfl⟩ := guard_cases hs
    obtain ⟨hzero, hlog⟩ : r.delay.isZero = false ∧ s.did k = [.counted r.envelope.queue] := by
      simpa [hk] using h k
    refine h.scheduled rfl (fun j hj => did_note_ne hj _)
      (.inl ⟨{ s.message r with due := deadline }, rfl, rfl, .inr (.inr ⟨hzero, ?_⟩)⟩)
    refine (did_note _ _ _).trans ?_
    show s.did k ++ _ = _
    rw [hlog]
    rfl
  | record k => exact h.record hs
  | close => exact Logged.aside (s := { s with closed := true }) h (aside_of_close hs)
  | _ => exact absurd rfl ha

theorem reachable_logged (h : Reachable (system V) s) : Logged s :=
  h.invariant (fun _ => logged_start) fun _ _ _ hi _ => logged_step hi

/-! ## The books of the backend -/

/-- Some call has done it. -/
def State.Did (s : State V) (effect : Effect V) : Prop := ∃ k, effect ∈ s.did k

theorem did_note_iff {effect e : Effect V} :
    (s.note k effect).Did e ↔ s.Did e ∨ e = effect := by
  constructor
  · intro ⟨j, hj⟩
    by_cases hjk : j = k
    · subst hjk
      rw [did_note, List.mem_append, List.mem_singleton] at hj
      exact hj.imp_left fun h => ⟨j, h⟩
    · rw [did_note_ne hjk] at hj
      exact .inl ⟨j, hj⟩
  · intro h
    obtain ⟨j, hj⟩ | rfl := h
    · by_cases hjk : j = k
      · subst hjk
        exact ⟨j, by rw [did_note]; exact List.mem_append_left _ hj⟩
      · exact ⟨j, by rwa [did_note_ne hjk]⟩
    · exact ⟨k, by rw [did_note]; exact List.mem_append_right _ (List.mem_singleton_self _)⟩

/-- What was accepted, inserted and acked is what the calls have done. -/
structure Books (s : State V) : Prop where
  accepted : ∀ m, m ∈ s.accepted ↔ s.Did (.inserted m) ∨ s.Did (.slept m)
  inserted : ∀ m, s.Did (.inserted m) → m ∈ s.inserted
  settled : ∀ name m kind, (m, kind) ∈ (s.queue name).settled ↔
    name = m.envelope.queue ∧ s.Did (.acked m kind)

theorem books_start (h : (system V).start s) : Books s := by
  obtain ⟨now, horizon, -, rfl⟩ := h
  have none : ∀ effect, ¬(initial (V := V) now horizon).Did effect := by
    intro effect ⟨k, hk⟩
    cases hk
  refine ⟨fun m => ?_, fun m hm => absurd hm (none _), fun name m kind => ?_⟩
  · simp only [none, or_self, iff_false]
    exact List.not_mem_nil
  · simp only [none, and_false, iff_false]
    exact List.not_mem_nil

theorem Books.aside (h : Books s) (ht : Aside s t) : Books t := by
  have did : ∀ effect, t.Did effect ↔ s.Did effect := by
    intro effect
    unfold State.Did
    rw [ht.did]
  refine ⟨fun m => ?_, fun m hm => ht.inserted m (h.inserted m ((did _).mp hm)), fun name m kind => ?_⟩
  · rw [ht.accepted, did, did]
    exact h.accepted m
  · rw [ht.settled, did]
    exact h.settled name m kind

theorem Books.setCall (h : Books s) (k : ℕ) (call : Call V) : Books (s.setCall k call) :=
  ⟨h.accepted, h.inserted, h.settled⟩

/-- A thing done that is neither an acceptance nor an ack. -/
theorem Books.note {effect : Effect V} (h : Books s)
    (other : ∀ m kind, effect ≠ .inserted m ∧ effect ≠ .slept m ∧ effect ≠ .acked m kind) :
    Books (s.note k effect) := by
  have inserted : ∀ m, (s.note k effect).Did (.inserted m) ↔ s.Did (.inserted m) := fun m => by
    rw [did_note_iff, or_iff_left (other m .succeeded).1.symm]
  refine ⟨fun m => ?_, fun m hm => h.inserted m ((inserted m).mp hm), fun name m kind => ?_⟩
  · rw [inserted, did_note_iff, or_iff_left (other m .succeeded).2.1.symm]
    exact h.accepted m
  · rw [did_note_iff, or_iff_left (other m kind).2.2.symm]
    exact h.settled name m kind

theorem Books.spawnTimer {guarded : Bool} (h : Books s) : Books (s.spawnTimer k m guarded) := by
  have did : ∀ effect, (s.spawnTimer k m guarded).Did effect ↔ s.Did effect ∨ effect = .slept m :=
    fun effect => did_note_iff (s := s)
  refine ⟨fun o => ?_, fun o ho => h.inserted o ?_, fun name o kind => ?_⟩
  · rw [did, did]
    simp only [State.spawnTimer, List.mem_append, List.mem_singleton, h.accepted o]
    simp [or_assoc]
  · simpa [did] using ho
  · rw [did, or_iff_left (by simp)]
    exact h.settled name o kind

theorem Books.accept (h : Books s) :
    Books (({ s.insert m with accepted := s.accepted ++ [m] }).note k (.inserted m)) := by
  have did : ∀ effect, (({ s.insert m with accepted := s.accepted ++ [m] }).note k
      (.inserted m)).Did effect ↔ s.Did effect ∨ effect = .inserted m :=
    fun effect => did_note_iff (s := { s.insert m with accepted := s.accepted ++ [m] })
  refine ⟨fun o => ?_, fun o ho => ?_, fun name o kind => ?_⟩
  · rw [did, did]
    simp only [State.note, List.mem_append, List.mem_singleton, h.accepted o]
    simp [or_right_comm]
  · rw [did] at ho
    show o ∈ s.inserted ++ [m]
    rw [List.mem_append, List.mem_singleton]
    exact ho.imp (h.inserted o) fun heq => by simpa using heq
  · rw [did]
    refine Iff.trans ?_ (by simpa using h.settled name o kind)
    rw [← (Aside.insert s m).settled name]
    rfl

theorem settled_recordAck (s : State V) (k : ℕ) (m : Message V) (kind : AckKind) (name : String) :
    ((s.recordAck k m kind).queue name).settled =
      if name = m.envelope.queue then (s.queue name).settled ++ [(m, kind)]
      else (s.queue name).settled := by
  by_cases hn : name = m.envelope.queue
  · subst hn
    simp [State.recordAck, State.queue, State.setQueue, State.note]
  · simp [State.recordAck, State.queue, State.setQueue, State.note, hn]

theorem Books.recordAck (h : Books s) (k : ℕ) (m : Message V) (kind : AckKind) :
    Books (s.recordAck k m kind) := by
  have did : ∀ effect, (s.recordAck k m kind).Did effect ↔ s.Did effect ∨ effect = .acked m kind :=
    fun effect => did_note_iff (s := s.setQueue _ _)
  refine ⟨fun o => ?_, fun o ho => h.inserted o (by simpa [did] using ho), fun name o kind' => ?_⟩
  · have hno : ∀ effect : Effect V, effect ≠ .acked m kind →
        ((s.recordAck k m kind).Did effect ↔ s.Did effect) := fun effect hne => by
      rw [did, or_iff_left hne]
    rw [hno (.inserted o) nofun, hno (.slept o) nofun]
    exact h.accepted o
  · rw [settled_recordAck, did]
    have hs := h.settled name o kind'
    split_ifs with hn
    · simp only [List.mem_append, List.mem_singleton, hs, Prod.mk.injEq, Effect.acked.injEq]
      constructor
      · intro hor
        obtain ⟨hq, hd⟩ | ⟨rfl, rfl⟩ := hor
        · exact ⟨hq, .inl hd⟩
        · exact ⟨hn, .inr ⟨rfl, rfl⟩⟩
      · intro ⟨hq, hor⟩
        exact hor.imp (fun hd => ⟨hq, hd⟩) id
    · rw [hs]
      refine and_congr_right fun hq => (or_iff_left ?_).symm
      intro heq
      cases heq
      exact hn hq

theorem books_step (h : Books s) (hs : step s a = some t) : Books t := by
  by_cases ha : a.ofCall = false
  · exact h.aside (aside_of_step ha hs)
  cases a with
  | publish k envelope delay =>
    obtain ⟨-, rfl⟩ := call_cases hs
    exact h.setCall _ _
  | defer k envelope delay =>
    obtain ⟨-, rfl⟩ := call_cases hs
    exact h.setCall _ _
  | settle k c i op =>
    obtain ⟨-, m, -, rfl⟩ := settle_cases hs
    exact (h.aside (.setConsumer _ _ _)).setCall _ _
  | check k =>
    obtain ⟨r, -, ⟨-, rfl⟩ | ⟨-, rfl⟩⟩ := check_cases hs
    · exact (h.aside (.dropOrigin s r)).setCall _ _
    · exact h.setCall _ _
  | schedule k =>
    obtain ⟨r, -, ⟨-, -, rfl⟩ | ⟨-, -, rfl⟩ | ⟨-, -, -, rfl⟩ | ⟨-, -, -, rfl⟩ | ⟨-, -, rfl⟩⟩ :=
      schedule_cases hs
    · exact h.setCall _ _
    · exact h.accept.setCall _ _
    · exact h.setCall _ _
    · exact h.spawnTimer.setCall _ _
    · exact (h.aside (.dropOrigin s r)).setCall _ _
  | count k =>
    obtain ⟨r, deadline, -, rfl⟩ := count_cases hs
    refine Books.setCall (.note ?_ fun m kind => by simp) _ _
    exact h.aside (.setQueue rfl)
  | guard k =>
    obtain ⟨r, deadline, -, rfl⟩ := guard_cases hs
    exact h.spawnTimer.setCall _ _
  | record k =>
    obtain ⟨r, d, -, -, rfl⟩ | ⟨d, -, rfl⟩ | ⟨d, reason, -, -, rfl⟩ | ⟨d, reason, -, -, rfl⟩ :=
      record_cases hs
    · exact ((h.recordAck _ _ _).aside (.dropPermit _ _)).setCall _ _
    · exact ((h.recordAck _ _ _).aside (.dropPermit _ _)).setCall _ _
    · exact (h.aside (.dropPermit _ _)).setCall _ _
    · refine Books.setCall (.aside (.note ?_ fun m kind => by simp)
        (.dropPermit _ _)) _ _
      exact h.aside (.setQueue rfl)
  | close =>
    have h' : Books { s with closed := true } := ⟨h.accepted, h.inserted, h.settled⟩
    exact h'.aside (aside_of_close hs)
  | _ => exact absurd rfl ha

end Queuey.MemoryBackend
