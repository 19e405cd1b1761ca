import Queuey.Core.Succession

/-!
# The steps of a call

What one step does to the calls of the in-memory backend and to their logs: a request goes
on, or the delivery is settled and a record made. The dead letters are the burials in the
logs, as the acks are the settled ones.
-/
namespace Queuey.MemoryBackend
open Transition

variable {V : Type} {s t : State V} {a : Action V} {k c i n : ℕ} {r : Request V} {op : Settle V}
  {m o : Message V} {d : MemoryDelivery V} {name reason : String} {kind : AckKind}
  {call call' : Call V} {did did' : List (Effect V)}

/-! ## How a call goes on -/

/-- The delivery a call was given, as far as it still has it. -/
def Call.handed : Call V → Option (MemoryDelivery V)
  | acking d | burying d _ => some d
  | call => call.request.bind Request.origin

/-- The call has returned `Ok`. -/
def Call.ok : Call V → Bool
  | returned _ (.ok ()) => true
  | _ => false

/-- The call has failed. -/
def Call.failed : Call V → Bool
  | returned _ (.error _) => true
  | _ => false

/-- The effect leaves a record of a settled delivery. -/
def Effect.records : Effect V → Bool
  | acked _ _ | buried _ _ => true
  | _ => false

/-- One step of a call on an open backend, but for the start of a settle operation: a request
goes on without a record, or a record is made. -/
inductive CallStep : Call V → List (Effect V) → Call V → List (Effect V) → Prop where
  | made {did : List (Effect V)} {r : Request V} (origin : r.origin = none) :
      CallStep .idle did (.checking r) did
  | on {call call' : Call V} {did effects : List (Effect V)} {r : Request V}
      (before : call.request = some r) (pending : call.ok = false)
      (after : call'.request = some r) (going : call'.failed = false)
      (plain : call'.ok = true → r.origin = none)
      (silent : ∀ effect ∈ effects, effect.records = false) :
      CallStep call did call' (did ++ effects)
  | requested {did : List (Effect V)} {r : Request V} {d : MemoryDelivery V}
      (origin : r.origin = some d) :
      CallStep (.recording r) did (.returned (some r) (.ok ())) (did ++ [.acked d.message r.kind])
  | acked {did : List (Effect V)} {d : MemoryDelivery V} :
      CallStep (.acking d) did (.returned none (.ok ())) (did ++ [.acked d.message .succeeded])
  | buried {did : List (Effect V)} {d : MemoryDelivery V} {reason : String} :
      CallStep (.burying d reason) did (.returned none (.ok ())) (did ++ [.buried d.message reason])

/-- The request goes on to where it has not returned, and has no effect. -/
theorem CallStep.move (did : List (Effect V)) (before : call.request = some r)
    (pending : call.ok = false) (after : call'.request = some r) (going : call'.failed = false)
    (still : call'.ok = false) : CallStep call did call' did := by
  have step : CallStep call did call' (did ++ []) := by
    apply CallStep.on before pending after going _ (by simp)
    intro hok
    rw [still] at hok
    cases hok
  rwa [List.append_nil] at step

theorem CallStep.next (did : List (Effect V)) {call : Call V} {effects : List (Effect V)}
    (before : call.request = some r) (pending : call.ok = false)
    (silent : ∀ effect ∈ effects, effect.records = false) :
    CallStep call did (if r.origin.isSome then .recording r else .returned (some r) (.ok ()))
      (did ++ effects) := by
  apply CallStep.on before pending _ _ _ silent
  · split_ifs <;> rfl
  · split_ifs <;> rfl
  · intro hok
    cases hr : r.origin with
    | none => rfl
    | some d => simp [hr, Call.ok] at hok

/-- One call takes a step, and the others have not moved. -/
structure Turn (s t : State V) (k : ℕ) : Prop where
  closed : t.closed = s.closed
  step : CallStep (s.calls k) (s.did k) (t.calls k) (t.did k)
  calls : ∀ j, j ≠ k → t.calls j = s.calls j
  did : ∀ j, j ≠ k → t.did j = s.did j

theorem Turn.of (closed : t.closed = s.closed) (calls : t.calls = s.calls)
    (did : ∀ j, j ≠ k → t.did j = s.did j)
    (step : CallStep (s.calls k) (s.did k) call (t.did k)) : Turn s (t.setCall k call) k where
  closed := closed
  step := by simpa [State.setCall] using step
  calls j hj := by simp [State.setCall, hj, calls]
  did := did

theorem Turn.schedule (hopen : s.closed = false) (hs : stepSchedule s k = some t) : Turn s t k := by
  obtain ⟨r, hk, ⟨-, hc, -⟩ | ⟨-, -, rfl⟩ | ⟨-, -, -, rfl⟩ | ⟨-, -, -, rfl⟩ | ⟨-, -, rfl⟩⟩ :=
    schedule_cases hs
  · rw [hopen] at hc
    cases hc
  · refine .of rfl rfl (fun j hj => did_note_ne hj _) ?_
    rw [hk, did_note]
    exact .next _ rfl rfl (by simp [Effect.records])
  · refine .of rfl rfl (fun _ _ => rfl) ?_
    rw [hk]
    exact .move _ rfl rfl rfl rfl rfl
  · refine .of rfl rfl (fun j hj => did_note_ne hj _) ?_
    rw [hk, State.spawnTimer]
    show CallStep _ _ _ (State.did (State.note _ _ _) k)
    rw [did_note]
    exact .next _ rfl rfl (by simp [Effect.records])
  · have aside := Aside.dropOrigin s r
    refine .of aside.closed aside.calls (fun j _ => by rw [aside.did]) ?_
    rw [hk, aside.did]
    exact .move _ rfl rfl rfl rfl rfl

/-- What a call's own step does on an open backend. -/
theorem turn_of_step (hopen : s.closed = false) (ha : a.ofCall = true) (hclose : a ≠ .close)
    (hsettle : ∀ k c i op, a ≠ .settle k c i op) (hs : step s a = some t) : ∃ k, Turn s t k := by
  cases a with
  | publish k envelope delay =>
    obtain ⟨hk, rfl⟩ := call_cases hs
    refine ⟨k, .of rfl rfl (fun _ _ => rfl) ?_⟩
    rw [hk]
    exact .made rfl
  | defer k envelope delay =>
    obtain ⟨hk, rfl⟩ := call_cases hs
    refine ⟨k, .of rfl rfl (fun _ _ => rfl) ?_⟩
    rw [hk]
    exact .made rfl
  | settle k c i op => exact absurd rfl (hsettle k c i op)
  | check k =>
    obtain ⟨r, hk, ⟨hc, -⟩ | ⟨-, rfl⟩⟩ := check_cases hs
    · rw [hopen] at hc
      cases hc
    · refine ⟨k, .of rfl rfl (fun _ _ => rfl) ?_⟩
      rw [hk]
      exact .move _ rfl rfl rfl rfl rfl
  | schedule k => exact ⟨k, .schedule hopen hs⟩
  | count k =>
    obtain ⟨r, deadline, hk, rfl⟩ := count_cases hs
    refine ⟨k, .of rfl rfl (fun j hj => did_note_ne hj _) ?_⟩
    rw [hk, did_note]
    exact .on rfl rfl rfl rfl nofun (by simp [Effect.records])
  | guard k =>
    obtain ⟨r, deadline, hk, rfl⟩ := guard_cases hs
    refine ⟨k, .of rfl rfl (fun j hj => did_note_ne hj _) ?_⟩
    rw [hk, State.spawnTimer]
    show CallStep _ _ _ (State.did (State.note _ _ _) k)
    rw [did_note]
    exact .next _ rfl rfl (by simp [Effect.records])
  | record k =>
    refine ⟨k, ?_⟩
    obtain ⟨r, d, hk, hr, rfl⟩ | ⟨d, hk, rfl⟩ | ⟨d, reason, -, hc, -⟩ | ⟨d, reason, hk, -, rfl⟩ :=
      record_cases hs
    · refine .of rfl rfl (fun j hj => did_note_ne hj _) ?_
      rw [hk]
      show CallStep _ _ _ (State.did (State.note _ _ _) k)
      rw [did_note]
      exact .requested hr
    · refine .of rfl rfl (fun j hj => did_note_ne hj _) ?_
      rw [hk]
      show CallStep _ _ _ (State.did (State.note _ _ _) k)
      rw [did_note]
      exact .acked
    · rw [hopen] at hc
      cases hc
    · refine .of rfl rfl (fun j hj => did_note_ne hj _) ?_
      rw [hk]
      show CallStep _ _ _ (State.did (State.note _ _ _) k)
      rw [did_note]
      exact .buried
  | close => exact absurd rfl hclose
  | _ => cases ha

/-! ## Dead letters -/

/-- Nothing is buried. -/
def Unburied (s t : State V) : Prop := ∀ name, (t.queue name).dead = (s.queue name).dead

theorem Unburied.of_queues (queues : t.queues = s.queues) : Unburied s t := by
  intro name
  rw [State.queue, queues]
  rfl

theorem Unburied.setQueue {q : QueueState V} (name : String) (hq : q.dead = (s.queue name).dead) :
    Unburied s (s.setQueue name q) := same_setQueue QueueState.dead hq

theorem Unburied.trans {u : State V} (h : Unburied s u) (h' : Unburied u t) : Unburied s t :=
  fun name => (h' name).trans (h name)

theorem Unburied.releaseHold (s : State V) (name : String) : Unburied s (s.releaseHold name) := by
  unfold State.releaseHold
  cases hq : s.queues name with
  | none => exact fun _ => rfl
  | some q => exact .setQueue name (by rw [queue_eq hq])

theorem Unburied.fire (hs : stepFire s n = some t) : Unburied s t := by
  obtain ⟨m, guarded, -, -, rfl⟩ := fire_cases hs
  obtain ⟨u, hu, he⟩ := enqueueNow_cases s m guarded
  have released : Unburied s u := by
    obtain rfl | rfl := hu
    · exact fun _ => rfl
    · exact .releaseHold s _
  obtain ⟨-, he⟩ | ⟨-, he⟩ := he <;> rw [he]
  · exact released.trans (.of_queues rfl)
  · refine released.trans (Unburied.trans (.setQueue m.envelope.queue ?_) (.of_queues rfl))
    rfl

theorem Unburied.schedule (hs : stepSchedule s k = some t) : Unburied s t := by
  obtain ⟨r, -, ⟨-, -, rfl⟩ | ⟨-, -, rfl⟩ | ⟨-, -, -, rfl⟩ | ⟨-, -, -, rfl⟩ | ⟨-, -, rfl⟩⟩ :=
    schedule_cases hs
  · exact .of_queues rfl
  · refine Unburied.trans (.setQueue r.envelope.queue ?_) (.of_queues rfl)
    rfl
  · exact .of_queues rfl
  · exact .of_queues rfl
  · exact .of_queues (by simp only [State.setCall, State.dropOrigin]; split <;> rfl)

theorem Unburied.consumer (ha : a.ofConsumer = true) (hs : step s a = some t) : Unburied s t := by
  obtain ⟨c, x, rfl | ⟨name, pending, consumers, signal, rfl⟩⟩ := consumer_cases ha hs
  · exact .of_queues rfl
  · refine Unburied.trans (.setQueue name ?_) (.of_queues rfl)
    rfl

/-- Only the last critical section of a settle operation buries. -/
theorem unburied_of_step (ha : ∀ k, a ≠ .record k) (hs : step s a = some t) : Unburied s t := by
  cases a with
  | record k => exact absurd rfl (ha k)
  | tick elapsed =>
    obtain ⟨-, rfl⟩ := tick_cases hs
    exact .of_queues rfl
  | declare configs =>
    obtain rfl := Option.some.inj hs
    split_ifs
    · exact fun _ => rfl
    · exact fun name => declared_same QueueState.dead (fun _ _ => rfl) configs s.queues name
  | publish k envelope delay =>
    obtain ⟨-, rfl⟩ := call_cases hs
    exact .of_queues rfl
  | defer k envelope delay =>
    obtain ⟨-, rfl⟩ := call_cases hs
    exact .of_queues rfl
  | settle k c i op =>
    obtain ⟨-, m, -, rfl⟩ := settle_cases hs
    exact .of_queues rfl
  | check k =>
    obtain ⟨r, -, ⟨-, rfl⟩ | ⟨-, rfl⟩⟩ := check_cases hs
    · exact .of_queues (by simp only [State.setCall, State.dropOrigin]; split <;> rfl)
    · exact .of_queues rfl
  | schedule k => exact .schedule hs
  | count k =>
    obtain ⟨r, deadline, -, rfl⟩ := count_cases hs
    refine Unburied.trans (.setQueue r.envelope.queue ?_) (.of_queues rfl)
    rfl
  | guard k =>
    obtain ⟨r, deadline, -, rfl⟩ := guard_cases hs
    exact .of_queues rfl
  | fire n => exact .fire hs
  | abort n =>
    obtain ⟨m, guarded, -, rfl⟩ := abort_cases hs
    exact .of_queues rfl
  | release n =>
    obtain ⟨name, -, rfl⟩ := release_cases hs
    exact .trans (.releaseHold s name) (.of_queues rfl)
  | close =>
    obtain rfl := Option.some.inj hs
    intro name
    cases hq : s.queues name <;> simp [State.queue, QueueState.wake, hq]
  | _ => exact .consumer rfl hs

/-- What is dead is what the calls have buried. -/
def Buried (s : State V) : Prop :=
  ∀ name m reason, (m, reason) ∈ (s.queue name).dead ↔
    name = m.envelope.queue ∧ s.Did (.buried m reason)

theorem buried_start (h : (system V).start s) : Buried s := by
  obtain ⟨now, horizon, -, rfl⟩ := h
  intro name m reason
  constructor
  · intro hm
    cases hm
  · rintro ⟨-, k, hk⟩
    cases hk

theorem Buried.frame (h : Buried s) (dead : Unburied s t)
    (did : ∀ m reason, t.Did (.buried m reason) ↔ s.Did (.buried m reason)) : Buried t := by
  intro name m reason
  rw [dead name, did]
  exact h name m reason

theorem Buried.aside (h : Buried s) (dead : Unburied s t) (did : t.did = s.did) : Buried t := by
  refine h.frame dead fun m reason => ?_
  unfold State.Did
  rw [did]

/-- A call does one more thing, which is no burial. -/
theorem Buried.note {effect : Effect V} (h : Buried s) (dead : Unburied s t)
    (did : t.did = (s.note k effect).did) (other : ∀ m reason, effect ≠ .buried m reason) :
    Buried t := by
  refine h.frame dead fun m reason => ?_
  have hdid : t.Did (.buried m reason) ↔ (s.note k effect).Did (.buried m reason) := by
    unfold State.Did
    rw [did]
  rw [hdid, did_note_iff]
  exact or_iff_left (other m reason).symm

/-- The dead letters of queue `name` once `m` is buried in its own. -/
abbrev State.burying (s : State V) (m : Message V) (reason : String) : State V :=
  let q := s.queue m.envelope.queue
  s.setQueue m.envelope.queue { q with dead := q.dead ++ [(m, reason)] }

theorem Buried.bury (h : Buried s) (k : ℕ) (m : Message V) (reason : String) :
    Buried ((s.burying m reason).note k (.buried m reason)) := by
  intro name o text
  have did : ((s.burying m reason).note k (.buried m reason)).Did (.buried o text) ↔
      s.Did (.buried o text) ∨ Effect.buried o text = .buried m reason :=
    did_note_iff (s := s.burying m reason)
  have dead : (((s.burying m reason).note k (.buried m reason)).queue name).dead =
      if name = m.envelope.queue then (s.queue m.envelope.queue).dead ++ [(m, reason)]
      else (s.queue name).dead := field_setQueue QueueState.dead s _ _ name
  rw [did, dead]
  split_ifs with hn
  · subst hn
    simp only [List.mem_append, List.mem_singleton, h _ o text, Prod.mk.injEq, Effect.buried.injEq]
    constructor
    · rintro (⟨hq, hd⟩ | ⟨rfl, rfl⟩)
      · exact ⟨hq, .inl hd⟩
      · exact ⟨rfl, .inr ⟨rfl, rfl⟩⟩
    · rintro ⟨hq, hor⟩
      exact hor.imp (fun hd => ⟨hq, hd⟩) id
  · rw [h name o text]
    refine and_congr_right fun hq => (or_iff_left ?_).symm
    intro heq
    cases heq
    exact hn hq

theorem Buried.record (h : Buried s) (hs : stepRecord s k = some t) : Buried t := by
  obtain ⟨r, d, -, -, rfl⟩ | ⟨d, -, rfl⟩ | ⟨d, reason, -, -, rfl⟩ | ⟨d, reason, -, -, rfl⟩ :=
    record_cases hs
  · refine h.note (k := k) (Unburied.trans (.setQueue d.message.envelope.queue ?_) (.of_queues rfl))
      rfl nofun
    rfl
  · refine h.note (k := k) (Unburied.trans (.setQueue d.message.envelope.queue ?_) (.of_queues rfl))
      rfl nofun
    rfl
  · exact h.aside (.of_queues rfl) rfl
  · exact (h.bury k d.message reason).aside (.of_queues rfl) rfl

theorem buried_step (h : Buried s) (hs : step s a = some t) : Buried t := by
  by_cases ha : a.ofCall = false
  · exact h.aside (unburied_of_step (by rintro k rfl; cases ha) hs) (aside_of_step ha hs).did
  cases a with
  | record k => exact h.record hs
  | publish k envelope delay =>
    obtain ⟨-, rfl⟩ := call_cases hs
    exact h.aside (.of_queues rfl) rfl
  | defer k envelope delay =>
    obtain ⟨-, rfl⟩ := call_cases hs
    exact h.aside (.of_queues rfl) rfl
  | settle k c i op =>
    obtain ⟨-, m, -, rfl⟩ := settle_cases hs
    exact h.aside (.of_queues rfl) rfl
  | check k =>
    have dead := unburied_of_step (a := .check k) nofun hs
    obtain ⟨r, -, ⟨-, rfl⟩ | ⟨-, rfl⟩⟩ := check_cases hs
    · exact h.aside dead (Aside.dropOrigin s r).did
    · exact h.aside dead rfl
  | schedule k =>
    have dead := unburied_of_step (a := .schedule k) nofun hs
    obtain ⟨r, -, ⟨-, -, rfl⟩ | ⟨-, -, rfl⟩ | ⟨-, -, -, rfl⟩ | ⟨-, -, -, rfl⟩ | ⟨-, -, rfl⟩⟩ :=
      schedule_cases hs
    · exact h.aside dead rfl
    · exact h.note (k := k) dead rfl nofun
    · exact h.aside dead rfl
    · exact h.note (k := k) dead rfl nofun
    · exact h.aside dead (Aside.dropOrigin s r).did
  | count k =>
    have dead := unburied_of_step (a := .count k) nofun hs
    obtain ⟨r, deadline, -, rfl⟩ := count_cases hs
    exact h.note (k := k) dead rfl nofun
  | guard k =>
    have dead := unburied_of_step (a := .guard k) nofun hs
    obtain ⟨r, deadline, -, rfl⟩ := guard_cases hs
    exact h.note (k := k) dead rfl nofun
  | close => exact h.aside (unburied_of_step (a := .close) nofun hs) (aside_of_close hs).did
  | _ => exact absurd rfl ha

end Queuey.MemoryBackend
