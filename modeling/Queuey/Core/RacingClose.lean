import Queuey.Core.Effects

/-!
# Accept or refuse under a racing close

An operation looks at the closed flag, schedules and records its ack under three locks. A
close between the first two goes unnoticed where the delay is zero: `enqueue_now` drops the
message and the operation goes on as if it had been inserted. Without such a close an `Ok`
means what it says. A refusal does so in every run.
-/
namespace Queuey.MemoryBackend
open Transition

variable {V : Type} {s t : State V} {a : Action V} {k : ℕ} {r : Request V} {m : Message V}
  {name : String} {kind : AckKind}

/-- No close falls between the check of an operation without a delay and its scheduling. -/
def Unraced (s : State V) : Action V → Prop
  | .close => ∀ k r, s.calls k = .scheduling r → r.delay.isZero = false
  | _ => True

/-- On a closed backend nothing is about to be inserted. -/
def Sealed (s : State V) : Prop :=
  s.closed = true → ∀ k r, s.calls k = .scheduling r → r.delay.isZero = false

/-- A call past its scheduling has scheduled its message. -/
def Call.Honest (did : List (Effect V)) : Call V → Prop
  | recording r => Scheduled r did
  | returned (some r) (.ok ()) =>
    match r.origin with
    | none => Scheduled r did
    | some d => ∃ before, Scheduled r before ∧ did = before ++ [.acked d.message r.kind]
  | _ => True

/-- What no call has seen does not reach a later one either. -/
structure Candid (s : State V) : Prop where
  sealed : Sealed s
  honest : ∀ k, (s.calls k).Honest (s.did k)

theorem candid_start (h : (system V).start s) : Candid s := by
  obtain ⟨now, horizon, -, rfl⟩ := h
  exact ⟨nofun, fun k => trivial⟩

theorem Candid.move {call : Call V} (h : Candid s) (aside : Aside s t)
    (sealed : s.closed = true → ∀ r, call = .scheduling r → r.delay.isZero = false)
    (honest : call.Honest (s.did k)) : Candid (t.setCall k call) := by
  refine ⟨fun hc j r hj => ?_, fun j => ?_⟩
  · have hc : s.closed = true := aside.closed ▸ hc
    simp only [State.setCall, aside.calls] at hj
    rw [Function.update_apply] at hj
    split_ifs at hj
    · exact sealed hc r hj
    · exact h.sealed hc j r hj
  · by_cases hj : j = k
    · subst hj
      simpa [State.setCall, aside.did] using honest
    · simp only [State.setCall, Function.update_of_ne hj, aside.calls, aside.did]
      exact h.honest j

/-- Call `k` adds to its log and moves on to where it has nothing to schedule. -/
theorem Candid.note {call : Call V} (h : Candid s) (closed : t.closed = s.closed)
    (calls : t.calls = s.calls) (did : ∀ j, j ≠ k → t.did j = s.did j)
    (sealed : ∀ r, call ≠ .scheduling r) (honest : call.Honest (t.did k)) :
    Candid (t.setCall k call) := by
  refine ⟨fun hc j r hj => ?_, fun j => ?_⟩
  · simp only [State.setCall, calls] at hj
    rw [Function.update_apply] at hj
    split_ifs at hj
    · exact absurd hj (sealed r)
    · exact h.sealed (closed ▸ hc) j r hj
  · by_cases hj : j = k
    · subst hj
      simpa [State.setCall] using honest
    · simp only [State.setCall, Function.update_of_ne hj, calls, did j hj]
      exact h.honest j

theorem Candid.scheduled (h : Candid s) (closed : t.closed = s.closed) (calls : t.calls = s.calls)
    (did : ∀ j, j ≠ k → t.did j = s.did j) (honest : Scheduled r (t.did k)) :
    Candid (t.scheduled k r) := by
  apply h.note closed calls did
  · intro r'
    split_ifs <;> simp
  · cases hr : r.origin with
    | none => simpa [Call.Honest, hr] using honest
    | some d => simpa [Call.Honest] using honest

theorem Candid.aside (h : Candid s) (aside : Aside s t) : Candid t := by
  refine ⟨fun hc k r hk => ?_, fun k => ?_⟩
  · rw [aside.calls] at hk
    exact h.sealed (aside.closed ▸ hc) k r hk
  · rw [aside.calls, aside.did]
    exact h.honest k

theorem Candid.schedule (h : Candid s) (logged : Logged s) (hs : stepSchedule s k = some t) :
    Candid t := by
  obtain ⟨r, hk, hcases⟩ := schedule_cases hs
  have hempty : s.did k = [] := by simpa [hk, Call.Logs] using logged k
  obtain ⟨hzero, hc, -⟩ | ⟨hzero, -, rfl⟩ | ⟨-, -, -, rfl⟩ | ⟨hzero, -, -, rfl⟩ | ⟨-, -, rfl⟩ := hcases
  · -- The silent drop: the guard of the run has kept the close out.
    rw [h.sealed hc k r hk] at hzero
    cases hzero
  · refine h.scheduled rfl rfl (fun j hj => did_note_ne hj _) ⟨s.message r, rfl, rfl, .inl ⟨hzero, ?_⟩⟩
    refine (did_note _ _ _).trans ?_
    show s.did k ++ _ = _
    rw [hempty]
    rfl
  · exact h.note rfl rfl (fun _ _ => rfl) (by simp) trivial
  · refine h.scheduled rfl rfl (fun j hj => did_note_ne hj _)
      ⟨s.message r, rfl, rfl, .inr (.inl ⟨hzero, ?_⟩)⟩
    refine (did_note _ _ _).trans ?_
    show s.did k ++ _ = _
    rw [hempty]
    rfl
  · exact h.move (.dropOrigin s r) (by simp) trivial

theorem Candid.record (h : Candid s) (hs : stepRecord s k = some t) : Candid t := by
  have honest := h.honest k
  obtain ⟨r, d, hk, hr, rfl⟩ | ⟨d, -, rfl⟩ | ⟨d, reason, -, -, rfl⟩ | ⟨d, reason, -, -, rfl⟩ :=
    record_cases hs
  · rw [hk] at honest
    refine h.note rfl rfl (fun j hj => did_note_ne hj _) (by simp) ?_
    simp only [Call.Honest, hr]
    exact ⟨s.did k, honest, did_note _ _ _⟩
  · exact h.note rfl rfl (fun j hj => did_note_ne hj _) (by simp) trivial
  · exact h.note rfl rfl (fun _ _ => rfl) (by simp) trivial
  · exact h.note rfl rfl (fun j hj => did_note_ne hj _) (by simp) trivial

theorem candid_step (h : Candid s) (logged : Logged s) (unraced : Unraced s a)
    (hs : step s a = some t) : Candid t := by
  by_cases ha : a.ofCall = false
  · exact h.aside (aside_of_step ha hs)
  cases a with
  | publish k envelope delay =>
    obtain ⟨-, rfl⟩ := call_cases hs
    exact h.move (.refl s) (by simp) trivial
  | defer k envelope delay =>
    obtain ⟨-, rfl⟩ := call_cases hs
    exact h.move (.refl s) (by simp) trivial
  | settle k c i op =>
    obtain ⟨-, m, -, rfl⟩ := settle_cases hs
    apply h.move (.setConsumer _ _ _)
    · intro _ r hr
      cases op <;> cases hr
    · cases op <;> trivial
  | check k =>
    obtain ⟨r, -, ⟨-, rfl⟩ | ⟨hopen, rfl⟩⟩ := check_cases hs
    · exact h.move (.dropOrigin s r) (by simp) trivial
    · refine h.move (.refl s) (fun hc => ?_) trivial
      rw [hopen] at hc
      cases hc
  | schedule k => exact h.schedule logged hs
  | count k =>
    obtain ⟨r, deadline, -, rfl⟩ := count_cases hs
    exact h.note rfl rfl (fun j hj => did_note_ne hj _) (by simp) trivial
  | guard k =>
    obtain ⟨r, deadline, hk, rfl⟩ := guard_cases hs
    obtain ⟨hzero, hlog⟩ : r.delay.isZero = false ∧ s.did k = [.counted r.envelope.queue] := by
      simpa [hk, Call.Logs] using logged k
    refine h.scheduled rfl rfl (fun j hj => did_note_ne hj _)
      ⟨{ s.message r with due := deadline }, rfl, rfl, .inr (.inr ⟨hzero, ?_⟩)⟩
    refine (did_note _ _ _).trans ?_
    show s.did k ++ _ = _
    rw [hlog]
    rfl
  | record k => exact h.record hs
  | close =>
    have h' : Candid { s with closed := true } := ⟨fun _ => unraced, h.honest⟩
    exact h'.aside (aside_of_close hs)
  | _ => exact absurd rfl ha

/-- In a candid state an `Ok` is the answer of a call that has scheduled its message. -/
theorem Candid.ok (h : Candid s) (hk : s.calls k = .returned (some r) (.ok ())) :
    ∃ did, Scheduled r did ∧ ∀ effect ∈ did, effect ∈ s.did k := by
  have honest := h.honest k
  rw [hk] at honest
  cases hr : r.origin with
  | none =>
    simp only [Call.Honest, hr] at honest
    exact ⟨_, honest, fun _ => id⟩
  | some d =>
    simp only [Call.Honest, hr] at honest
    obtain ⟨before, hb, hd⟩ := honest
    exact ⟨before, hb, fun e he => hd ▸ List.mem_append_left _ he⟩

/-- A log that has an ack other than a success is that of a settle operation with a successor. -/
theorem acked_request (logged : Logged s) (hm : .acked m kind ∈ s.did k) (hkind : kind ≠ .succeeded) :
    ∃ r d, s.calls k = .returned (some r) (.ok ()) ∧ r.origin = some d ∧ d.message = m ∧
      r.kind = kind := by
  have hlog := logged k
  have plain : ∀ {r : Request V} {did}, Scheduled r did ∨ Silent r did → .acked m kind ∉ did := by
    intro r did hd hin
    obtain ⟨o, -, -, ⟨-, rfl⟩ | ⟨-, rfl⟩ | ⟨-, rfl⟩⟩ | ⟨-, rfl⟩ := hd <;> simp at hin
  cases hk : s.calls k with
  | returned r result =>
    rw [hk] at hlog
    cases r with
    | none =>
      cases result with
      | ok u =>
        obtain ⟨o, hd | ⟨reason, hd⟩⟩ := hlog <;> rw [hd] at hm <;> simp_all
      | error e => simp [hlog.2] at hm
    | some r =>
      cases result with
      | ok u =>
        cases hr : r.origin with
        | none =>
          simp only [Call.Logs, hr] at hlog
          exact absurd hm (plain hlog)
        | some d =>
          simp only [Call.Logs, hr] at hlog
          obtain ⟨before, hb, hd⟩ := hlog
          rw [hd, List.mem_append, List.mem_singleton] at hm
          obtain hm | hm := hm
          · exact absurd hm (plain hb)
          · cases hm
            exact ⟨r, d, rfl, hr, rfl, rfl⟩
      | error e => simp [hlog.2] at hm
  | recording r =>
    rw [hk] at hlog
    exact absurd hm (plain hlog)
  | counting r deadline =>
    rw [hk] at hlog
    simp [hlog.2] at hm
  | guarding r deadline =>
    rw [hk] at hlog
    simp [hlog.2] at hm
  | _ =>
    rw [hk] at hlog
    simp [show s.did k = [] from hlog] at hm

theorem Scheduled.isZero {did : List (Effect V)} (h : Scheduled r did)
    (hzero : r.delay.isZero = true) : ∃ m, m.envelope = r.envelope ∧ .inserted m ∈ did := by
  obtain ⟨m, hm, -, ⟨-, rfl⟩ | ⟨hnz, -⟩ | ⟨hnz, -⟩⟩ := h
  · exact ⟨m, hm, List.mem_singleton_self _⟩
  · rw [hzero] at hnz
    cases hnz
  · rw [hzero] at hnz
    cases hnz

/-- The message scheduled for a request, with the message it replaces. -/
theorem Scheduled.message {did : List (Effect V)} (h : Scheduled r did) :
    ∃ m : Message V, m.envelope = r.envelope ∧ m.replaces = r.origin.map (fun d => d.message.id) ∧
      (.inserted m ∈ did ∨ .slept m ∈ did) := by
  obtain ⟨m, hm, hr, ⟨-, rfl⟩ | ⟨-, rfl⟩ | ⟨-, rfl⟩⟩ := h
  · exact ⟨m, hm, hr, .inl (List.mem_singleton_self _)⟩
  · exact ⟨m, hm, hr, .inr (List.mem_singleton_self _)⟩
  · exact ⟨m, hm, hr, .inr (List.mem_cons_of_mem _ (List.mem_singleton_self _))⟩

/-- The successor of an original that a retry or a deferral acked was accepted. -/
theorem Candid.successor (h : Candid s) (logged : Logged s) (books : Books s)
    (hm : (m, kind) ∈ (s.queue name).settled) (hkind : kind ≠ .succeeded) :
    ∃ o ∈ s.accepted, o.replaces = some m.id := by
  obtain ⟨-, k, hk⟩ := (books.settled name m kind).mp hm
  obtain ⟨r, d, hcall, hr, rfl, -⟩ := acked_request logged hk hkind
  obtain ⟨did, hd, hsub⟩ := h.ok hcall
  obtain ⟨o, -, hrep, hin⟩ := hd.message
  refine ⟨o, (books.accepted o).mpr (hin.imp (fun ho => ⟨k, hsub _ ho⟩) fun ho => ⟨k, hsub _ ho⟩), ?_⟩
  rw [hrep, hr]
  rfl

/-- A job published and handed to a consumer. -/
def handedOut (e : Envelope V) : List (Action V) :=
  [.publish 0 e none, .check 0, .schedule 0, .consume 0 (.new e.queue), .acquire 0, .pop 0,
    .send 0, .poll 0]

/-- The mail job of the runs below. -/
def mail : Envelope Unit := .raw 7 1000 "mail.send" "mail" ()

end Queuey.MemoryBackend
