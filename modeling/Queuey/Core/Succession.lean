import Queuey.Core.Conservation
import Queuey.Core.RacingClose

/-!
# One successor for each retry and deferral

Whatever was accepted is in one place of the in-memory backend, and an original that was
retried or deferred has been replaced by one message. The link is the call that settles the
original: it alone has the delivery, and it schedules one message.
-/
namespace Queuey.MemoryBackend
open Transition

variable {V : Type} {s t : State V} {a : Action V} {k : ℕ} {r : Request V} {d : MemoryDelivery V}
  {m o : Message V} {kind : AckKind}

/-! ## Which call settles a message -/

/-- The request a call was made with. -/
def Call.request : Call V → Option (Request V)
  | checking r | scheduling r | counting r _ | guarding r _ | recording r | panicked r => some r
  | returned r _ => r
  | idle | acking _ | burying _ _ => none

/-- The message whose retry or deferral the call carries out, or carried out. -/
def Call.original (call : Call V) : Option (Message V) :=
  (call.request.bind Request.origin).map MemoryDelivery.message

/-- The calls are open, and no two of them settle one message. -/
structure Settling (s : State V) : Prop where
  opened : s.closed = false
  answered : ∀ k r, s.calls k ≠ .panicked r ∧ ∀ e, s.calls k ≠ .returned (some r) (.error e)
  single : ∀ j k m, (s.calls j).original = some m → (s.calls k).original = some m → j = k

theorem kept_unraced (h : Kept s a) : Unraced s a := by
  cases a with
  | close => exact h.elim
  | _ => trivial

theorem settling_start (h : (system V).start s) : Settling s := by
  obtain ⟨now, horizon, -, rfl⟩ := h
  exact ⟨rfl, fun k r => ⟨nofun, nofun⟩, nofun⟩

/-- Call `k` moves on with the original it had, with one that no call had, or without. -/
theorem Settling.move (h : Settling s) (closed : t.closed = s.closed)
    (calls : ∀ j, j ≠ k → t.calls j = s.calls j)
    (answered : ∀ r, t.calls k ≠ .panicked r ∧ ∀ e, t.calls k ≠ .returned (some r) (.error e))
    (same : ∀ m, (t.calls k).original = some m →
      (s.calls k).original = some m ∨ ∀ j, (s.calls j).original ≠ some m) : Settling t where
  opened := closed.trans h.opened
  answered j r := by
    by_cases hj : j = k
    · exact hj ▸ answered r
    · rw [calls j hj]
      exact h.answered j r
  single i j m hi hj := by
    by_cases hik : i = k <;> by_cases hjk : j = k
    · rw [hik, hjk]
    · subst hik
      rw [calls j hjk] at hj
      obtain hsame | hfresh := same m hi
      · exact h.single i j m hsame hj
      · exact absurd hj (hfresh j)
    · subst hjk
      rw [calls i hik] at hi
      obtain hsame | hfresh := same m hj
      · exact h.single i j m hi hsame
      · exact absurd hi (hfresh i)
    · rw [calls i hik] at hi
      rw [calls j hjk] at hj
      exact h.single i j m hi hj

/-- Call `k` moves on from where it had a request to where it has the same one. -/
theorem Settling.setCall {call : Call V} (h : Settling s) (closed : t.closed = s.closed)
    (calls : t.calls = s.calls)
    (answered : ∀ r, call ≠ .panicked r ∧ ∀ e, call ≠ .returned (some r) (.error e))
    (same : ∀ m, call.original = some m →
      (s.calls k).original = some m ∨ ∀ j, (s.calls j).original ≠ some m) :
    Settling (t.setCall k call) := by
  refine h.move (k := k) closed (fun j hj => ?_) (fun r => ?_) fun m hm => ?_
  · simp [State.setCall, hj, calls]
  · simpa [State.setCall] using answered r
  · exact same m (by simpa [State.setCall] using hm)

theorem Settling.scheduled (h : Settling s) (closed : t.closed = s.closed)
    (calls : t.calls = s.calls) (hk : (s.calls k).request = some r) : Settling (t.scheduled k r) := by
  refine h.setCall closed calls (fun r' => ?_) fun m hm => .inl ?_
  · split_ifs <;> exact ⟨nofun, nofun⟩
  · have hrequest : (if r.origin.isSome then Call.recording r
        else .returned (some r) (.ok ())).request = some r := by
      split_ifs <;> rfl
    unfold Call.original at hm ⊢
    rwa [hk, ← hrequest]

theorem Settling.aside (h : Settling s) (aside : Aside s t) : Settling t where
  opened := aside.closed.trans h.opened
  answered := by
    rw [aside.calls]
    exact h.answered
  single := by
    rw [aside.calls]
    exact h.single

/-- An original is in the hands of its call, or acked. -/
theorem Settling.place (h : Settling s) (logged : Logged s) (books : Books s)
    (hm : (s.calls k).original = some m) :
    m ∈ s.box (.call k) ∨
      ∃ kind, kind ≠ .succeeded ∧ (m, kind) ∈ (s.queue m.envelope.queue).settled := by
  have inHand : ∀ {r : Request V}, (r.origin.map MemoryDelivery.message) = some m →
      m ∈ r.original := by
    intro r hr
    simp [Request.original, hr]
  cases hk : s.calls k with
  | idle => simp [hk, Call.original, Call.request] at hm
  | acking d => simp [hk, Call.original, Call.request] at hm
  | burying d reason => simp [hk, Call.original, Call.request] at hm
  | panicked r => exact absurd hk (h.answered k r).1
  | returned r result =>
    rw [hk] at hm
    obtain ⟨r, rfl⟩ : ∃ r', r = some r' := by
      cases r with
      | none => simp [Call.original, Call.request] at hm
      | some r => exact ⟨r, rfl⟩
    have hlog := logged k
    rw [hk] at hlog
    cases result with
    | error e => exact absurd hk ((h.answered k r).2 e)
    | ok u =>
      obtain ⟨d, hr, rfl⟩ : ∃ d, r.origin = some d ∧ d.message = m := by
        simpa [Call.original, Call.request] using hm
      simp only [Call.Logs, hr] at hlog
      obtain ⟨before, -, hd⟩ := hlog
      refine .inr ⟨r.kind, ?_, (books.settled _ _ _).mpr ⟨rfl, k, ?_⟩⟩
      · unfold Request.kind
        split_ifs <;> simp
      · rw [hd]
        exact List.mem_append_right _ (List.mem_singleton_self _)
  | _ =>
    rw [hk] at hm
    refine .inl ?_
    show m ∈ (s.calls k).box
    rw [hk]
    exact inHand hm

theorem mem_settled_box {name : String} (h : (m, kind) ∈ (s.queue name).settled) :
    m ∈ s.box (.queue name .settled) :=
  List.mem_map.mpr ⟨_, h, rfl⟩

/-- A delivery not yet settled is no call's original. -/
theorem Settling.fresh {c : ℕ} (h : Settling s) (logged : Logged s) (books : Books s)
    (conserved : Conserved s) (hm : m ∈ (s.consumers c).out) : (s.calls k).original ≠ some m := by
  intro horiginal
  have hout : m ∈ s.box (.consumer c .unsettled) := hm
  obtain hk | ⟨kind, -, hk⟩ := h.place logged books horiginal
  · cases conserved.apart m _ _ hout hk
  · cases conserved.apart m _ _ hout (mem_settled_box hk)

theorem Settling.settle {c i : ℕ} {op : Settle V} (h : Settling s) (logged : Logged s)
    (books : Books s) (conserved : Conserved s) (hs : stepSettle s k c i op = some t) :
    Settling t := by
  obtain ⟨hk, m, hm, rfl⟩ := settle_cases hs
  refine h.setCall rfl rfl (fun r => ?_) fun o ho => .inr fun j => ?_
  · cases op <;> exact ⟨nofun, nofun⟩
  · have own : o = m := by
      cases op <;> simp_all [Settle.call, Call.original, Call.request]
    rw [own]
    exact h.fresh logged books conserved (List.mem_of_getElem? hm)

theorem settling_step (h : Settling s) (logged : Logged s) (books : Books s)
    (conserved : Conserved s) (kept : Kept s a) (hs : step s a = some t) : Settling t := by
  by_cases ha : a.ofCall = false
  · exact h.aside (aside_of_step ha hs)
  cases a with
  | publish k envelope delay =>
    obtain ⟨-, rfl⟩ := call_cases hs
    exact h.setCall rfl rfl (fun r => ⟨nofun, nofun⟩) nofun
  | defer k envelope delay =>
    obtain ⟨-, rfl⟩ := call_cases hs
    exact h.setCall rfl rfl (fun r => ⟨nofun, nofun⟩) nofun
  | settle k c i op => exact h.settle logged books conserved hs
  | check k =>
    obtain ⟨r, hk, ⟨hc, -⟩ | ⟨-, rfl⟩⟩ := check_cases hs
    · rw [h.opened] at hc
      cases hc
    · exact h.setCall rfl rfl (fun r => ⟨nofun, nofun⟩) fun m hm => .inl (by rw [hk]; exact hm)
  | schedule k =>
    obtain ⟨r, hk, ⟨-, -, rfl⟩ | ⟨-, -, rfl⟩ | ⟨-, -, -, rfl⟩ | ⟨-, -, -, rfl⟩ | ⟨-, hclock, -⟩⟩ :=
      schedule_cases hs
    · exact h.scheduled rfl rfl (by rw [hk]; rfl)
    · exact h.scheduled rfl rfl (by rw [hk]; rfl)
    · exact h.setCall rfl rfl (fun r => ⟨nofun, nofun⟩) fun m hm => .inl (by rw [hk]; exact hm)
    · exact h.scheduled rfl rfl (by rw [hk]; rfl)
    · exact absurd (kept r hk) hclock
  | count k =>
    obtain ⟨r, deadline, hk, rfl⟩ := count_cases hs
    exact h.setCall rfl rfl (fun r => ⟨nofun, nofun⟩) fun m hm => .inl (by rw [hk]; exact hm)
  | guard k =>
    obtain ⟨r, deadline, hk, rfl⟩ := guard_cases hs
    exact h.scheduled rfl rfl (by rw [hk]; rfl)
  | record k =>
    obtain ⟨r, d, hk, -, rfl⟩ | ⟨d, -, rfl⟩ | ⟨d, reason, -, hc, -⟩ | ⟨d, reason, -, -, rfl⟩ :=
      record_cases hs
    · exact h.setCall rfl rfl (fun r => ⟨nofun, nofun⟩) fun m hm => .inl (by rw [hk]; exact hm)
    · exact h.setCall rfl rfl (fun r => ⟨nofun, nofun⟩) nofun
    · rw [h.opened] at hc
      cases hc
    · exact h.setCall rfl rfl (fun r => ⟨nofun, nofun⟩) nofun
  | close => exact kept.elim
  | _ => exact absurd rfl ha

/-- What is known of a run in which nothing is thrown away. -/
structure Whole (s : State V) : Prop where
  wired : Wired s
  logged : Logged s
  books : Books s
  candid : Candid s
  conserved : Conserved s
  settling : Settling s

theorem reach_whole (h : Reach (system V) Kept s) : Whole s := by
  induction h with
  | start hs =>
    exact ⟨wired_start hs, logged_start hs, books_start hs, candid_start hs, conserved_start hs,
      settling_start hs⟩
  | next _ kept hstep ih =>
    exact ⟨wired_step ih.wired hstep, logged_step ih.logged hstep, books_step ih.books hstep,
      candid_step ih.candid ih.logged (kept_unraced kept) hstep,
      conserved_step ih.wired ih.settling.opened kept ih.conserved hstep,
      settling_step ih.settling ih.logged ih.books ih.conserved kept hstep⟩

/-! ## From a message to its call -/

/-- The message is one that the call scheduled. -/
def Scheduling (s : State V) (k : ℕ) (o : Message V) : Prop :=
  .inserted o ∈ s.did k ∨ .slept o ∈ s.did k

theorem Scheduled.scheduling {did : List (Effect V)} (h : Scheduled r did ∨ Silent r did)
    (ho : .inserted o ∈ did ∨ .slept o ∈ did) :
    o.envelope = r.envelope ∧ o.replaces = r.origin.map (fun d => d.message.id) ∧
      ∀ o', .inserted o' ∈ did ∨ .slept o' ∈ did → o' = o := by
  obtain ⟨m, hm, hr, ⟨-, rfl⟩ | ⟨-, rfl⟩ | ⟨-, rfl⟩⟩ | ⟨-, rfl⟩ := h
  · obtain rfl : o = m := by simpa using ho
    exact ⟨hm, hr, fun o' ho' => by simpa using ho'⟩
  · obtain rfl : o = m := by simpa using ho
    exact ⟨hm, hr, fun o' ho' => by simpa using ho'⟩
  · obtain rfl : o = m := by simpa using ho
    exact ⟨hm, hr, fun o' ho' => by simpa using ho'⟩
  · simp at ho

/-- A call schedules one message, the one it was asked for. -/
theorem scheduling_request (logged : Logged s) (ho : Scheduling s k o) :
    ∃ r, (s.calls k).request = some r ∧ o.envelope = r.envelope ∧
      o.replaces = r.origin.map (fun d => d.message.id) ∧ ∀ o', Scheduling s k o' → o' = o := by
  have hlog := logged k
  unfold Scheduling at ho ⊢
  cases hk : s.calls k with
  | recording r =>
    rw [hk] at hlog
    exact ⟨r, rfl, Scheduled.scheduling hlog ho⟩
  | returned r result =>
    rw [hk] at hlog
    cases r with
    | none =>
      cases result with
      | ok u => obtain ⟨m, hd | ⟨reason, hd⟩⟩ := hlog <;> simp [hd] at ho
      | error e => simp [hlog.2] at ho
    | some r =>
      cases result with
      | ok u =>
        refine ⟨r, rfl, ?_⟩
        cases hr : r.origin with
        | none =>
          simp only [Call.Logs, hr] at hlog
          simpa [hr] using Scheduled.scheduling hlog ho
        | some d =>
          simp only [Call.Logs, hr] at hlog
          obtain ⟨before, hb, hd⟩ := hlog
          simp only [hd, List.mem_append, List.mem_singleton, reduceCtorEq, or_false] at ho ⊢
          simpa [hr] using Scheduled.scheduling hb ho
      | error e => simp [hlog.2] at ho
  | counting r deadline =>
    rw [hk] at hlog
    simp [hlog.2] at ho
  | guarding r deadline =>
    rw [hk] at hlog
    simp [hlog.2] at ho
  | _ =>
    rw [hk] at hlog
    simp [show s.did k = [] from hlog] at ho

/-- A message that replaces another was scheduled by the call that settles that one. -/
theorem Whole.original (h : Whole s) {i : ℕ} (ho : o ∈ s.accepted) (hi : o.replaces = some i) :
    ∃ k m, Scheduling s k o ∧ (s.calls k).original = some m ∧ m.id = i ∧ m ∈ s.accepted := by
  obtain ⟨k, hk⟩ : ∃ k, Scheduling s k o := by
    obtain ⟨k, hk⟩ | ⟨k, hk⟩ := (h.books.accepted o).mp ho
    · exact ⟨k, .inl hk⟩
    · exact ⟨k, .inr hk⟩
  obtain ⟨r, hr, -, hrep, -⟩ := scheduling_request h.logged hk
  rw [hi] at hrep
  obtain ⟨d, hd, hid⟩ := Option.map_eq_some_iff.mp hrep.symm
  have horiginal : (s.calls k).original = some d.message := by
    simp [Call.original, hr, hd]
  refine ⟨k, d.message, hk, horiginal, hid, (h.conserved.all _).mpr ?_⟩
  obtain hbox | ⟨kind, -, hm⟩ := h.settling.place h.logged h.books horiginal
  · exact ⟨_, hbox⟩
  · exact ⟨_, mem_settled_box hm⟩

/-- Two messages that replace the same one are the same. -/
theorem Whole.replaces_injective (h : Whole s) {o' : Message V} {i : ℕ} (ho : o ∈ s.accepted)
    (ho' : o' ∈ s.accepted) (hi : o.replaces = some i) (hi' : o'.replaces = some i) : o = o' := by
  obtain ⟨k, m, hk, hm, rfl, hin⟩ := h.original ho hi
  obtain ⟨k', m', hk', hm', hid, hin'⟩ := h.original ho' hi'
  obtain rfl := h.wired.id_injective hin' hin hid
  obtain rfl := h.settling.single k k' m' hm hm'
  obtain ⟨r, -, -, -, one⟩ := scheduling_request h.logged hk'
  exact one o hk

/-! ## Conservation -/

/-- Every message accepted is in one place, once; every `Ok` has scheduled one message; and a
retried or deferred original has one successor, scheduled by the call that has it in hand or
has acked it. -/
theorem conservation (h : Reach (system V) Kept s) :
    (∀ m ∈ s.accepted, ∃! p, m ∈ s.box p) ∧ (∀ p, (s.box p).Nodup ∧ ∀ m ∈ s.box p, m ∈ s.accepted) ∧
      (∀ k r, s.calls k = .returned (some r) (.ok ()) →
        ∃! o, o ∈ s.accepted ∧ Scheduling s k o ∧ o.envelope = r.envelope ∧
          o.replaces = r.origin.map fun d => d.message.id) ∧
      (∀ name m kind, (m, kind) ∈ (s.queue name).settled → kind ≠ .succeeded →
        ∃! o, o ∈ s.accepted ∧ o.replaces = some m.id) ∧
      ∀ o ∈ s.accepted, ∀ i, o.replaces = some i → ∃ m ∈ s.accepted, m.id = i ∧
        ((∃ k, m ∈ s.box (.call k)) ∨
          ∃ kind, kind ≠ .succeeded ∧ (m, kind) ∈ (s.queue m.envelope.queue).settled) := by
  have whole := reach_whole h
  refine ⟨fun m hm => whole.conserved.existsUnique hm, fun p => ⟨whole.conserved.nodup p, fun m hm =>
    (whole.conserved.all m).mpr ⟨p, hm⟩⟩, fun k r hk => ?_, fun name m kind hm hkind => ?_,
    fun o ho i hi => ?_⟩
  · obtain ⟨did, hd, hsub⟩ := whole.candid.ok hk
    obtain ⟨o, henv, hrep, hin⟩ := hd.message
    have hsched : Scheduling s k o := hin.imp (hsub _) (hsub _)
    refine ⟨o, ⟨(whole.books.accepted o).mpr (hsched.imp (fun ho => ⟨k, ho⟩) fun ho => ⟨k, ho⟩),
      hsched, henv, hrep⟩, fun o' ho' => ?_⟩
    obtain ⟨-, -, -, -, one⟩ := scheduling_request whole.logged hsched
    exact one o' ho'.2.1
  · obtain ⟨o, ho, hrep⟩ := whole.candid.successor whole.logged whole.books hm hkind
    exact ⟨o, ⟨ho, hrep⟩, fun o' ho' => whole.replaces_injective ho'.1 ho ho'.2 hrep⟩
  · obtain ⟨k, m, -, hm, rfl, hin⟩ := whole.original ho hi
    refine ⟨m, hin, rfl, (whole.settling.place whole.logged whole.books hm).imp ?_ id⟩
    exact fun hbox => ⟨k, hbox⟩

/-- `Kept`, computed. -/
def keptNow (s : State V) : Action V → Bool
  | .close | .dropDelivery _ _ | .abort _ => false
  | .schedule k =>
    match s.calls k with
    | .scheduling r => s.now + r.delay.nanos ≤ s.horizon
    | _ => true
  | _ => true

theorem kept_of_keptNow (s : State V) (a : Action V) (h : keptNow s a = true) : Kept s a := by
  cases a with
  | schedule k =>
    intro r hr
    simpa [keptNow, hr] using h
  | close => cases h
  | dropDelivery c i => cases h
  | abort n => cases h
  | _ => trivial

/-- A job is deferred while a second one waits in the channel and a third is in transit; the
stream is dropped before the hold has passed. -/
def deferredRun : List (Action Unit) :=
  [.publish 0 mail none, .publish 1 mail none, .publish 2 mail none, .check 0, .check 1, .check 2,
    .schedule 0, .schedule 1, .schedule 2, .consume 0 (.new "mail"), .acquire 0, .pop 0, .send 0,
    .poll 0, .acquire 0, .pop 0, .send 0, .acquire 0, .pop 0,
    .settle 3 0 0 (.defer { mail with deferrals := 1, priority := 10 } ⟨5, by decide⟩), .check 3,
    .schedule 3, .count 3, .guard 3, .record 3, .dropStream 0, .drain 0, .send 0, .giveBack 0,
    .requeue 0, .tick 5, .fire 3]

theorem conservation_deferred : ∃ s : State Unit, Reach (system Unit) Kept s ∧
    s.accepted.length = 4 ∧ (s.queue "mail").pending.map Message.id = [3, 2, 1] ∧
    ∃! o, o ∈ s.accepted ∧ o.replaces = some 0 := by
  have start : Reach (system Unit) Kept (initial 0 10) := .start ⟨0, 10, by decide, rfl⟩
  have hrun : ((system Unit).checked keptNow (initial 0 10) deferredRun).map (fun s =>
      (s.accepted.length, (s.queue "mail").pending.map Message.id, (s.queue "mail").settled)) =
        some (4, [3, 2, 1], [(⟨0, mail, none, 0⟩, .deferred)]) := by decide +kernel
  obtain ⟨s, hs, hfacts⟩ := Option.map_eq_some_iff.mp hrun
  have reached := start.checkedRun kept_of_keptNow deferredRun hs
  simp only [Prod.mk.injEq] at hfacts
  refine ⟨s, reached, hfacts.1, hfacts.2.1, (conservation reached).2.2.2.1 "mail" ⟨0, mail, none, 0⟩
    .deferred ?_ nofun⟩
  rw [hfacts.2.2]
  exact List.mem_singleton_self _

end Queuey.MemoryBackend
