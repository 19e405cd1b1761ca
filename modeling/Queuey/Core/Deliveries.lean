import Queuey.Core.CallSteps

/-!
# Who settles what

The settle operations of a run, in order, with the deliveries they were given. On an open
backend no message is settled twice, every record in the lists of the queues is that of one
operation, and every successor was scheduled by one, whatever else is dropped or aborted.
-/
namespace Queuey.MemoryBackend
open Transition

variable {V : Type} {s t : State V} {a : Action V} {k c i n : ℕ} {r : Request V} {op : Settle V}
  {m o : Message V} {d : MemoryDelivery V} {name reason : String} {kind : AckKind}
  {call call' : Call V} {did did' : List (Effect V)} {effect : Effect V}

/-- A settle operation: its call, the delivery it was given and what it is. -/
structure Entry (V : Type) where
  call : ℕ
  delivery : MemoryDelivery V
  op : Settle V

variable {e e' : Entry V} {es : List (Entry V)}

namespace Entry

abbrev message (e : Entry V) : Message V := e.delivery.message

/-- What the operation asks the backend to schedule. -/
def request (e : Entry V) : Option (Request V) :=
  match e.op with
  | .ack | .deadLetter _ => none
  | .retry next delay => some ⟨false, next, delay, some e.delivery⟩
  | .defer next delay => some ⟨true, next, delay, some e.delivery⟩

/-- The record the operation leaves when it succeeds. -/
def record (e : Entry V) : Effect V :=
  match e.op with
  | .ack => .acked e.message .succeeded
  | .deadLetter reason => .buried e.message reason
  | .retry _ _ => .acked e.message .retried
  | .defer _ _ => .acked e.message .deferred

theorem origin_of_request (h : e.request = some r) : r.origin = some e.delivery := by
  obtain ⟨call, delivery, op⟩ := e
  cases op <;> simp only [request, Option.some.injEq, reduceCtorEq] at h
  all_goals rw [← h]

theorem record_of_request (h : e.request = some r) : e.record = .acked e.message r.kind := by
  obtain ⟨call, delivery, op⟩ := e
  cases op <;> simp only [request, Option.some.injEq, reduceCtorEq] at h
  all_goals
    rw [← h]
    rfl

end Entry

/-! ## The call of an operation -/

/-- Where the call of an operation stands, and the record in its log once it has succeeded. -/
structure Traced (e : Entry V) (call : Call V) (did : List (Effect V)) : Prop where
  stands : match e.request with
    | some r => call.request = some r
    | none => call = e.op.call e.delivery ∨ call = .returned none (.ok ())
  going : call.failed = false
  records : did.filter Effect.records = if call.ok then [e.record] else []

/-- The call settles nothing, and its log has no records. -/
structure Plain (call : Call V) (did : List (Effect V)) : Prop where
  handed : call.handed = none
  records : did.filter Effect.records = []

theorem handed_of_request (h : call.request = some r) : call.handed = r.origin := by
  cases call <;> simp_all [Call.request, Call.handed]

theorem filter_silent {effects : List (Effect V)}
    (silent : ∀ effect ∈ effects, effect.records = false) (did : List (Effect V)) :
    (did ++ effects).filter Effect.records = did.filter Effect.records := by
  have hnone : effects.filter Effect.records = [] := by
    rw [List.filter_eq_nil_iff]
    intro effect he
    simp [silent effect he]
  rw [List.filter_append, hnone, List.append_nil]

theorem Plain.step (h : Plain call did) (hs : CallStep call did call' did') :
    Plain call' did' := by
  cases hs with
  | made origin => exact ⟨origin, h.records⟩
  | on before pending after going plain silent =>
    refine ⟨?_, ?_⟩
    · rw [handed_of_request after, ← handed_of_request before]
      exact h.handed
    · rw [filter_silent silent]
      exact h.records
  | requested origin =>
    have := h.handed
    simp [Call.handed, Call.request, origin] at this
  | acked => cases h.handed
  | buried => cases h.handed

/-- A call with a request is that of an operation which has the same one. -/
theorem Traced.request (h : Traced e call did) (hr : call.request = some r) :
    e.request = some r := by
  have stands := h.stands
  cases he : e.request with
  | some r' =>
    rw [he] at stands
    exact stands.symm.trans hr
  | none =>
    rw [he] at stands
    obtain ⟨k, d, op⟩ := e
    obtain rfl | rfl := stands
    · cases op <;> simp [Entry.request, Settle.call, Call.request] at he hr
    · cases hr

theorem Traced.step (h : Traced e call did) (hs : CallStep call did call' did') :
    Traced e call' did' := by
  have stands := h.stands
  have records := h.records
  cases hs with
  | made origin =>
    cases he : e.request with
    | some r => simp [he, Call.request] at stands
    | none =>
      rw [he] at stands
      obtain ⟨k, d, op⟩ := e
      cases op <;> simp [Settle.call] at stands he
  | on before pending after going plain silent =>
    have he := h.request before
    refine ⟨by rw [he]; exact after, going, ?_⟩
    rw [filter_silent silent, records, pending]
    -- An operation has a delivery to ack first, so its call has not returned here.
    cases hok : call'.ok with
    | false => rfl
    | true =>
      have := plain hok
      rw [Entry.origin_of_request he] at this
      cases this
  | @requested _ r d origin =>
    have he := h.request (r := r) rfl
    have hd : d = e.delivery := Option.some.inj (origin.symm.trans (Entry.origin_of_request he))
    refine ⟨by rw [he]; rfl, rfl, ?_⟩
    rw [List.filter_append, records, Entry.record_of_request he, hd]
    rfl
  | @acked _ d =>
    cases he : e.request with
    | some r => simp [he, Call.request] at stands
    | none =>
      rw [he] at stands
      obtain ⟨k, d', op⟩ := e
      cases op <;> simp [Settle.call] at stands
      subst stands
      refine ⟨.inr rfl, rfl, ?_⟩
      rw [List.filter_append, records]
      rfl
  | @buried _ d reason =>
    cases he : e.request with
    | some r => simp [he, Call.request] at stands
    | none =>
      rw [he] at stands
      obtain ⟨k, d', op⟩ := e
      cases op <;> simp [Settle.call] at stands
      obtain ⟨rfl, rfl⟩ := stands
      refine ⟨.inr rfl, rfl, ?_⟩
      rw [List.filter_append, records]
      rfl

/-! ## Records -/

/-- The record is in the lists of its queue. -/
def Recorded (s : State V) : Effect V → Prop
  | .acked m kind => (m, kind) ∈ (s.queue m.envelope.queue).settled
  | .buried m reason => (m, reason) ∈ (s.queue m.envelope.queue).dead
  | _ => False

theorem recorded_iff (books : Books s) (buried : Buried s) :
    Recorded s effect ↔ effect.records = true ∧ s.Did effect := by
  cases effect with
  | acked m kind =>
    refine (books.settled _ m kind).trans ?_
    simp [Effect.records]
  | buried m reason =>
    refine (buried _ m reason).trans ?_
    simp [Effect.records]
  | _ => simp [Recorded, Effect.records]

/-! ## The operations of a run -/

/-- The operations of a run on an open backend and what became of them. Messages may be lost,
those among them that a panicking operation had in hand. -/
structure Account (es : List (Entry V)) (s : State V) : Prop where
  wired : Wired s
  logged : Logged s
  books : Books s
  buried : Buried s
  candid : Candid s
  opened : s.closed = false
  scattered : ∃ lost, Scattered lost s ∧
    ∀ k r d, s.calls k = .panicked r → r.origin = some d → lost d.message
  traced : ∀ e ∈ es, Traced e (s.calls e.call) (s.did e.call)
  plain : ∀ k, Plain (s.calls k) (s.did k) ∨ ∃ e ∈ es, e.call = k
  calls : (es.map Entry.call).Nodup
  messages : (es.map Entry.message).Nodup

theorem account_start (h : (system V).start s) : Account [] s := by
  have wired := wired_start h
  have conserved := conserved_iff.mp (conserved_start h)
  refine ⟨wired, logged_start h, books_start h, buried_start h, candid_start h, ?_, ?_, ?_, ?_,
    List.nodup_nil, List.nodup_nil⟩
  all_goals obtain ⟨now, horizon, -, rfl⟩ := h
  · rfl
  · exact ⟨_, conserved, fun _ _ _ hcall => by cases hcall⟩
  · exact fun e he => absurd he List.not_mem_nil
  · exact fun k => .inl ⟨rfl, rfl⟩

theorem Account.recorded (h : Account es s) (he : e ∈ es) (hok : (s.calls e.call).ok = true) :
    Recorded s e.record := by
  have records := (h.traced e he).records
  rw [hok, if_pos rfl] at records
  have hin : e.record ∈ (s.did e.call).filter Effect.records := by simp [records]
  obtain ⟨hdid, hrecords⟩ := List.mem_filter.mp hin
  exact (recorded_iff h.books h.buried).mpr ⟨hrecords, e.call, hdid⟩

/-- An operation still has its message in hand, has recorded it, or has lost it. -/
theorem Account.place (h : Account es s) (he : e ∈ es) :
    e.message ∈ s.box (.call e.call) ∨ Recorded s e.record ∨
      ∃ r, s.calls e.call = .panicked r ∧ r.origin = some e.delivery := by
  have traced := h.traced e he
  show e.message ∈ (s.calls e.call).box ∨ _
  cases hr : e.request with
  | none =>
    have stands := traced.stands
    rw [hr] at stands
    obtain hc | hc := stands
    · refine .inl ?_
      rw [hc]
      obtain ⟨k, d, op⟩ := e
      cases op <;> simp_all [Entry.request, Settle.call, Call.box]
    · exact .inr (.inl (h.recorded he (by rw [hc]; rfl)))
  | some r =>
    have stands := traced.stands
    have origin := Entry.origin_of_request hr
    have hbox : e.message ∈ r.original := by simp [Request.original, origin]
    rw [hr] at stands
    cases hc : s.calls e.call with
    | idle | acking | burying => simp [hc, Call.request] at stands
    | panicked r' =>
      obtain rfl : r' = r := by simpa [hc, Call.request] using stands
      exact .inr (.inr ⟨r', rfl, origin⟩)
    | returned r' result =>
      cases result with
      | ok u => exact .inr (.inl (h.recorded he (by rw [hc]; rfl)))
      | error err =>
        have going := traced.going
        rw [hc] at going
        cases going
    | _ =>
      refine .inl ?_
      obtain rfl : _ = r := by simpa [hc, Call.request] using stands
      exact hbox

theorem mem_dead_box (h : (m, reason) ∈ (s.queue name).dead) : m ∈ s.box (.queue name .dead) :=
  List.mem_map.mpr ⟨_, h, rfl⟩

/-- A message that has been recorded, or that nobody has any longer, is not with a consumer. -/
theorem Account.unsettled (h : Account es s) (he : e ∈ es) : e.message ∈ s.accepted ∧
    ∀ c, e.message ∉ (s.consumers c).out := by
  obtain ⟨lost, scattered, panicked⟩ := h.scattered
  have elsewhere : ∀ p, e.message ∈ s.box p → (∀ c, p ≠ .consumer c .unsettled) →
      e.message ∈ s.accepted ∧ ∀ c, e.message ∉ (s.consumers c).out := by
    intro p hp hne
    refine ⟨scattered.accepted hp, fun c hc => hne c ?_⟩
    exact scattered.ledger.apart _ p (.consumer c .unsettled) hp hc
  obtain hcall | hrecord | ⟨r, hr, hd⟩ := h.place he
  · exact elsewhere _ hcall (by simp)
  · obtain ⟨k, d, op⟩ := e
    cases op with
    | deadLetter reason => exact elsewhere _ (mem_dead_box hrecord) (by simp)
    | _ => exact elsewhere _ (mem_settled_box hrecord) (by simp)
  · have hlost := panicked _ _ _ hr hd
    refine ⟨scattered.old _ hlost, fun c hc => ?_⟩
    have hout : e.message ∈ s.box (.consumer c .unsettled) := hc
    exact (scattered.ledger.of_mem hout).2 hlost

/-- Two operations with one message are the same. -/
theorem Account.same_message (h : Account es s) (he : e ∈ es) (he' : e' ∈ es)
    (hid : e.message.id = e'.message.id) : e = e' := by
  have hmessage := h.wired.id_injective (h.unsettled he).1 (h.unsettled he').1 hid
  exact List.inj_on_of_nodup_map h.messages he he' hmessage

/-- A record is that of an operation that has returned `Ok`. -/
theorem Account.of_record (h : Account es s) (hrec : Recorded s effect) :
    ∃ e ∈ es, (s.calls e.call).ok = true ∧ e.record = effect := by
  obtain ⟨hrecords, k, hk⟩ := (recorded_iff h.books h.buried).mp hrec
  have hin : effect ∈ (s.did k).filter Effect.records := List.mem_filter.mpr ⟨hk, hrecords⟩
  obtain hplain | ⟨e, he, rfl⟩ := h.plain k
  · rw [hplain.records] at hin
    cases hin
  · rw [(h.traced e he).records] at hin
    cases hok : (s.calls e.call).ok with
    | false => simp [hok] at hin
    | true =>
      rw [hok, if_pos rfl, List.mem_singleton] at hin
      exact ⟨e, he, hok, hin.symm⟩

/-- A message that replaces another was scheduled by the operation that was given that one. -/
theorem Account.parent (h : Account es s) (ho : o ∈ s.accepted) (hi : o.replaces = some i) :
    ∃ e ∈ es, ∃ r, e.message.id = i ∧ e.request = some r ∧ o.envelope = r.envelope ∧
      Scheduling s e.call o := by
  obtain ⟨k, hk⟩ : ∃ k, Scheduling s k o := by
    obtain ⟨k, hk⟩ | ⟨k, hk⟩ := (h.books.accepted o).mp ho
    · exact ⟨k, .inl hk⟩
    · exact ⟨k, .inr hk⟩
  obtain ⟨r, hr, henv, hrep, -⟩ := scheduling_request h.logged hk
  rw [hi] at hrep
  obtain ⟨d, hd, hid⟩ := Option.map_eq_some_iff.mp hrep.symm
  obtain hplain | ⟨e, he, rfl⟩ := h.plain k
  · have hnone := hplain.handed
    rw [handed_of_request hr, hd] at hnone
    cases hnone
  · have hreq := (h.traced e he).request hr
    obtain rfl := Option.some.inj ((Entry.origin_of_request hreq).symm.trans hd)
    exact ⟨e, he, r, hid, hreq, henv, hk⟩

/-- A message is replaced by one message at most. -/
theorem Account.replaces_injective (h : Account es s) (ho : o ∈ s.accepted) (hm : m ∈ s.accepted)
    (hi : o.replaces = some i) (hi' : m.replaces = some i) : o = m := by
  obtain ⟨e, he, -, hid, -, -, hk⟩ := h.parent ho hi
  obtain ⟨e', he', -, hid', -, -, hk'⟩ := h.parent hm hi'
  obtain rfl := h.same_message he he' (hid.trans hid'.symm)
  obtain ⟨-, -, -, -, one⟩ := scheduling_request h.logged hk'
  exact one o hk

/-- An operation that has returned `Ok` has scheduled what it was asked to. -/
theorem Account.successor (h : Account es s) (he : e ∈ es) (hr : e.request = some r)
    (hok : (s.calls e.call).ok = true) :
    ∃ o ∈ s.accepted, o.replaces = some e.message.id ∧ o.envelope = r.envelope := by
  have stands := (h.traced e he).stands
  rw [hr] at stands
  have hc : s.calls e.call = .returned (some r) (.ok ()) := by
    cases hc : s.calls e.call with
    | returned r' result =>
      obtain rfl : r' = some r := by simpa [hc, Call.request] using stands
      cases result with
      | ok u => rfl
      | error err => simp [hc, Call.ok] at hok
    | _ => simp [hc, Call.ok] at hok
  obtain ⟨did, hd, hsub⟩ := h.candid.ok hc
  obtain ⟨o, henv, hrep, hin⟩ := hd.message
  refine ⟨o, (h.books.accepted o).mpr ?_, ?_, henv⟩
  · exact hin.imp (fun ho => ⟨e.call, hsub _ ho⟩) fun ho => ⟨e.call, hsub _ ho⟩
  · rw [hrep, Entry.origin_of_request hr]
    rfl

/-! ## Steps -/

theorem calls_setCall_ne {j : ℕ} (hj : j ≠ k) (call : Call V) :
    (s.setCall k call).calls j = s.calls j := by
  simp [State.setCall, hj]

theorem not_panicked_setCall {j : ℕ} (h : (t.setCall k call).calls j = .panicked r)
    (calls : t.calls = s.calls) (going : ∀ r, call ≠ .panicked r) : s.calls j = .panicked r := by
  by_cases hj : j = k
  · subst hj
    exact absurd (by simpa [State.setCall] using h) (going r)
  · rwa [calls_setCall_ne hj, calls] at h

/-- Only the scheduling of a request panics. -/
theorem panicked_of_step {j : ℕ} (ha : ∀ k, a ≠ .schedule k) (hs : step s a = some t)
    (h : t.calls j = .panicked r) : s.calls j = .panicked r := by
  by_cases hof : a.ofCall = false
  · rwa [(aside_of_step hof hs).calls] at h
  cases a with
  | publish k envelope delay =>
    obtain ⟨-, rfl⟩ := call_cases hs
    exact not_panicked_setCall h rfl (by simp)
  | defer k envelope delay =>
    obtain ⟨-, rfl⟩ := call_cases hs
    exact not_panicked_setCall h rfl (by simp)
  | settle k c i op =>
    obtain ⟨-, m, -, rfl⟩ := settle_cases hs
    refine not_panicked_setCall h rfl fun r hr => ?_
    cases op <;> cases hr
  | check k =>
    obtain ⟨r', -, ⟨-, rfl⟩ | ⟨-, rfl⟩⟩ := check_cases hs
    · exact not_panicked_setCall h (Aside.dropOrigin s r').calls (by simp)
    · exact not_panicked_setCall h rfl (by simp)
  | schedule k => exact absurd rfl (ha k)
  | count k =>
    obtain ⟨r', deadline, -, rfl⟩ := count_cases hs
    exact not_panicked_setCall h rfl (by simp)
  | guard k =>
    obtain ⟨r', deadline, -, rfl⟩ := guard_cases hs
    refine not_panicked_setCall h rfl fun r => ?_
    split_ifs <;> simp
  | record k =>
    obtain ⟨r', d, -, -, rfl⟩ | ⟨d, -, rfl⟩ | ⟨d, reason, -, -, rfl⟩ | ⟨d, reason, -, -, rfl⟩ :=
      record_cases hs <;> exact not_panicked_setCall h rfl (by simp)
  | close =>
    rw [(aside_of_close hs).calls] at h
    exact h
  | _ => exact absurd rfl hof

/-- What a panicking operation had in hand is lost. -/
theorem Account.scatter (h : Account es s) (hclose : a ≠ .close) (hs : step s a = some t) :
    ∃ lost, Scattered lost t ∧
      ∀ k r d, t.calls k = .panicked r → r.origin = some d → lost d.message := by
  obtain ⟨lost, scattered, panicked⟩ := h.scattered
  by_cases ha : ∃ k, a = .schedule k
  · obtain ⟨k, rfl⟩ := ha
    obtain ⟨lost', grown, held, own⟩ := scattered_schedule h.wired h.opened scattered hs
    refine ⟨lost', held, fun j r d hj hr => ?_⟩
    by_cases hjk : j = k
    · exact own r d (hjk ▸ hj) hr
    · rw [(Turn.schedule h.opened hs).calls j hjk] at hj
      exact grown _ (panicked j r d hj hr)
  · obtain ⟨lost', grown, held⟩ := scattered_step h.wired h.opened hclose scattered hs
    refine ⟨lost', held, fun j r d hj hr => grown _ ?_⟩
    exact panicked j r d (panicked_of_step (not_exists.mp ha) hs hj) hr

/-- The parts of an account that a step keeps by themselves. -/
theorem Account.frame (h : Account es s) (hclose : a ≠ .close) (hs : step s a = some t)
    {es' : List (Entry V)} (closed : t.closed = s.closed)
    (traced : ∀ e ∈ es', Traced e (t.calls e.call) (t.did e.call))
    (plain : ∀ k, Plain (t.calls k) (t.did k) ∨ ∃ e ∈ es', e.call = k)
    (calls : (es'.map Entry.call).Nodup) (messages : (es'.map Entry.message).Nodup) :
    Account es' t where
  wired := wired_step h.wired hs
  logged := logged_step h.logged hs
  books := books_step h.books hs
  buried := buried_step h.buried hs
  candid := by
    refine candid_step h.candid h.logged ?_ hs
    cases a with
    | close => exact absurd rfl hclose
    | _ => trivial
  opened := closed.trans h.opened
  scattered := h.scatter hclose hs
  traced := traced
  plain := plain
  calls := calls
  messages := messages

/-- Whatever happens on an open backend, the operations begun are accounted for. -/
theorem Account.step (h : Account es s) (hclose : a ≠ .close)
    (hsettle : ∀ k c i op, a ≠ .settle k c i op) (hs : step s a = some t) : Account es t := by
  by_cases ha : a.ofCall = false
  · have aside := aside_of_step ha hs
    refine h.frame hclose hs aside.closed ?_ ?_ h.calls h.messages
    · rw [aside.calls, aside.did]
      exact h.traced
    · rw [aside.calls, aside.did]
      exact h.plain
  · obtain ⟨k, turn⟩ := turn_of_step h.opened (by simpa using ha) hclose hsettle hs
    refine h.frame hclose hs turn.closed (fun e he => ?_) (fun j => ?_) h.calls h.messages
    · by_cases hk : e.call = k
      · subst hk
        exact (h.traced e he).step turn.step
      · rw [turn.calls _ hk, turn.did _ hk]
        exact h.traced e he
    · by_cases hk : j = k
      · subst hk
        exact (h.plain j).imp_left fun hplain => hplain.step turn.step
      · rw [turn.calls _ hk, turn.did _ hk]
        exact h.plain j

/-- A settle operation begins, of a message that none has been given before. -/
theorem Account.settle (h : Account es s) (hs : stepSettle s k c i op = some t)
    (hm : (s.consumers c).out[i]? = some m) : Account (es ++ [⟨k, ⟨m, c⟩, op⟩]) t := by
  obtain ⟨hk, m', hm', rfl⟩ := settle_cases hs
  obtain rfl := Option.some.inj (hm'.symm.trans hm)
  have empty : s.did k = [] := by simpa [hk, Call.Logs] using h.logged k
  have idle : ∀ e ∈ es, e.call ≠ k := by
    rintro e he rfl
    have stands := (h.traced e he).stands
    obtain ⟨k, d, op⟩ := e
    rw [hk] at stands
    cases op <;> simp [Entry.request, Settle.call, Call.request] at stands
  have began : Traced ⟨k, ⟨m', c⟩, op⟩ (op.call ⟨m', c⟩) [] := by
    cases op with
    | ack | deadLetter => exact ⟨.inl rfl, rfl, rfl⟩
    | retry | defer => exact ⟨rfl, rfl, rfl⟩
  refine h.frame (by simp) (a := .settle k c i op) hs rfl (fun e he => ?_) (fun j => ?_) ?_ ?_
  · obtain he | he := List.mem_append.mp he
    · rw [calls_setCall_ne (idle e he)]
      exact h.traced e he
    · obtain rfl := List.mem_singleton.mp he
      have hdid : s.did k = [] := empty
      simpa [State.setCall, State.setConsumer, hdid] using began
  · by_cases hj : j = k
    · exact .inr ⟨_, List.mem_append_right _ (List.mem_singleton_self _), hj.symm⟩
    · rw [calls_setCall_ne hj]
      refine (h.plain j).imp_right ?_
      rintro ⟨e, he, hj⟩
      exact ⟨e, List.mem_append_left _ he, hj⟩
  · rw [List.map_append]
    refine h.calls.append (List.nodup_singleton _) ?_
    rintro _ hin hk'
    obtain ⟨e, he, rfl⟩ := List.mem_map.mp hin
    exact idle e he (List.mem_singleton.mp hk')
  · rw [List.map_append]
    refine h.messages.append (List.nodup_singleton _) ?_
    rintro _ hin hk'
    obtain ⟨e, he, rfl⟩ := List.mem_map.mp hin
    apply (h.unsettled he).2 c
    rw [List.mem_singleton.mp hk']
    exact List.mem_of_getElem? hm

end Queuey.MemoryBackend
