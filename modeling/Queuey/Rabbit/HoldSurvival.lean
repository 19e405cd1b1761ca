import Queuey.Rabbit.HoldQueue

/-!
# When held jobs survive

A hold queue outlives a message exactly when the broker accepted the message no later
than one TTL after the queue's last declaration. Nothing in `publish_held` bounds the
time between the two, so the runs in which every message is accepted that promptly are
the ones in which no held job is lost.
-/
namespace Queuey.Rabbit.HoldQueues
open Transition Interaction Rabbit.Topology

variable {V : Type} {s t : State}

/-- The arguments of a hold queue some delay is held in. -/
def HoldArgs (args : FieldTable) : Prop :=
  ∃ config delay granularity ttl, deferredTtlMs delay granularity = some ttl ∧
    args = deferredQueueArgs config ttl

/-- The only queues the operation declares are hold queues. -/
def DeclaresHold (op : Op) : Prop :=
  ∀ name options args, op = .queueDeclare name options args → HoldArgs args

theorem HoldArgs.ms {args : FieldTable} (h : HoldArgs args) :
    ∃ ttl, 0 < ttl ∧ argMs args argMessageTtl = some ttl ∧ argMs args argExpires = some (2 * ttl) := by
  obtain ⟨config, delay, granularity, ttl, httl, rfl⟩ := h
  refine ⟨ttl.toNat, (deferredTtlMs_bounds httl).1, by simp [argMs, deferredQueueArgs], ?_⟩
  rw [← expiresMs_eq httl]
  simp [argMs, deferredQueueArgs, List.lookup_cons, argMessageTtl, argExpires, argDeadLetterExchange,
    argDeadLetterRoutingKey]

theorem HoldArgs.outlives_iff {q : HoldQueue} (h : HoldArgs q.args) (acceptedAt : ℕ) :
    q.Outlives acceptedAt ↔
      ∀ ttl, argMs q.args argMessageTtl = some ttl → acceptedAt ≤ q.declaredAt + ttl * nanosPerMs := by
  obtain ⟨ttl, -, httl, hexpires⟩ := h.ms
  simp only [HoldQueue.Outlives, HoldQueue.deadline, HoldQueue.expiry, httl, hexpires,
    Option.map_some, Option.some.injEq, forall_eq']
  rw [Nat.mul_assoc, Nat.two_mul]
  omega

theorem prepares_declaresHold {op : Op} (h : op.Prepares) : DeclaresHold op := by
  rintro name options args rfl
  exact absurd h.2 (by simp [Op.exposes])

theorem publishConfirmed_only (queue : String) (payload : Bytes)
    (properties : Codec.BasicProperties) :
    (publishConfirmed queue payload properties).run.Only DeclaresHold := by
  refine (only_orFail _).run_bind fun key => ?_
  refine (acquire_only.mono fun _ => prepares_declaresHold).run_bind fun _ => ?_
  refine (only_ask (by rintro _ _ _ ⟨⟩)).run_bind fun _ => (only_orAmqp _).run_bind fun _ => ?_
  exact (only_ask (by rintro _ _ _ ⟨⟩)).run_bind fun _ => (only_orAmqp _).run_bind fun _ =>
    only_orFail _

theorem Request.program_only (r : Request V) : r.program.Only DeclaresHold := by
  refine (only_ask (by rintro _ _ _ ⟨⟩)).run_bind fun config => ?_
  cases hfound : r.publisher.holdQueue config r.envelope r.delay r.hold with
  | error e => trivial
  | ok found =>
    obtain ⟨known, ttl, name⟩ := found
    refine (withDeclareChannel_only.mono fun _ => prepares_declaresHold).run_bind fun _ => ?_
    refine (only_ask ?_).run_bind fun _ => (only_orAmqp _).run_bind fun _ =>
      (only_orFail _).run_bind fun _ => publishConfirmed_only _ _ _
    rintro _ _ _ ⟨⟩
    exact ⟨known, r.delay, _, ttl, (holdQueue_ok hfound).2.1, rfl⟩

/-- The answer that makes `publish_held` return `Ok`. -/
def bareAck : Interaction.Event Op Ans := ⟨.awaitConfirm, .ok (.ack none)⟩

def ConfirmedOk (events : Trace) (r : Except Failure Unit) : Prop := r = .ok () → bareAck ∈ events

theorem Request.program_ensures (r : Request V) : r.program.Ensures ConfirmedOk := by
  refine (publishHeld_spec r.publisher r.envelope r.delay r.hold).mono ?_
  rintro events res ⟨-, -, -, -, -, hheld⟩ hok
  obtain ⟨-, -, -, -, before, key, -, -, rfl⟩ := hheld hok
  simp [bareAck]

/-- What the broker knows: every queue is a hold queue declared in the past, and a held
message is in a queue that exists. -/
structure Kept (s : State) : Prop where
  args : ∀ name q, s.queues name = some q → HoldArgs q.args
  past : ∀ name q, s.queues name = some q → q.declaredAt ≤ s.now
  fresh : ∀ m, s.next ≤ m → s.fate m = none
  sent : ∀ k m, s.sent k = some m → s.owner m = k ∧ m < s.next
  live : ∀ m name acceptedAt, s.fate m = some (.held name acceptedAt) →
    ∃ q, s.queues name = some q

/-- A hold queue is declared, for the first time or again. -/
theorem Kept.declared {name : String} {q : HoldQueue} (h : Kept s) (args : HoldArgs q.args)
    (now : q.declaredAt = s.now) :
    Kept { s with queues := Function.update s.queues name (some q) } := by
  refine ⟨?_, ?_, h.fresh, h.sent, ?_⟩
  all_goals simp only [Function.update_apply]
  · intro name' q' hq'
    split at hq'
    · obtain rfl := Option.some.inj hq'
      exact args
    · exact h.args name' q' hq'
  · intro name' q' hq'
    split at hq'
    · obtain rfl := Option.some.inj hq'
      exact now.le
    · exact h.past name' q' hq'
  · intro m name' acceptedAt hm
    split
    · exact ⟨_, rfl⟩
    · exact h.live m name' acceptedAt hm

/-- An answer declares a queue, declares one again, sends a message, or is nothing to the broker. -/
theorem stepBroker_cases {k : ℕ} {event : Interaction.Event Op Ans}
    (hs : stepBroker s k event = some t) :
    (∃ name options args, event.1 = .queueDeclare name options args ∧ s.queues name.value = none ∧
        t = { s with
          queues := Function.update s.queues name.value (some ⟨options, args, s.now⟩) }) ∨
      (∃ name options args q, event.1 = .queueDeclare name options args ∧
        s.queues name.value = some q ∧ (q.options = options ∧ q.args = args) ∧
        t = { s with
          queues := Function.update s.queues name.value (some { q with declaredAt := s.now }) }) ∨
      (∃ key mandatory immediate payload properties,
        event.1 = .basicPublish key mandatory immediate payload properties ∧
        t = { s with
          next := s.next + 1
          owner := Function.update s.owner s.next k
          sent := Function.update s.sent k (some s.next)
          fate := Function.update s.fate s.next (some (.inFlight key.value)) }) ∨
      t = s := by
  revert hs
  fun_cases stepBroker s k event with
  | case1 name options args hnone =>
    rintro ⟨⟩
    exact .inl ⟨name, options, args, rfl, hnone, rfl⟩
  | case2 name options args q hq hsame =>
    rintro ⟨⟩
    exact .inr (.inl ⟨name, options, args, q, rfl, hq, hsame, rfl⟩)
  | case4 key mandatory immediate payload properties =>
    rintro ⟨⟩
    exact .inr (.inr (.inl ⟨key, mandatory, immediate, payload, properties, rfl, rfl⟩))
  | case5 => rintro ⟨⟩; exact .inr (.inr (.inr rfl))
  | case8 => rintro ⟨⟩; exact .inr (.inr (.inr rfl))
  | _ => rintro ⟨⟩

theorem Kept.answer {k : ℕ} {event : Interaction.Event Op Ans} (h : Kept s) (hd : DeclaresHold event.1)
    (hs : stepBroker s k event = some t) : Kept t := by
  obtain ⟨name, options, args, hop, -, rfl⟩ | ⟨name, options, args, q, -, hq, -, rfl⟩ |
    ⟨key, _, _, _, _, -, rfl⟩ | rfl := stepBroker_cases hs
  · exact h.declared (hd _ _ _ hop) rfl
  · exact h.declared (q := { q with declaredAt := s.now }) (h.args _ q hq) rfl
  · refine ⟨h.args, h.past, ?_, ?_, ?_⟩
    all_goals simp only [Function.update_apply]
    · intro m hm
      rw [if_neg (by omega)]
      exact h.fresh m (by omega)
    · intro j m hm
      split at hm
      · rename_i hj
        rw [← Option.some.inj hm, if_pos rfl, hj]
        exact ⟨rfl, by omega⟩
      · obtain ⟨howner, hlt⟩ := h.sent j m hm
        rw [if_neg (by omega)]
        exact ⟨howner, by omega⟩
    · intro m name' acceptedAt hm
      split at hm
      · cases hm
      · exact h.live m name' acceptedAt hm
  · exact h

theorem Kept.redeclare {name : String} (h : Kept s) (hs : stepRedeclare s name = some t) :
    Kept t := by
  revert hs
  fun_cases stepRedeclare s name with
  | case1 q hq =>
    rintro ⟨⟩
    exact h.declared (q := { q with declaredAt := s.now }) (h.args _ q hq) rfl
  | case2 => rintro ⟨⟩

theorem Kept.accept {m : ℕ} (h : Kept s) (hs : stepAccept s m = some t) : Kept t := by
  revert hs
  fun_cases stepAccept s m with
  | case1 name hm q hq =>
    rintro ⟨⟩
    refine ⟨h.args, h.past, ?_, h.sent, ?_⟩
    all_goals simp only [Function.update_apply]
    · intro m' hm'
      rw [if_neg, h.fresh m' hm']
      rintro rfl
      rw [h.fresh m' hm'] at hm
      cases hm
    · intro m' name' acceptedAt hm'
      split at hm'
      · cases hm'
        exact ⟨q, hq⟩
      · exact h.live m' name' acceptedAt hm'
  | case2 name hm hq =>
    rintro ⟨⟩
    refine ⟨h.args, h.past, ?_, h.sent, ?_⟩
    all_goals simp only [Function.update_apply]
    · intro m' hm'
      rw [if_neg, h.fresh m' hm']
      rintro rfl
      rw [h.fresh m' hm'] at hm
      cases hm
    · intro m' name' acceptedAt hm'
      split at hm'
      · cases hm'
      · exact h.live m' name' acceptedAt hm'
  | case3 => rintro ⟨⟩

theorem fateAt_held {f : Fate} {u : ℕ} {name : String} {acceptedAt : ℕ}
    (h : s.fateAt u f = .held name acceptedAt) :
    f = .held name acceptedAt ∧ ∃ q, s.queues name = some q ∧ q.gone u = false := by
  revert h
  fun_cases State.fateAt s u f with
  | case1 => rintro ⟨⟩
  | case2 => rintro ⟨⟩
  | case3 name' acceptedAt' q hq hrel hgone =>
    rintro ⟨⟩
    exact ⟨rfl, q, hq, by simpa using hgone⟩
  | case4 => rintro ⟨⟩
  | case5 f hf =>
    rintro rfl
    exact absurd rfl (hf name acceptedAt)

theorem fateAt_accepted {f : Fate} (u : ℕ) (h : f.accepted = true) :
    (s.fateAt u f).accepted = true := by
  fun_cases State.fateAt s u f with
  | case5 => exact h
  | _ => rfl

theorem Kept.tick (nanos : ℕ) (h : Kept s) : Kept (stepTick s nanos) where
  args name q hq := h.args name q (Option.filter_eq_some_iff.mp hq).1
  past name q hq := (h.past name q (Option.filter_eq_some_iff.mp hq).1).trans (Nat.le_add_right _ _)
  fresh m hm := by
    show (s.fate m).map _ = none
    rw [h.fresh m hm]
    rfl
  sent := h.sent
  live m name acceptedAt hm := by
    obtain ⟨f, -, hf⟩ := Option.map_eq_some_iff.mp hm
    obtain ⟨-, q, hq, hgone⟩ := fateAt_held hf
    exact ⟨q, Option.filter_eq_some_iff.mpr ⟨hq, by simp [hgone]⟩⟩

/-- Call `k` has a message that the broker took. -/
def Taken (s : State) (k : ℕ) : Prop :=
  ∃ m f, s.owner m = k ∧ s.fate m = some f ∧ f.accepted = true

theorem Taken.answer {k j : ℕ} {event : Interaction.Event Op Ans} (h : Kept s) (hk : Taken s j)
    (hs : stepBroker s k event = some t) : Taken t j := by
  obtain ⟨m, f, howner, hfate, hf⟩ := hk
  obtain ⟨_, _, _, -, -, rfl⟩ | ⟨_, _, _, _, -, -, -, rfl⟩ | ⟨key, _, _, _, _, -, rfl⟩ | rfl :=
    stepBroker_cases hs
  · exact ⟨m, f, howner, hfate, hf⟩
  · exact ⟨m, f, howner, hfate, hf⟩
  · have hne : m ≠ s.next := by
      rintro rfl
      rw [h.fresh _ le_rfl] at hfate
      cases hfate
    exact ⟨m, f, by simpa [hne] using howner, by simpa [hne] using hfate, hf⟩
  · exact ⟨m, f, howner, hfate, hf⟩

theorem Taken.accept {m j : ℕ} (hk : Taken s j) (hs : stepAccept s m = some t) : Taken t j := by
  obtain ⟨m', f, howner, hfate, hf⟩ := hk
  have hne : ∀ name, s.fate m = some (.inFlight name) → m' ≠ m := by
    rintro name hm rfl
    rw [hm] at hfate
    cases hfate
    cases hf
  revert hs
  fun_cases stepAccept s m with
  | case1 name hm q hq =>
    rintro ⟨⟩
    exact ⟨m', f, howner, by simpa [hne name hm] using hfate, hf⟩
  | case2 name hm hq =>
    rintro ⟨⟩
    exact ⟨m', f, howner, by simpa [hne name hm] using hfate, hf⟩
  | case3 => rintro ⟨⟩

theorem taken_of_bareAck {k : ℕ} (h : Kept s) (hs : stepBroker s k bareAck = some t) :
    Taken s k := by
  unfold bareAck at hs
  simp only [stepBroker] at hs
  split at hs
  · rename_i f hf
    obtain ⟨m, hm, hfate⟩ := Option.bind_eq_some_iff.mp hf
    split at hs
    · rename_i haccepted
      exact ⟨m, f, (h.sent k m hm).1, hfate, haccepted⟩
    · cases hs
  · cases hs

theorem stepBroker_calls {k : ℕ} {event : Interaction.Event Op Ans} (hs : stepBroker s k event = some t) :
    t.calls = s.calls := by
  obtain ⟨_, _, _, -, -, rfl⟩ | ⟨_, _, _, _, -, -, -, rfl⟩ | ⟨_, _, _, _, _, -, rfl⟩ | rfl :=
    stepBroker_cases hs
  all_goals rfl

/-- The broker and the programs of the calls together. -/
structure Served (s : State) : Prop where
  kept : Kept s
  declares : ∀ k, (s.calls k).rest.Only DeclaresHold
  follows : ∀ k, (s.calls k).Follows ConfirmedOk
  confirmed : ∀ k, bareAck ∈ (s.calls k).done → Taken s k

theorem Served.answer {k : ℕ} {event : Interaction.Event Op Ans} (h : Served s)
    (hs : stepAnswer s k event = some t) : Served t := by
  unfold stepAnswer at hs
  split at hs
  · rename_i call hcall
    obtain ⟨u, hu, rfl⟩ := Option.map_eq_some_iff.mp hs
    obtain ⟨hdeclares, honly⟩ := Client.only_answer (h.declares k) hcall
    have hcalls := stepBroker_calls hu
    have hkept := h.kept.answer hdeclares hu
    refine ⟨⟨hkept.args, hkept.past, hkept.fresh, hkept.sent, hkept.live⟩, ?_, ?_, ?_⟩
    all_goals simp only [hcalls, Function.update_apply]
    · intro j
      split
      · exact honly
      · exact h.declares j
    · intro j
      split
      · exact (h.follows k).answer hcall
      · exact h.follows j
    · intro j hj
      have htaken : Taken s j := by
        split at hj
        · rename_i hjk
          subst j
          obtain ⟨next, -, rfl⟩ := Client.answer_eq_some hcall
          rcases List.mem_append.mp hj with hj | hj
          · exact h.confirmed k hj
          · obtain rfl := List.mem_singleton.mp hj
            exact taken_of_bareAck h.kept hu
        · exact h.confirmed j hj
      exact (htaken.answer h.kept hu : Taken u j)
  · cases hs

theorem Served.step {a : Action} (h : Served s) (hs : HoldQueues.step s a = some t) :
    Served t := by
  cases a with
  | answer k event => exact h.answer hs
  | redeclare name =>
    have hkept := h.kept.redeclare hs
    revert hs
    show stepRedeclare s name = some t → _
    fun_cases stepRedeclare s name <;> rintro ⟨⟩
    exact ⟨hkept, h.declares, h.follows, h.confirmed⟩
  | accept m =>
    have hkept := h.kept.accept hs
    have htaken := fun j (hj : Taken s j) => hj.accept hs
    revert hs
    show stepAccept s m = some t → _
    fun_cases stepAccept s m <;> rintro ⟨⟩ <;>
      exact ⟨hkept, h.declares, h.follows, fun k hk => htaken k (h.confirmed k hk)⟩
  | tick nanos =>
    obtain rfl := Option.some.inj hs
    refine ⟨h.kept.tick nanos, h.declares, h.follows, fun k hk => ?_⟩
    obtain ⟨m, f, howner, hfate, hf⟩ := h.confirmed k hk
    exact ⟨m, s.fateAt (s.now + nanos) f, howner, by simp [stepTick, hfate],
      fateAt_accepted _ hf⟩

theorem served_initial (requests : ℕ → Request V) : Served (initial requests) := by
  refine ⟨⟨?_, ?_, fun _ _ => rfl, ?_, ?_⟩, fun k => (requests k).program_only,
    fun k => Client.follows_start (requests k).program_ensures, ?_⟩
  all_goals simp [initial, Client.start]

theorem served_of_reach {G : State → Action → Prop} (h : Reach (system V) G s) : Served s :=
  h.invariant (fun _ hs => by obtain ⟨r, rfl⟩ := hs; exact served_initial r)
    fun _ _ _ ih _ hs => ih.step hs

/-- The broker takes a message no later than one TTL after the queue's last declaration. -/
def Prompt (s : State) : Action → Prop
  | .accept m => ∀ name q ttl, s.fate m = some (.inFlight name) → s.queues name = some q →
      argMs q.args argMessageTtl = some ttl → s.now ≤ q.declaredAt + ttl * nanosPerMs
  | _ => True

/-- Every held message expires in time, and none is lost. -/
structure Safe (s : State) : Prop where
  outlived : ∀ m name acceptedAt, s.fate m = some (.held name acceptedAt) →
    ∃ q, s.queues name = some q ∧ q.Outlives acceptedAt
  unlost : ∀ m, s.fate m ≠ some .lost

/-- A message that expires no later than its queue is released before the deletion. -/
theorem HoldQueue.Outlives.releases {q : HoldQueue} {acceptedAt u : ℕ} (h : q.Outlives acceptedAt)
    (hgone : q.gone u = true) : q.releases acceptedAt u = true := by
  unfold HoldQueue.Outlives at h
  unfold HoldQueue.gone at hgone
  unfold HoldQueue.releases
  cases hd : q.deadline acceptedAt with
  | none => simp [hd] at h
  | some d =>
    cases hx : q.expiry with
    | none => simp [hx] at hgone
    | some x =>
      have hdx : d ≤ x := by simpa [hd, hx] using h
      have hxu : x ≤ u := by simpa [hx] using hgone
      simp [hdx, hdx.trans hxu]

/-- A later declaration only helps the messages the queue holds. -/
theorem HoldQueue.Outlives.redeclare {q : HoldQueue} {acceptedAt now : ℕ}
    (h : q.Outlives acceptedAt) (hpast : q.declaredAt ≤ now) :
    { q with declaredAt := now }.Outlives acceptedAt := by
  unfold HoldQueue.Outlives HoldQueue.deadline HoldQueue.expiry at *
  cases hd : argMs q.args argMessageTtl with
  | none => simp [hd] at h
  | some d =>
    cases hx : argMs q.args argExpires with
    | none => simp
    | some x =>
      have : acceptedAt + d * nanosPerMs ≤ q.declaredAt + x * nanosPerMs := by
        simpa [hd, hx] using h
      simp
      omega

theorem Safe.redeclared {name : String} {q : HoldQueue} (h : Safe s) (k : Kept s)
    (hq : s.queues name = some q) :
    Safe { s with queues := Function.update s.queues name (some { q with declaredAt := s.now }) } := by
  refine ⟨?_, h.unlost⟩
  simp only [Function.update_apply]
  intro m name' acceptedAt hm
  obtain ⟨q', hq', hout⟩ := h.outlived m name' acceptedAt hm
  split
  · rename_i hname
    subst name'
    obtain rfl := Option.some.inj (hq.symm.trans hq')
    exact ⟨_, rfl, hout.redeclare (k.past name q hq)⟩
  · exact ⟨q', hq', hout⟩

theorem Safe.answer {k : ℕ} {event : Interaction.Event Op Ans} (h : Safe s) (kept : Kept s)
    (hs : stepBroker s k event = some t) : Safe t := by
  obtain ⟨name, options, args, -, hnone, rfl⟩ | ⟨name, options, args, q, -, hq, -, rfl⟩ |
    ⟨key, _, _, _, _, -, rfl⟩ | rfl := stepBroker_cases hs
  · refine ⟨?_, h.unlost⟩
    simp only [Function.update_apply]
    intro m name' acceptedAt hm
    obtain ⟨q', hq', hout⟩ := h.outlived m name' acceptedAt hm
    refine ⟨q', ?_, hout⟩
    rw [if_neg, hq']
    rintro rfl
    rw [hnone] at hq'
    cases hq'
  · exact h.redeclared kept hq
  · constructor
    all_goals simp only [Function.update_apply]
    · intro m name' acceptedAt hm
      split at hm
      · cases hm
      · exact h.outlived m name' acceptedAt hm
    · intro m
      split
      · simp
      · exact h.unlost m
  · exact h

theorem Safe.accept {m : ℕ} (h : Safe s) (kept : Kept s) (prompt : Prompt s (.accept m))
    (hs : stepAccept s m = some t) : Safe t := by
  revert hs
  fun_cases stepAccept s m with
  | case1 name hm q hq =>
    rintro ⟨⟩
    constructor
    all_goals simp only [Function.update_apply]
    · intro m' name' acceptedAt hm'
      split at hm'
      · cases hm'
        exact ⟨q, hq, ((kept.args name q hq).outlives_iff s.now).mpr fun ttl => prompt name q ttl hm hq⟩
      · exact h.outlived m' name' acceptedAt hm'
    · intro m'
      split
      · simp
      · exact h.unlost m'
  | case2 name hm hq =>
    rintro ⟨⟩
    constructor
    all_goals simp only [Function.update_apply]
    · intro m' name' acceptedAt hm'
      split at hm'
      · cases hm'
      · exact h.outlived m' name' acceptedAt hm'
    · intro m'
      split
      · simp
      · exact h.unlost m'
  | case3 => rintro ⟨⟩

theorem Safe.tick (nanos : ℕ) (h : Safe s) : Safe (stepTick s nanos) where
  outlived m name acceptedAt hm := by
    obtain ⟨f, hfate, hf⟩ := Option.map_eq_some_iff.mp hm
    obtain ⟨rfl, q, hq, hgone⟩ := fateAt_held hf
    obtain ⟨q', hq', hout⟩ := h.outlived m name acceptedAt hfate
    obtain rfl := Option.some.inj (hq.symm.trans hq')
    exact ⟨q, Option.filter_eq_some_iff.mpr ⟨hq, by simp [hgone]⟩, hout⟩
  unlost m hm := by
    obtain ⟨f, hfate, hf⟩ := Option.map_eq_some_iff.mp hm
    revert hf
    fun_cases State.fateAt s (s.now + nanos) f with
    | case2 name acceptedAt q hq hrel hgone =>
      obtain ⟨q', hq', hout⟩ := h.outlived m name acceptedAt hfate
      obtain rfl := Option.some.inj (hq.symm.trans hq')
      exact absurd (hout.releases hgone) hrel
    | case4 name acceptedAt hq =>
      obtain ⟨q', hq', -⟩ := h.outlived m name acceptedAt hfate
      rw [hq] at hq'
      cases hq'
    | case5 => rintro rfl; exact h.unlost m hfate
    | _ => rintro ⟨⟩

theorem Safe.step {a : Action} (h : Safe s) (served : Served s) (prompt : Prompt s a)
    (hs : HoldQueues.step s a = some t) : Safe t := by
  cases a with
  | answer k event =>
    simp only [HoldQueues.step, stepAnswer] at hs
    split at hs
    · obtain ⟨u, hu, rfl⟩ := Option.map_eq_some_iff.mp hs
      have hsafe := h.answer served.kept hu
      exact ⟨hsafe.outlived, hsafe.unlost⟩
    · cases hs
  | redeclare name =>
    revert hs
    show stepRedeclare s name = some t → _
    fun_cases stepRedeclare s name with
    | case1 q hq => rintro ⟨⟩; exact h.redeclared served.kept hq
    | case2 => rintro ⟨⟩
  | accept m => exact h.accept served.kept prompt hs
  | tick nanos =>
    obtain rfl := Option.some.inj hs
    exact h.tick nanos

theorem safe_of_reach (h : Reach (system V) Prompt s) : Safe s :=
  h.strengthen (fun _ => served_of_reach)
    (fun _ hs => by obtain ⟨r, rfl⟩ := hs; exact ⟨by simp [initial], by simp [initial]⟩)
    fun _ _ _ served _ ih prompt hs => ih.step served prompt hs

/-- A message accepted now expires no later than its queue exactly when it is accepted
promptly; and where all are, every call that returned `Ok` has its job on the main queue or
held in a queue that outlives it, and no held job is lost. -/
theorem hold_outlives_iff_prompt (V : Type) :
    (∀ s, Reachable (system V) s → ∀ m name q, s.fate m = some (.inFlight name) →
      s.queues name = some q → (q.Outlives s.now ↔ Prompt s (.accept m))) ∧
    (∀ s, Reach (system V) Prompt s → (∀ m, s.fate m ≠ some .lost) ∧
      ∀ k, (s.calls k).result = some (.ok ()) → ∃ m, s.owner m = k ∧
        (s.fate m = some .delivered ∨ ∃ name acceptedAt q,
          s.fate m = some (.held name acceptedAt) ∧ s.queues name = some q ∧
          q.Outlives acceptedAt)) := by
  refine ⟨fun s hs m name q hm hq => ?_, fun s hs => ?_⟩
  · rw [((served_of_reach hs).kept.args name q hq).outlives_iff]
    constructor
    · intro h name' q' ttl hm' hq' httl
      cases hm.symm.trans hm'
      cases hq.symm.trans hq'
      exact h ttl httl
    · exact fun h ttl httl => h name q ttl hm hq httl
  · have safe := safe_of_reach hs
    have served := served_of_reach hs
    refine ⟨safe.unlost, fun k hk => ?_⟩
    obtain ⟨m, f, howner, hfate, hf⟩ := served.confirmed k ((served.follows k).result hk rfl)
    refine ⟨m, howner, ?_⟩
    cases f with
    | inFlight name => cases hf
    | returned => cases hf
    | held name acceptedAt =>
      obtain ⟨q, hq, hout⟩ := safe.outlived m name acceptedAt hfate
      exact .inr ⟨name, acceptedAt, q, hfate, hq, hout⟩
    | delivered => exact .inl hfate
    | lost => exact absurd hfate (safe.unlost m)

/-- One caller holds a job of `jobs` for one second at the default granularity. -/
def oneSecond : Request Unit where
  publisher := ⟨⟨".dead", true, ".deferred", .fromSecs 1, .fromSecs 1⟩, fun _ => .ok []⟩
  envelope := .raw 0 0 "job" "jobs" ()
  delay := .fromSecs 1
  hold := .retry

/-- The hold queue is declared, a while passes, and the message is on its way. -/
def declaredRun (waitNanos : ℕ) : List Action :=
  [.answer 0 ⟨.configFor "jobs", some (.new "jobs")⟩,
    .answer 0 ⟨.declareChannelConnected, true⟩,
    .answer 0 ⟨.queueDeclare ⟨"jobs.deferred.1000", by decide⟩ (declareOptions true)
      (deferredQueueArgs (.new "jobs") 1000), .ok ()⟩,
    .tick waitNanos,
    .answer 0 ⟨.acquirePermit, true⟩, .answer 0 ⟨.popIdle, some true⟩,
    .answer 0 ⟨.basicPublish ⟨"jobs.deferred.1000", by decide⟩ true false []
      (Codec.propsFor oneSecond.envelope), .ok ()⟩]

/-- Accepted within the second, the job reaches the main queue. -/
theorem prompt_accept_delivers : ∃ s, Reach (system Unit) Prompt s ∧
    (s.calls 0).result = some (.ok ()) ∧ s.fate 0 = some .delivered ∧
    ∀ m, s.fate m ≠ some .lost := by
  have start : Reach (system Unit) Prompt (initial fun _ => oneSecond) := .start ⟨_, rfl⟩
  have hsent : ((system Unit).run (initial fun _ => oneSecond) (declaredRun 500000000)).map
      (fun s => (s.now, s.fate 0, (s.queues "jobs.deferred.1000").map fun q =>
        (q.declaredAt, argMs q.args argMessageTtl))) =
      some (500000000, some (.inFlight "jobs.deferred.1000"), some (0, some 1000)) := by
    decide +kernel
  have hdone : (((system Unit).run (initial fun _ => oneSecond) (declaredRun 500000000)).bind
      fun s => (system Unit).run s [.accept 0, .answer 0 bareAck, .tick 1000000000]).map
        (fun s => ((s.calls 0).result, s.fate 0)) =
      some (some (.ok ()), some .delivered) := by decide +kernel
  obtain ⟨u, hu, hfacts⟩ := Option.map_eq_some_iff.mp hsent
  rw [hu] at hdone
  obtain ⟨s, hs, hresult⟩ := Option.map_eq_some_iff.mp hdone
  obtain ⟨hnow, hfate, hqueue⟩ : _ ∧ _ ∧ _ := by simpa using hfacts
  have sent := start.guardedRun _ (guarded_of_forall (by simp [declaredRun, Prompt]) _) hu
  have hprompt : Prompt u (.accept 0) := by
    intro name q ttl hm hq httl
    obtain rfl : "jobs.deferred.1000" = name :=
      Fate.inFlight.inj (Option.some.inj (hfate.symm.trans hm))
    obtain ⟨q', hq', hdeclared, httl'⟩ := hqueue
    obtain rfl := Option.some.inj (hq.symm.trans hq')
    obtain rfl := Option.some.inj (httl.symm.trans httl')
    rw [hnow, hdeclared, nanosPerMs]
    omega
  have done := sent.guardedRun [.accept 0, .answer 0 bareAck, .tick 1000000000]
    ⟨hprompt, fun _ _ => guarded_of_forall (by simp [Prompt]) _⟩ hs
  obtain ⟨hok, hdelivered⟩ : _ ∧ _ := by simpa using hresult
  exact ⟨s, done, hok, hdelivered, ((hold_outlives_iff_prompt Unit).2 s done).1⟩

/-- Accepted a second and a half after the declaration, the job vanishes with its queue
half a second later, although the call returned `Ok`. -/
theorem late_accept_loses_job : ∃ s, Reachable (system Unit) s ∧
    (s.calls 0).result = some (.ok ()) ∧ s.owner 0 = 0 ∧ s.fate 0 = some .lost := by
  have start : Reachable (system Unit) (initial fun _ => oneSecond) := .start ⟨_, rfl⟩
  have hrun : ((system Unit).run (initial fun _ => oneSecond)
      (declaredRun 1500000000 ++ [Action.accept 0, .answer 0 bareAck, .tick 1000000000])).map
        (fun s => ((s.calls 0).result, s.owner 0, s.fate 0)) =
      some (some (.ok ()), 0, some .lost) := by decide +kernel
  obtain ⟨s, hs, hfacts⟩ := Option.map_eq_some_iff.mp hrun
  obtain ⟨hresult, howner, hfate⟩ : _ ∧ _ ∧ _ := by simpa using hfacts
  exact ⟨s, start.run _ hs, hresult, howner, hfate⟩

end Queuey.Rabbit.HoldQueues
