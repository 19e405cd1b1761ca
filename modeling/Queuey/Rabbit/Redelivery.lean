import Queuey.Rabbit.Provenance

/-!
# Duplicates

A job comes to be on the broker twice only if one of its messages is settled twice, as it is when
the broker hands a delivery out again. Otherwise its messages follow one on another, and only
the last can still be worked on.
-/
namespace Queuey.Rabbit.Broker
open Interaction Prog Transition Relation

variable {V : Type} {wire : Wire V} {limit : String → ℕ} {author : ℕ → ℕ} {s t : State V}
  {a : Action V} {k m n root : ℕ} {c c' : Call V}

/-! ## Who settles what -/

/-- What the calls are for. -/
def State.requests (s : State V) (k : ℕ) : Option (Request V) := (s.calls k).map Call.request

/-- A call has been made to settle the message. -/
def Spent (s : State V) (n : ℕ) : Prop := ∃ k r, s.requests k = some r ∧ r.delivered = some n

/-- Deliveries are settled by dispatchers, and no two of one message. -/
def Once (wire : Wire V) (limit : String → ℕ) (s : State V) : Action V → Prop
  | .settle _ _ n op => ¬Spent s n ∧
      ∀ e, wire.fromBytes (s.body n) = some e → DispatchedWithin limit e op
  | _ => True

theorem Once.within (h : Once wire limit s a) : Within wire limit s a := by
  cases a with
  | settle k options n op => exact h.2
  | _ => trivial

theorem requests_replaced (hk : s.calls k = some c)
    (calls : t.calls = Function.update s.calls k (some c')) (same : c'.request = c.request) :
    t.requests = s.requests := by
  funext j
  unfold State.requests
  rw [calls, Function.update_apply]
  split
  · next hjk => rw [hjk, hk, Option.map_some, Option.map_some, same]
  · rfl

theorem requests_settled {acts : Bool} (hk : s.calls k = some c)
    (hs : stepSettled s k c' acts = some t) (same : c'.request = c.request) :
    t.requests = s.requests := by
  obtain rfl | ⟨n, queue, -, -, rfl⟩ := settled_cases hs <;>
    exact requests_replaced hk rfl same

theorem requests_answer {event : Interaction.Event Op Ans} {acts : Bool}
    (hs : stepAnswer s k event acts = some t) : t.requests = s.requests := by
  obtain ⟨c, client, hk, -, hs⟩ := answer_cases hs
  obtain ⟨op, x⟩ := event
  cases op with
  | basicPublish key m i payload props =>
    cases x with
    | ok u =>
      obtain rfl := Option.some.inj hs
      exact requests_replaced hk rfl rfl
    | error err =>
      obtain rfl := Option.some.inj hs
      cases acts <;> exact requests_replaced hk rfl rfl
  | awaitConfirm =>
    have hgoes : t = s.setCall k { c with client := client } := by
      revert hs
      simp only [stepBroker]
      split
      all_goals grind
    exact requests_replaced hk (congrArg State.calls hgoes) rfl
  | ack | reject _ => exact requests_settled hk hs rfl
  | _ =>
    obtain rfl := Option.some.inj hs
    exact requests_replaced hk rfl rfl

/-- A step leaves what the calls are for as it is, or begins a call. -/
theorem requests_step (hs : step wire s a = some t) : t.requests = s.requests ∨
    ∃ k r, s.calls k = none ∧ t.requests = Function.update s.requests k (some r) ∧
      ∀ n, r.delivered = some n → ∃ options op, a = .settle k options n op := by
  have begun : ∀ {k : ℕ} {options : RabbitMqOptions} {r : Request V},
      stepBegin wire s k options r = some t →
        s.calls k = none ∧ t.requests = Function.update s.requests k (some r) := by
    intro k options r hs
    obtain ⟨hk, rfl⟩ := begin_cases hs
    refine ⟨hk, ?_⟩
    funext j
    simp only [State.requests, State.setCall_calls, Function.update_apply]
    split <;> rfl
  cases a with
  | publish k options e delay =>
    obtain ⟨hk, hrequests⟩ := begun hs
    exact .inr ⟨k, _, hk, hrequests, by rintro n ⟨⟩⟩
  | defer k options e delay =>
    obtain ⟨hk, hrequests⟩ := begun hs
    exact .inr ⟨k, _, hk, hrequests, by rintro n ⟨⟩⟩
  | settle k options n op =>
    obtain ⟨e, -, -, hs⟩ := settle_cases hs
    obtain ⟨hk, hrequests⟩ := begun hs
    exact .inr ⟨k, _, hk, hrequests, by rintro _ ⟨⟩; exact ⟨options, op, rfl⟩⟩
  | answer k event acts => exact .inl (requests_answer hs)
  | drop k =>
    revert hs
    simp only [step, stepDrop]
    split
    · next c hk =>
      rintro ⟨⟩
      exact .inl (requests_replaced hk rfl rfl)
    · rintro ⟨⟩
  | route n | refuse n | deliver n | requeue n | pass n queue | discard n =>
    obtain ⟨place, -, rfl⟩ := place_cases hs
    exact .inl rfl

/-- What is spent was given to a call by some action of the run. -/
theorem spent_of_run {actions : List (Action V)} (hrun : (system wire).run s actions = some t)
    (h : Spent t n) : Spent s n ∨ ∃ k options op, .settle k options n op ∈ actions := by
  induction actions generalizing s with
  | nil =>
    obtain rfl : s = t := by simpa using hrun
    exact .inl h
  | cons a rest ih =>
    rw [run_cons] at hrun
    obtain ⟨u, hu, hrest⟩ := Option.bind_eq_some_iff.mp hrun
    obtain ⟨k, r, hr, hdelivered⟩ | ⟨k, options, op, hmem⟩ := ih hrest
    · obtain hsame | ⟨i, begun, -, hrequests, hsettles⟩ := requests_step hu
      · exact .inl ⟨k, r, hsame ▸ hr, hdelivered⟩
      · rw [hrequests, Function.update_apply] at hr
        split at hr
        · obtain rfl := Option.some.inj hr
          obtain ⟨options, op, rfl⟩ := hsettles n hdelivered
          exact .inr ⟨i, options, op, List.mem_cons_self⟩
        · exact .inl ⟨k, r, hr, hdelivered⟩
    · exact .inr ⟨k, options, op, List.mem_cons_of_mem a hmem⟩

/-- No two calls settle one message. -/
def Unshared (s : State V) : Prop := ∀ j k q r n, s.requests j = some q → s.requests k = some r →
  q.delivered = some n → r.delivered = some n → j = k

theorem Unshared.step (h : Unshared s) (hg : Once wire limit s a)
    (hs : Broker.step wire s a = some t) : Unshared t := by
  obtain hsame | ⟨i, begun, -, hrequests, hsettles⟩ := requests_step hs
  · unfold Unshared
    rw [hsame]
    exact h
  -- The call that begins is the first for its message.
  have hfirst : ∀ j q n, begun.delivered = some n → j ≠ i → t.requests j = some q →
      q.delivered ≠ some n := by
    intro j q n hn hji hj hq
    obtain ⟨options, op, rfl⟩ := hsettles n hn
    rw [hrequests, Function.update_of_ne hji] at hj
    exact hg.1 ⟨j, q, hj, hq⟩
  intro j k q r n hj hk hq hr
  by_cases hji : j = i <;> by_cases hki : k = i
  · rw [hji, hki]
  · subst hji
    rw [hrequests, Function.update_self] at hj
    obtain rfl := Option.some.inj hj
    exact absurd hr (hfirst k r n hq hki hk)
  · subst hki
    rw [hrequests, Function.update_self] at hk
    obtain rfl := Option.some.inj hk
    exact absurd hq (hfirst j q n hr hji hj)
  · rw [hrequests, Function.update_of_ne hji] at hj
    rw [hrequests, Function.update_of_ne hki] at hk
    exact h j k q r n hj hk hq hr

theorem unshared_of_reach (h : Reach (system wire) (Once wire limit) s) : Unshared s := by
  refine h.invariant ?_ fun _ _ _ hu hg hs => hu.step hg hs
  rintro _ rfl j k q r n ⟨⟩

/-! ## The messages of a line -/

/-- Message `n` was published by the call that settled message `m`. -/
def Begets (s : State V) (author : ℕ → ℕ) (m n : ℕ) : Prop :=
  n < s.next ∧ ∃ r, s.requests (author n) = some r ∧ r.delivered = some m

theorem Begets.spent (h : Begets s author m n) : Spent s m := by
  obtain ⟨-, r, hr, hdelivered⟩ := h
  exact ⟨_, r, hr, hdelivered⟩

theorem Traced.begets_later (h : Traced wire limit author s) (hb : Begets s author m n) :
    m < n ∧ n < s.next := by
  obtain ⟨hn, r, hr, hdelivered⟩ := hb
  obtain ⟨c, f, hc, -, -, -, hlater⟩ := h.written n hn
  have hrequest : s.requests (author n) = some c.request := by simp [State.requests, hc]
  obtain rfl := Option.some.inj (hrequest.symm.trans hr)
  exact ⟨hlater m hdelivered, hn⟩

/-- One call settles the message, and publishes one at most. -/
theorem Traced.begets_unique (h : Traced wire limit author s) (unshared : Unshared s) :
    Relator.RightUnique (Begets s author) := by
  rintro m n n' ⟨hn, r, hr, hm⟩ ⟨hn', r', hr', hm'⟩
  exact h.apart n hn n' hn' (unshared _ _ r r' m hr hr' hm hm')

/-- Every other message of the line comes before the last, and is spent. -/
structure Last (s : State V) (author : ℕ → ℕ) (root last : ℕ) : Prop where
  line : ReflTransGen (Begets s author) root last
  others : ∀ n, ReflTransGen (Begets s author) root n → n ≠ last →
    TransGen (Begets s author) n last ∧ Spent s n

theorem Traced.last (h : Traced wire limit author s) (unshared : Unshared s) (root : ℕ) :
    ∃! last, Last s author root last := by
  have onwards : ∀ m, True → (¬∃ n, Begets s author m n) ∨ ∃ n, Begets s author m n ∧ True := by
    intro m _
    by_cases hnext : ∃ n, Begets s author m n
    · obtain ⟨n, hn⟩ := hnext
      exact .inr ⟨n, hn, trivial⟩
    · exact .inl hnext
  obtain ⟨last, hline, -, hend⟩ :=
    Lineage.exists_kept (Lineage.wf_of_lt fun m n hb => h.begets_later hb) onwards (a := root) trivial
  have before : ∀ n, ReflTransGen (Begets s author) root n → n ≠ last →
      TransGen (Begets s author) n last ∧ Spent s n := by
    intro n hn hne
    have hto : ReflTransGen (Begets s author) n last := by
      obtain hfrom | hto := hline.total_of_right_unique (h.begets_unique unshared) hn
      · obtain heq | ⟨m, hm, -⟩ := hfrom.cases_head
        · exact absurd heq.symm hne
        · exact absurd ⟨m, hm⟩ hend
      · exact hto
    obtain heq | ⟨m, hm, hrest⟩ := hto.cases_head
    · exact absurd heq hne
    · exact ⟨.head' hm hrest, hm.spent⟩
  refine ⟨last, ⟨hline, before⟩, fun other hother => ?_⟩
  by_contra hne
  obtain ⟨hthere, -⟩ := before other hother.line hne
  obtain ⟨hback, -⟩ := hother.others last hline (Ne.symm hne)
  obtain ⟨m, hm, -⟩ := TransGen.head'_iff.mp hback
  exact hend ⟨m, hm⟩

/-- As long as no message is settled twice, all messages of a job but one have been settled and
lead to that one: there is never more than one still to be worked on. -/
theorem once_unless_redelivered (h : Reach (system wire) (Once wire limit) s) :
    ∃ author, Provenance wire limit s author ∧ ∀ root, ∃! last, Last s author root last := by
  obtain ⟨author, htraced⟩ := authored_of_reach (h.mono fun _ _ hg => hg.within)
  exact ⟨author, htraced.accounted, htraced.last (unshared_of_reach h)⟩

/-! A job is published, fails, and is held: of the two messages the second is the last. -/

/-- Up to the delivery of the greeting. -/
def greetedActions : List (Action String) := retriedActions.take 7

/-- It is settled, by a retry. -/
def settlingActions : List (Action String) := retriedActions.drop 7

theorem once_unless_redelivered_retried : ∃ s : State String, s.place 0 = .settled ∧
    s.place 1 = .ready "mail.hold.1000" ∧
    ∃ author, Provenance greetingsWire (fun _ => 5) s author ∧
      ∀ root, ∃! last, Last s author root last := by
  have hgreeted : ((system greetingsWire).run (initial String) greetedActions).map
      (fun s => s.body 0) = some [1] := by
    decide
  obtain ⟨s, hs, hbody⟩ := Option.map_eq_some_iff.mp hgreeted
  have hended : (((system greetingsWire).run (initial String) greetedActions).bind
      fun s => ((system greetingsWire).run s settlingActions).map
        fun t => (t.place 0, t.place 1)) = some (.settled, .ready "mail.hold.1000") := by
    decide +kernel
  rw [hs, Option.bind_some] at hended
  obtain ⟨t, ht, hplaces⟩ := Option.map_eq_some_iff.mp hended
  obtain ⟨hzero, hone⟩ := Prod.mk.inj hplaces
  have start : Reach (system greetingsWire) (Once greetingsWire fun _ => 5) (initial String) :=
    .start rfl
  -- Nothing is settled on the way to the delivery.
  have hnone : ∀ n k options op, .settle k options n op ∉ greetedActions := by
    intro n k options op hmem
    simp [greetedActions, retriedActions] at hmem
  have delivered := start.guardedRun greetedActions (guarded_of_forall (fun a ha s => by
    cases a with
    | settle k options n op => exact absurd ha (hnone n k options op)
    | _ => trivial) _) hs
  have first : ¬Spent s 0 := by
    intro hspent
    obtain ⟨k, r, hr, -⟩ | ⟨k, options, op, hmem⟩ := spent_of_run hs hspent
    · cases hr
    · exact hnone 0 k options op hmem
  have settled := delivered.guardedRun settlingActions ⟨⟨first, fun e he => by
      rw [hbody] at he
      obtain rfl := Option.some.inj he
      exact dispatched_retry⟩, fun u _ => guarded_of_forall (fun a ha s => by
    cases a with
    | settle k options n op => simp at ha
    | _ => trivial) u⟩ ht
  exact ⟨t, hzero, hone, once_unless_redelivered settled⟩

end Queuey.Rabbit.Broker
