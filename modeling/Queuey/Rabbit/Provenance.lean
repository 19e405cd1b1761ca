import Queuey.Rabbit.AtLeastOnce

/-!
# Where the messages come from

No message makes itself. Each was published by one call, which publishes no other, and each
goes back, over retries and deferrals that its counters count, to an envelope that a producer
published. The broker may lose messages here, and deliveries may be settled more than once.
-/
namespace Queuey.Rabbit.Broker
open Interaction Prog Transition

variable {V : Type}

/-! ## What a dispatcher makes of a delivery -/

/-- Some worker whose policies allow the job type at most `limit` attempts calls the operation. -/
def DispatchedWithin (limit : String → ℕ) (e : Envelope V) (op : Settle V) : Prop :=
  ∃ (J B : Type) (worker : Dispatch.Worker) (user : (op : Dispatch.Op V J) → Dispatch.Ans B op),
    (∀ handler policy, Dispatch.Started worker e user handler policy →
      policy.maxAttempts.toNat ≤ limit e.jobType) ∧
    ∃ o ∈ (Dispatch.process worker e).run.trace user, settleOf o = some op

/-- A retry is one attempt further, a deferral one deferral. -/
inductive Advances (limit : ℕ) (e : Envelope V) : Settle V → Prop where
  | ack : Advances limit e .ack
  | deadLetter (reason : String) : Advances limit e (.deadLetter reason)
  | retry (delay : Duration) : e.attempt.toNat < u32Max → e.attempt.toNat < limit →
      Advances limit e (.retry { e with attempt := e.attempt + 1, priority := 0 } delay)
  | defer (delay : Duration) (priority : UInt8) :
      Advances limit e (.defer { e with deferrals := e.deferrals + 1, priority := priority } delay)

section Dispatch
variable {J B : Type} {e : Envelope V} {op : Settle V} {worker : Dispatch.Worker}
  {user : (op : Dispatch.Op V J) → Dispatch.Ans B op} {o : Dispatch.Op V J}

/-- What is judged retryable was judged by the policy its handler ran under. -/
theorem started_of_retryable {text : String} {policy : RetryPolicy}
    (happens : Dispatch.Happens worker e user (.retryable text policy)) :
    ∃ handler, Dispatch.Started worker e user handler policy := by
  cases happens with
  | retryable started _ _ | panicked started _ | cancelled started _ | timedOut started _ _ =>
    exact ⟨_, started⟩

theorem advances_of_demands {limit : ℕ} {verdict : Dispatch.Verdict}
    {hooks : List (Dispatch.Op V J)} (happens : Dispatch.Happens worker e user verdict)
    (demands : Dispatch.Demands worker e verdict hooks o) (hop : settleOf o = some op)
    (capped : ∀ handler policy, Dispatch.Started worker e user handler policy →
      policy.maxAttempts.toNat ≤ limit) : Advances limit e op := by
  cases demands with
  | success =>
    obtain rfl := Option.some.inj hop
    exact .ack
  | noHandler _ | undecodable _ | fatal _ | giveUp _ _ =>
    obtain rfl := Option.some.inj hop
    exact .deadLetter _
  | deferred =>
    obtain rfl := Option.some.inj hop
    exact .defer _ _
  | @retry text policy delay hlt _ =>
    obtain rfl := Option.some.inj hop
    obtain ⟨handler, started⟩ := started_of_retryable happens
    have hcap := capped handler policy started
    have hbelow : e.attempt.toNat < policy.maxAttempts.toNat := UInt32.lt_iff_toNat_lt.mp hlt
    have hword := policy.maxAttempts.toNat_lt
    exact .retry _ (by unfold u32Max; omega) (by omega)

theorem DispatchedWithin.advances {limit : String → ℕ} (h : DispatchedWithin limit e op) :
    Advances (limit e.jobType) e op := by
  obtain ⟨J, B, worker, user, capped, o, ho, hop⟩ := h
  obtain ⟨verdict, hooks, happens, demands⟩ | ⟨delay, handler, hfull, rfl⟩ := demanded ho hop
  · exact advances_of_demands happens demands hop capped
  · have hwraps : e.deferrals + 1 = 0 := by
      have hword := e.deferrals.toNat_lt
      unfold u32Max at hfull
      apply UInt32.toNat_inj.mp
      rw [UInt32.toNat_add, UInt32.toNat_one, UInt32.toNat_zero]
      omega
    rw [← hwraps]
    exact .defer _ _

end Dispatch

/-! ## Authors -/

/-- Deliveries are settled by dispatchers. -/
def Within (wire : Wire V) (limit : String → ℕ) (s : State V) : Action V → Prop
  | .settle _ _ n op => ∀ e, wire.fromBytes (s.body n) = some e → DispatchedWithin limit e op
  | _ => True

/-- A call keeps to its stages, and what it settles has been delivered to it. -/
structure Call.Traced (wire : Wire V) (limit : String → ℕ) (s : State V) (c : Call V) : Prop where
  keeps : c.client.rest.Keeps (stages wire c.options c.request) (Gets c.request.goal) (c.stage wire)
  delivered : ∀ n e op, c.request = .settle n e op → n < s.next ∧
    wire.fromBytes (s.body n) = some e ∧ Advances (limit e.jobType) e op

/-- Every message has the call that published it for an author, and a call is the author of one
message at most. -/
structure Traced (wire : Wire V) (limit : String → ℕ) (author : ℕ → ℕ) (s : State V) : Prop where
  calls : ∀ k c, s.calls k = some c → c.Traced wire limit s
  fresh : ∀ n, s.next ≤ n → s.place n = .unpublished
  apart : ∀ m < s.next, ∀ n < s.next, author m = author n → m = n
  written : ∀ n < s.next, ∃ c f, s.calls (author n) = some c ∧ c.stage wire ≠ .preparing ∧
    c.request.successor c.options = some f ∧ wire.fromBytes (s.body n) = some f ∧
      ∀ m, c.request.delivered = some m → m < n

variable {wire : Wire V} {limit : String → ℕ} {author : ℕ → ℕ} {s t : State V} {k n : ℕ}
  {c c' : Call V}

/-- From where a call has published nothing leads back. -/
theorem stages_onwards {r : Request V} {options : RabbitMqOptions} {stage : Stage} {op : Op}
    (h : stage ≠ .preparing) (x : Ans op) :
    (stages wire options r).next stage op x ≠ .preparing := by
  cases op with
  | basicPublish key m i payload props => cases x <;> simp [stages]
  | awaitConfirm =>
    have turned : ∀ after : Stage, after ≠ .preparing →
        (if stage = .sent then after else stage) ≠ .preparing := by
      intro after hafter
      split_ifs <;> assumption
    obtain _ | ((_ | _) | _ | _) := x <;> exact turned _ (by decide)
  | ack | reject _ => simp [stages]
  | _ => exact h

theorem Call.Traced.mono (h : c.Traced wire limit s) (next : s.next ≤ t.next)
    (body : ∀ n < s.next, t.body n = s.body n) : c.Traced wire limit t where
  keeps := h.keeps
  delivered n e op hr := by
    obtain ⟨hn, hbody, hop⟩ := h.delivered n e op hr
    exact ⟨hn.trans_le next, by rw [body n hn, hbody], hop⟩

/-- An answer leads to the next stage of its call. -/
theorem Call.Traced.answered {event : Interaction.Event Op Ans}
    {client : Interaction.Client Op Ans _} (h : c.Traced wire limit s)
    (hans : c.client.answer event = some client) :
    (stages wire c.options c.request).allows (c.stage wire) event.1 ∧
      ({ c with client := client } : Call V).stage wire =
        (stages wire c.options c.request).next (c.stage wire) event.1 event.2 ∧
      ({ c with client := client } : Call V).Traced wire limit s := by
  obtain ⟨next, hrest, rfl⟩ := Client.answer_eq_some hans
  obtain ⟨hallowed, hkeeps⟩ := Client.keeps_answered h.keeps hrest event.2
  exact ⟨hallowed, Protocol.after_append _ _ _ _ _, hkeeps, h.delivered⟩

/-- A step that publishes nothing and changes one call. -/
theorem Traced.replace (h : Traced wire limit author s) (next : t.next = s.next)
    (body : t.body = s.body) (calls : t.calls = Function.update s.calls k (some c'))
    (hc' : c'.Traced wire limit s)
    (same : ∀ c, s.calls k = some c → c'.request = c.request ∧ c'.options = c.options ∧
      (c.stage wire ≠ .preparing → c'.stage wire ≠ .preparing))
    (fresh : ∀ n, s.next ≤ n → t.place n = .unpublished) : Traced wire limit author t where
  calls j d hd := by
    have hd' : d.Traced wire limit s := by
      rw [calls, Function.update_apply] at hd
      split at hd
      · obtain rfl := Option.some.inj hd
        exact hc'
      · exact h.calls j d hd
    exact hd'.mono next.ge fun n _ => congrFun body n
  fresh n hn := fresh n (next ▸ hn)
  apart := by
    rw [next]
    exact h.apart
  written n hn := by
    obtain ⟨d, f, hd, hstage, hf, hbody, hlater⟩ := h.written n (next ▸ hn)
    rw [calls, body]
    by_cases hk : author n = k
    · rw [hk] at hd ⊢
      obtain ⟨hrequest, hoptions, hpast⟩ := same d hd
      refine ⟨c', f, Function.update_self .., hpast hstage, ?_, hbody, ?_⟩
      · rw [hrequest, hoptions, hf]
      · rw [hrequest]
        exact hlater
    · exact ⟨d, f, by rw [Function.update_of_ne hk, hd], hstage, hf, hbody, hlater⟩

/-! ## The steps -/

theorem Traced.begin {options : RabbitMqOptions} {r : Request V} (h : Traced wire limit author s)
    (delivered : ∀ n e op, r = .settle n e op → (s.place n).taken = true ∧
      wire.fromBytes (s.body n) = some e ∧ Advances (limit e.jobType) e op)
    (hs : stepBegin wire s k options r = some t) : Traced wire limit author t := by
  obtain ⟨hk, rfl⟩ := begin_cases hs
  refine h.replace rfl rfl rfl ⟨program_keeps wire options r, fun n e op hr => ?_⟩ ?_ h.fresh
  · obtain ⟨htaken, hbody, hop⟩ := delivered n e op hr
    refine ⟨?_, hbody, hop⟩
    by_contra hge
    rw [h.fresh n (not_lt.mp hge)] at htaken
    cases htaken
  · intro c hc
    rw [hk] at hc
    cases hc

theorem Traced.place {move : Place → Option Place} (h : Traced wire limit author s)
    (published : ∀ p q, move p = some q → p ≠ .unpublished)
    (hs : stepPlace s n move = some t) : Traced wire limit author t := by
  obtain ⟨place, hmove, rfl⟩ := place_cases hs
  refine ⟨fun j d hd => (h.calls j d hd).mono le_rfl fun _ _ => rfl, fun m hm => ?_, h.apart,
    h.written⟩
  have hne : m ≠ n := by
    rintro rfl
    exact published _ _ hmove (h.fresh m hm)
  exact (Function.update_of_ne hne _ _).trans (h.fresh m hm)

/-- A call goes on and publishes nothing. -/
theorem Traced.goOn {client : Interaction.Client Op Ans _} {event : Interaction.Event Op Ans}
    (h : Traced wire limit author s) (hk : s.calls k = some c)
    (hans : c.client.answer event = some client) (next : t.next = s.next) (body : t.body = s.body)
    (calls : t.calls = Function.update s.calls k (some { c with client := client }))
    (fresh : ∀ n, s.next ≤ n → t.place n = .unpublished) : Traced wire limit author t := by
  obtain ⟨-, hnext, htraced⟩ := (h.calls k c hk).answered hans
  refine h.replace next body calls htraced (fun d hd => ?_) fresh
  obtain rfl := Option.some.inj (hk.symm.trans hd)
  refine ⟨rfl, rfl, fun hstage => ?_⟩
  rw [hnext]
  exact stages_onwards hstage _

/-- A call publishes, for the first time: the message is its own. -/
theorem Traced.emit {client : Interaction.Client Op Ans (Except Failure Unit)} {key : ShortString}
    {m i : Bool} {payload : Bytes} {props : Codec.BasicProperties} {x : Except LapinError Unit}
    {sent : Option ℕ} (h : Traced wire limit author s) (hk : s.calls k = some c)
    (hans : c.client.answer ⟨Op.basicPublish key m i payload props, x⟩ = some client)
    (queue : String) :
    Traced wire limit (Function.update author s.next k)
      ((s.emit queue payload).setCall k { c with client := client, sent := sent }) := by
  obtain ⟨⟨hstage, f, hf, hpayload⟩, hnext, htraced⟩ := (h.calls k c hk).answered hans
  let after : Call V := { c with client := client, sent := sent }
  have hafter : after.stage wire ≠ .preparing := by
    intro hbad
    have hgoes : after.stage wire = _ := hnext
    rw [hgoes] at hbad
    cases x <;> cases hbad
  have hold : ∀ n < s.next, (s.emit queue payload).body n = s.body n :=
    fun n hn => Function.update_of_ne hn.ne _ _
  -- The call has not published before, so no older message is its own.
  have hother : ∀ n < s.next, author n ≠ k := by
    intro n hn hnk
    obtain ⟨d, -, hd, hpast, -⟩ := h.written n hn
    rw [hnk, hk] at hd
    obtain rfl := Option.some.inj hd
    exact hpast hstage
  have htold : after.Traced wire limit s := ⟨htraced.keeps, htraced.delivered⟩
  refine ⟨fun j d hd => ?_, ?_, ?_, ?_⟩
  · have hd' : d.Traced wire limit s := by
      rw [State.setCall_calls, Function.update_apply] at hd
      split at hd
      · obtain rfl := Option.some.inj hd
        exact htold
      · exact h.calls j d hd
    exact hd'.mono (Nat.le_succ _) hold
  · exact fun n hn => emit_fresh h.fresh queue payload n hn
  · intro a ha b hb hab
    obtain ha | rfl := Nat.lt_succ_iff_lt_or_eq.mp ha <;>
      obtain hb | rfl := Nat.lt_succ_iff_lt_or_eq.mp hb
    · rw [Function.update_of_ne ha.ne, Function.update_of_ne hb.ne] at hab
      exact h.apart a ha b hb hab
    · rw [Function.update_of_ne ha.ne, Function.update_self] at hab
      exact absurd hab (hother a ha)
    · rw [Function.update_of_ne hb.ne, Function.update_self] at hab
      exact absurd hab.symm (hother b hb)
    · rfl
  · intro n hn
    obtain hn | rfl := Nat.lt_succ_iff_lt_or_eq.mp hn
    · obtain ⟨d, g, hd, hpast, hg, hbody, hlater⟩ := h.written n hn
      refine ⟨d, g, ?_, hpast, hg, ?_, hlater⟩
      · rw [Function.update_of_ne hn.ne, State.setCall_calls, Function.update_of_ne (hother n hn)]
        exact hd
      · exact (congrArg wire.fromBytes (hold n hn)).trans hbody
    · refine ⟨after, f, ?_, hafter, hf, ?_, fun m hm => ?_⟩
      · rw [Function.update_self, State.setCall_calls, Function.update_self]
      · have hbody : (s.emit queue payload).body s.next = payload := Function.update_self _ _ _
        exact (congrArg wire.fromBytes hbody).trans (wire.roundTrip f payload hpayload)
      · match hr : c.request with
        | .publish _ _ | .defer _ _ =>
          rw [show after.request = c.request from rfl, hr] at hm
          cases hm
        | .settle n' e op =>
          rw [show after.request = c.request from rfl, hr] at hm
          obtain rfl := Option.some.inj hm
          exact ((h.calls k c hk).delivered n' e op hr).1

theorem Traced.settled {client : Interaction.Client Op Ans _} {event : Interaction.Event Op Ans}
    {acts : Bool} (h : Traced wire limit author s) (hk : s.calls k = some c)
    (hans : c.client.answer event = some client)
    (hs : stepSettled s k { c with client := client } acts = some t) :
    Traced wire limit author t := by
  obtain rfl | ⟨n, queue, -, hplace, rfl⟩ := settled_cases hs
  · exact h.goOn hk hans rfl rfl rfl h.fresh
  · refine h.goOn hk hans rfl rfl rfl fun m hm => ?_
    have hne : m ≠ n := by
      rintro rfl
      rw [h.fresh m hm] at hplace
      cases hplace
    exact (Function.update_of_ne hne _ _).trans (h.fresh m hm)

theorem Traced.answer {event : Interaction.Event Op Ans} {acts : Bool}
    (h : Traced wire limit author s) (hs : stepAnswer s k event acts = some t) :
    ∃ author', Traced wire limit author' t := by
  obtain ⟨c, client, hk, hans, hs⟩ := answer_cases hs
  obtain ⟨op, x⟩ := event
  cases op with
  | basicPublish key m i payload props =>
    cases x with
    | ok u =>
      obtain rfl := Option.some.inj hs
      exact ⟨_, h.emit hk hans _⟩
    | error err =>
      obtain rfl := Option.some.inj hs
      cases acts with
      | true => exact ⟨_, h.emit hk hans _⟩
      | false => exact ⟨_, h.goOn hk hans rfl rfl rfl h.fresh⟩
  | awaitConfirm =>
    match x with
    | .ok (.ack none) =>
      simp only [stepBroker] at hs
      split at hs
      · split_ifs at hs with htaken
        obtain rfl := Option.some.inj hs
        exact ⟨_, h.goOn hk hans rfl rfl rfl h.fresh⟩
      · cases hs
    | .ok (.ack (some _)) | .ok (.nack _) | .ok .notRequested | .error _ =>
      obtain rfl := Option.some.inj hs
      exact ⟨_, h.goOn hk hans rfl rfl rfl h.fresh⟩
  | ack | reject _ => exact ⟨_, h.settled hk hans hs⟩
  | configFor _ | declareChannelConnected | ensureConnected | createChannel | confirmSelect
  | queueDeclare _ _ _ | acquirePermit | popIdle =>
    obtain rfl := Option.some.inj hs
    exact ⟨_, h.goOn hk hans rfl rfl rfl h.fresh⟩

theorem Traced.drop (h : Traced wire limit author s) (hs : stepDrop s k = some t) :
    Traced wire limit author t := by
  unfold stepDrop at hs
  split at hs
  · next c hk =>
    obtain rfl := Option.some.inj hs
    have hc := h.calls k c hk
    refine h.replace rfl rfl rfl ⟨hc.keeps, hc.delivered⟩ (fun d hd => ?_) h.fresh
    obtain rfl := Option.some.inj (hk.symm.trans hd)
    exact ⟨rfl, rfl, id⟩
  · cases hs

theorem Traced.step {a : Action V} (h : Traced wire limit author s) (hg : Within wire limit s a)
    (hs : step wire s a = some t) : ∃ author', Traced wire limit author' t := by
  cases a with
  | publish k options e delay | defer k options e delay =>
    exact ⟨author, h.begin (by rintro _ _ _ ⟨⟩) hs⟩
  | settle k options n op =>
    obtain ⟨e, hbody, htaken, hs⟩ := settle_cases hs
    refine ⟨author, h.begin ?_ hs⟩
    rintro _ _ _ ⟨⟩
    exact ⟨htaken, hbody, (hg e hbody).advances⟩
  | answer k event acts => exact h.answer hs
  | drop k => exact ⟨author, h.drop hs⟩
  | route n | refuse n | deliver n | requeue n | pass n queue | discard n =>
    refine ⟨author, h.place (fun p q hpq => ?_) hs⟩
    cases p <;> cases hpq <;> simp

/-- The messages of the state have authors. -/
def Authored (wire : Wire V) (limit : String → ℕ) (s : State V) : Prop :=
  ∃ author, Traced wire limit author s

theorem authored_of_reach (h : Reach (system wire) (Within wire limit) s) :
    Authored wire limit s := by
  refine h.invariant ?_ ?_
  · rintro _ rfl
    exact ⟨id, by rintro k c ⟨⟩, fun _ _ => rfl, by rintro m ⟨⟩, by rintro n ⟨⟩⟩
  · rintro s a t ⟨author, htraced⟩ hg hs
    exact htraced.step hg hs

/-! ## Lines -/

/-- Message `n` is `f`, and goes back to `e` over so many retries and deferrals: the call that
published a message settled an earlier one of the line, or is a producer's. -/
inductive Line (wire : Wire V) (s : State V) (author : ℕ → ℕ) (e : Envelope V) :
    ℕ → Envelope V → ℕ → ℕ → Prop where
  | enqueued {n : ℕ} {c : Call V} : s.calls (author n) = some c → c.request.enqueued = some e →
      wire.fromBytes (s.body n) = some e → Line wire s author e n e 0 0
  | retried {m n r d : ℕ} {c : Call V} {f next : Envelope V} {delay : Duration} :
      Line wire s author e m f r d → m < n → s.calls (author n) = some c →
      c.request = .settle m f (.retry next delay) → wire.fromBytes (s.body n) = some next →
      Line wire s author e n next (r + 1) d
  | deferred {m n r d : ℕ} {c : Call V} {f next : Envelope V} {delay : Duration} :
      Line wire s author e m f r d → m < n → s.calls (author n) = some c →
      c.request = .settle m f (.defer next delay) → wire.fromBytes (s.body n) = some next →
      Line wire s author e n next r (d + 1)
  | buried {m n r d : ℕ} {c : Call V} {f : Envelope V} {reason : String} :
      Line wire s author e m f r d → m < n → s.calls (author n) = some c →
      c.request = .settle m f (.deadLetter reason) → wire.fromBytes (s.body n) = some f →
      Line wire s author e n f r d

/-- The same job, so many attempts and deferrals on, and within the limit. -/
structure Counted (limit : String → ℕ) (e f : Envelope V) (retries deferrals : ℕ) : Prop where
  same : e.SameJob f
  attempt : f.attempt.toNat = e.attempt.toNat + retries
  deferrals : f.deferrals = e.deferrals + UInt32.ofNat deferrals
  within : f.attempt.toNat ≤ max e.attempt.toNat (limit e.jobType)

theorem Counted.start (limit : String → ℕ) (e : Envelope V) : Counted limit e e 0 0 :=
  ⟨.refl e, rfl, by simp, le_max_left _ _⟩

theorem Counted.retry {e f : Envelope V} {r d : ℕ} (h : Counted limit e f r d)
    (hword : f.attempt.toNat < u32Max) (hlt : f.attempt.toNat < limit f.jobType) :
    Counted limit e { f with attempt := f.attempt + 1, priority := 0 } (r + 1) d where
  same := h.same.trans ⟨rfl, rfl, rfl, rfl, rfl, rfl⟩
  attempt := by
    have := h.attempt
    rw [increment_toNat hword]
    omega
  deferrals := h.deferrals
  within := by
    rw [increment_toNat hword, h.same.jobType]
    omega

theorem Counted.defer {e f : Envelope V} {r d : ℕ} (h : Counted limit e f r d) (priority : UInt8) :
    Counted limit e { f with deferrals := f.deferrals + 1, priority := priority } r (d + 1) where
  same := h.same.trans ⟨rfl, rfl, rfl, rfl, rfl, rfl⟩
  attempt := h.attempt
  deferrals := by
    show f.deferrals + 1 = e.deferrals + UInt32.ofNat (d + 1)
    rw [h.deferrals, UInt32.ofNat_add, UInt32.add_assoc]
    rfl
  within := h.within

/-- By induction on the messages: the one a call has settled is older than the one it publishes. -/
theorem Traced.line (h : Traced wire limit author s) (hn : n < s.next) :
    ∃ e f retries deferrals, Line wire s author e n f retries deferrals ∧
      Counted limit e f retries deferrals := by
  induction n using Nat.strongRecOn with
  | ind n ih =>
    obtain ⟨c, f, hc, -, hf, hbody, hlater⟩ := h.written n hn
    match hr : c.request with
    | .publish e delay | .defer e delay =>
      rw [hr] at hf
      obtain rfl := Option.some.inj hf
      exact ⟨e, e, 0, 0, .enqueued hc (by rw [hr]; rfl) hbody, .start limit e⟩
    | .settle m g op =>
      obtain ⟨hm, hread, hop⟩ := (h.calls _ c hc).delivered m g op hr
      have hlt : m < n := hlater m (by rw [hr]; rfl)
      obtain ⟨e, g', r, d, hline, hcounted⟩ := ih m hlt hm
      -- The line ends in the envelope that was delivered.
      obtain rfl : g' = g := by
        have hends : wire.fromBytes (s.body m) = some g' := by cases hline <;> assumption
        exact Option.some.inj (hends.symm.trans hread)
      rw [hr] at hf
      cases hop with
      | ack => cases hf
      | deadLetter reason =>
        obtain ⟨-, rfl⟩ : c.options.declareDeadLetterQueues = true ∧ g' = f := by
          simpa [Request.successor] using hf
        exact ⟨e, g', r, d, .buried hline hlt hc hr hbody, hcounted⟩
      | retry delay hword hbelow =>
        obtain rfl := Option.some.inj hf
        exact ⟨e, _, r + 1, d, .retried hline hlt hc hr hbody, hcounted.retry hword hbelow⟩
      | defer delay priority =>
        obtain rfl := Option.some.inj hf
        exact ⟨e, _, r, d + 1, .deferred hline hlt hc hr hbody, hcounted.defer priority⟩

/-- Whatever there is on the broker has an author of its own and a line. -/
structure Provenance (wire : Wire V) (limit : String → ℕ) (s : State V) (author : ℕ → ℕ) :
    Prop where
  apart : Set.InjOn author { n | s.place n ≠ .unpublished }
  line : ∀ n, s.place n ≠ .unpublished → ∃ e f retries deferrals,
    Line wire s author e n f retries deferrals ∧ Counted limit e f retries deferrals

theorem Traced.accounted (h : Traced wire limit author s) : Provenance wire limit s author := by
  have known : ∀ n, s.place n ≠ .unpublished → n < s.next := by
    intro n hn
    by_contra hge
    exact hn (h.fresh n (not_lt.mp hge))
  exact ⟨fun m hm n hn hmn => h.apart m (known m hm) n (known n hn) hmn,
    fun n hn => h.line (known n hn)⟩

/-- No message is made up and no call publishes two: each goes back to a producer's envelope, of
which it is the same job, and its counters count the way. -/
theorem provenance (h : Reach (system wire) (Within wire limit) s) :
    ∃ author, Provenance wire limit s author := by
  obtain ⟨author, htraced⟩ := authored_of_reach h
  exact ⟨author, htraced.accounted⟩

/-! A job is published, fails, and is held for its next attempt. -/

def greetingAgain : Envelope String :=
  { greeting with attempt := greeting.attempt + 1, priority := 0 }

def greetingsWire : Wire String where
  toBytes e :=
    if e = greeting then .ok [1] else if e = greetingAgain then .ok [2] else .error "not these"
  fromBytes body :=
    if body = [1] then some greeting else if body = [2] then some greetingAgain else none
  roundTrip e body h := by
    split_ifs at h with hfirst hsecond <;> obtain rfl := Except.ok.inj h
    · rw [if_pos rfl, hfirst]
    · rw [if_neg (by decide), if_pos rfl, hsecond]

def oneSecond : Duration := .fromMillis 1000

theorem mailHold_short : "mail.hold.1000".utf8ByteSize ≤ maxShortStringLength := by decide

theorem mail_short : "mail".utf8ByteSize ≤ maxShortStringLength := by decide

def retriedActions : List (Action String) :=
  [.publish 0 greetingOptions greeting none, .answer 0 ⟨Op.acquirePermit, true⟩ false,
    .answer 0 ⟨Op.popIdle, some true⟩ false,
    .answer 0 ⟨Op.basicPublish ⟨"mail", mail_short⟩ true false [1] (Codec.propsFor greeting),
      .ok ()⟩ false,
    .route 0, .answer 0 ⟨Op.awaitConfirm, .ok (.ack none)⟩ false, .deliver 0,
    .settle 1 greetingOptions 0 (.retry greetingAgain oneSecond),
    .answer 1 ⟨Op.configFor "mail", some (.new "mail")⟩ false,
    .answer 1 ⟨Op.declareChannelConnected, true⟩ false,
    .answer 1 ⟨Op.queueDeclare ⟨"mail.hold.1000", mailHold_short⟩
      (Rabbit.Topology.declareOptions true)
      (Rabbit.Topology.deferredQueueArgs (.new "mail") 1000), .ok ()⟩ false,
    .answer 1 ⟨Op.acquirePermit, true⟩ false, .answer 1 ⟨Op.popIdle, some true⟩ false,
    .answer 1 ⟨Op.basicPublish ⟨"mail.hold.1000", mailHold_short⟩ true false [2]
      (Codec.propsFor greetingAgain), .ok ()⟩ false,
    .route 1, .answer 1 ⟨Op.awaitConfirm, .ok (.ack none)⟩ false,
    .answer 1 ⟨Op.ack, .ok true⟩ true]

theorem dispatched_retry :
    DispatchedWithin (fun _ => 5) greeting (.retry greetingAgain oneSecond) := by
  obtain ⟨floats⟩ : Nonempty Floats := inferInstance
  let policy : RetryPolicy := ⟨5, .fixed oneSecond⟩
  let handler : Dispatch.Handler := ⟨"Greet", "mail", .new "mail", some policy⟩
  let worker : Dispatch.Worker := ⟨⟨true⟩, floats, id, fun _ => some handler, fun _ => none,
    false, none⟩
  let user : (op : Dispatch.Op String String) → Dispatch.Ans Unit op
    | .decode _ payload => .ok (.ok payload)
    | .setRetryPolicy _ _ => .ok none
    | .nowMs => 0
    | .join | .joinAborted => .returned (.error (.retryable ⟨.ok "down"⟩))
    | .joinWithin _ => none
    | .onDeadLetter _ => .ok ()
    | .ack | .deadLetter _ | .retry _ _ | .defer _ _ => .ok ()
    | .spawn _ _ _ | .abort | .countFailure => ()
  refine ⟨String, Unit, worker, user, ?_, .retry greetingAgain oneSecond, ?_, rfl⟩
  · rintro h chosen ⟨hhandler, job, own, -, hown, rfl⟩
    obtain rfl := Option.some.inj hhandler
    obtain rfl := Except.ok.inj hown
    exact le_refl 5
  · have htrace : (Dispatch.process worker greeting).run.trace user =
        [.decode handler "ada", .setRetryPolicy handler "ada", .nowMs,
          .spawn handler "ada" (Dispatch.jobContext handler greeting policy 0), .join,
          .retry greetingAgain oneSecond] := rfl
    rw [htrace]
    simp

/-- Only the greeting itself is settled, by that retry. -/
def retriesGreeting (s : State String) : Action String → Bool
  | .settle _ _ n (.retry next delay) => s.body n = [1] ∧ next = greetingAgain ∧ delay = oneSecond
  | .settle _ _ _ _ => false
  | _ => true

theorem within_retries (s : State String) (a : Action String) (h : retriesGreeting s a = true) :
    Within greetingsWire (fun _ => 5) s a := by
  cases a with
  | settle k options n op =>
    cases op with
    | retry next delay =>
      obtain ⟨hbody, rfl, rfl⟩ : s.body n = [1] ∧ next = greetingAgain ∧ delay = oneSecond := by
        simpa [retriesGreeting] using h
      intro e he
      rw [hbody] at he
      obtain rfl := Option.some.inj he
      exact dispatched_retry
    | ack | deadLetter reason | defer next delay => cases h
  | _ => trivial

theorem provenance_retried : ∃ s author, s.place 0 = .settled ∧
    s.place 1 = .ready "mail.hold.1000" ∧ Provenance greetingsWire (fun _ => 5) s author := by
  have hrun : (((system greetingsWire).checked retriesGreeting (initial String) retriedActions).map
      fun s => (s.place 0, s.place 1)) = some (.settled, .ready "mail.hold.1000") := by
    decide +kernel
  obtain ⟨s, hs, hplaces⟩ := Option.map_eq_some_iff.mp hrun
  obtain ⟨hzero, hone⟩ := Prod.mk.inj hplaces
  obtain ⟨author, hprovenance⟩ := provenance
    (Reach.checkedRun within_retries (.start rfl) retriedActions hs)
  exact ⟨s, author, hzero, hone, hprovenance⟩

end Queuey.Rabbit.Broker
