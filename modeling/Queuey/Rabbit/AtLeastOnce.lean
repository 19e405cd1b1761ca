import Queuey.Core.Settlement
import Queuey.Library.Lineage
import Queuey.Rabbit.Broker

/-!
# At least once

A job that was accepted stays on the broker until a run of its handler has succeeded. Calls
may fail, be dropped or race each other, and deliveries may come twice: a message leaves the
broker by an ack, and an ack comes after a successor or ends the job.
-/
namespace Queuey.Rabbit.Broker
open Interaction Prog Transition Relation

variable {V : Type}

/-! ## What a dispatcher asks of a delivery -/

def settleOf {J : Type} : Dispatch.Op V J → Option (Settle V)
  | .ack => some .ack
  | .deadLetter reason => some (.deadLetter reason)
  | .retry next delay => some (.retry next delay)
  | .defer next delay => some (.defer next delay)
  | _ => none

/-- Some worker's `process` of the delivered envelope calls the operation. -/
def Dispatched (e : Envelope V) (op : Settle V) : Prop :=
  ∃ (J B : Type) (worker : Dispatch.Worker) (user : (op : Dispatch.Op V J) → Dispatch.Ans B op),
    ∃ o ∈ (Dispatch.process worker e).run.trace user, settleOf o = some op

/-- A handler has been run on the envelope and has returned without an error. -/
def Handled (e : Envelope V) : Prop :=
  ∃ (J B : Type) (worker : Dispatch.Worker) (user : (op : Dispatch.Op V J) → Dispatch.Ans B op),
    Dispatch.Happens worker e user .success

/-- A worker's verdict on the envelope is that it is dead. -/
def GivenUp (e : Envelope V) (reason : String) : Prop :=
  ∃ (J B : Type) (worker : Dispatch.Worker) (user : (op : Dispatch.Op V J) → Dispatch.Ans B op)
    (verdict : Dispatch.Verdict) (hooks : List (Dispatch.Op V J)),
    Dispatch.Happens worker e user verdict ∧
      Dispatch.Demands worker e verdict hooks (.deadLetter reason)

def Rightful (e : Envelope V) : Settle V → Prop
  | .ack => Handled e
  | .deadLetter reason => GivenUp e reason
  | .retry next _ | .defer next _ => e.SameJob next

section Dispatch
variable {J B : Type} {e : Envelope V} {op : Settle V} {worker : Dispatch.Worker}
  {user : (op : Dispatch.Op V J) → Dispatch.Ans B op} {o : Dispatch.Op V J}

theorem settleOf_settles (h : settleOf o = some op) : o.settles = true := by
  cases o <;> first | rfl | cases h

theorem rightful_of_demands {verdict : Dispatch.Verdict} {hooks : List (Dispatch.Op V J)}
    (happens : Dispatch.Happens worker e user verdict)
    (demands : Dispatch.Demands worker e verdict hooks o) (hop : settleOf o = some op) :
    Rightful e op := by
  cases demands with
  | success =>
    obtain rfl := Option.some.inj hop
    exact ⟨J, B, worker, user, happens⟩
  | retry _ _ | deferred =>
    obtain rfl := Option.some.inj hop
    exact ⟨rfl, rfl, rfl, rfl, rfl, rfl⟩
  | noHandler hreason =>
    obtain rfl := Option.some.inj hop
    exact ⟨J, B, worker, user, _, _, happens, .noHandler hreason⟩
  | undecodable hreason =>
    obtain rfl := Option.some.inj hop
    exact ⟨J, B, worker, user, _, _, happens, .undecodable hreason⟩
  | fatal hreason =>
    obtain rfl := Option.some.inj hop
    exact ⟨J, B, worker, user, _, _, happens, .fatal hreason⟩
  | giveUp hle hreason =>
    obtain rfl := Option.some.inj hop
    exact ⟨J, B, worker, user, _, _, happens, .giveUp hle hreason⟩

/-- A deferral at the last count starts the count again, if it does not panic. -/
theorem deferred_of_overflow {delay : Duration} {handler : Dispatch.Handler}
    (happens : Dispatch.Happens worker e user (.deferred delay handler))
    (hfull : ¬e.deferrals.toNat < u32Max) (ho : o ∈ (Dispatch.process worker e).run.trace user)
    (hop : settleOf o = some op) :
    op = .defer { e with deferrals := 0, priority := handler.deferPriority } delay := by
  have hsettles := settleOf_settles hop
  obtain ⟨hno, -⟩ | ⟨h, outcome, policy, hsome, hjudged, hverdict⟩ :=
    Dispatch.happens_judged happens
  · cases hno
  cases outcome with
  | success | decode _ | retryable _ | fatal _ => cases hverdict
  | deferred d reason =>
    obtain ⟨rfl, rfl⟩ : delay = d ∧ handler = h := by
      simpa [Dispatch.JobOutcome.verdict, eq_comm] using hverdict
    obtain ⟨before, hquiet, hrun⟩ := Dispatch.runHandler_does handler e worker.jobTimeout
      (worker.configured e handler) user
    rw [hjudged] at hrun
    have hdoes : (∃ p, (Dispatch.process worker e).run.Does user (before ++ []) (.error p)) ∨
        (Dispatch.process worker e).run.Does user (before ++ Dispatch.settling user
          (.defer { e with deferrals := 0, priority := handler.deferPriority } delay))
            (.ok ()) := by
      simp only [Dispatch.process, hsome]
      obtain hend | hend := Dispatch.settleOutcome_overflow worker handler policy delay reason user
        hfull
      · exact .inl ⟨_, hrun.seq hend⟩
      · exact .inr (hrun.seq hend)
    obtain ⟨p, hends, -⟩ | ⟨hends, -⟩ := hdoes
    · rw [hends, List.append_nil] at ho
      exact absurd hsettles (by simp [hquiet.settles o ho])
    · rw [hends] at ho
      obtain ho | ho := List.mem_append.mp ho
      · exact absurd hsettles (by simp [hquiet.settles o ho])
      · obtain rfl | hcount := List.mem_cons.mp ho
        · exact (Option.some.inj hop).symm
        · split_ifs at hcount
          · obtain rfl := List.mem_singleton.mp hcount
            cases hsettles
          · cases hcount

/-- What a worker does to a delivery is what its verdict demands. -/
theorem demanded (ho : o ∈ (Dispatch.process worker e).run.trace user)
    (hop : settleOf o = some op) :
    (∃ verdict hooks, Dispatch.Happens worker e user verdict ∧
      Dispatch.Demands worker e verdict hooks o) ∨
    ∃ (delay : Duration) (handler : Dispatch.Handler), ¬e.deferrals.toNat < u32Max ∧
      op = .defer { e with deferrals := 0, priority := handler.deferPriority } delay := by
  have hsettles := settleOf_settles hop
  by_cases hhappens : ∃ verdict, Dispatch.Happens worker e user verdict
  · obtain ⟨verdict, happens⟩ := hhappens
    by_cases hfits : ∀ delay handler, verdict = .deferred delay handler →
        e.deferrals.toNat < u32Max
    · obtain ⟨hooks, o', demands⟩ := Dispatch.exists_demands (J := J) worker e verdict
      have hmem : o ∈ hooks ++ [o'] := by
        rw [← Dispatch.shown_of_happens happens demands hfits]
        exact List.mem_filter.mpr ⟨ho, Dispatch.settles_visible hsettles⟩
      obtain hhook | hlast := List.mem_append.mp hmem
      · exact absurd hsettles (by simp [(demands.hooks_visible o hhook).2])
      · obtain rfl := List.mem_singleton.mp hlast
        exact .inl ⟨verdict, hooks, happens, demands⟩
    · push Not at hfits
      obtain ⟨delay, handler, rfl, hfull⟩ := hfits
      exact .inr ⟨delay, handler, not_lt.mpr hfull,
        deferred_of_overflow happens (not_lt.mpr hfull) ho hop⟩
  · obtain ⟨ops, p, hquiet, hrun, -⟩ := Dispatch.process_unwinds (not_exists.mp hhappens)
    rw [hrun] at ho
    exact absurd hsettles (by simp [hquiet.settles o ho])

theorem Dispatched.rightful (h : Dispatched e op) : Rightful e op := by
  obtain ⟨J, B, worker, user, o, ho, hop⟩ := h
  obtain ⟨verdict, hooks, happens, demands⟩ | ⟨delay, handler, -, rfl⟩ := demanded ho hop
  · exact rightful_of_demands happens demands hop
  · exact ⟨rfl, rfl, rfl, rfl, rfl, rfl⟩

end Dispatch

/-! ## What the broker and the calls know of each other -/

def Call.stage (wire : Wire V) (c : Call V) : Stage :=
  (stages wire c.options c.request).after .preparing c.client.done

/-- A call keeps to its stages, and what it relies on is there. -/
structure Call.Sound (wire : Wire V) (s : State V) (c : Call V) : Prop where
  keeps : c.client.rest.Keeps (stages wire c.options c.request) (Gets c.request.goal) (c.stage wire)
  delivered : ∀ n e op, c.request = .settle n e op → n < s.next ∧ (s.place n).taken = true ∧
    wire.fromBytes (s.body n) = some e ∧ Rightful e op
  successor : ∀ m, c.sent = some m → m < s.next ∧ (∀ n, c.request.delivered = some n → n < m) ∧
    ∃ f, c.request.successor c.options = some f ∧ wire.fromBytes (s.body m) = some f
  confirmed : c.stage wire = .confirmed ∨ c.stage wire = .settled →
    c.request.successor c.options ≠ none → ∃ m, c.sent = some m ∧ (s.place m).taken = true

structure Sound (wire : Wire V) (s : State V) : Prop where
  calls : ∀ k c, s.calls k = some c → c.Sound wire s
  fresh : ∀ n, s.next ≤ n → s.place n = .unpublished
  settled : ∀ n, s.place n = .settled → ∃ k c, s.settledBy n = some k ∧ s.calls k = some c ∧
    c.request.delivered = some n ∧ c.stage wire = .settled
  spared : ∀ n, s.place n ≠ .discarded

/-- The broker discards nothing, and what is settled is so by a dispatcher. -/
def Spared (wire : Wire V) (s : State V) : Action V → Prop
  | .settle _ _ n op => ∀ e, wire.fromBytes (s.body n) = some e → Dispatched e op
  | .discard _ => False
  | _ => True

/-- Messages are added, and what the broker has taken stays taken. -/
structure Grows (s t : State V) : Prop where
  next : s.next ≤ t.next
  body : ∀ n < s.next, t.body n = s.body n
  taken : ∀ n, (s.place n).taken = true → (t.place n).taken = true

variable {wire : Wire V} {s t : State V} {k n : ℕ} {c c' : Call V}

theorem Grows.setCall (g : Grows s t) (k : ℕ) (c : Call V) : Grows s (t.setCall k c) :=
  ⟨g.next, g.body, g.taken⟩

theorem Grows.refl (s : State V) : Grows s s := ⟨le_refl _, fun _ _ => rfl, fun _ h => h⟩

theorem Call.Sound.mono (h : c.Sound wire s) (g : Grows s t) : c.Sound wire t where
  keeps := h.keeps
  delivered n e op hr := by
    obtain ⟨hn, htaken, hbody, hop⟩ := h.delivered n e op hr
    exact ⟨hn.trans_le g.next, g.taken n htaken, by rw [g.body n hn, hbody], hop⟩
  successor m hm := by
    obtain ⟨hlt, hlater, f, hf, hbody⟩ := h.successor m hm
    exact ⟨hlt.trans_le g.next, hlater, f, hf, by rw [g.body m hlt, hbody]⟩
  confirmed hstage hne := by
    obtain ⟨m, hm, htaken⟩ := h.confirmed hstage hne
    exact ⟨m, hm, g.taken m htaken⟩

theorem emit_grows (hfresh : s.place s.next = .unpublished) (queue : String) (body : Bytes) :
    Grows s (s.emit queue body) where
  next := Nat.le_succ _
  body n hn := Function.update_of_ne hn.ne _ _
  taken n hn := by
    have hne : n ≠ s.next := by
      rintro rfl
      rw [hfresh] at hn
      cases hn
    exact (congrArg Place.taken (Function.update_of_ne hne _ _)).trans hn

/-- A step that changes one call, and the places so that only that call settles messages. -/
theorem Sound.replace (h : Sound wire s) (g : Grows s t) (hk : s.calls k = some c)
    (calls : t.calls = Function.update s.calls k (some c')) (hc' : c'.Sound wire t)
    (same : c'.request = c.request) (ended : c.stage wire = .settled → c'.stage wire = .settled)
    (fresh : ∀ n, t.next ≤ n → t.place n = .unpublished) (spared : ∀ n, t.place n ≠ .discarded)
    (settled : ∀ n, t.place n = .settled →
      s.place n = .settled ∧ t.settledBy n = s.settledBy n ∨
        t.settledBy n = some k ∧ c.request.delivered = some n ∧ c'.stage wire = .settled) :
    Sound wire t where
  calls j d hd := by
    rw [calls, Function.update_apply] at hd
    split at hd
    · obtain rfl := Option.some.inj hd
      exact hc'
    · exact (h.calls j d hd).mono g
  fresh := fresh
  spared := spared
  settled n hn := by
    have hown : t.calls k = some c' := by rw [calls, Function.update_self]
    obtain ⟨hold, hby⟩ | ⟨hby, hdelivered, hstage⟩ := settled n hn
    · obtain ⟨j, d, hj, hd, hdelivered, hstage⟩ := h.settled n hold
      rw [← hby] at hj
      by_cases hjk : j = k
      · subst hjk
        obtain rfl := Option.some.inj (hk.symm.trans hd)
        exact ⟨j, c', hj, hown, by rw [same, hdelivered], ended hstage⟩
      · refine ⟨j, d, hj, ?_, hdelivered, hstage⟩
        rw [calls, Function.update_of_ne hjk, hd]
    · exact ⟨k, c', hby, hown, by rw [same, hdelivered], hstage⟩

/-! ## The steps -/

theorem begin_cases {options : RabbitMqOptions} {r : Request V}
    (hs : stepBegin wire s k options r = some t) : s.calls k = none ∧
      t = s.setCall k ⟨options, r, .start (r.program wire options), none, false⟩ := by
  grind [stepBegin]

theorem settle_cases {options : RabbitMqOptions} {op : Settle V}
    (hs : stepSettle wire s k options n op = some t) : ∃ e, wire.fromBytes (s.body n) = some e ∧
      (s.place n).taken = true ∧ stepBegin wire s k options (.settle n e op) = some t := by
  grind [stepSettle]

theorem place_cases {move : Place → Option Place} (hs : stepPlace s n move = some t) :
    ∃ place, move (s.place n) = some place ∧ t = s.setPlace n place := by
  simpa [stepPlace, eq_comm] using hs

theorem settled_cases {acts : Bool} (hs : stepSettled s k c acts = some t) :
    t = s.setCall k c ∨ ∃ n queue, c.request.delivered = some n ∧ s.place n = .unacked queue ∧
      t = (s.conclude n k).setCall k c := by
  unfold stepSettled at hs
  grind

theorem answer_cases {event : Interaction.Event Op Ans} {acts : Bool}
    (hs : stepAnswer s k event acts = some t) : ∃ c client, s.calls k = some c ∧
      c.client.answer event = some client ∧
      stepBroker s k { c with client := client } acts event = some t := by
  unfold stepAnswer at hs
  grind

theorem Sound.begin {options : RabbitMqOptions} {r : Request V} (h : Sound wire s)
    (delivered : ∀ n e op, r = .settle n e op → (s.place n).taken = true ∧
      wire.fromBytes (s.body n) = some e ∧ Rightful e op)
    (hs : stepBegin wire s k options r = some t) : Sound wire t := by
  obtain ⟨hk, rfl⟩ := begin_cases hs
  have started : (Call.mk options r (.start (r.program wire options)) none false).Sound wire s := by
    refine ⟨program_keeps wire options r, fun n e op hr => ?_, by rintro m ⟨⟩, ?_⟩
    · obtain ⟨htaken, hbody, hop⟩ := delivered n e op hr
      refine ⟨?_, htaken, hbody, hop⟩
      by_contra hge
      rw [h.fresh n (not_lt.mp hge)] at htaken
      cases htaken
    · rintro (hstage | hstage) <;> cases hstage
  refine ⟨fun j d hd => ?_, h.fresh, fun m hm => ?_, h.spared⟩
  · rw [State.setCall_calls, Function.update_apply] at hd
    split at hd
    · obtain rfl := Option.some.inj hd
      exact started.mono ((Grows.refl s).setCall k _)
    · exact (h.calls j d hd).mono ((Grows.refl s).setCall k _)
  · obtain ⟨j, d, hj, hd, hdelivered, hstage⟩ := h.settled m hm
    refine ⟨j, d, hj, ?_, hdelivered, hstage⟩
    have hne : j ≠ k := by
      rintro rfl
      rw [hk] at hd
      cases hd
    rw [State.setCall_calls, Function.update_of_ne hne, hd]

/-- The broker's own steps lose no message, as long as it discards none. -/
theorem Sound.place {move : Place → Option Place} (h : Sound wire s)
    (keeps : ∀ p q, move p = some q → q ≠ .settled ∧ q ≠ .discarded ∧ p ≠ .unpublished ∧
      (p.taken = true → q.taken = true))
    (hs : stepPlace s n move = some t) : Sound wire t := by
  obtain ⟨place, hmove, rfl⟩ := place_cases hs
  obtain ⟨hsettled, hdiscarded, hpublished, htaken⟩ := keeps _ _ hmove
  have g : Grows s (s.setPlace n place) := by
    refine ⟨le_refl _, fun _ _ => rfl, fun m hm => ?_⟩
    rw [State.setPlace_place, Function.update_apply]
    split
    · next hmn => exact htaken (hmn ▸ hm)
    · exact hm
  refine ⟨fun j d hd => (h.calls j d hd).mono g, fun m hm => ?_, fun m hm => ?_, fun m hm => ?_⟩
  · have hne : m ≠ n := by
      rintro rfl
      exact hpublished (h.fresh m hm)
    exact (Function.update_of_ne hne _ _).trans (h.fresh m hm)
  · rw [State.setPlace_place, Function.update_apply] at hm
    split at hm
    · exact absurd hm hsettled
    · exact h.settled m hm
  · rw [State.setPlace_place, Function.update_apply] at hm
    split at hm
    · exact hdiscarded hm
    · exact h.spared m hm

/-- An answer leads to the next stage. -/
theorem Call.Sound.answered {event : Interaction.Event Op Ans}
    {client : Interaction.Client Op Ans _} (h : c.Sound wire s)
    (hans : c.client.answer event = some client) :
    (stages wire c.options c.request).allows (c.stage wire) event.1 ∧
      ({ c with client := client } : Call V).stage wire =
        (stages wire c.options c.request).next (c.stage wire) event.1 event.2 ∧
      client.rest.Keeps (stages wire c.options c.request) (Gets c.request.goal)
        (({ c with client := client } : Call V).stage wire) := by
  obtain ⟨next, hrest, rfl⟩ := Client.answer_eq_some hans
  obtain ⟨hallowed, hkeeps⟩ := Client.keeps_answered h.keeps hrest event.2
  exact ⟨hallowed, Protocol.after_append _ _ _ _ _, hkeeps⟩

/-- From where a delivery has been settled nothing leads back. -/
theorem settled_next {r : Request V} {options : RabbitMqOptions} {op : Op}
    (hallowed : (stages wire options r).allows .settled op) (x : Ans op) :
    (stages wire options r).next .settled op x = .settled := by
  cases op with
  | basicPublish key m i payload props =>
    obtain ⟨hstage, -⟩ := hallowed
    cases hstage
  | awaitConfirm =>
    match x with
    | .ok (.ack none) | .ok (.ack (some _)) | .ok (.nack _) | .ok .notRequested | .error _ => rfl
  | _ => rfl

/-- A call goes on, and the places stay as they are. -/
theorem Sound.goOn {client : Interaction.Client Op Ans _} {event : Interaction.Event Op Ans}
    (h : Sound wire s) (hk : s.calls k = some c) (hans : c.client.answer event = some client)
    (confirmed : ({ c with client := client } : Call V).stage wire = .confirmed ∨
      ({ c with client := client } : Call V).stage wire = .settled →
      c.request.successor c.options ≠ none → ∃ m, c.sent = some m ∧ (s.place m).taken = true) :
    Sound wire (s.setCall k { c with client := client }) := by
  have hc := h.calls k c hk
  obtain ⟨hallowed, hnext, hkeeps⟩ := hc.answered hans
  have g := (Grows.refl s).setCall k { c with client := client }
  have hc' : ({ c with client := client } : Call V).Sound wire s :=
    ⟨hkeeps, hc.delivered, hc.successor, confirmed⟩
  refine h.replace g hk rfl (hc'.mono g) rfl (fun hover => ?_) h.fresh h.spared
    fun n hn => .inl ⟨hn, rfl⟩
  rw [hover] at hallowed hnext
  rw [hnext, settled_next hallowed]

/-- A delivery is settled, and the broker lets go of its message. -/
theorem Sound.conclude {client : Interaction.Client Op Ans _} {event : Interaction.Event Op Ans}
    {queue : String} (h : Sound wire s) (hk : s.calls k = some c)
    (hans : c.client.answer event = some client) (hop : event.1.settles = true)
    (hdelivered : c.request.delivered = some n) (hplace : s.place n = .unacked queue)
    (confirmed : c.request.successor c.options ≠ none →
      ∃ m, c.sent = some m ∧ (s.place m).taken = true) :
    Sound wire ((s.conclude n k).setCall k { c with client := client }) := by
  have hc := h.calls k c hk
  obtain ⟨hallowed, hnext, hkeeps⟩ := hc.answered hans
  have hstage : ({ c with client := client } : Call V).stage wire = .settled := by
    rw [hnext]
    obtain ⟨op, x⟩ := event
    cases op <;> first | rfl | cases hop
  have hc' : ({ c with client := client } : Call V).Sound wire s :=
    ⟨hkeeps, hc.delivered, hc.successor, fun _ => confirmed⟩
  have g : Grows s (s.conclude n k) := by
    refine ⟨le_refl _, fun _ _ => rfl, fun m hm => ?_⟩
    rw [State.conclude_place, Function.update_apply]
    split
    · rfl
    · exact hm
  refine h.replace (g.setCall k _) hk rfl (hc'.mono (g.setCall k _)) rfl (fun _ => hstage)
    (fun m hm => ?_) (fun m hm => ?_) fun m hm => ?_
  · have hne : m ≠ n := by
      rintro rfl
      rw [h.fresh m hm] at hplace
      cases hplace
    exact (Function.update_of_ne hne _ _).trans (h.fresh m hm)
  · rw [State.setCall_place, State.conclude_place, Function.update_apply] at hm
    split at hm
    · cases hm
    · exact h.spared m hm
  · rw [State.setCall_place, State.conclude_place, Function.update_apply] at hm
    split at hm
    · next hmn =>
      subst hmn
      exact .inr ⟨Function.update_self .., hdelivered, hstage⟩
    · next hmn => exact .inl ⟨hm, Function.update_of_ne hmn _ _⟩

theorem emit_fresh (hfresh : ∀ n, s.next ≤ n → s.place n = .unpublished) (queue : String)
    (body : Bytes) (m : ℕ) (hm : s.next + 1 ≤ m) : (s.emit queue body).place m = .unpublished :=
  (Function.update_of_ne (by omega) _ _).trans (hfresh m (by omega))

/-- The successor is published, by a call that may not learn of it. -/
theorem Sound.emit {client : Interaction.Client Op Ans (Except Failure Unit)} {key : ShortString}
    {m i : Bool} {payload : Bytes} {props : Codec.BasicProperties} {x : Except LapinError Unit}
    {sent : Option ℕ} (h : Sound wire s) (hk : s.calls k = some c)
    (hans : c.client.answer ⟨Op.basicPublish key m i payload props, x⟩ = some client)
    (hsent : sent = c.sent ∨ sent = some s.next) (queue : String) :
    Sound wire ((s.emit queue payload).setCall k { c with client := client, sent := sent }) := by
  have hc := h.calls k c hk
  obtain ⟨⟨hstage, next, hnext, hpayload⟩, hgoes, hkeeps⟩ := hc.answered hans
  have g := (emit_grows (h.fresh s.next (le_refl _)) queue payload).setCall k
    { c with client := client, sent := sent }
  have hafter : ({ c with client := client, sent := sent } : Call V).stage wire = .sent ∨
      ({ c with client := client, sent := sent } : Call V).stage wire = .failed := by
    cases x with
    | ok u => exact .inl hgoes
    | error err => exact .inr hgoes
  have hold := hc.mono g
  refine h.replace g hk rfl ⟨hkeeps, hold.delivered, fun m' hm' => ?_, fun hbad => ?_⟩ rfl
    (fun hover => ?_) (emit_fresh h.fresh queue payload) (fun m' hm' => ?_) fun m' hm' => ?_
  · obtain rfl | rfl := hsent
    · exact hold.successor m' hm'
    · obtain rfl := Option.some.inj hm'
      refine ⟨Nat.lt_succ_self _, fun n hn => ?_, next, hnext, ?_⟩
      · match hr : c.request with
        | .publish e delay | .defer e delay =>
          rw [hr] at hn
          cases hn
        | .settle n' e op =>
          rw [hr] at hn
          obtain rfl := Option.some.inj hn
          exact (hc.delivered n' e op hr).1
      · have hbody : (s.emit queue payload).body s.next = payload := Function.update_self _ _ _
        exact (congrArg wire.fromBytes hbody).trans (wire.roundTrip next payload hpayload)
  · rcases hafter with ha | ha <;> rcases hbad with hb | hb <;> cases ha.symm.trans hb
  · rw [hstage] at hover
    cases hover
  · rw [State.setCall_place, State.emit_place, Function.update_apply] at hm'
    split at hm'
    · cases hm'
    · exact h.spared m' hm'
  · rw [State.setCall_place, State.emit_place, Function.update_apply] at hm'
    split at hm'
    · cases hm'
    · exact .inl ⟨hm', rfl⟩

/-- A stage that does not change brings nothing new. -/
theorem Sound.idle {client : Interaction.Client Op Ans _} {event : Interaction.Event Op Ans}
    (h : Sound wire s) (hk : s.calls k = some c) (hans : c.client.answer event = some client)
    (hidle : (stages wire c.options c.request).next (c.stage wire) event.1 event.2 = .confirmed ∨
      (stages wire c.options c.request).next (c.stage wire) event.1 event.2 = .settled →
      c.stage wire = .confirmed ∨ c.stage wire = .settled) :
    Sound wire (s.setCall k { c with client := client }) := by
  have hc := h.calls k c hk
  obtain ⟨-, hnext, -⟩ := hc.answered hans
  refine h.goOn hk hans fun hstage => hc.confirmed ?_
  rw [hnext] at hstage
  exact hidle hstage

/-- A delivery is settled, whether the broker learns of it or not. -/
theorem Sound.settle {client : Interaction.Client Op Ans _} {event : Interaction.Event Op Ans}
    {acts : Bool} (h : Sound wire s) (hk : s.calls k = some c)
    (hans : c.client.answer event = some client) (hop : event.1.settles = true)
    (hs : stepSettled s k { c with client := client } acts = some t) : Sound wire t := by
  have hc := h.calls k c hk
  obtain ⟨hallowed, -, -⟩ := hc.answered hans
  have confirmed : c.request.successor c.options ≠ none →
      ∃ m, c.sent = some m ∧ (s.place m).taken = true := by
    intro hne
    have hstage : c.stage wire = .confirmed := by
      obtain ⟨op, x⟩ := event
      cases op <;> first
        | exact hallowed.2.resolve_right fun hnone => hne hnone.2
        | cases hop
    exact hc.confirmed (.inl hstage) hne
  obtain rfl | ⟨n, queue, hdelivered, hplace, rfl⟩ := settled_cases hs
  · exact h.goOn hk hans fun _ => confirmed
  · exact h.conclude hk hans hop hdelivered hplace confirmed

theorem Sound.answer {event : Interaction.Event Op Ans} {acts : Bool} (h : Sound wire s)
    (hs : stepAnswer s k event acts = some t) : Sound wire t := by
  obtain ⟨c, client, hk, hans, hs⟩ := answer_cases hs
  obtain ⟨op, x⟩ := event
  cases op with
  | basicPublish key m i payload props =>
    cases x with
    | ok u =>
      obtain rfl := Option.some.inj hs
      exact h.emit hk hans (.inr rfl) _
    | error err =>
      obtain rfl := Option.some.inj hs
      cases acts with
      | true => exact h.emit hk hans (.inl rfl) _
      | false => exact h.idle hk hans (by rintro (hf | hf) <;> cases hf)
  | awaitConfirm =>
    match x with
    | .ok (.ack none) =>
      simp only [stepBroker] at hs
      split at hs
      · next n hn =>
        split_ifs at hs with htaken
        obtain rfl := Option.some.inj hs
        exact h.goOn hk hans fun _ _ => ⟨n, hn, htaken⟩
      · cases hs
    | .ok (.ack (some _)) | .ok (.nack _) | .ok .notRequested | .error _ =>
      obtain rfl := Option.some.inj hs
      refine h.idle hk hans fun hstage => ?_
      by_cases hsent : c.stage wire = .sent
      · simp [stages, hsent] at hstage
      · simpa [stages, hsent] using hstage
  | ack | reject _ => exact h.settle hk hans rfl hs
  | configFor _ | declareChannelConnected | ensureConnected | createChannel | confirmSelect
  | queueDeclare _ _ _ | acquirePermit | popIdle =>
    obtain rfl := Option.some.inj hs
    exact h.idle hk hans id

theorem Sound.drop (h : Sound wire s) (hs : stepDrop s k = some t) : Sound wire t := by
  unfold stepDrop at hs
  split at hs
  · next c hk =>
    obtain rfl := Option.some.inj hs
    have g := (Grows.refl s).setCall k { c with dropped := true }
    have hc := (h.calls k c hk).mono g
    exact h.replace g hk rfl ⟨hc.keeps, hc.delivered, hc.successor, hc.confirmed⟩ rfl id h.fresh
      h.spared fun n hn => .inl ⟨hn, rfl⟩
  · cases hs

theorem Sound.step {a : Action V} (h : Sound wire s) (hg : Spared wire s a)
    (hs : step wire s a = some t) : Sound wire t := by
  cases a with
  | publish k options e delay | defer k options e delay => exact h.begin (by rintro _ _ _ ⟨⟩) hs
  | settle k options n op =>
    obtain ⟨e, hbody, htaken, hs⟩ := settle_cases hs
    refine h.begin ?_ hs
    rintro _ _ _ ⟨⟩
    exact ⟨htaken, hbody, (hg e hbody).rightful⟩
  | answer k event acts => exact h.answer hs
  | drop k => exact h.drop hs
  | route n | refuse n | deliver n | requeue n | pass n queue =>
    refine h.place (fun p q hpq => ?_) hs
    cases p <;> cases hpq
    simp [Place.taken]
  | discard n => exact hg.elim

theorem sound_initial : Sound wire (initial V) :=
  ⟨by rintro k c ⟨⟩, fun _ _ => rfl, by rintro n ⟨⟩, by rintro n ⟨⟩⟩

/-- The job has ended with the delivery of message `m`: the handler has succeeded, or the job
is dead and dead letters are not kept. -/
def Concluded (s : State V) (m : ℕ) (f : Envelope V) : Prop :=
  ∃ k c op, s.settledBy m = some k ∧ s.calls k = some c ∧ c.request = .settle m f op ∧
    (op = .ack ∧ Handled f ∨ ∃ reason, op = .deadLetter reason ∧ GivenUp f reason ∧
      c.options.declareDeadLetterQueues = false)

/-- The broker holds a message of the job, or the job has ended with one. -/
def Kept (wire : Wire V) (s : State V) (e : Envelope V) (m : ℕ) : Prop :=
  ∃ f, wire.fromBytes (s.body m) = some f ∧ e.SameJob f ∧
    ((s.place m).onBroker = true ∨ Concluded s m f)

/-- A message that is gone has ended its job, or the broker has taken a later one of the job. -/
theorem Sound.heir (h : Sound wire s) {e : Envelope V} (htaken : (s.place n).taken = true)
    (hbody : wire.fromBytes (s.body n) = some e) : Kept wire s e n ∨
      ∃ m, n < m ∧ m < s.next ∧ (s.place m).taken = true ∧
        ∃ f, wire.fromBytes (s.body m) = some f ∧ e.SameJob f := by
  cases hplace : s.place n with
  | unpublished | inFlight _ | refused =>
    rw [hplace] at htaken
    cases htaken
  | ready queue | unacked queue =>
    exact .inl ⟨e, hbody, .refl e, .inl (by rw [hplace]; rfl)⟩
  | discarded => exact absurd hplace (h.spared n)
  | settled =>
    obtain ⟨k, c, hby, hk, hdelivered, hstage⟩ := h.settled n hplace
    have hc := h.calls k c hk
    match hr : c.request with
    | .publish _ _ | .defer _ _ =>
      rw [hr] at hdelivered
      cases hdelivered
    | .settle n' e' op =>
      rw [hr] at hdelivered
      obtain rfl := Option.some.inj hdelivered
      obtain ⟨-, -, hread, hop⟩ := hc.delivered n' e' op hr
      obtain rfl := Option.some.inj (hbody.symm.trans hread)
      by_cases hnone : c.request.successor c.options = none
      · refine .inl ⟨e, hbody, .refl e, .inr ⟨k, c, op, hby, hk, hr, ?_⟩⟩
        rw [hr] at hnone
        cases op with
        | ack => exact .inl ⟨rfl, hop⟩
        | deadLetter reason =>
          exact .inr ⟨reason, rfl, hop, by simpa [Request.successor] using hnone⟩
        | retry next delay | defer next delay => cases hnone
      · obtain ⟨m, hm, hmtaken⟩ := hc.confirmed (.inr hstage) hnone
        obtain ⟨hlt, hlater, f, hf, hmbody⟩ := hc.successor m hm
        refine .inr ⟨m, hlater n' (by rw [hr]; rfl), hlt, hmtaken, f, hmbody, ?_⟩
        rw [hr] at hf
        cases op with
        | ack => cases hf
        | deadLetter reason =>
          obtain ⟨-, rfl⟩ : c.options.declareDeadLetterQueues = true ∧ e = f := by
            simpa [Request.successor] using hf
          exact .refl e
        | retry next delay | defer next delay =>
          obtain rfl := Option.some.inj hf
          exact hop

theorem Sound.kept (h : Sound wire s) {e : Envelope V} (htaken : (s.place n).taken = true)
    (hbody : wire.fromBytes (s.body n) = some e) : ∃ m, Kept wire s e m := by
  let known : ℕ → Prop := fun a => (s.place a).taken = true ∧
    ∃ f, wire.fromBytes (s.body a) = some f ∧ e.SameJob f
  have next : ∀ a, known a → Kept wire s e a ∨ ∃ b, (a < b ∧ b < s.next) ∧ known b := by
    rintro a ⟨hataken, f, hf, hsame⟩
    obtain ⟨g, hg, hfg, hwhere⟩ | ⟨b, hab, hb, hbtaken, g, hg, hfg⟩ := h.heir hataken hf
    · exact .inl ⟨g, hg, hsame.trans hfg, hwhere⟩
    · exact .inr ⟨b, ⟨hab, hb⟩, hbtaken, g, hg, hsame.trans hfg⟩
  obtain ⟨m, -, -, hkept⟩ := Lineage.exists_kept (Lineage.wf_of_lt fun _ _ hab => hab) next
    ⟨htaken, e, hbody, .refl e⟩
  exact ⟨m, hkept⟩

/-- A call that has returned `Ok` has had the broker take its envelope. -/
theorem Sound.accepted {e : Envelope V} (h : Sound wire s) (hk : s.calls k = some c)
    (he : c.request.enqueued = some e) (hok : c.client.result = some (.ok ())) :
    ∃ n, (s.place n).taken = true ∧ wire.fromBytes (s.body n) = some e := by
  have hc := h.calls k c hk
  have hgoal : c.request.goal = .confirmed ∧ c.request.successor c.options = some e := by
    cases hr : c.request <;> rw [hr] at he
    · exact ⟨rfl, he⟩
    · exact ⟨rfl, he⟩
    · cases he
  have hstage : c.stage wire = .confirmed := by
    have hkeeps := hc.keeps
    unfold Interaction.Client.result at hok
    split at hok
    · next r hrest =>
      obtain rfl := Option.some.inj hok
      rw [hrest] at hkeeps
      exact (hkeeps rfl).trans hgoal.1
    · cases hok
  obtain ⟨m, hm, htaken⟩ := hc.confirmed (.inl hstage) (by rw [hgoal.2]; simp)
  obtain ⟨-, -, f, hf, hbody⟩ := hc.successor m hm
  obtain rfl := Option.some.inj (hgoal.2.symm.trans hf)
  exact ⟨m, htaken, hbody⟩

def greeting : Envelope String := ⟨0x67e5504410b1426f9247bb680e5fe0c8, "Greet", "mail", 2,
  1700000000000, 0, 0, none, "ada"⟩

def greetingOptions : RabbitMqOptions := ⟨".dead", true, ".hold", .zero, .zero⟩

end Queuey.Rabbit.Broker
