import Queuey.Core.Dispatch

/-!
# How a delivery is settled

The decision table of the dispatcher, stated over what the user's code answers, and when
there is a settle call at all. `user` answers every question; a run asks each of its
questions once, so this covers every behaviour.
-/
namespace Queuey.Dispatch
open Interaction Interaction.Prog

variable {V J B : Type} {worker : Worker} {e : Envelope V} {user : (op : Op V J) → Ans B op}
  {handler : Handler} {policy : RetryPolicy}

/-- How the handler's task ends, unless it runs out of time. -/
def ended (timeout : Option Duration) (user : (op : Op V J) → Ans B op) : Option Joined :=
  match timeout with
  | some limit => user (.joinWithin limit)
  | none => some (user .join)

/-- The policy resolved for a job type. -/
def Worker.configured (worker : Worker) (e : Envelope V) (handler : Handler) : RetryPolicy :=
  (worker.policies e.jobType).getD handler.declaredPolicy

/-- The handler's task is started, to be judged by `policy`. -/
def Started (worker : Worker) (e : Envelope V) (user : (op : Op V J) → Ans B op)
    (handler : Handler) (policy : RetryPolicy) : Prop :=
  worker.handlers e.jobType = some handler ∧
    ∃ job chosen, user (.decode handler e.payload) = .ok (.ok job) ∧
      user (.setRetryPolicy handler job) = .ok chosen ∧
        policy = chosen.getD (worker.configured e handler)

/-- What the table distinguishes. -/
inductive Verdict where
  | noHandler
  | undecodable (text : String) (policy : RetryPolicy)
  | success
  | fatal (text : String) (policy : RetryPolicy)
  | retryable (text : String) (policy : RetryPolicy)
  | deferred (delay : Duration) (handler : Handler)

/-- The verdict on a delivery, by what the user's code does with it. -/
inductive Happens (worker : Worker) (e : Envelope V) (user : (op : Op V J) → Ans B op) :
    Verdict → Prop where
  | noHandler : worker.handlers e.jobType = none → Happens worker e user .noHandler
  | undecodable {handler : Handler} {text : String} : worker.handlers e.jobType = some handler →
      user (.decode handler e.payload) = .ok (.error text) → Happens worker e user
        (.undecodable ("serialization error: " ++ text) (worker.configured e handler))
  | success {handler : Handler} {policy : RetryPolicy} : Started worker e user handler policy →
      ended worker.jobTimeout user = some (.returned (.ok ())) → Happens worker e user .success
  | fatal {handler : Handler} {policy : RetryPolicy} {err : BoxedError} {text : String} :
      Started worker e user handler policy →
      ended worker.jobTimeout user = some (.returned (.error (.fatal err))) →
      err.display = .ok text → Happens worker e user (.fatal text policy)
  | retryable {handler : Handler} {policy : RetryPolicy} {err : BoxedError} {text : String} :
      Started worker e user handler policy →
      ended worker.jobTimeout user = some (.returned (.error (.retryable err))) →
      err.display = .ok text → Happens worker e user (.retryable text policy)
  | panicked {handler : Handler} {policy : RetryPolicy} : Started worker e user handler policy →
      ended worker.jobTimeout user = some .panicked →
      Happens worker e user (.retryable "handler panicked" policy)
  | cancelled {handler : Handler} {policy : RetryPolicy} {text : String} :
      Started worker e user handler policy →
      ended worker.jobTimeout user = some (.cancelled text) →
      Happens worker e user (.retryable ("handler task failed: " ++ text) policy)
  | timedOut {handler : Handler} {policy : RetryPolicy} {limit : Duration} :
      Started worker e user handler policy → worker.jobTimeout = some limit →
      ended worker.jobTimeout user = none →
      Happens worker e user (.retryable ("job timed out after " ++ limit.debug) policy)
  | deferred {handler : Handler} {policy : RetryPolicy} {delay : Duration} {reason : String} :
      Started worker e user handler policy →
      ended worker.jobTimeout user = some (.returned (.error (.deferred delay reason))) →
      Happens worker e user (.deferred delay handler)

/-- The hook's runs before a dead letter. -/
def hooked (worker : Worker) (e : Envelope V) (cause : DeadLetterCause) (reason : String)
    (maxAttempts : Option UInt32) : List (Op V J) :=
  if worker.hook then [.onDeadLetter ⟨e, cause, reason, maxAttempts⟩] else []

/-- The reason recorded for a job that has used up its attempts. -/
def exhausted (policy : RetryPolicy) (e : Envelope V) (text : String) : String :=
  "max attempts (" ++ toString policy.maxAttempts.toNat ++ ") exhausted after attempt " ++
    toString e.attempt.toNat ++ ": " ++ text

/-- The decision table: the hook's runs and then the settle call that a verdict demands. -/
inductive Demands (worker : Worker) (e : Envelope V) :
    Verdict → List (Op V J) → Op V J → Prop where
  | noHandler {reason : String} : reason = "no handler for job type `" ++ e.jobType ++ "`" →
      Demands worker e .noHandler (hooked worker e .noHandler reason none) (.deadLetter reason)
  | undecodable {text reason : String} {policy : RetryPolicy} :
      reason = "decode error: " ++ text → Demands worker e (.undecodable text policy)
        (hooked worker e .decode reason (some policy.maxAttempts)) (.deadLetter reason)
  | success : Demands worker e .success [] .ack
  | fatal {text reason : String} {policy : RetryPolicy} :
      reason = "fatal error: " ++ text → Demands worker e (.fatal text policy)
        (hooked worker e .fatal reason (some policy.maxAttempts)) (.deadLetter reason)
  | retry {text : String} {policy : RetryPolicy} {delay : Duration} :
      e.attempt < policy.maxAttempts →
      policy.backoff.delayFor worker.floats worker.rng e.attempt = .ok delay →
      Demands worker e (.retryable text policy) []
        (.retry { e with attempt := e.attempt + 1, priority := 0 } delay)
  | giveUp {text reason : String} {policy : RetryPolicy} : policy.maxAttempts ≤ e.attempt →
      reason = exhausted policy e text → Demands worker e (.retryable text policy)
        (hooked worker e .exhausted reason (some policy.maxAttempts)) (.deadLetter reason)
  | deferred {delay : Duration} {handler : Handler} : Demands worker e (.deferred delay handler) []
      (.defer { e with deferrals := e.deferrals + 1, priority := handler.deferPriority } delay)

theorem exists_demands (worker : Worker) (e : Envelope V) (verdict : Verdict) :
    ∃ hooks op, Demands (J := J) worker e verdict hooks op := by
  cases verdict with
  | noHandler => exact ⟨_, _, .noHandler rfl⟩
  | undecodable text policy => exact ⟨_, _, .undecodable rfl⟩
  | success => exact ⟨_, _, .success⟩
  | fatal text policy => exact ⟨_, _, .fatal rfl⟩
  | retryable text policy =>
    rcases decide_cases worker.floats worker.rng policy e.attempt with ⟨hle, -⟩ | ⟨hlt, d, hd, -⟩
    · exact ⟨_, _, .giveUp hle rfl⟩
    · exact ⟨_, _, .retry hlt hd⟩
  | deferred delay handler => exact ⟨_, _, .deferred⟩

/-! ## What the parts of the program do -/

/-- The broker refuses the settle call. -/
def refused (user : (op : Op V J) → Ans B op) : Op V J → Bool
  | .ack => (user .ack).toOption.isNone
  | .deadLetter reason => (user (.deadLetter reason)).toOption.isNone
  | .retry next delay => (user (.retry next delay)).toOption.isNone
  | .defer next delay => (user (.defer next delay)).toOption.isNone
  | _ => false

/-- A settle call, counted if it fails. -/
def settling (user : (op : Op V J) → Ans B op) (op : Op V J) : List (Op V J) :=
  op :: if refused user op then [.countFailure] else []

/-- Calls that neither settle nor notify nor count. -/
def Quiet (ops : List (Op V J)) : Prop :=
  ∀ op ∈ ops, op.visible = false ∧ op ≠ .countFailure

theorem settle_does (op : Op V J) (result : Except (Error B) Unit)
    (h : refused user op = result.toOption.isNone) :
    (settle (V := V) (J := J) result).run.Does user
      (if refused user op then [.countFailure] else []) (.ok ()) := by
  rw [h]
  cases result with
  | ok u => exact does_run_pure
  | error err => exact does_run_perform

theorem deadLettered_does (worker : Worker) (e : Envelope V) (cause : DeadLetterCause)
    (reason : String) (maxAttempts : Option UInt32) :
    (deadLettered (J := J) (B := B) worker.hook e cause reason maxAttempts).run.Does user
      (hooked worker e cause reason maxAttempts ++ settling user (.deadLetter reason))
      (.ok ()) := by
  have notified : (notifyDead (J := J) (B := B) worker.hook e cause reason maxAttempts).run.Does
      user (hooked worker e cause reason maxAttempts) (.ok ()) := by
    unfold notifyDead hooked
    split
    · exact Does.seq does_run_perform does_run_pure
    · exact does_run_pure
  exact notified.seq (does_run_perform.seq (settle_does (.deadLetter reason) _ rfl))

/-- What the end of the handler's task comes to. -/
def comesTo (timeout : Option Duration) (user : (op : Op V J) → Ans B op) :
    Except Panic JobOutcome :=
  match timeout with
  | some limit =>
    match user (.joinWithin limit) with
    | some joined => JobOutcome.ofJoined joined
    | none => .ok (.retryable ("job timed out after " ++ limit.debug))
  | none => JobOutcome.ofJoined (user .join)

theorem unwinding_does {α : Type} (x : Except Panic α) :
    (unwinding (V := V) (J := J) (B := B) x).run.Does user [] x := by
  cases x with
  | ok a => exact does_run_pure
  | error p => exact does_run_throw

theorem awaitTask_does (timeout : Option Duration) (user : (op : Op V J) → Ans B op) :
    ∃ ops, Quiet ops ∧ (awaitTask timeout).run.Does user ops (comesTo timeout user) := by
  cases timeout with
  | none =>
    refine ⟨[.join], by simp [Quiet, Op.visible, Op.settles], ?_⟩
    exact does_run_perform.seq (unwinding_does _)
  | some limit =>
    cases h : user (.joinWithin limit) with
    | some joined =>
      refine ⟨[.joinWithin limit], by simp [Quiet, Op.visible, Op.settles], ?_⟩
      simp only [comesTo, h]
      refine does_run_perform.seq (l := []) ?_
      rw [h]
      exact unwinding_does _
    | none =>
      refine ⟨[.joinWithin limit, .abort, .joinAborted], by simp [Quiet, Op.visible, Op.settles], ?_⟩
      simp only [comesTo, h]
      refine does_run_perform.seq (l := [Op.abort, Op.joinAborted]) ?_
      rw [h]
      exact does_run_perform.seq (does_run_perform.seq does_run_pure)

/-- The outcome of a run of the handler and the policy it is judged by. -/
def judged (handler : Handler) (e : Envelope V) (timeout : Option Duration)
    (configured : RetryPolicy) (user : (op : Op V J) → Ans B op) :
    Except Panic (JobOutcome × RetryPolicy) :=
  match user (.decode handler e.payload) with
  | .error p => .error p
  | .ok (.error text) => .ok (.decode ("serialization error: " ++ text), configured)
  | .ok (.ok job) =>
    match user (.setRetryPolicy handler job) with
    | .error p => .error p
    | .ok chosen => (comesTo timeout user).map fun outcome => (outcome, chosen.getD configured)

/-- The handler's task is started with the context of this attempt, and awaited. -/
theorem runHandler_started {timeout : Option Duration} {job : J} {chosen : Option RetryPolicy}
    {waits : List (Op V J)} (configured : RetryPolicy)
    (hd : user (.decode handler e.payload) = .ok (.ok job))
    (hc : user (.setRetryPolicy handler job) = .ok chosen)
    (hwaits : (awaitTask timeout).run.Does user waits (comesTo timeout user)) :
    (runHandler handler e timeout configured).run.Does user
      (.decode handler e.payload :: .setRetryPolicy handler job :: .nowMs ::
        .spawn handler job (jobContext handler e (chosen.getD configured) (user .nowMs)) :: waits)
      ((comesTo timeout user).map fun outcome => (outcome, chosen.getD configured)) := by
  unfold runHandler
  refine does_run_perform.seq (l := Op.setRetryPolicy handler job :: Op.nowMs ::
    Op.spawn handler job (jobContext handler e (chosen.getD configured) (user .nowMs)) :: waits) ?_
  rw [hd]
  refine does_run_pure.seq (does_run_perform.seq (l := Op.nowMs ::
    Op.spawn handler job (jobContext handler e (chosen.getD configured) (user .nowMs)) :: waits) ?_)
  rw [hc]
  refine does_run_pure.seq (does_run_perform.seq (does_run_perform.seq (l := waits) ?_))
  exact hwaits.returned fun outcome => (outcome, chosen.getD configured)

theorem runHandler_does (handler : Handler) (e : Envelope V) (timeout : Option Duration)
    (configured : RetryPolicy) (user : (op : Op V J) → Ans B op) :
    ∃ ops, Quiet ops ∧ (runHandler handler e timeout configured).run.Does user ops
      (judged handler e timeout configured user) := by
  cases hd : user (.decode handler e.payload) with
  | error p =>
    refine ⟨[.decode handler e.payload], by simp [Quiet, Op.visible, Op.settles], ?_⟩
    refine does_run_perform.seq (l := []) ?_
    simp only [judged, hd]
    exact does_run_throw.stop
  | ok decoded =>
    cases decoded with
    | error text =>
      refine ⟨[.decode handler e.payload], by simp [Quiet, Op.visible, Op.settles], ?_⟩
      refine does_run_perform.seq (l := []) ?_
      simp only [judged, hd]
      exact does_run_pure.seq does_run_pure
    | ok job =>
      cases hc : user (.setRetryPolicy handler job) with
      | error p =>
        refine ⟨[.decode handler e.payload, .setRetryPolicy handler job],
          by simp [Quiet, Op.visible, Op.settles], ?_⟩
        refine does_run_perform.seq (l := [Op.setRetryPolicy handler job]) ?_
        rw [hd]
        refine does_run_pure.seq (does_run_perform.seq (l := []) ?_)
        rw [hc]
        simp only [judged, hd, hc]
        exact does_run_throw.stop
      | ok chosen =>
        obtain ⟨waits, hquiet, hwaits⟩ := awaitTask_does timeout user
        refine ⟨.decode handler e.payload :: .setRetryPolicy handler job :: .nowMs ::
          .spawn handler job (jobContext handler e (chosen.getD configured) (user .nowMs)) :: waits,
          by simpa [Quiet, Op.visible, Op.settles] using hquiet, ?_⟩
        simp only [judged, hd, hc]
        exact runHandler_started configured hd hc hwaits

/-- The verdict an outcome stands for. -/
def JobOutcome.verdict (handler : Handler) (policy : RetryPolicy) : JobOutcome → Verdict
  | success => .success
  | decode text => .undecodable text policy
  | retryable text => .retryable text policy
  | fatal text => .fatal text policy
  | deferred delay _ => .deferred delay handler

/-- The attempt counter cannot overflow: a retry is decided only below the policy's limit. -/
theorem nextAttempt_below {n : UInt32} (h : n < policy.maxAttempts) : n.toNat < u32Max := by
  have hlt : n.toNat < policy.maxAttempts.toNat := UInt32.lt_iff_toNat_lt.mp h
  have hmax := policy.maxAttempts.toNat_lt
  unfold u32Max
  omega

/-- The calls a verdict demands, made by the end of the program. -/
theorem settleOutcome_does {outcome : JobOutcome} {hooks : List (Op V J)} {op : Op V J}
    (hd : Demands worker e (outcome.verdict handler policy) hooks op)
    (hfits : ∀ delay reason, outcome = .deferred delay reason → e.deferrals.toNat < u32Max) :
    (settleOutcome worker handler e policy outcome).run.Does user (hooks ++ settling user op)
      (.ok ()) := by
  cases outcome with
  | success =>
    cases hd with
    | success => exact does_run_perform.seq (settle_does .ack _ rfl)
  | decode text =>
    cases hd with
    | undecodable hr => subst hr; exact deadLettered_does worker e _ _ _
  | fatal text =>
    cases hd with
    | fatal hr => subst hr; exact deadLettered_does worker e _ _ _
  | deferred delay reason =>
    cases hd with
    | deferred =>
      have hnext := Envelope.deferred_eq worker.build handler.deferPriority (hfits delay reason rfl)
      simp only [settleOutcome, hnext]
      exact (unwinding_does (.ok _)).seq (does_run_perform.seq (settle_does (.defer _ _) _ rfl))
  | retryable text =>
    cases hd with
    | @retry _ _ delay hlt hdelay =>
      have hdecide : policy.decide worker.floats worker.rng e.attempt = .ok (.retry delay) := by
        simp only [RetryPolicy.decide, ge_iff_le, UInt32.not_le.mpr hlt, if_false, hdelay]
        rfl
      have hnext := Envelope.nextAttempt_eq worker.build (e := e) (nextAttempt_below hlt)
      simp only [settleOutcome, hdecide]
      refine (unwinding_does (.ok _)).seq ?_
      simp only [hnext]
      exact (unwinding_does (.ok _)).seq (does_run_perform.seq (settle_does (.retry _ _) _ rfl))
    | giveUp hle hr =>
      subst hr
      have hdecide : policy.decide worker.floats worker.rng e.attempt = .ok .giveUp := by
        simp [RetryPolicy.decide, hle]
      simp only [settleOutcome, hdecide]
      exact (unwinding_does (.ok _)).seq (deadLettered_does worker e _ _ _)

/-! ## From the user's code to the verdict -/

theorem started_judged {outcome : JobOutcome} (h : Started worker e user handler policy)
    (hend : comesTo worker.jobTimeout user = .ok outcome) :
    judged handler e worker.jobTimeout (worker.configured e handler) user =
      .ok (outcome, policy) := by
  obtain ⟨-, job, chosen, hd, hc, rfl⟩ := h
  simp [judged, hd, hc, hend, Except.map]

theorem comesTo_joined {timeout : Option Duration} {joined : Joined}
    (h : ended timeout user = some joined) : comesTo timeout user = JobOutcome.ofJoined joined := by
  cases timeout with
  | none => rw [← Option.some.inj h]; rfl
  | some limit =>
    have hj : user (.joinWithin limit) = some joined := h
    simp [comesTo, hj]

/-- A verdict other than `noHandler` is that of the outcome of the handler's run. -/
theorem happens_judged {verdict : Verdict} (h : Happens worker e user verdict) :
    (verdict = .noHandler ∧ worker.handlers e.jobType = none) ∨
      ∃ handler outcome policy, worker.handlers e.jobType = some handler ∧
        judged handler e worker.jobTimeout (worker.configured e handler) user =
          .ok (outcome, policy) ∧ outcome.verdict handler policy = verdict := by
  have started : ∀ {handler policy} {o : JobOutcome}, Started worker e user handler policy →
      comesTo worker.jobTimeout user = .ok o → o.verdict handler policy = verdict →
      ∃ handler outcome policy, worker.handlers e.jobType = some handler ∧
        judged handler e worker.jobTimeout (worker.configured e handler) user =
          .ok (outcome, policy) ∧ outcome.verdict handler policy = verdict :=
    fun hs hend hv => ⟨_, _, _, hs.1, started_judged hs hend, hv⟩
  cases h with
  | noHandler hnone => exact .inl ⟨rfl, hnone⟩
  | undecodable hsome hd =>
    exact .inr ⟨_, .decode _, _, hsome, by simp [judged, hd], rfl⟩
  | success hs hend => exact .inr (started hs (comesTo_joined hend) rfl)
  | fatal hs hend ht =>
    refine .inr (started hs (o := .fatal _) ?_ rfl)
    rw [comesTo_joined hend, JobOutcome.ofJoined, ht]
    rfl
  | retryable hs hend ht =>
    refine .inr (started hs (o := .retryable _) ?_ rfl)
    rw [comesTo_joined hend, JobOutcome.ofJoined, ht]
    rfl
  | panicked hs hend => exact .inr (started hs (comesTo_joined hend) rfl)
  | cancelled hs hend => exact .inr (started hs (comesTo_joined hend) rfl)
  | timedOut hs hlimit hend =>
    refine .inr (started hs (o := .retryable _) ?_ rfl)
    rw [hlimit] at hend ⊢
    have hnone : user (.joinWithin _) = none := hend
    simp [comesTo, hnone]
  | deferred hs hend => exact .inr (started hs (comesTo_joined hend) rfl)

theorem comesTo_happens {outcome : JobOutcome} (hs : Started worker e user handler policy)
    (hend : comesTo worker.jobTimeout user = .ok outcome) :
    Happens worker e user (outcome.verdict handler policy) := by
  cases hj : ended worker.jobTimeout user with
  | none =>
    cases ht : worker.jobTimeout with
    | none => rw [ht] at hj; cases hj
    | some limit =>
      have hnone : user (.joinWithin limit) = none := by rw [ht] at hj; exact hj
      simp only [comesTo, ht, hnone] at hend
      cases hend
      exact .timedOut hs ht hj
  | some joined =>
    rw [comesTo_joined hj] at hend
    cases joined with
    | panicked => cases hend; exact .panicked hs hj
    | cancelled text => cases hend; exact .cancelled hs hj
    | returned result =>
      cases result with
      | ok u => cases hend; exact .success hs hj
      | error err =>
        cases err with
        | deferred delay reason => cases hend; exact .deferred hs hj
        | fatal source =>
          cases ht : source.display with
          | error p => rw [JobOutcome.ofJoined, ht] at hend; cases hend
          | ok text => rw [JobOutcome.ofJoined, ht] at hend; cases hend; exact .fatal hs hj ht
        | retryable source =>
          cases ht : source.display with
          | error p => rw [JobOutcome.ofJoined, ht] at hend; cases hend
          | ok text => rw [JobOutcome.ofJoined, ht] at hend; cases hend; exact .retryable hs hj ht

/-- Conversely, a run of the handler that comes to an outcome has its verdict. -/
theorem judged_happens {outcome : JobOutcome} (hsome : worker.handlers e.jobType = some handler)
    (h : judged handler e worker.jobTimeout (worker.configured e handler) user =
      .ok (outcome, policy)) : Happens worker e user (outcome.verdict handler policy) := by
  unfold judged at h
  split at h
  · cases h
  · rename_i text hd
    cases h
    exact .undecodable hsome hd
  · rename_i job hd
    split at h
    · cases h
    · rename_i chosen hc
      have hs : Started worker e user handler (chosen.getD (worker.configured e handler)) :=
        ⟨hsome, job, chosen, hd, hc, rfl⟩
      cases hend : comesTo worker.jobTimeout user with
      | error p => rw [hend] at h; cases h
      | ok o =>
        rw [hend] at h
        cases h
        exact comesTo_happens hs hend

/-- The program does what the verdict demands, and before that nothing to be seen. -/
theorem process_does {verdict : Verdict} {hooks : List (Op V J)} {op : Op V J}
    (h : Happens worker e user verdict) (hd : Demands worker e verdict hooks op)
    (hfits : ∀ delay handler, verdict = .deferred delay handler → e.deferrals.toNat < u32Max) :
    ∃ before, Quiet before ∧
      (process worker e).run.Does user (before ++ (hooks ++ settling user op)) (.ok ()) := by
  rcases happens_judged h with ⟨rfl, hnone⟩ | ⟨handler, outcome, policy, hsome, hjudged, rfl⟩
  · cases hd with
    | noHandler hr =>
      subst hr
      refine ⟨[], by simp [Quiet], ?_⟩
      simp only [process, hnone]
      exact deadLettered_does worker e _ _ _
  · obtain ⟨before, hquiet, hrun⟩ :=
      runHandler_does handler e worker.jobTimeout (worker.configured e handler) user
    rw [hjudged] at hrun
    refine ⟨before, hquiet, ?_⟩
    simp only [process, hsome]
    refine hrun.seq (settleOutcome_does hd ?_)
    rintro delay reason rfl
    exact hfits delay handler rfl

/-- Without a verdict the user's code has panicked on the dispatch path. -/
theorem process_unwinds (h : ∀ verdict, ¬Happens worker e user verdict) :
    ∃ ops p, Quiet ops ∧ (process worker e).run.Does user ops (.error p) := by
  cases hsome : worker.handlers e.jobType with
  | none => exact absurd (.noHandler hsome) (h .noHandler)
  | some handler =>
    obtain ⟨ops, hquiet, hrun⟩ :=
      runHandler_does handler e worker.jobTimeout (worker.configured e handler) user
    cases hjudged : judged handler e worker.jobTimeout (worker.configured e handler) user with
    | ok r => exact absurd (judged_happens hsome hjudged) (h _)
    | error p =>
      rw [hjudged] at hrun
      refine ⟨ops, p, hquiet, ?_⟩
      simp only [process, hsome]
      exact hrun.stop

theorem Quiet.visible {ops : List (Op V J)} (h : Quiet ops) : ops.filter Op.visible = [] := by
  rw [List.filter_eq_nil_iff]
  intro op hop
  simp [(h op hop).1]

theorem settles_visible {op : Op V J} (h : op.settles = true) : op.visible = true := by
  cases op <;> first | rfl | cases h

theorem Quiet.settles {ops : List (Op V J)} (h : Quiet ops) : ∀ op ∈ ops, op.settles = false := by
  intro op hop
  by_contra hs
  have hvisible := settles_visible (by simpa using hs)
  rw [(h op hop).1] at hvisible
  cases hvisible

theorem Demands.settles {verdict : Verdict} {hooks : List (Op V J)} {op : Op V J}
    (h : Demands worker e verdict hooks op) : op.settles = true := by
  cases h <;> rfl

theorem hooked_visible {cause : DeadLetterCause} {reason : String} {maxAttempts : Option UInt32} :
    ∀ o ∈ hooked (J := J) worker e cause reason maxAttempts,
      o.visible = true ∧ o.settles = false := by
  intro o ho
  unfold hooked at ho
  split at ho
  · obtain rfl := List.mem_singleton.mp ho
    exact ⟨rfl, rfl⟩
  · cases ho

theorem Demands.hooks_visible {verdict : Verdict} {hooks : List (Op V J)} {op : Op V J}
    (h : Demands worker e verdict hooks op) : ∀ o ∈ hooks, o.visible = true ∧ o.settles = false := by
  cases h with
  | success | retry | deferred =>
    intro o ho
    cases ho
  | noHandler | undecodable | fatal | giveUp => exact hooked_visible

theorem settling_visible {op : Op V J} (h : op.visible = true) :
    (settling user op).filter Op.visible = [op] := by
  unfold settling
  rw [List.filter_cons_of_pos h]
  split <;> rfl

/-- What is seen of a run with a verdict is what the verdict demands. -/
theorem shown_of_happens {verdict : Verdict} {hooks : List (Op V J)} {op : Op V J}
    (h : Happens worker e user verdict) (hd : Demands worker e verdict hooks op)
    (hfits : ∀ delay handler, verdict = .deferred delay handler → e.deferrals.toNat < u32Max) :
    ((process worker e).run.trace user).filter Op.visible = hooks ++ [op] := by
  obtain ⟨before, hquiet, hrun, -⟩ := process_does h hd hfits
  have hkept : hooks.filter Op.visible = hooks := by
    rw [List.filter_eq_self]
    exact fun o ho => (hd.hooks_visible o ho).1
  rw [hrun, List.filter_append, List.filter_append, hquiet.visible, hkept,
    settling_visible (settles_visible hd.settles), List.nil_append]

/-! ## The accounting of a settle call -/

/-- At the last count a deferral panics, or wraps the count to zero. -/
theorem settleOutcome_overflow (worker : Worker) (handler : Handler) (policy : RetryPolicy)
    (delay : Duration) (reason : String) (user : (op : Op V J) → Ans B op)
    (hfull : ¬e.deferrals.toNat < u32Max) :
    (settleOutcome worker handler e policy (.deferred delay reason)).run.Does user []
        (.error ⟨"attempt to add with overflow"⟩) ∨
      (settleOutcome worker handler e policy (.deferred delay reason)).run.Does user
        (settling user (.defer { e with deferrals := 0, priority := handler.deferPriority } delay))
        (.ok ()) := by
  have hnext : e.deferred worker.build handler.deferPriority =
      if worker.build.overflowChecks then .error ⟨"attempt to add with overflow"⟩
      else .ok { e with deferrals := 0, priority := handler.deferPriority } :=
    Envelope.deferred_overflow handler.deferPriority hfull
  simp only [settleOutcome, hnext]
  cases worker.build.overflowChecks with
  | true => exact .inl does_run_throw.stop
  | false =>
    exact .inr ((unwinding_does (.ok _)).seq (does_run_perform.seq (settle_does (.defer _ _) _ rfl)))

/-- The decision table. A run that settles its delivery has a verdict; and for every
verdict, what is seen of the run is the hook's runs and the one settle call it demands. -/
theorem dispatch_table (worker : Worker) (e : Envelope V) (user : (op : Op V J) → Ans B op)
    (h : e.deferrals.toNat < u32Max) :
    ((∃ op ∈ (process worker e).run.trace user, op.settles = true) →
      ∃ verdict, Happens worker e user verdict) ∧
    ∀ verdict, Happens worker e user verdict → ∃ hooks op, Demands worker e verdict hooks op ∧
      ((process worker e).run.trace user).filter Op.visible = hooks ++ [op] := by
  constructor
  · rintro ⟨op, hop, hsettles⟩
    by_contra hnone
    obtain ⟨ops, p, hquiet, hrun, -⟩ := process_unwinds (not_exists.mp hnone)
    rw [hrun] at hop
    have := (hquiet op hop).1
    rw [settles_visible hsettles] at this
    cases this
  · intro verdict hv
    obtain ⟨hooks, op, hd⟩ := exists_demands (J := J) worker e verdict
    exact ⟨hooks, op, hd, shown_of_happens hv hd fun _ _ _ => h⟩

/-! ## When there is a settle call -/

/-- The counters of a successor are one up where they should be, and nowhere wrapped. -/
def Op.CountersSound (e : Envelope V) : Op V J → Prop
  | .retry next _ => next.attempt.toNat = e.attempt.toNat + 1 ∧ next.deferrals = e.deferrals
  | .defer next _ => next.deferrals.toNat = e.deferrals.toNat + 1 ∧ next.attempt = e.attempt
  | _ => True

/-- One settle call with sound counters, counted as a failure exactly when it is refused. -/
def SettledOnce (e : Envelope V) (user : (op : Op V J) → Ans B op) (ops : List (Op V J)) : Prop :=
  ∃ before op, ops = before ++ settling user op ∧ op.settles = true ∧ op.CountersSound e ∧
    ∀ o ∈ before, o.settles = false ∧ o ≠ .countFailure

/-- The code panics on the dispatch path, or the handler defers at the last count. -/
def Obstructed (worker : Worker) (e : Envelope V) (user : (op : Op V J) → Ans B op) : Prop :=
  ∃ handler, worker.handlers e.jobType = some handler ∧
    ((∃ p, user (.decode handler e.payload) = .error p) ∨
      ∃ job, user (.decode handler e.payload) = .ok (.ok job) ∧
        ((∃ p, user (.setRetryPolicy handler job) = .error p) ∨
          ∃ err, ended worker.jobTimeout user = some (.returned (.error err)) ∧
            ((∃ source p, (err = .retryable source ∨ err = .fatal source) ∧
                source.display = .error p) ∨
              ∃ delay reason, err = .deferred delay reason ∧ ¬e.deferrals.toNat < u32Max)))

theorem not_settled_of_quiet {ops : List (Op V J)} (h : Quiet ops) : ¬SettledOnce e user ops := by
  rintro ⟨before, op, rfl, hsettles, -, -⟩
  have := (h op (by simp [settling])).1
  rw [settles_visible hsettles] at this
  cases this

theorem Demands.countersSound {verdict : Verdict} {hooks : List (Op V J)} {op : Op V J}
    (h : Demands worker e verdict hooks op)
    (hfits : ∀ delay handler, verdict = .deferred delay handler → e.deferrals.toNat < u32Max) :
    op.CountersSound e := by
  cases h with
  | retry hlt hdelay => exact ⟨increment_toNat (nextAttempt_below hlt), rfl⟩
  | deferred => exact ⟨increment_toNat (hfits _ _ rfl), rfl⟩
  | _ => trivial

theorem settled_of_verdict {verdict : Verdict} (h : Happens worker e user verdict)
    (hfits : ∀ delay handler, verdict = .deferred delay handler → e.deferrals.toNat < u32Max) :
    SettledOnce e user ((process worker e).run.trace user) := by
  obtain ⟨hooks, op, hd⟩ := exists_demands (J := J) worker e verdict
  obtain ⟨before, hquiet, hrun, -⟩ := process_does h hd hfits
  refine ⟨before ++ hooks, op, by rw [hrun, List.append_assoc], hd.settles,
    hd.countersSound hfits, ?_⟩
  intro o ho
  rcases List.mem_append.mp ho with ho | ho
  · exact ⟨hquiet.settles o ho, (hquiet o ho).2⟩
  · obtain ⟨hvisible, hs⟩ := hd.hooks_visible o ho
    refine ⟨hs, ?_⟩
    rintro rfl
    cases hvisible

/-- What unwinds at the end of a handler's task is the text of its error. -/
theorem panic_of_comesTo {timeout : Option Duration} {p : Panic}
    (h : comesTo timeout user = .error p) :
    ∃ err, ended timeout user = some (.returned (.error err)) ∧
      ((∃ source p, (err = .retryable source ∨ err = .fatal source) ∧ source.display = .error p) ∨
        ∃ delay reason, err = .deferred delay reason ∧ ¬e.deferrals.toNat < u32Max) := by
  cases hj : ended timeout user with
  | none =>
    cases timeout with
    | none => cases hj
    | some limit =>
      have hnone : user (.joinWithin limit) = none := hj
      simp [comesTo, hnone] at h
  | some joined =>
    rw [comesTo_joined hj] at h
    cases joined with
    | panicked => cases h
    | cancelled text => cases h
    | returned result =>
      cases result with
      | ok u => cases h
      | error err =>
        refine ⟨err, rfl, .inl ?_⟩
        cases err with
        | deferred delay reason => cases h
        | retryable source =>
          cases ht : source.display with
          | ok text => rw [JobOutcome.ofJoined, ht] at h; cases h
          | error p => exact ⟨source, p, .inl rfl, ht⟩
        | fatal source =>
          cases ht : source.display with
          | ok text => rw [JobOutcome.ofJoined, ht] at h; cases h
          | error p => exact ⟨source, p, .inr rfl, ht⟩

theorem obstructed_of_no_verdict (h : ∀ verdict, ¬Happens worker e user verdict) :
    Obstructed worker e user := by
  cases hsome : worker.handlers e.jobType with
  | none => exact absurd (.noHandler hsome) (h .noHandler)
  | some handler =>
    refine ⟨handler, hsome, ?_⟩
    cases hd : user (.decode handler e.payload) with
    | error p => exact .inl ⟨p, rfl⟩
    | ok decoded =>
      cases decoded with
      | error text => exact absurd (.undecodable hsome hd) (h _)
      | ok job =>
        refine .inr ⟨job, rfl, ?_⟩
        cases hc : user (.setRetryPolicy handler job) with
        | error p => exact .inl ⟨p, rfl⟩
        | ok chosen =>
          have hs : Started worker e user handler (chosen.getD (worker.configured e handler)) :=
            ⟨hsome, job, chosen, hd, hc, rfl⟩
          cases hend : comesTo worker.jobTimeout user with
          | ok outcome => exact absurd (comesTo_happens hs hend) (h _)
          | error p => exact .inr (panic_of_comesTo hend)

/-- Nothing is settled once the handler's run has unwound. -/
theorem not_settled_of_judged {p : Panic} (hsome : worker.handlers e.jobType = some handler)
    (h : judged handler e worker.jobTimeout (worker.configured e handler) user = .error p) :
    ¬SettledOnce e user ((process worker e).run.trace user) := by
  obtain ⟨ops, hquiet, hrun⟩ :=
    runHandler_does handler e worker.jobTimeout (worker.configured e handler) user
  rw [h] at hrun
  have hprocess : (process worker e).run.Does user ops (.error p) := by
    simp only [process, hsome]
    exact hrun.stop
  rw [hprocess.1]
  exact not_settled_of_quiet hquiet

theorem settling_settles {op : Op V J} (h : op.settles = true) :
    (settling user op).filter Op.settles = [op] := by
  unfold settling
  rw [List.filter_cons_of_pos h]
  split <;> rfl

/-- A list of calls has one settle call in it if it is made like this. -/
theorem settling_unique {before before' : List (Op V J)} {op op' : Op V J}
    (h : ∀ o ∈ before, o.settles = false) (hop : op.settles = true)
    (h' : ∀ o ∈ before', o.settles = false) (hop' : op'.settles = true)
    (heq : before ++ settling user op = before' ++ settling user op') : op = op' := by
  have none_of : ∀ {ops : List (Op V J)}, (∀ o ∈ ops, o.settles = false) →
      ops.filter Op.settles = [] := by
    intro ops hops
    rw [List.filter_eq_nil_iff]
    intro o ho
    simp [hops o ho]
  have hfilter := congrArg (List.filter Op.settles) heq
  rw [List.filter_append, List.filter_append, none_of h, none_of h', settling_settles hop,
    settling_settles hop'] at hfilter
  simpa using hfilter

/-- At the last count a deferral panics, or wraps to zero and is settled so. -/
theorem not_settled_of_overflow {delay : Duration} {reason : String}
    (hsome : worker.handlers e.jobType = some handler)
    (h : judged handler e worker.jobTimeout (worker.configured e handler) user =
      .ok (.deferred delay reason, policy)) (hfull : ¬e.deferrals.toNat < u32Max) :
    ¬SettledOnce e user ((process worker e).run.trace user) := by
  obtain ⟨ops, hquiet, hrun⟩ :=
    runHandler_does handler e worker.jobTimeout (worker.configured e handler) user
  rw [h] at hrun
  obtain hpanics | hwraps := settleOutcome_overflow worker handler policy delay reason user hfull
  · have hprocess : (process worker e).run.Does user (ops ++ [])
        (.error ⟨"attempt to add with overflow"⟩) := by
      simp only [process, hsome]
      exact hrun.seq hpanics
    rw [hprocess.1, List.append_nil]
    exact not_settled_of_quiet hquiet
  · have hprocess : (process worker e).run.Does user (ops ++ settling user
        (.defer { e with deferrals := 0, priority := handler.deferPriority } delay)) (.ok ()) := by
      simp only [process, hsome]
      exact hrun.seq hwraps
    rw [hprocess.1]
    rintro ⟨before, op, hops, hsettles, hsound, hbefore⟩
    obtain rfl := settling_unique hquiet.settles rfl (fun o ho => (hbefore o ho).1) hsettles hops
    exact absurd hsound.1 (by simp)

theorem not_settled_of_obstructed (h : Obstructed worker e user) :
    ¬SettledOnce e user ((process worker e).run.trace user) := by
  obtain ⟨handler, hsome, ⟨p, hd⟩ | ⟨job, hd, h⟩⟩ := h
  · exact not_settled_of_judged (p := p) hsome (by simp [judged, hd])
  · cases hc : user (.setRetryPolicy handler job) with
    | error p => exact not_settled_of_judged (p := p) hsome (by simp [judged, hd, hc])
    | ok chosen =>
      obtain ⟨p, hp⟩ | ⟨err, hend, ⟨source, p, herr, hp⟩ | ⟨delay, reason, rfl, hfull⟩⟩ := h
      · rw [hc] at hp
        cases hp
      · refine not_settled_of_judged (p := p) hsome ?_
        have hcomes := comesTo_joined hend
        rcases herr with rfl | rfl
        · rw [JobOutcome.ofJoined, hp] at hcomes
          simp [judged, hd, hc, hcomes, Except.map]
        · rw [JobOutcome.ofJoined, hp] at hcomes
          simp [judged, hd, hc, hcomes, Except.map]
      · have hs : Started worker e user handler (chosen.getD (worker.configured e handler)) :=
          ⟨hsome, job, chosen, hd, hc, rfl⟩
        exact not_settled_of_overflow hsome (started_judged hs (comesTo_joined hend)) hfull

/-- A delivery is settled once, with sound counters and an exact failure count, if and
only if nothing panics on the dispatch path and no deferral overflows. -/
theorem settled_once_iff (worker : Worker) (e : Envelope V) (user : (op : Op V J) → Ans B op) :
    SettledOnce e user ((process worker e).run.trace user) ↔ ¬Obstructed worker e user := by
  constructor
  · exact fun hs ho => not_settled_of_obstructed ho hs
  · intro h
    by_cases hv : ∃ verdict, Happens worker e user verdict
    · obtain ⟨verdict, hv⟩ := hv
      refine settled_of_verdict hv ?_
      rintro delay handler rfl
      by_contra hfull
      cases hv with
      | deferred hs hend =>
        obtain ⟨hsome, job, chosen, hd, hc, -⟩ := hs
        exact h ⟨_, hsome, .inr ⟨job, hd, .inr ⟨_, hend, .inr ⟨_, _, rfl, hfull⟩⟩⟩⟩
    · exact absurd (obstructed_of_no_verdict (not_exists.mp hv)) h

/-- Exact arithmetic in place of rounding, for runs on fixed inputs. -/
def exactFloats : Floats where
  asSecs d := .finite (d.nanos / nanosPerSec)
  ofSecs _ := none
  mul x _ := x
  powf x _ := x
  asSecs_spec d := ⟨d.nanos / nanosPerSec, div_nonneg (Nat.cast_nonneg _) (Nat.cast_nonneg _), rfl⟩

/-- A worker whose handler `send` belongs to the queue `mail`. -/
def mailWorker (overflowChecks : Bool) (timeout : Option Duration) : Worker where
  build := ⟨overflowChecks⟩
  floats := exactFloats
  rng := id
  handlers := fun jobType => if jobType = "send" then some ⟨"send", "mail", .new "mail", none⟩ else none
  policies := fun _ => some ⟨3, .none⟩
  hook := true
  jobTimeout := timeout

/-- User code that decodes and then ends as given; the broker accepts everything. -/
def ending (decoded : Except Panic (Except String Unit)) (policy : Except Panic (Option RetryPolicy))
    (joined : Joined) : (op : Op Unit Unit) → Ans Empty op
  | .decode _ _ => decoded
  | .setRetryPolicy _ _ => policy
  | .nowMs => 0
  | .join => joined
  | .joinWithin _ => some joined
  | .joinAborted => joined
  | .onDeadLetter _ => .ok ()
  | .ack | .deadLetter _ | .retry _ _ | .defer _ _ => .ok ()
  | .spawn _ _ _ | .abort | .countFailure => ()

/-- A handler that panics on the first of three attempts has its job retried. -/
theorem dispatch_panicked_retries :
    ((process (mailWorker true none) (.raw 7 0 "send" "mail" ())).run.trace
      (ending (.ok (.ok ())) (.ok none) .panicked)).filter Op.visible =
      [.retry { Envelope.raw 7 0 "send" "mail" () with attempt := 2 } .zero] := by
  have started : Started (mailWorker true none) (.raw 7 0 "send" "mail" ())
      (ending (.ok (.ok ())) (.ok none) .panicked) ⟨"send", "mail", .new "mail", none⟩ ⟨3, .none⟩ :=
    ⟨rfl, (), none, rfl, rfl, rfl⟩
  obtain ⟨hooks, op, hd, hshown⟩ := (dispatch_table _ _ _ (by decide)).2 _
    (.panicked started rfl)
  rw [hshown]
  cases hd with
  | retry hlt hdelay =>
    cases hdelay
    rfl
  | giveUp hle => exact absurd hle (by decide)

/-- A payload whose `Deserialize` panics, a `set_retry_policy` that panics, an error whose
`Display` panics, and a deferral at the last count, which panics or wraps. -/
theorem process_leaves_unsettled :
    (∀ user ∈ [ending (.error ⟨"deserialize"⟩) (.ok none) .panicked,
        ending (.ok (.ok ())) (.error ⟨"policy"⟩) .panicked,
        ending (.ok (.ok ())) (.ok none) (.returned (.error (.fatal ⟨.error ⟨"display"⟩⟩)))],
      ¬SettledOnce (.raw 7 0 "send" "mail" ()) user
        ((process (mailWorker true none) (.raw 7 0 "send" "mail" ())).run.trace user)) ∧
    ∀ checks, ¬SettledOnce { Envelope.raw 7 0 "send" "mail" () with deferrals := 4294967295 }
      (ending (.ok (.ok ())) (.ok none) (.returned (.error (.deferred .zero "busy"))))
      ((process (mailWorker checks none)
        { Envelope.raw 7 0 "send" "mail" () with deferrals := 4294967295 }).run.trace
        (ending (.ok (.ok ())) (.ok none) (.returned (.error (.deferred .zero "busy"))))) := by
  constructor
  · intro user huser
    apply not_settled_of_obstructed
    refine ⟨⟨"send", "mail", .new "mail", none⟩, rfl, ?_⟩
    simp only [List.mem_cons, List.not_mem_nil, or_false] at huser
    obtain rfl | rfl | rfl := huser
    · exact .inl ⟨_, rfl⟩
    · exact .inr ⟨(), rfl, .inl ⟨_, rfl⟩⟩
    · exact .inr ⟨(), rfl, .inr ⟨_, rfl, .inl ⟨_, _, .inr rfl, rfl⟩⟩⟩
  · intro checks
    apply not_settled_of_obstructed
    exact ⟨⟨"send", "mail", .new "mail", none⟩, rfl, .inr ⟨(), rfl, .inr ⟨_, rfl,
      .inr ⟨.zero, "busy", rfl, by decide⟩⟩⟩⟩

end Queuey.Dispatch
