import Mathlib.Data.List.Induction
import Queuey.Core.HandlerTask

/-!
# What the dead-letter hook is told

The hook runs at most once for a delivery, right before the delivery is dead-lettered with the
reason it was told. Its report is true: of the delivery, of whether the handler was started,
and of the policy that the handler's context spoke of.
-/
namespace Queuey.Dispatch
open Interaction

variable {V J B α : Type} {worker : Worker} {e : Envelope V} {handler : Handler}
  {policy : RetryPolicy}

/-- User code ran at all. -/
def DeadLetterCause.reachedHandler : DeadLetterCause → Bool
  | fatal | exhausted => true
  | noHandler | decode => false

/-! ## The account of a run -/

/-- What a run has come to know and do. -/
structure Account (V : Type) where
  /-- The payload did not decode. -/
  undecodable : Bool
  /-- The context the handler was started with. -/
  context : Option JobContext
  reported : Option (DeadLetter V)
  settled : Bool

namespace Account

def fresh : Account V := ⟨false, none, none, false⟩

/-- Nothing has been reported or settled. -/
def Open (a : Account V) : Prop := a.reported = none ∧ a.settled = false

/-- The report of the hook says what has happened. -/
structure Truthful (worker : Worker) (e : Envelope V) (a : Account V) (dead : DeadLetter V) :
    Prop where
  envelope : dead.envelope = e
  cause : match dead.cause with
    | .noHandler => worker.handlers e.jobType = none ∧ a.context = none ∧ dead.maxAttempts = none
    | .decode => a.undecodable = true ∧ a.context = none ∧ ∃ handler,
        worker.handlers e.jobType = some handler ∧
        dead.maxAttempts = some (worker.configured e handler).maxAttempts
    | .fatal => (worker.handlers e.jobType).isSome = true ∧
        ∃ ctx, a.context = some ctx ∧ dead.maxAttempts = some ctx.maxAttempts
    | .exhausted => (worker.handlers e.jobType).isSome = true ∧
        ∃ ctx, a.context = some ctx ∧ dead.maxAttempts = some ctx.maxAttempts ∧
          ctx.maxAttempts ≤ e.attempt

def Allows (worker : Worker) (e : Envelope V) (a : Account V) : Op V J → Prop
  | .onDeadLetter dead => worker.hook = true ∧ a.Open ∧ a.Truthful worker e dead
  | .deadLetter reason => a.settled = false ∧
      a.reported.map DeadLetter.reason = if worker.hook then some reason else none
  | .countFailure => a.settled = true
  | .spawn _ _ _ => a.Open ∧ a.context = none
  | _ => a.Open

def next (a : Account V) : (op : Op V J) → Ans B op → Account V
  | .decode _ _, .ok (.error _) => { a with undecodable := true }
  | .spawn _ _ ctx, _ => { a with context := some ctx }
  | .onDeadLetter dead, _ => { a with reported := some dead }
  | .ack, _ | .deadLetter _, _ | .retry _ _, _ | .defer _ _, _ => { a with settled := true }
  | _, _ => a

/-- A report is followed by the dead-lettering. -/
def Followed (a : Account V) : Prop := a.reported.isSome = true → a.settled = true

end Account

def account (worker : Worker) (e : Envelope V) : Protocol (Op V J) (Ans B) (Account V) where
  allows := Account.Allows worker e
  next := Account.next

/-! ## Every dispatch keeps to it -/

section Keeps
variable {a : Account V}

theorem account_unwinding {Q : Account V → Except Panic α → Prop} {x : Except Panic α}
    (h : Q a x) : (unwinding (V := V) (J := J) (B := B) x).run.Keeps (account worker e) Q a := by
  cases x with
  | ok _ => exact h
  | error _ => exact h

theorem account_settle (result : Except (Error B) Unit) (ha : a.settled = true) :
    (settle (V := V) (J := J) result).run.Keeps (account worker e) (fun t _ => t.Followed) a := by
  cases result with
  | ok u => exact fun _ => ha
  | error err => exact ⟨ha, fun _ _ => ha⟩

/-- A settle operation that is no dead-lettering. -/
theorem account_settling {o : Op V J} {f : Ans B o → Except (Error B) Unit}
    (allowed : (account (B := B) worker e).allows a o)
    (settled : ∀ x, ((account (B := B) worker e).next a o x).settled = true) :
    (ExceptT.run (ask o >>= fun x => settle (f x))).Keeps (account worker e)
      (fun t _ => t.Followed) a :=
  Prog.Keeps.ask allowed fun x => account_settle (f x) (settled x)

theorem account_deadLettered {cause : DeadLetterCause} {reason : String}
    {maxAttempts : Option UInt32} (open_ : a.Open)
    (truthful : a.Truthful worker e ⟨e, cause, reason, maxAttempts⟩) :
    (deadLettered (J := J) (B := B) worker.hook e cause reason maxAttempts).run.Keeps
      (account worker e) (fun t _ => t.Followed) a := by
  unfold deadLettered
  cases hhook : worker.hook with
  | true =>
    have notified : (notifyDead (J := J) (B := B) true e cause reason maxAttempts).run.Keeps
        (account worker e) (fun t r => t = { a with reported := some ⟨e, cause, reason,
          maxAttempts⟩ } ∧ r = .ok ()) a :=
      Prog.Keeps.ask ⟨hhook, open_, truthful⟩ fun _ => ⟨rfl, rfl⟩
    refine Prog.Keeps.seq notified (fun _ _ h => by cases h.2) ?_
    rintro t _ ⟨rfl, -⟩
    exact account_settling (o := .deadLetter reason) (f := id) ⟨open_.2, by simp [hhook]⟩
      fun _ => rfl
  | false =>
    exact account_settling (o := .deadLetter reason) (f := id)
      ⟨open_.2, by simp [hhook, open_.1]⟩ fun _ => rfl

/-- What is known once the handler has been run: the payload did not decode, or the handler was
started with a context that speaks of the policy and of the attempt. -/
def Ran (worker : Worker) (e : Envelope V) (handler : Handler) (a : Account V) :
    Except Panic (JobOutcome × RetryPolicy) → Prop
  | .error _ => a.Open
  | .ok (.decode _, policy) => a.Open ∧ a.undecodable = true ∧ a.context = none ∧
      policy = worker.configured e handler
  | .ok (_, policy) => a.Open ∧ ∃ ctx, a.context = some ctx ∧ ctx.maxAttempts = policy.maxAttempts

theorem Ran.started {outcome : JobOutcome} {ctx : JobContext} (open_ : a.Open)
    (started : a.context = some ctx) (attempts : ctx.maxAttempts = policy.maxAttempts)
    (decoded : ∀ text, outcome ≠ .decode text) : Ran worker e handler a (.ok (outcome, policy)) := by
  cases outcome with
  | decode text => exact absurd rfl (decoded text)
  | _ => exact ⟨open_, ctx, started, attempts⟩

theorem ofJoined_ne_decode {joined : Joined} {outcome : JobOutcome} {text : String}
    (h : JobOutcome.ofJoined joined = .ok outcome) : outcome ≠ .decode text := by
  have mapped : ∀ {x : Except Panic String} {f : String → JobOutcome}, (∀ s, f s ≠ .decode text) →
      x.map f = .ok outcome → outcome ≠ .decode text := by
    intro x f hf hx
    cases x with
    | ok s =>
      obtain rfl := Except.ok.inj hx
      exact hf s
    | error p => cases hx
  cases joined with
  | returned result =>
    cases result with
    | ok u =>
      obtain rfl := Except.ok.inj h
      simp
    | error err =>
      cases err with
      | retryable err => exact mapped (by simp) h
      | fatal err => exact mapped (by simp) h
      | deferred delay reason =>
        obtain rfl := Except.ok.inj h
        simp
  | panicked =>
    obtain rfl := Except.ok.inj h
    simp
  | cancelled text =>
    obtain rfl := Except.ok.inj h
    simp

/-- Awaiting the task changes nothing in the account. -/
def Awaited (a t : Account V) (r : Except Panic JobOutcome) : Prop :=
  t = a ∧ ∀ outcome, r = .ok outcome → ∀ text, outcome ≠ .decode text

theorem account_awaitTask (timeout : Option Duration) (open_ : a.Open) :
    (awaitTask (V := V) (J := J) (B := B) timeout).run.Keeps (account worker e) (Awaited a) a := by
  have known (joined : Joined) : (unwinding (V := V) (J := J) (B := B)
      (JobOutcome.ofJoined joined)).run.Keeps (account worker e) (Awaited a) a :=
    account_unwinding ⟨rfl, fun _ h _ => ofJoined_ne_decode h⟩
  cases timeout with
  | none => exact Prog.Keeps.ask open_ fun joined => known joined
  | some limit =>
    refine Prog.Keeps.ask open_ fun answer => ?_
    cases answer with
    | some joined => exact known joined
    | none =>
      refine Prog.Keeps.ask open_ fun _ => Prog.Keeps.ask open_ fun joined => ⟨rfl, ?_⟩
      intro outcome h
      obtain rfl := Except.ok.inj h
      simp

theorem account_runHandler (handler : Handler) :
    (runHandler (J := J) (B := B) handler e worker.jobTimeout
      (worker.configured e handler)).run.Keeps (account worker e) (Ran worker e handler) .fresh := by
  have nothing : (Account.fresh : Account V).Open := ⟨rfl, rfl⟩
  refine Prog.Keeps.ask nothing fun decoded => ?_
  cases decoded with
  | error p => exact nothing
  | ok read =>
    cases read with
    | error text => exact ⟨⟨rfl, rfl⟩, rfl, rfl, rfl⟩
    | ok job =>
      refine Prog.Keeps.ask nothing fun chosen => ?_
      cases chosen with
      | error p => exact nothing
      | ok own =>
        refine Prog.Keeps.ask nothing fun now => Prog.Keeps.ask ⟨nothing, rfl⟩ fun _ => ?_
        refine Prog.Keeps.seq (account_awaitTask worker.jobTimeout ⟨rfl, rfl⟩) ?_ ?_
        · rintro t p ⟨rfl, -⟩
          exact ⟨rfl, rfl⟩
        · rintro t outcome ⟨rfl, decoded⟩
          exact Ran.started ⟨rfl, rfl⟩ rfl rfl (decoded outcome rfl)

theorem followed_of_open (open_ : a.Open) : a.Followed := by
  intro h
  rw [open_.1] at h
  cases h

theorem account_settleOutcome (hsome : worker.handlers e.jobType = some handler)
    {outcome : JobOutcome} (ran : Ran worker e handler a (.ok (outcome, policy))) :
    (settleOutcome (J := J) (B := B) worker handler e policy outcome).run.Keeps (account worker e)
      (fun t _ => t.Followed) a := by
  cases outcome with
  | success => exact account_settling (o := .ack) (f := id) ran.1 fun _ => rfl
  | decode text =>
    obtain ⟨open_, hread, hnone, rfl⟩ := ran
    exact account_deadLettered open_ ⟨rfl, hread, hnone, handler, hsome, rfl⟩
  | fatal text =>
    obtain ⟨open_, ctx, hctx, hattempts⟩ := ran
    exact account_deadLettered open_ ⟨rfl, by simp [hsome], ctx, hctx, by rw [hattempts]⟩
  | deferred delay reason =>
    refine Prog.Keeps.seq (account_unwinding (Q := fun t _ => t = a) rfl) ?_ ?_
    · rintro t p rfl
      exact followed_of_open ran.1
    · rintro t next rfl
      exact account_settling (o := .defer next delay) (f := id) ran.1 fun _ => rfl
  | retryable text =>
    obtain ⟨open_, ctx, hctx, hattempts⟩ := ran
    rcases decide_cases worker.floats worker.rng policy e.attempt with
      ⟨hlast, hdecide⟩ | ⟨-, delay, -, hdecide⟩ <;> simp only [settleOutcome, hdecide]
    · exact account_deadLettered open_
        ⟨rfl, by simp [hsome], ctx, hctx, by rw [hattempts], hattempts ▸ hlast⟩
    · have retried : (ExceptT.run (unwinding (V := V) (J := J) (B := B)
          (e.nextAttempt worker.build) >>= fun next =>
            ask (.retry next delay) >>= fun x => settle x)).Keeps (account worker e)
              (fun t _ => t.Followed) a := by
        refine Prog.Keeps.seq (account_unwinding (Q := fun t _ => t = a) rfl) ?_ ?_
        · rintro t p rfl
          exact followed_of_open open_
        · rintro t next rfl
          exact account_settling (o := .retry next delay) (f := id) open_ fun _ => rfl
      exact retried

theorem process_accounted (worker : Worker) (e : Envelope V) :
    (process (J := J) (B := B) worker e).run.Keeps (account worker e) (fun t _ => t.Followed)
      .fresh := by
  unfold process
  split
  · next hnone => exact account_deadLettered ⟨rfl, rfl⟩ ⟨rfl, hnone, rfl, rfl⟩
  · next handler hsome =>
    refine Prog.Keeps.seq (account_runHandler handler) ?_ ?_
    · intro t p open_
      exact followed_of_open open_
    · rintro t ⟨outcome, policy⟩ ran
      exact account_settleOutcome hsome ran

end Keeps

/-! ## In every run -/

section Runs
variable {before after : List (Event (Op V J) (Ans B))} {dead : DeadLetter V} {env : Env (Op V J) (Ans B)}
  {n : ℕ} {event : Event (Op V J) (Ans B)}

/-- The account after the events of a run. -/
abbrev told (worker : Worker) (e : Envelope V) (events : List (Event (Op V J) (Ans B))) :
    Account V := (account worker e).after .fresh events

theorem told_append (event : Event (Op V J) (Ans B)) :
    told worker e (before ++ [event]) = (told worker e before).next event.1 event.2 :=
  Protocol.after_append _ _ _ _ _

theorem next_context (a : Account V) (op : Op V J) (x : Ans B op) : (a.next op x).context =
    match op with
    | .spawn _ _ ctx => some ctx
    | _ => a.context := by
  unfold Account.next
  split <;> simp_all

theorem next_reported (a : Account V) (op : Op V J) (x : Ans B op) : (a.next op x).reported =
    match op with
    | .onDeadLetter dead => some dead
    | _ => a.reported := by
  unfold Account.next
  split <;> simp_all

theorem told_context {ctx : JobContext} (h : (told worker e before).context = some ctx) :
    ∃ handler job, .spawn handler job ctx ∈ before.map Sigma.fst := by
  induction before using List.reverseRecOn with
  | nil => cases h
  | append_singleton before event ih =>
    obtain ⟨op, x⟩ := event
    rw [told_append, next_context] at h
    rw [List.map_append]
    cases op with
    | spawn handler job found =>
      obtain rfl := Option.some.inj h
      exact ⟨handler, job, List.mem_append_right _ List.mem_cons_self⟩
    | _ =>
      obtain ⟨handler, job, hin⟩ := ih h
      exact ⟨handler, job, List.mem_append_left _ hin⟩

theorem told_context_none (h : (told worker e before).context = none) (handler : Handler) (job : J)
    (ctx : JobContext) : .spawn handler job ctx ∉ before.map Sigma.fst := by
  induction before using List.reverseRecOn with
  | nil => exact List.not_mem_nil
  | append_singleton before event ih =>
    obtain ⟨op, x⟩ := event
    rw [told_append, next_context] at h
    rw [List.map_append, List.mem_append, not_or]
    cases op with
    | spawn other job found => cases h
    | _ => exact ⟨ih h, by simp⟩

theorem told_reported_none (h : (told worker e before).reported = none) (dead : DeadLetter V) :
    .onDeadLetter dead ∉ before.map Sigma.fst := by
  induction before using List.reverseRecOn with
  | nil => exact List.not_mem_nil
  | append_singleton before event ih =>
    obtain ⟨op, x⟩ := event
    rw [told_append, next_reported] at h
    rw [List.map_append, List.mem_append, not_or]
    cases op with
    | onDeadLetter other => cases h
    | _ => exact ⟨ih h, by simp⟩

/-- A report that is yet to be followed was the last thing that happened. -/
theorem told_reported (h : (told worker e before).reported = some dead)
    (hopen : (told worker e before).settled = false)
    (allowed : ∀ first event rest, before = first ++ event :: rest →
      (account (B := B) worker e).allows (told worker e first) event.1) :
    ∃ first x, before = first ++ [⟨.onDeadLetter dead, x⟩] := by
  obtain rfl | ⟨first, ⟨op, x⟩, rfl⟩ := List.eq_nil_or_concat before
  · cases h
  · have hallowed := allowed first ⟨op, x⟩ [] (List.concat_eq_append)
    rw [List.concat_eq_append, told_append] at h hopen
    cases op with
    | onDeadLetter found =>
      obtain rfl := Option.some.inj h
      exact ⟨first, x, List.concat_eq_append⟩
    | deadLetter reason => cases hopen
    | ack => cases hopen
    | retry next delay => cases hopen
    | defer next delay => cases hopen
    | countFailure => cases hallowed.symm.trans hopen
    | spawn handler job ctx => cases hallowed.1.1.symm.trans h
    | decode handler payload =>
      have hnone : (told worker e first).reported = none := hallowed.1
      rw [next_reported, hnone] at h
      cases h
    | _ => cases hallowed.1.symm.trans h

/-- What the hook is told, and what comes right after. -/
structure Report (worker : Worker) (e : Envelope V) (dead : DeadLetter V)
    (before after : List (Event (Op V J) (Ans B))) : Prop where
  hooked : worker.hook = true
  envelope : dead.envelope = e
  first : ∀ other, .onDeadLetter other ∉ before.map Sigma.fst
  /-- The cause speaks of the handler as it was started or not, by the policy it was shown. -/
  reached : dead.cause.reachedHandler = true → ∃ handler job ctx,
    .spawn handler job ctx ∈ before.map Sigma.fst ∧ dead.maxAttempts = some ctx.maxAttempts ∧
      (dead.cause = .exhausted → ctx.maxAttempts ≤ e.attempt)
  unreached : dead.cause.reachedHandler = false →
    ∀ handler job ctx, .spawn handler job ctx ∉ before.map Sigma.fst
  unhandled : dead.maxAttempts = none ↔ worker.handlers e.jobType = none
  followed : ∃ result rest, after = ⟨.deadLetter dead.reason, result⟩ :: rest

theorem report_of_run {x : Except Panic Unit}
    (hrun : ((process (J := J) (B := B) worker e).run.exec env n).1 =
      before ++ ⟨.onDeadLetter dead, x⟩ :: after) : Report worker e dead before after := by
  have kept := process_accounted (J := J) (B := B) worker e
  obtain ⟨hook, open_, henvelope, hcause⟩ : (account (B := B) worker e).allows
      (told worker e before) (.onDeadLetter dead) := kept.allowed hrun
  refine ⟨hook, henvelope, told_reported_none open_.1, fun hreached => ?_, fun hreached => ?_, ?_, ?_⟩
  · split at hcause <;> rename_i hc <;> rw [hc] at hreached
    · cases hreached
    · cases hreached
    · obtain ⟨-, ctx, hctx, hattempts⟩ := hcause
      obtain ⟨handler, job, hin⟩ := told_context hctx
      exact ⟨handler, job, ctx, hin, hattempts, by simp [hc]⟩
    · obtain ⟨-, ctx, hctx, hattempts, hle⟩ := hcause
      obtain ⟨handler, job, hin⟩ := told_context hctx
      exact ⟨handler, job, ctx, hin, hattempts, fun _ => hle⟩
  · split at hcause <;> rename_i hc <;> rw [hc] at hreached
    · exact told_context_none hcause.2.1
    · exact told_context_none hcause.2.1
    · cases hreached
    · cases hreached
  · split at hcause
    · simp [hcause.1, hcause.2.2]
    · obtain ⟨-, -, handler, hsome, hattempts⟩ := hcause
      simp [hsome, hattempts]
    · obtain ⟨hsome, ctx, -, hattempts⟩ := hcause
      rw [hattempts]
      simpa using Option.isSome_iff_ne_none.mp hsome
    · obtain ⟨hsome, ctx, -, hattempts, -⟩ := hcause
      rw [hattempts]
      simpa using Option.isSome_iff_ne_none.mp hsome
  · have hafter : told worker e (before ++ [⟨.onDeadLetter dead, x⟩]) =
        { told worker e before with reported := some dead } := told_append _
    cases after with
    | nil =>
      have ended := kept.ended env n
      rw [hrun] at ended
      have hsettled : (told worker e (before ++ [⟨.onDeadLetter dead, x⟩])).settled = true :=
        ended (by rw [show (account worker e).after .fresh (before ++ [⟨.onDeadLetter dead, x⟩]) =
          told worker e (before ++ [⟨.onDeadLetter dead, x⟩]) from rfl, hafter]; rfl)
      rw [hafter] at hsettled
      cases hsettled.symm.trans open_.2
    | cons event rest =>
      have hsplit : ((process (J := J) (B := B) worker e).run.exec env n).1 =
          (before ++ [⟨.onDeadLetter dead, x⟩]) ++ event :: rest := by
        rw [hrun, List.append_assoc]
        rfl
      have hallowed : (account (B := B) worker e).allows
          (told worker e (before ++ [⟨.onDeadLetter dead, x⟩])) event.1 := kept.allowed hsplit
      rw [hafter] at hallowed
      obtain ⟨op, y⟩ := event
      cases op with
      | deadLetter reason =>
        have hreason : some dead.reason = some reason := by
          simpa [hook] using hallowed.2
        obtain rfl := Option.some.inj hreason
        exact ⟨y, rest, rfl⟩
      | countFailure => cases hallowed.symm.trans open_.2
      | spawn handler job ctx => cases hallowed.1.1
      | onDeadLetter other => cases hallowed.2.1.1
      | _ => cases hallowed.1

/-- In every run the hook is told what has happened, at most once, and then the delivery is
dead-lettered with the reason it was told; with a hook, no delivery is dead-lettered otherwise. -/
theorem hook_report (worker : Worker) (e : Envelope V) (env : Env (Op V J) (Ans B)) (n : ℕ) :
    (∀ before after dead x, ((process worker e).run.exec env n).1 =
      before ++ ⟨.onDeadLetter dead, x⟩ :: after → Report worker e dead before after) ∧
    (worker.hook = true → ∀ before after reason result, ((process worker e).run.exec env n).1 =
      before ++ ⟨.deadLetter reason, result⟩ :: after →
        ∃ first dead x, before = first ++ [⟨.onDeadLetter dead, x⟩] ∧ dead.reason = reason) := by
  refine ⟨fun before after dead x hrun => report_of_run hrun, ?_⟩
  intro hook before after reason result hrun
  have kept := process_accounted (J := J) (B := B) worker e
  obtain ⟨hopen, hreason⟩ : (account (B := B) worker e).allows (told worker e before)
    (.deadLetter reason) := kept.allowed hrun
  rw [if_pos hook] at hreason
  obtain ⟨dead, hdead, rfl⟩ := Option.map_eq_some_iff.mp hreason
  obtain ⟨first, x, rfl⟩ := told_reported hdead hopen fun first event rest hbefore => by
    rw [hbefore, List.append_assoc] at hrun
    exact kept.allowed hrun
  exact ⟨first, dead, x, rfl, rfl⟩

end Runs

/-- The hook is told of a job that no handler claims, and panics or not, the job is
dead-lettered. -/
theorem hook_report_orphan : ∃ dead after, Report (J := Unit) (B := Empty) (mailWorker true none)
    (.raw 7 0 "orphan" "mail" ()) dead [] after ∧ dead.cause = .noHandler ∧
    dead.maxAttempts = none := by
  refine ⟨⟨_, .noHandler, _, none⟩, _, (hook_report (mailWorker true none)
    (.raw 7 0 "orphan" "mail" ()) (fun _ => ending (.ok (.ok ())) (.ok none) .panicked) 0).1 [] _ _ _
      rfl, rfl, rfl⟩

end Queuey.Dispatch
