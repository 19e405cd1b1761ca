import Queuey.Core.Deliveries
import Queuey.Core.Settlement

/-!
# The worker on the in-memory backend

Producers, an in-memory backend and a worker that settles what it was delivered. The worker
is the program of its dispatcher, of which the backend sees the settle operation; that is the
one which the outcome of the handler's run demands.
-/
namespace Queuey.Lifecycle
open Transition Interaction Interaction.Prog Dispatch MemoryBackend

variable {V J : Type} {worker : Worker} {s t : MemoryBackend.State V} {m o : Message V}
  {i j k c n : ℕ} {op : Settle V} {r : Request V}

/-! ## Producers -/

/-- `Schedule` of the producer's options. -/
inductive Schedule where
  | now
  | after (delay : Duration)
  | deferred (delay : Duration)

structure EnqueueOptions where
  correlationId : Option String
  schedule : Schedule

/-- `Producer::enqueue_with`: what it asks of the backend for a new envelope, by the top
priority of the job's queue. -/
def enqueueWith (k : ℕ) (env : Envelope V) (maxPriority : Option UInt8) (options : EnqueueOptions) :
    MemoryBackend.Action V :=
  let env := { env with correlationId := options.correlationId }
  match options.schedule with
  | .now => .publish k env none
  | .after delay => .publish k env (some delay)
  | .deferred delay => .defer k { env with priority := maxPriority.getD 0 } delay

/-- `enqueue`, with a correlation id or none. -/
def enqueue (k : ℕ) (env : Envelope V) (maxPriority : Option UInt8)
    (correlationId : Option String) : MemoryBackend.Action V :=
  enqueueWith k env maxPriority ⟨correlationId, .now⟩

/-- `enqueue_after`. -/
def enqueueAfter (k : ℕ) (env : Envelope V) (maxPriority : Option UInt8)
    (correlationId : Option String) (delay : Duration) : MemoryBackend.Action V :=
  enqueueWith k env maxPriority ⟨correlationId, .after delay⟩

/-- The request a call of the backend begins with. -/
def requested : MemoryBackend.Action V → Option (ℕ × Request V)
  | .publish k envelope delay => some (k, ⟨false, envelope, delay.getD .zero, none⟩)
  | .defer k envelope delay => some (k, ⟨true, envelope, delay, none⟩)
  | _ => none

theorem requested_begins {a : MemoryBackend.Action V} (ha : requested a = some (k, r))
    (hs : MemoryBackend.step s a = some t) : (t.calls k).request = some r := by
  cases a with
  | publish k' envelope delay =>
    obtain ⟨-, rfl⟩ := call_cases hs
    cases ha
    simp [State.setCall, Call.request]
  | defer k' envelope delay =>
    obtain ⟨-, rfl⟩ := call_cases hs
    cases ha
    simp [State.setCall, Call.request]
  | _ => cases ha

/-- The message is the one that `enqueue` or `enqueue_after` has scheduled for a new job. -/
def Enqueued (s : MemoryBackend.State V) (root : Message V) : Prop :=
  ∃ (k : ℕ) (a : MemoryBackend.Action V) (r : Request V) (jobId : Uuid) (nowMs : UInt64)
    (jobType queue : String) (payload : V) (top : Option UInt8) (correlationId : Option String),
    (a = enqueue k (.raw jobId nowMs jobType queue payload) top correlationId ∨
      ∃ delay, a = enqueueAfter k (.raw jobId nowMs jobType queue payload) top correlationId delay) ∧
    requested a = some (k, r) ∧ (s.calls k).request = some r ∧ Scheduling s k root

/-! ## The worker on the backend -/

/-- The settle operation that a call of the dispatcher makes. -/
def settleOp : Op V J → Option (Settle V)
  | .ack => some .ack
  | .deadLetter reason => some (.deadLetter reason)
  | .retry next delay => some (.retry next delay)
  | .defer next delay => some (.defer next delay)
  | _ => none

/-- A settle operation, the job it is for, and what the handler's run before it came to with
the policy that is judged by; nothing if there was no handler. -/
structure Run (V : Type) extends Entry V where
  job : ℕ
  judged : Option (JobOutcome × RetryPolicy)

/-- A backend with the runs of the jobs so far. -/
structure Life (V : Type) where
  backend : MemoryBackend.State V
  runs : List (Run V)

namespace Life

/-- The job of a message: that of the run which scheduled it, or a new one with its number. -/
def jobOf (x : Life V) (m : Message V) : ℕ :=
  match m.replaces with
  | none => m.id
  | some i => ((x.runs.find? fun run => run.message.id = i).map Run.job).getD m.id

/-- The runs of a job, in order. -/
def history (x : Life V) (j : ℕ) : List (Run V) := x.runs.filter fun run => run.job = j

/-- The `i`th delivery that consumer `c` handed out is settled. -/
def settle (x : Life V) (k c i : ℕ) (op : Settle V) (judged : Option (JobOutcome × RetryPolicy)) :
    Option (Life V) :=
  match (x.backend.consumers c).out[i]?, stepSettle x.backend k c i op with
  | some m, some s => some ⟨s, x.runs ++ [⟨⟨k, ⟨m, c⟩, op⟩, x.jobOf m, judged⟩]⟩
  | _, _ => none

end Life

/-- What a run of the handler comes to, if there is one. -/
def judgement (worker : Worker) (e : Envelope V) (user : (op : Op V J) → Ans Empty op) :
    Option (JobOutcome × RetryPolicy) :=
  match worker.handlers e.jobType with
  | none => none
  | some handler => ((runHandler handler e worker.jobTimeout
      (worker.configured e handler)).run.value user).toOption

inductive Action (V J : Type) where
  | backend (a : MemoryBackend.Action V)
  | run (k c i : ℕ) (user : (op : Op V J) → Ans Empty op)

/-- Somebody uses the backend, or the worker processes the `i`th delivery that consumer `c`
handed out. What the worker does before its settle call the backend does not see; without
one the delivery is dropped. -/
def step (worker : Worker) (x : Life V) : Action V J → Option (Life V)
  | .backend (.settle k c i op) => x.settle k c i op none
  | .backend a => (MemoryBackend.step x.backend a).map fun s => { x with backend := s }
  | .run k c i user =>
    match (x.backend.consumers c).out[i]? with
    | none => none
    | some m =>
      match ((process worker m.envelope).run.trace user).findSome? settleOp with
      | some op => x.settle k c i op (judgement worker m.envelope user)
      | none => (stepDropDelivery x.backend c i).map fun s => { x with backend := s }

def system (V J : Type) (worker : Worker) : System (Life V) (Action V J) where
  start x := (MemoryBackend.system V).start x.backend ∧ x.runs = []
  step := step worker

/-- Nobody closes the backend, and nobody but the worker settles the deliveries of job `j`. -/
def Attended (j : ℕ) (x : Life V) : Action V J → Prop
  | .backend .close => False
  | .backend (.settle _ c i _) => ∀ m, (x.backend.consumers c).out[i]? = some m → x.jobOf m ≠ j
  | _ => True

/-! ## What the worker makes of a delivery -/

def topLevel (worker : Worker) (jobType : String) : UInt8 :=
  (worker.handlers jobType).elim 0 Handler.deferPriority

/-- The settle operation is the one the outcome demands. A deferral beyond the last count that
can be represented is left out. -/
def Handled (worker : Worker) (e : Envelope V) (judged : Option (JobOutcome × RetryPolicy))
    (op : Settle V) : Prop :=
  match judged with
  | none | some (.decode _, _) | some (.fatal _, _) => ∃ reason, op = .deadLetter reason
  | some (.success, _) => op = .ack
  | some (.deferred delay _, _) => e.deferrals.toNat < u32Max →
    op = .defer { e with deferrals := e.deferrals + 1, priority := topLevel worker e.jobType } delay
  | some (.retryable _, policy) =>
    if e.attempt < policy.maxAttempts then
      ∃ delay, op = .retry { e with attempt := e.attempt + 1, priority := 0 } delay
    else ∃ reason, op = .deadLetter reason

theorem settleOp_eq_none {op : Op V J} (h : op.settles = false) : settleOp op = none := by
  cases op <;> first | rfl | cases h

theorem findSome_settleOp {ops after : List (Op V J)} (quiet : ∀ op ∈ ops, op.settles = false) :
    (ops ++ after).findSome? settleOp = after.findSome? settleOp := by
  have hnone : ops.findSome? settleOp = none := by
    rw [List.findSome?_eq_none_iff]
    exact fun op hop => settleOp_eq_none (quiet op hop)
  rw [List.findSome?_append, hnone, Option.none_or]

/-- What the worker asks of the delivery is what the verdict demands. -/
theorem settleOp_of_demands {user : (op : Op V J) → Ans Empty op} {e : Envelope V}
    {verdict : Verdict} {hooks : List (Op V J)} {op : Op V J} (h : Happens worker e user verdict)
    (hd : Demands worker e verdict hooks op)
    (hfits : ∀ delay handler, verdict = .deferred delay handler → e.deferrals.toNat < u32Max) :
    ((process worker e).run.trace user).findSome? settleOp = settleOp op := by
  obtain ⟨before, hquiet, hrun, -⟩ := process_does h hd hfits
  rw [hrun, findSome_settleOp hquiet.settles,
    findSome_settleOp fun o ho => (hd.hooks_visible o ho).2]
  cases op <;> rfl

theorem handled_of_demands {e : Envelope V} {outcome : JobOutcome} {handler : Handler}
    {policy : RetryPolicy} {hooks : List (Op V J)} {op : Op V J} {made : Settle V}
    (hsome : worker.handlers e.jobType = some handler)
    (hd : Demands worker e (outcome.verdict handler policy) hooks op)
    (hop : settleOp op = some made) : Handled worker e (some (outcome, policy)) made := by
  cases outcome with
  | success =>
    cases hd
    exact (Option.some.inj hop).symm
  | decode text =>
    cases hd
    exact ⟨_, (Option.some.inj hop).symm⟩
  | fatal text =>
    cases hd
    exact ⟨_, (Option.some.inj hop).symm⟩
  | deferred delay reason =>
    cases hd
    intro _
    rw [topLevel, hsome]
    exact (Option.some.inj hop).symm
  | retryable text =>
    cases hd with
    | retry hlt hdelay =>
      simp only [Handled, hlt, if_true]
      exact ⟨_, (Option.some.inj hop).symm⟩
    | giveUp hle hr =>
      simp only [Handled, UInt32.not_lt.mpr hle, if_false]
      exact ⟨_, (Option.some.inj hop).symm⟩

/-- The worker settles a delivery as the outcome of its run demands. -/
theorem handled_of_process {e : Envelope V} {user : (op : Op V J) → Ans Empty op}
    (h : ((process worker e).run.trace user).findSome? settleOp = some op) :
    Handled worker e (judgement worker e user) op := by
  cases hsome : worker.handlers e.jobType with
  | none =>
    have happens : Happens worker e user .noHandler := .noHandler hsome
    have hop := settleOp_of_demands happens (.noHandler rfl) (by simp)
    rw [h] at hop
    simp only [judgement, hsome]
    exact ⟨_, Option.some.inj hop⟩
  | some handler =>
    obtain ⟨ops, hquiet, hrun⟩ :=
      runHandler_does handler e worker.jobTimeout (worker.configured e handler) user
    have hjudgement : judgement worker e user =
        (judged handler e worker.jobTimeout (worker.configured e handler) user).toOption := by
      simp only [judgement, hsome, hrun.2]
    rw [hjudgement]
    cases hj : judged handler e worker.jobTimeout (worker.configured e handler) user with
    | error p =>
      -- The user's code has panicked, so nothing is settled.
      rw [hj] at hrun
      have htrace : (process worker e).run.trace user = ops := by
        simp only [process, hsome]
        exact hrun.stop.1
      rw [htrace, ← List.append_nil ops, findSome_settleOp hquiet.settles] at h
      cases h
    | ok result =>
      obtain ⟨outcome, policy⟩ := result
      obtain ⟨hooks, op', hd⟩ := exists_demands (J := J) worker e (outcome.verdict handler policy)
      by_cases hfits : ∀ delay handler', outcome.verdict handler policy = .deferred delay handler' →
          e.deferrals.toNat < u32Max
      · have hop := settleOp_of_demands (judged_happens hsome hj) hd hfits
        exact handled_of_demands hsome hd (hop.symm.trans h)
      · push Not at hfits
        obtain ⟨delay, handler', hverdict, hfull⟩ := hfits
        cases outcome with
        | deferred delay' reason => exact fun hlt => absurd hlt (Nat.not_lt.mpr hfull)
        | _ => cases hverdict

end Queuey.Lifecycle
