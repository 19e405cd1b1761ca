import Mathlib.Data.List.Induction
import Queuey.Core.HandlerTask
import Queuey.Library.Table

/-!
# Building a worker

`WorkerBuilder` and what `build` resolves: one handler and one policy for each registered
job type. A policy can come from five places, the payload's own being the last to speak.
-/
namespace Queuey.Dispatch
open Interaction

/-- A set of queues, as the derive implements it or as written by hand. -/
structure QueueSet (Q : Type) where
  all : List Q
  name : Q → String
  config : Q → QueueConfig

/-- Overrides are kept by the name of the queue and by the name of the job type. -/
structure WorkerBuilder (Q : Type) where
  handlers : List (String × Handler)
  queueRetry : Table String RetryPolicy
  jobRetry : Table String RetryPolicy
  deadLetterHook : Bool
  queues : Option (List Q)
  concurrency : Option ℕ
  jobTimeout : Option Duration
  closeBackend : Bool

variable {Q V J B : Type}

namespace WorkerBuilder

def new : WorkerBuilder Q where
  handlers := []
  queueRetry := .empty
  jobRetry := .empty
  deadLetterHook := false
  queues := none
  concurrency := none
  jobTimeout := none
  closeBackend := false

/-- One call on the builder. -/
inductive Call (Q : Type) where
  | handler (handler : Handler)
  | queues (queues : List Q)
  | concurrency (concurrency : ℕ)
  | retryOverride (queue : Q) (policy : RetryPolicy)
  | jobRetryOverride (job : String) (policy : RetryPolicy)
  | onDeadLetter
  | jobTimeout (timeout : Duration)
  | closeBackendOnShutdown (close : Bool)

def call (set : QueueSet Q) (b : WorkerBuilder Q) : Call Q → WorkerBuilder Q
  | .handler handler => { b with handlers := b.handlers ++ [(handler.name, handler)] }
  | .queues queues => { b with queues := some queues }
  | .concurrency concurrency => { b with concurrency := some concurrency }
  | .retryOverride queue policy => { b with queueRetry := b.queueRetry.put (set.name queue) policy }
  | .jobRetryOverride job policy => { b with jobRetry := b.jobRetry.put job policy }
  | .onDeadLetter => { b with deadLetterHook := true }
  | .jobTimeout timeout => { b with jobTimeout := some timeout }
  | .closeBackendOnShutdown close => { b with closeBackend := close }

def configured (set : QueueSet Q) (calls : List (Call Q)) : WorkerBuilder Q :=
  calls.foldl (call set) new

/-- What `build` resolves for a handler, short of what a payload chooses. -/
def resolve (b : WorkerBuilder Q) (name : String) (handler : Handler) : RetryPolicy :=
  ((b.jobRetry name).or (b.queueRetry handler.queue)).getD handler.declaredPolicy

end WorkerBuilder

/-- The configs of the selected queues; a second one of the same name is ignored. -/
def QueueSet.selected (set : QueueSet Q) : List Q → List QueueConfig → List QueueConfig
  | [], queues => queues
  | queue :: rest, queues =>
    if queues.any fun c => c.name = (set.config queue).name then set.selected rest queues
    else set.selected rest (queues ++ [set.config queue])

/-- The order in which the entries of a hash map happen to be iterated. -/
structure Iteration where
  order : List (String × Handler) → List (String × Handler)
  perm : ∀ entries, (order entries).Perm entries

/-- What the process brings along: how it was compiled, its floats and its random numbers. -/
structure Machine where
  build : Build
  floats : Floats
  rng : Rng

/-- What `build` produces: what deliveries are dispatched with, and what `run` starts from. -/
structure Built where
  worker : Worker
  queues : List QueueConfig
  concurrency : ℕ
  closeBackend : Bool

def WorkerBuilder.build (set : QueueSet Q) (machine : Machine) (iteration : Iteration)
    (declare : List QueueConfig → Except (Error B) Unit) (b : WorkerBuilder Q) :
    Except (Error B) Built := do
  let handlers ← (Table.empty.addAll b.handlers).mapError .duplicateHandler
  let policies := Table.empty.fill ((iteration.order b.handlers).map fun entry =>
    (entry.1, b.resolve entry.1 entry.2))
  let queues := set.selected (b.queues.getD set.all) []
  declare queues
  let concurrency :=
    Nat.max (b.concurrency.getD (queues.map fun c => c.prefetch.toNat).sum) 1
  return {
    worker := {
      build := machine.build
      floats := machine.floats
      rng := machine.rng
      handlers := handlers
      policies := policies
      hook := b.deadLetterHook
      jobTimeout := b.jobTimeout }
    queues := queues
    concurrency := concurrency
    closeBackend := b.closeBackend }

/-- `JobContext::is_last_attempt`. -/
def JobContext.isLastAttempt (ctx : JobContext) : Bool := ctx.attempt ≥ ctx.maxAttempts

/-! ## Who decides -/

namespace WorkerBuilder
variable {α : Type} {set : QueueSet Q} {machine : Machine} {iteration : Iteration}
  {declare : List QueueConfig → Except (Error B) Unit} {b : WorkerBuilder Q} {built : Built}

/-- What the last call that says something says. -/
def lastOf (f : Call Q → Option α) (calls : List (Call Q)) : Option α :=
  (calls.filterMap f).getLast?

def Call.registered : Call Q → Option (String × Handler)
  | .handler h => some (h.name, h)
  | _ => none

/-- The override a call makes for a job type. -/
def Call.forJob (name : String) : Call Q → Option RetryPolicy
  | .jobRetryOverride job policy => if job = name then some policy else none
  | _ => none

/-- The override a call makes for a queue. -/
def Call.forQueue (set : QueueSet Q) (name : String) : Call Q → Option RetryPolicy
  | .retryOverride queue policy => if set.name queue = name then some policy else none
  | _ => none

/-- Who decides on the policy of a delivery, first to last: the payload, the last override for
the job type, the last one for its queue, the job's declaration, the queue's. -/
def precedence (set : QueueSet Q) (calls : List (Call Q)) (handler : Handler)
    (chosen : Option RetryPolicy) : RetryPolicy :=
  chosen.getD <| (lastOf (Call.forJob handler.name) calls).getD <|
    (lastOf (Call.forQueue set handler.queue) calls).getD <|
      handler.retryPolicy.getD handler.config.retry

theorem lastOf_append (f : Call Q → Option α) (calls : List (Call Q)) (c : Call Q) :
    lastOf f (calls ++ [c]) = (f c).or (lastOf f calls) := by
  cases h : f c <;> simp [lastOf, h]

theorem configured_append (set : QueueSet Q) (calls : List (Call Q)) (c : Call Q) :
    configured set (calls ++ [c]) = (configured set calls).call set c := by
  simp [configured]

theorem configured_handlers (set : QueueSet Q) (calls : List (Call Q)) :
    (configured set calls).handlers = calls.filterMap Call.registered := by
  induction calls using List.reverseRecOn with
  | nil => rfl
  | append_singleton calls c ih =>
    rw [configured_append, List.filterMap_append, ← ih]
    cases c <;> simp [call, Call.registered]

theorem configured_jobRetry (set : QueueSet Q) (calls : List (Call Q)) (name : String) :
    (configured set calls).jobRetry name = lastOf (Call.forJob name) calls := by
  induction calls using List.reverseRecOn with
  | nil => rfl
  | append_singleton calls c ih =>
    rw [configured_append, lastOf_append, ← ih]
    cases c with
    | jobRetryOverride job policy =>
      by_cases hj : job = name
      · simp [call, Call.forJob, hj]
      · simp [call, Call.forJob, hj, Ne.symm hj]
    | _ => rfl

theorem configured_queueRetry (set : QueueSet Q) (calls : List (Call Q)) (name : String) :
    (configured set calls).queueRetry name = lastOf (Call.forQueue set name) calls := by
  induction calls using List.reverseRecOn with
  | nil => rfl
  | append_singleton calls c ih =>
    rw [configured_append, lastOf_append, ← ih]
    cases c with
    | retryOverride queue policy =>
      by_cases hq : set.name queue = name
      · simp [call, Call.forQueue, hq]
      · simp [call, Call.forQueue, hq, Ne.symm hq]
    | _ => rfl

theorem resolve_eq (set : QueueSet Q) (calls : List (Call Q)) (handler : Handler) :
    (configured set calls).resolve handler.name handler = precedence set calls handler none := by
  unfold resolve precedence
  rw [configured_jobRetry, configured_queueRetry]
  cases lastOf (Call.forJob handler.name) calls <;> rfl

/-- `build` fails on a repeated job type, and then only where the queues cannot be declared. -/
theorem declared_of_build (h : b.build set machine iteration declare = .ok built) :
    (b.handlers.map Prod.fst).Nodup ∧
      declare (set.selected (b.queues.getD set.all) []) = .ok () := by
  unfold build at h
  cases hadd : (Table.empty.addAll b.handlers) with
  | error name => rw [hadd] at h; cases h
  | ok handlers =>
    refine ⟨(Table.addAll_empty_iff.mp hadd).1, ?_⟩
    cases hd : declare (set.selected (b.queues.getD set.all) []) with
    | error err => simp [hadd, Except.mapError, hd, bind, Except.bind] at h
    | ok u => rfl

theorem build_of_declared (machine : Machine) (iteration : Iteration)
    (nodup : (b.handlers.map Prod.fst).Nodup)
    (hd : declare (set.selected (b.queues.getD set.all) []) = .ok ()) :
    ∃ built, b.build set machine iteration declare = .ok built ∧
      built.worker.handlers = Table.empty.fill b.handlers ∧
      built.worker.policies = Table.empty.fill ((iteration.order b.handlers).map fun entry =>
        (entry.1, b.resolve entry.1 entry.2)) := by
  have hadd := Table.addAll_empty_iff.mpr ⟨nodup, rfl⟩
  unfold build
  simp only [hadd, Except.mapError, hd, bind, Except.bind]
  exact ⟨_, rfl, rfl, rfl⟩

/-- Every registered job type has its handler and its policy in the maps. -/
theorem build_resolves (h : b.build set machine iteration declare = .ok built) {name : String}
    {handler : Handler} (hin : (name, handler) ∈ b.handlers) :
    built.worker.handlers name = some handler ∧
      built.worker.policies name = some (b.resolve name handler) := by
  obtain ⟨nodup, hd⟩ := declared_of_build h
  obtain ⟨other, ho, handlers, policies⟩ := build_of_declared machine iteration nodup hd
  obtain rfl := Except.ok.inj (h.symm.trans ho)
  rw [handlers, policies]
  refine ⟨Table.fill_of_mem nodup hin, Table.fill_of_mem ?_ ?_⟩
  · rw [List.map_map]
    exact ((iteration.perm b.handlers).map Prod.fst).nodup_iff.mpr nodup
  · exact List.mem_map.mpr ⟨_, (iteration.perm b.handlers).mem_iff.mpr hin, rfl⟩

end WorkerBuilder

/-! ## What the context says and what becomes of a failure -/

variable {worker : Worker} {e : Envelope V} {user : (op : Op V J) → Ans B op} {handler : Handler}
  {policy : RetryPolicy} {job : J} {chosen : Option RetryPolicy}

theorem unwinding_spawns {α : Type} (x : Except Panic α) :
    (unwinding (V := V) (J := J) (B := B) x).run.Only fun op => op.spawns = false := by
  cases x <;> trivial

theorem awaitTask_spawns (timeout : Option Duration) :
    (awaitTask (V := V) (J := J) (B := B) timeout).run.Only fun op => op.spawns = false := by
  cases timeout with
  | none => exact ⟨rfl, fun joined => unwinding_spawns _⟩
  | some limit =>
    refine ⟨rfl, fun answer => ?_⟩
    cases answer with
    | none => exact ⟨rfl, fun _ => ⟨rfl, fun _ => trivial⟩⟩
    | some joined => exact unwinding_spawns _

theorem settle_spawns (result : Except (Error B) Unit) :
    (settle (V := V) (J := J) result).run.Only fun op => op.spawns = false := by
  cases result with
  | ok u => trivial
  | error err => exact ⟨rfl, fun _ => trivial⟩

theorem deadLettered_spawns (hook : Bool) (e : Envelope V) (cause : DeadLetterCause)
    (reason : String) (maxAttempts : Option UInt32) :
    (deadLettered (J := J) (B := B) hook e cause reason maxAttempts).run.Only
      fun op => op.spawns = false := by
  refine Prog.Only.run_bind ?_ fun _ => ⟨rfl, fun result => settle_spawns result⟩
  cases hook with
  | true => exact ⟨rfl, fun _ => trivial⟩
  | false => trivial

theorem settleOutcome_spawns (worker : Worker) (handler : Handler) (e : Envelope V)
    (policy : RetryPolicy) (outcome : JobOutcome) :
    (settleOutcome (J := J) (B := B) worker handler e policy outcome).run.Only
      fun op => op.spawns = false := by
  unfold settleOutcome
  cases outcome with
  | success => exact ⟨rfl, fun result => settle_spawns result⟩
  | decode text => exact deadLettered_spawns _ _ _ _ _
  | fatal text => exact deadLettered_spawns _ _ _ _ _
  | deferred delay reason =>
    refine Prog.Only.run_bind (unwinding_spawns _) fun next => ?_
    exact ⟨rfl, fun result => settle_spawns result⟩
  | retryable text =>
    refine Prog.Only.run_bind (unwinding_spawns _) fun decision => ?_
    cases decision with
    | giveUp => exact deadLettered_spawns _ _ _ _ _
    | retry delay =>
      refine Prog.Only.run_bind (unwinding_spawns _) fun next => ?_
      exact ⟨rfl, fun result => settle_spawns result⟩

/-- The handler's task failed in a way that may be retried; rendering the error may panic. -/
inductive Fails (timeout : Option Duration) (user : (op : Op V J) → Ans B op) :
    Except Panic String → Prop where
  | retryable {err : BoxedError} : ended timeout user = some (.returned (.error (.retryable err))) →
      Fails timeout user err.display
  | panicked : ended timeout user = some .panicked → Fails timeout user (.ok "handler panicked")
  | cancelled {text : String} : ended timeout user = some (.cancelled text) →
      Fails timeout user (.ok ("handler task failed: " ++ text))
  | timedOut {limit : Duration} : timeout = some limit → ended timeout user = none →
      Fails timeout user (.ok ("job timed out after " ++ limit.debug))

theorem Fails.comesTo {timeout : Option Duration} {text : Except Panic String}
    (h : Fails timeout user text) : comesTo timeout user = text.map .retryable := by
  cases h with
  | retryable hend => exact comesTo_joined hend
  | panicked hend => exact comesTo_joined hend
  | cancelled hend => exact comesTo_joined hend
  | @timedOut limit htimeout hend =>
    subst htimeout
    have hnone : user (.joinWithin limit) = none := hend
    simp [Dispatch.comesTo, hnone, Except.map]

/-- A run of the handler is judged by `policy`, and the context it sees is true of it: with
`is_last_attempt` a failure is given up, and otherwise it is retried. An error that cannot be
rendered unwinds the run before either. -/
structure Governed (worker : Worker) (e : Envelope V) (user : (op : Op V J) → Ans B op)
    (handler : Handler) (job : J) (policy : RetryPolicy) : Prop where
  seen : ∀ op ∈ (process worker e).run.trace user, op.spawns = true →
    op = .spawn handler job (jobContext handler e policy (user .nowMs))
  started : .spawn handler job (jobContext handler e policy (user .nowMs)) ∈
    (process worker e).run.trace user
  judged : ∀ text used, Happens worker e user (.retryable text used) ∨
    Happens worker e user (.fatal text used) → used = policy
  last : (jobContext handler e policy (user .nowMs)).isLastAttempt = true →
    ∀ text, Fails worker.jobTimeout user (.ok text) →
      ((process worker e).run.trace user).filter Op.visible =
        hooked worker e .exhausted (exhausted policy e text) (some policy.maxAttempts) ++
          [.deadLetter (exhausted policy e text)]
  further : (jobContext handler e policy (user .nowMs)).isLastAttempt = false →
    ∀ text, Fails worker.jobTimeout user (.ok text) →
      ∃ delay, policy.backoff.delayFor worker.floats worker.rng e.attempt = .ok delay ∧
        ((process worker e).run.trace user).filter Op.visible =
          [.retry { e with attempt := e.attempt + 1, priority := 0 } delay]
  unrendered : ∀ p, Fails worker.jobTimeout user (.error p) →
    ((process worker e).run.trace user).filter Op.visible = []

/-- One task is spawned for the handler, with the context of this attempt. -/
theorem process_started {configured : RetryPolicy}
    (hsome : worker.handlers e.jobType = some handler)
    (hpolicy : worker.policies e.jobType = some configured)
    (hd : user (.decode handler e.payload) = .ok (.ok job))
    (hc : user (.setRetryPolicy handler job) = .ok chosen) :
    ∃ rest, (process worker e).run.trace user = .decode handler e.payload ::
        .setRetryPolicy handler job :: .nowMs ::
        .spawn handler job (jobContext handler e (chosen.getD configured) (user .nowMs)) :: rest ∧
      ∀ op ∈ rest, op.spawns = false := by
  have hwaits : (awaitTask worker.jobTimeout).run.Does user
      ((awaitTask worker.jobTimeout).run.trace user) (comesTo worker.jobTimeout user) := by
    obtain ⟨ops, -, h⟩ := awaitTask_does worker.jobTimeout user
    exact ⟨rfl, h.2⟩
  have quiet := (awaitTask_spawns worker.jobTimeout).trace user
  have ran := runHandler_started configured hd hc hwaits
  simp only [process, hsome, hpolicy, Option.getD_some]
  cases hcomes : comesTo worker.jobTimeout user with
  | error p =>
    rw [hcomes] at ran
    exact ⟨_, ran.stop.1, quiet⟩
  | ok outcome =>
    rw [hcomes] at ran
    have settled := ran.seq (f := fun r => settleOutcome worker handler e r.2 r.1) ⟨rfl, rfl⟩
    refine ⟨_, settled.1, ?_⟩
    intro op hop
    obtain hop | hop := List.mem_append.mp hop
    · exact quiet op hop
    · exact (settleOutcome_spawns _ _ _ _ _).trace user op hop

theorem governed {configured : RetryPolicy} (hsome : worker.handlers e.jobType = some handler)
    (hpolicy : worker.policies e.jobType = some configured)
    (hd : user (.decode handler e.payload) = .ok (.ok job))
    (hc : user (.setRetryPolicy handler job) = .ok chosen) :
    Governed worker e user handler job (chosen.getD configured) := by
  have hconfigured : worker.configured e handler = configured := by
    simp [Worker.configured, hpolicy]
  have started : Started worker e user handler (chosen.getD configured) :=
    ⟨hsome, job, chosen, hd, hc, by rw [hconfigured]⟩
  have unique {other : Handler} {used : RetryPolicy} (h : Started worker e user other used) :
      used = chosen.getD configured := by
    obtain ⟨hother, job', chosen', hd', hc', rfl⟩ := h
    obtain rfl := Option.some.inj (hother.symm.trans hsome)
    obtain rfl := Except.ok.inj (Except.ok.inj (hd'.symm.trans hd))
    obtain rfl := Except.ok.inj (hc'.symm.trans hc)
    rw [hconfigured]
  have retried {text : String} (hfails : Fails worker.jobTimeout user (.ok text)) :
      Happens worker e user (.retryable text (chosen.getD configured)) := by
    have hcomes : comesTo worker.jobTimeout user = .ok (.retryable text) := hfails.comesTo
    exact comesTo_happens started hcomes
  obtain ⟨rest, htrace, hrest⟩ := process_started hsome hpolicy hd hc
  refine ⟨?_, ?_, ?_, ?_, ?_, ?_⟩
  · intro op hop hspawns
    rw [htrace] at hop
    simp only [List.mem_cons] at hop
    obtain rfl | rfl | rfl | rfl | hop := hop
    · cases hspawns
    · cases hspawns
    · cases hspawns
    · rfl
    · rw [hrest op hop] at hspawns
      cases hspawns
  · rw [htrace]
    simp
  · intro text used h
    obtain h | h := h
    · cases h with
      | retryable hs => exact unique hs
      | panicked hs => exact unique hs
      | cancelled hs => exact unique hs
      | timedOut hs => exact unique hs
    · cases h with
      | fatal hs => exact unique hs
  · intro hlast text hfails
    have hle : (chosen.getD configured).maxAttempts ≤ e.attempt := by
      simpa [JobContext.isLastAttempt, jobContext] using hlast
    exact shown_of_happens (retried hfails) (.giveUp hle rfl) (by simp)
  · intro hlast text hfails
    have hlt : e.attempt < (chosen.getD configured).maxAttempts := by
      simpa [JobContext.isLastAttempt, jobContext] using hlast
    obtain ⟨delay, hdelay⟩ := delayFor_ok worker.floats worker.rng
      (chosen.getD configured).backoff e.attempt
    exact ⟨delay, hdelay, shown_of_happens (retried hfails) (.retry hlt hdelay) (by simp)⟩
  · intro p hfails
    have hcomes := hfails.comesTo
    obtain ⟨ops, hquiet, ran⟩ := runHandler_does handler e worker.jobTimeout configured user
    simp only [judged, hd, hc, hcomes, Except.map] at ran
    simp only [process, hsome, hpolicy, Option.getD_some]
    rw [ran.stop.1]
    exact hquiet.visible

/-- One policy per attempt. `build` succeeds on distinct job types whose queues are declared, and
resolves an entry for each of them. Every delivery is judged by the policy that the precedence
gives for its payload, and the context its handler sees is true of that policy. -/
theorem policy_precedence (set : QueueSet Q) (machine : Machine) (iteration : Iteration)
    (declare : List QueueConfig → Except (Error B) Unit) (calls : List (WorkerBuilder.Call Q)) :
    ((∃ built,
        (WorkerBuilder.configured set calls).build set machine iteration declare = .ok built) ↔
      ((calls.filterMap WorkerBuilder.Call.registered).map Prod.fst).Nodup ∧
        declare (set.selected ((WorkerBuilder.configured set calls).queues.getD set.all) []) =
          .ok ()) ∧
    ∀ built, (WorkerBuilder.configured set calls).build set machine iteration declare = .ok built →
      ∀ handler, .handler handler ∈ calls →
        built.worker.handlers handler.name = some handler ∧
        built.worker.policies handler.name =
          some (WorkerBuilder.precedence set calls handler none) ∧
        ∀ (e : Envelope V) (user : (op : Op V J) → Ans B op), e.jobType = handler.name →
          (∀ text used, Happens built.worker e user (.undecodable text used) →
            used = WorkerBuilder.precedence set calls handler none) ∧
          ∀ job chosen, user (.decode handler e.payload) = .ok (.ok job) →
            user (.setRetryPolicy handler job) = .ok chosen →
              Governed built.worker e user handler job
                (WorkerBuilder.precedence set calls handler chosen) := by
  have hhandlers := WorkerBuilder.configured_handlers set calls
  constructor
  · rw [← hhandlers]
    constructor
    · rintro ⟨built, h⟩
      exact WorkerBuilder.declared_of_build h
    · rintro ⟨nodup, hd⟩
      obtain ⟨built, h, -⟩ := WorkerBuilder.build_of_declared machine iteration nodup hd
      exact ⟨built, h⟩
  · intro built h handler hin
    have hmem : (handler.name, handler) ∈ (WorkerBuilder.configured set calls).handlers := by
      rw [hhandlers]
      exact List.mem_filterMap.mpr ⟨_, hin, rfl⟩
    obtain ⟨hsome, hpolicy⟩ := WorkerBuilder.build_resolves h hmem
    rw [WorkerBuilder.resolve_eq] at hpolicy
    refine ⟨hsome, hpolicy, ?_⟩
    intro e user htype
    rw [← htype] at hsome hpolicy
    constructor
    · intro text used hv
      cases hv with
      | undecodable hother =>
        obtain rfl := Option.some.inj (hother.symm.trans hsome)
        simp [Worker.configured, hpolicy]
    · intro job chosen hd hc
      exact governed hsome hpolicy hd hc

/-- Two handlers, an override for their queue and one for the job type `send`. -/
def mailCalls : List (WorkerBuilder.Call Unit) :=
  [.jobRetryOverride "send" ⟨5, .none⟩, .handler ⟨"send", "mail", .new "mail", none⟩,
    .retryOverride () ⟨2, .none⟩, .handler ⟨"sort", "mail", .new "mail", some ⟨7, .none⟩⟩,
    .jobRetryOverride "send" ⟨3, .none⟩]

/-- The last override for the job type counts, and the context of attempt 1 speaks of it. -/
theorem policy_precedence_mail : ∃ worker : Worker,
    worker.policies "send" = some ⟨3, .none⟩ ∧ worker.policies "sort" = some ⟨2, .none⟩ ∧
      Governed worker (.raw 7 0 "send" "mail" ()) (ending (.ok (.ok ())) (.ok none) .panicked)
        ⟨"send", "mail", .new "mail", none⟩ () ⟨3, .none⟩ := by
  obtain ⟨builds, resolves⟩ := policy_precedence (V := Unit) (J := Unit) (B := Empty)
    ⟨[()], fun _ => "mail", fun _ => .new "mail"⟩ ⟨⟨true⟩, exactFloats, id⟩ ⟨id, fun _ => .refl _⟩
    (fun _ => .ok ()) mailCalls
  obtain ⟨built, h⟩ := builds.mpr ⟨by decide, rfl⟩
  obtain ⟨-, hsend, hruns⟩ := resolves built h ⟨"send", "mail", .new "mail", none⟩
    (by simp [mailCalls])
  obtain ⟨-, hsort, -⟩ := resolves built h ⟨"sort", "mail", .new "mail", some ⟨7, .none⟩⟩
    (by simp [mailCalls])
  exact ⟨built.worker, hsend, hsort, (hruns (.raw 7 0 "send" "mail" ()) _ rfl).2 () none rfl rfl⟩

end Queuey.Dispatch
