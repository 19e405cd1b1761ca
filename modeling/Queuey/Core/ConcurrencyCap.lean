import Queuey.Core.HandlerTask
import Queuey.Core.Shutdown
import Queuey.Library.Tally

/-!
# The concurrency cap

A permit is free, in the hand of `run`, or with a `process` task. The layer on top runs the
dispatcher's program in every `process` task, beside the handler's task it spawns: that task
is gone before the permit is returned.
-/
namespace Queuey.WorkerRun
open Transition Tally

variable {B : Type} {s t : State B} {a : Action B} {c d : ℕ}

/-! ## Where the permits are -/

/-- The permit `run` itself holds, from acquiring it until the event is handled. -/
def Phase.permit : Phase B → ℕ
  | receiving | handling _ | drainReceiving | drainHandling _ => 1
  | _ => 0

abbrev taskWeight (task : Task) : ℕ := if task = .running then 1 else 0

/-- Every permit is free, in the hand of `run` or with a running task. -/
structure Counted (c : ℕ) (s : State B) : Prop where
  light : Light taskWeight s.tasks
  total : s.permits + s.phase.permit + tally taskWeight s.tasks = c

section Loop
attribute [local grind] Phase.permit

theorem notice_permits (hs : stepNotice s = some t) :
    t.permits + t.phase.permit = s.permits + s.phase.permit ∧ t.tasks = s.tasks := by
  unfold stepNotice at hs
  grind

theorem acquire_permits (hs : stepAcquire s = some t) :
    t.permits + t.phase.permit = s.permits + s.phase.permit ∧ t.tasks = s.tasks := by
  unfold stepAcquire at hs
  grind

theorem receive_permits (hs : stepReceive s = some t) :
    t.permits + t.phase.permit = s.permits + s.phase.permit ∧ t.tasks = s.tasks := by
  unfold stepReceive at hs
  grind

end Loop

/-- The permit goes with the delivery to its task, or back with any other event. -/
theorem handle_permits (hs : stepHandle s = some t) :
    (∃ d, s.phase.hand = [d] ∧ t.permits + t.phase.permit + 1 = s.permits + s.phase.permit ∧
      t.tasks = Function.update s.tasks d .running) ∨
    (s.phase.hand = [] ∧ t.permits + t.phase.permit = s.permits + s.phase.permit ∧
      t.tasks = s.tasks) := by
  unfold stepHandle at hs
  split at hs
  · next d hp =>
    obtain rfl := Option.some.inj hs
    exact .inl ⟨d, by rw [hp]; rfl, by rw [hp]; rfl, rfl⟩
  · next e hp =>
    obtain rfl := Option.some.inj hs
    exact .inr ⟨by rw [hp]; rfl, by rw [hp]; rfl, rfl⟩
  · next queue hp =>
    obtain rfl := Option.some.inj hs
    exact .inr ⟨by rw [hp]; rfl, by rw [hp]; rfl, rfl⟩
  · next d hp =>
    obtain rfl := Option.some.inj hs
    exact .inl ⟨d, by rw [hp]; rfl, by rw [hp]; rfl, rfl⟩
  · next e hp =>
    obtain ⟨outcome, he⟩ := fail_eq s e
    rw [he] at hs
    obtain rfl := Option.some.inj hs
    exact .inr ⟨by rw [hp]; rfl, by rw [hp]; rfl, rfl⟩
  · next queue hp =>
    obtain rfl := Option.some.inj hs
    exact .inr ⟨by rw [hp]; rfl, by rw [hp]; rfl, rfl⟩
  · cases hs

/-- Only handling a delivery and the end of a task move a permit between `run` and a task. -/
theorem permits_step (hs : step s a = some t) (handles : a ≠ .handle)
    (finishes : ∀ d, a ≠ .finish d) :
    t.permits + t.phase.permit = s.permits + s.phase.permit ∧ t.tasks = s.tasks := by
  cases a with
  | shutdown =>
    obtain rfl := Option.some.inj hs
    exact ⟨rfl, rfl⟩
  | consume failed =>
    obtain ⟨i, hp, -, ⟨-, rfl⟩ | ⟨e, -, rfl⟩⟩ := consume_cases hs <;> exact ⟨by rw [hp]; rfl, rfl⟩
  | started =>
    obtain ⟨hp, rfl⟩ := started_cases hs
    exact ⟨by rw [hp]; rfl, rfl⟩
  | check =>
    obtain ⟨hp, p, seen, rfl | rfl, rfl⟩ := check_cases hs <;> exact ⟨by rw [hp]; rfl, rfl⟩
  | notice => exact notice_permits hs
  | acquire => exact acquire_permits hs
  | receive => exact receive_permits hs
  | handle => exact absurd rfl handles
  | stopConsumers =>
    obtain ⟨hp, rfl⟩ := stopConsumers_cases hs
    exact ⟨by rw [hp]; rfl, rfl⟩
  | joinConsumers =>
    obtain ⟨hp, rfl⟩ := joinConsumers_cases hs
    exact ⟨by rw [hp]; rfl, rfl⟩
  | joinTasks =>
    obtain ⟨hp, -, rfl⟩ := joinTasks_cases hs
    exact ⟨by rw [hp]; rfl, rfl⟩
  | close failed =>
    obtain ⟨hp, outcome, rfl⟩ := close_cases hs
    exact ⟨by rw [hp]; rfl, rfl⟩
  | finish d => exact absurd rfl (finishes d)
  | checkStop q =>
    obtain ⟨-, consumer, -, rfl⟩ := checkStop_cases hs
    exact ⟨rfl, rfl⟩
  | noticeStop q =>
    obtain ⟨-, rfl⟩ := noticeStop_cases hs
    exact ⟨rfl, rfl⟩
  | pull q item =>
    obtain ⟨-, rfl | ⟨e, rfl⟩ | rfl⟩ := pull_cases hs <;> exact ⟨rfl, rfl⟩
  | send q =>
    obtain ⟨event, -, ⟨-, rfl⟩ | rfl⟩ := send_cases hs <;> exact ⟨rfl, rfl⟩
  | sendEnded q =>
    obtain ⟨-, rfl | ⟨queue, rfl⟩⟩ := sendEnded_cases hs <;> exact ⟨rfl, rfl⟩

/-- A delivery in the hand of `run` has no task yet. -/
theorem unborn_of_hand (h : Reachable (system B) s) (hd : s.phase.hand = [d]) :
    s.tasks d = .unborn := by
  by_contra hne
  have processed : d ∈ s.box .processed := ((reachable_tasked h).spawned d).mp hne
  have loop : d ∈ s.box .loop := by
    simp only [State.box, hd]
    exact List.mem_singleton_self d
  cases (reachable_conserved h).apart d _ _ loop processed

/-- The end of a task is always enabled, and brings its permit back. -/
theorem finish_enabled (h : s.tasks d = .running) :
    ∃ t, step s (.finish d) = some t ∧ t.permits = s.permits + 1 := ⟨_, if_pos h, rfl⟩

theorem counted_start (queues : List QueueConfig) (closeBackend : Bool) (signals : ℕ) :
    Counted c (initial (B := B) queues c closeBackend signals) := by
  have idle : ∀ d : ℕ, taskWeight ((fun _ => .unborn : ℕ → Task) d) = 0 := fun _ => rfl
  refine ⟨light_of_zero idle, ?_⟩
  have htasks : tally taskWeight (initial (B := B) queues c closeBackend signals).tasks = 0 :=
    tally_of_zero idle
  rw [htasks]
  rfl

theorem counted_step (hr : Reachable (system B) s) (h : Counted c s) (hs : step s a = some t) :
    Counted c t := by
  have keep : t.permits + t.phase.permit = s.permits + s.phase.permit ∧ t.tasks = s.tasks →
      Counted c t := by
    rintro ⟨hpermits, htasks⟩
    refine ⟨htasks ▸ h.light, ?_⟩
    rw [htasks, hpermits]
    exact h.total
  by_cases handles : a = .handle
  · subst handles
    obtain ⟨d, hd, hpermits, htasks⟩ | ⟨-, hkept⟩ := handle_permits hs
    · have htally := h.light.tally_update d .running
      have hbefore : taskWeight (s.tasks d) = 0 := by rw [unborn_of_hand hr hd]; rfl
      have hafter : taskWeight .running = 1 := rfl
      have htotal := h.total
      refine ⟨htasks ▸ h.light.update d _, ?_⟩
      rw [htasks]
      omega
    · exact keep hkept
  by_cases finishes : ∃ d, a = .finish d
  · obtain ⟨d, rfl⟩ := finishes
    obtain ⟨hrunning, ht⟩ := finish_cases hs
    have htasks : t.tasks = Function.update s.tasks d .finished := by rw [ht]
    have hpermits : t.permits + t.phase.permit = s.permits + 1 + s.phase.permit := by rw [ht]
    have htally := h.light.tally_update d .finished
    have hbefore : taskWeight (s.tasks d) = 1 := by rw [hrunning]; rfl
    have hafter : taskWeight .finished = 0 := rfl
    have htotal := h.total
    refine ⟨htasks ▸ h.light.update d _, ?_⟩
    rw [htasks]
    omega
  · exact keep (permits_step hs handles fun d hd => finishes ⟨d, hd⟩)

/-! ## The programs in the tasks -/

section Floor
open Dispatch Interaction

variable {V J : Type}

/-- The worker's run, with what goes on in the task of each delivery. -/
structure Floor (V J B : Type) where
  run : State B
  jobs : ℕ → Supervision V J B (Except Panic Unit)

inductive Move (V J B : Type) where
  | run (a : Action B)
  | job (d : ℕ) (progress : Progress V J B)

namespace Floor

/-- A delivery that is handled gets a task, which runs `process`. -/
def spawned (worker : Worker) (envelopes : ℕ → Envelope V) (s : Floor V J B) :
    ℕ → Supervision V J B (Except Panic Unit) := fun d =>
  if d ∈ s.run.phase.hand then .start (process worker (envelopes d)).run else s.jobs d

/-- `process` of the delivery is over: it returned or unwound. -/
def finished (s : Floor V J B) (d : ℕ) : Bool :=
  match (s.jobs d).client.rest with
  | .ret _ => true
  | .call _ _ => false

def step (worker : Worker) (envelopes : ℕ → Envelope V) (s : Floor V J B) :
    Move V J B → Option (Floor V J B)
  | .run .handle => (WorkerRun.step s.run .handle).map fun run => ⟨run, s.spawned worker envelopes⟩
  | .run (.finish d) =>
    if s.finished d then (WorkerRun.step s.run (.finish d)).map fun run => ⟨run, s.jobs⟩ else none
  | .run a => (WorkerRun.step s.run a).map fun run => ⟨run, s.jobs⟩
  | .job d progress =>
    ((s.jobs d).step progress).map fun job => ⟨s.run, Function.update s.jobs d job⟩

end Floor

/-- A worker of concurrency `c`; a delivery not yet handled has no program. -/
def floor (worker : Worker) (envelopes : ℕ → Envelope V) (c : ℕ) :
    Transition.System (Floor V J B) (Move V J B) where
  start s := 1 ≤ c ∧ ∃ queues closeBackend signals,
    s = ⟨initial queues c closeBackend signals, fun _ => .start (.ret (.ok ()))⟩
  step := Floor.step worker envelopes

variable {worker : Worker} {envelopes : ℕ → Envelope V} {s t : Floor V J B} {m : Move V J B}

theorem Floor.step_cases (hs : s.step worker envelopes m = some t) :
    (∃ a, m = .run a ∧ WorkerRun.step s.run a = some t.run ∧
      ((a = .handle ∧ t.jobs = s.spawned worker envelopes) ∨
        (a ≠ .handle ∧ t.jobs = s.jobs ∧ ∀ d, a = .finish d → s.finished d = true))) ∨
    ∃ d progress job, m = .job d progress ∧ (s.jobs d).step progress = some job ∧
      t = ⟨s.run, Function.update s.jobs d job⟩ := by
  unfold Floor.step at hs
  split at hs
  · obtain ⟨run, hrun, rfl⟩ := Option.map_eq_some_iff.mp hs
    exact .inl ⟨_, rfl, hrun, .inl ⟨rfl, rfl⟩⟩
  · next d =>
    split_ifs at hs with hover
    obtain ⟨run, hrun, rfl⟩ := Option.map_eq_some_iff.mp hs
    refine .inl ⟨_, rfl, hrun, .inr ⟨nofun, rfl, fun e he => ?_⟩⟩
    cases he
    exact hover
  · next a hhandle hfinish =>
    obtain ⟨run, hrun, rfl⟩ := Option.map_eq_some_iff.mp hs
    refine .inl ⟨_, rfl, hrun, .inr ⟨hhandle, rfl, fun d hd => ?_⟩⟩
    exact absurd hd (hfinish d)
  · obtain ⟨job, hjob, rfl⟩ := Option.map_eq_some_iff.mp hs
    exact .inr ⟨_, _, job, rfl, hjob, rfl⟩

/-- A delivery whose task does not run has a program that is over. -/
structure Manned (c : ℕ) (s : Floor V J B) : Prop where
  below : Reachable (system B) s.run
  counted : Counted c s.run
  sound : ∀ d, (s.jobs d).Sound fun w _ => Dealt w
  finished : ∀ d, s.run.tasks d = .running ∨ s.finished d = true

theorem manned_start (h : (floor worker envelopes c).start s) : Manned c s := by
  obtain ⟨hc, queues, closeBackend, signals, rfl⟩ := h
  refine ⟨.start ⟨queues, c, closeBackend, signals, hc, rfl⟩, counted_start _ _ _, fun d => ?_,
    fun d => .inr rfl⟩
  exact Supervision.sound_start ⟨.inl rfl, nofun⟩

theorem Manned.handle (worker : Worker) (envelopes : ℕ → Envelope V) (h : Manned c s)
    {run : State B} (hs : WorkerRun.step s.run .handle = some run) :
    Manned c (⟨run, s.spawned worker envelopes⟩ : Floor V J B) := by
  refine ⟨h.below.next (a := .handle) trivial hs, counted_step h.below h.counted hs, fun e => ?_,
    fun e => ?_⟩
  · show (if e ∈ s.run.phase.hand then _ else s.jobs e).Sound _
    split
    · exact Supervision.sound_start (process_keeps worker (envelopes e))
    · exact h.sound e
  · obtain ⟨d, hd, -, htasks⟩ | ⟨hd, -, htasks⟩ := handle_permits hs
    · by_cases he : e = d
      · left
        simp [htasks, he]
      · simpa [Floor.finished, Floor.spawned, hd, htasks, he] using h.finished e
    · simpa [Floor.finished, Floor.spawned, hd, htasks] using h.finished e

theorem Manned.other (h : Manned c s) {run : State B} (hs : WorkerRun.step s.run a = some run)
    (handles : a ≠ .handle) (finishes : ∀ d, a = .finish d → s.finished d = true) :
    Manned c (⟨run, s.jobs⟩ : Floor V J B) := by
  refine ⟨h.below.next trivial hs, counted_step h.below h.counted hs, h.sound, fun e => ?_⟩
  by_cases hfinish : ∃ d, a = .finish d
  · obtain ⟨d, rfl⟩ := hfinish
    obtain ⟨-, rfl⟩ := finish_cases hs
    by_cases he : e = d
    · exact .inr (he ▸ finishes d rfl)
    · simpa [Floor.finished, he] using h.finished e
  · have htasks := (permits_step hs handles fun d hd => hfinish ⟨d, hd⟩).2
    simpa [Floor.finished, htasks] using h.finished e

theorem Manned.job (h : Manned c s) {progress : Progress V J B}
    {job : Supervision V J B (Except Panic Unit)} (hs : (s.jobs d).step progress = some job) :
    Manned c (⟨s.run, Function.update s.jobs d job⟩ : Floor V J B) := by
  refine ⟨h.below, h.counted, fun e => ?_, fun e => ?_⟩
  · by_cases he : e = d
    · simpa [he] using Supervision.sound_step (h.sound d) hs
    · simpa [he] using h.sound e
  · obtain hr | ho := h.finished e
    · exact .inl hr
    right
    by_cases he : e = d
    · subst he
      -- a program that is over asks nothing more, and its task may only end
      unfold Floor.finished at ho
      split at ho
      · next r hret =>
        obtain ⟨user, op, next, x, -, hcall, -⟩ | ⟨joined, -, -, rfl⟩ := Supervision.step_cases hs
        · rw [hret] at hcall
          cases hcall
        · simp [Floor.finished, hret]
      · cases ho
    · simpa [Floor.finished, he] using ho

theorem manned_step (h : Manned c s) (hs : s.step worker envelopes m = some t) : Manned c t := by
  obtain ⟨a, -, hrun, ⟨rfl, hjobs⟩ | ⟨handles, hjobs, finishes⟩⟩ | ⟨d, progress, job, -, hjob, rfl⟩
    := Floor.step_cases hs
  · have := h.handle worker envelopes hrun
    rwa [← hjobs] at this
  · have := h.other hrun handles finishes
    rwa [← hjobs] at this
  · exact h.job hjob

theorem reachable_manned (h : Reachable (floor worker envelopes c) s) : Manned c s :=
  h.invariant (fun _ => manned_start) fun _ _ _ hi _ hs => manned_step hi hs

/-- A handler's task that is alive belongs to a delivery whose `process` task runs. -/
theorem Manned.running (h : Manned c s) (halive : 0 < (s.jobs d).alive) :
    s.run.tasks d = .running := by
  obtain hr | ho := h.finished d
  · exact hr
  · have sound := h.sound d
    unfold Floor.finished at ho
    split at ho
    · next r hret =>
      have hdealt := sound.keeps
      rw [hret] at hdealt
      have := sound.alive_closed hdealt.1
      omega
    · cases ho

/-- The cap: at most `c` handler tasks are alive, one for each delivery at most. Every permit is
free, in the hand of `run` or with a task; and a `process` that is over can return its own. -/
theorem concurrency_cap (h : Reachable (floor worker envelopes c) s) :
    (∀ d, (s.jobs d).alive ≤ 1) ∧ {d | 0 < (s.jobs d).alive}.Finite ∧
      {d | 0 < (s.jobs d).alive}.ncard ≤ c ∧
      s.run.permits + s.run.phase.permit + {d | s.run.tasks d = .running}.ncard = c ∧
      ∀ d, s.run.tasks d = .running → s.finished d = true →
        ∃ t, s.step worker envelopes (.run (.finish d)) = some t ∧
          t.run.permits = s.run.permits + 1 := by
  have manned := reachable_manned h
  have hfinite : {d | s.run.tasks d = .running}.Finite := manned.counted.light.finite
  have hcount : tally taskWeight s.run.tasks = {d | s.run.tasks d = .running}.ncard :=
    tally_count (· = Task.running) s.run.tasks
  have htotal := manned.counted.total
  have hsub : {d | 0 < (s.jobs d).alive} ⊆ {d | s.run.tasks d = .running} :=
    fun d hd => manned.running hd
  have hle := Set.ncard_le_ncard hsub hfinite
  refine ⟨fun d => (manned.sound d).alive_le, hfinite.subset hsub, by omega, by omega, ?_⟩
  intro d hrunning hover
  obtain ⟨run, hrun, hpermits⟩ := finish_enabled hrunning
  exact ⟨⟨run, s.jobs⟩, by simp [Floor.step, hover, hrun], hpermits⟩

/-- A worker of one permit takes a delivery, and the handler's task is started. -/
def oneJob : List (Move Unit Unit Empty) :=
  let go := .job 0 (.answer (racing false .panicked))
  [.run (.consume none), .run .started, .run .check, .run .acquire, .run (.checkStop 0),
    .run (.pull 0 .delivery), .run (.send 0), .run .receive, .run .handle, go, go, go, go]

theorem concurrency_cap_one : ∃ s : Floor Unit Unit Empty,
    Reachable (floor (mailWorker true none) (fun _ => .raw 7 0 "send" "mail" ()) 1) s ∧
      (s.jobs 0).alive = 1 ∧ {d | 0 < (s.jobs d).alive}.ncard ≤ 1 := by
  have start : Reachable (floor (J := Unit) (B := Empty) (mailWorker true none)
      (fun _ => .raw 7 0 "send" "mail" ()) 1) _ :=
    .start ⟨Nat.le_refl 1, [.new "mail"], true, 0, rfl⟩
  have reached := start.run oneJob rfl
  exact ⟨_, reached, rfl, (concurrency_cap reached).2.2.1⟩

end Floor
end Queuey.WorkerRun
