import Queuey.Core.Settlement
import Queuey.Library.Protocol
import Queuey.Library.Transition

/-!
# The handler's task

The dispatcher's program beside the task it spawns for the handler. The task ends on its
own: at any moment, with a result, by a panic or cancelled. The timer may fire at any moment
too, and a join is answered once the task is gone.
-/
namespace Queuey.Dispatch
open Interaction Transition

variable {V J B α : Type}

/-! ## What the dispatcher knows of the task -/

inductive Stage where
  | before
  | watching (expired : Option Duration)
  | finished (expired : Option Duration) (joined : Joined)

/-- The task's stage as the dispatcher sees it, and the settle calls and hook runs so far. -/
structure Watch (V J : Type) where
  stage : Stage
  shown : List (Op V J)

/-- One task is spawned, and joined once or cut off and joined. -/
def Stage.allows : Stage → Op V J → Prop
  | s, .spawn _ _ _ => s = .before
  | s, .join | s, .joinWithin _ => s = .watching none
  | s, .joinAborted => ∃ limit, s = .watching (some limit)
  | _, _ => True

def Stage.next : Stage → (op : Op V J) → Ans B op → Stage
  | _, .spawn _ _ _, _ => .watching none
  | _, .join, joined => .finished none joined
  | _, .joinWithin limit, answer =>
    match answer with
    | some joined => .finished none joined
    | none => .watching (some limit)
  | .watching expired, .joinAborted, joined => .finished expired joined
  | s, _, _ => s

def watch : Protocol (Op V J) (Ans B) (Watch V J) where
  allows w op := w.stage.allows op
  next w op x := ⟨w.stage.next op x, if op.visible then w.shown ++ [op] else w.shown⟩

def Watch.fresh : Watch V J := ⟨.before, []⟩

/-- The dispatcher is not in between spawning the task and learning of its end. -/
def Stage.Closed (s : Stage) : Prop := s = .before ∨ ∃ expired joined, s = .finished expired joined

/-- The call concerns the handler's task. -/
def Op.watched : Op V J → Bool
  | .spawn _ _ _ | .join | .joinWithin _ | .joinAborted => true
  | _ => false

@[simp] theorem Stage.allows_unwatched {s : Stage} {op : Op V J} (h : op.watched = false) :
    s.allows op := by
  cases op <;> trivial

@[simp] theorem Stage.next_unwatched {s : Stage} {op : Op V J} (h : op.watched = false)
    (x : Ans B op) : s.next op x = s := by
  cases op <;> first | rfl | cases h

theorem Watch.ask_unwatched {op : Op V J} {f : Ans B op → Io V J B α}
    {Q : Watch V J → Except Panic α → Prop} {w : Watch V J} (h : op.watched = false)
    (next : ∀ x, (f x).run.Keeps watch Q
      ⟨w.stage, if op.visible then w.shown ++ [op] else w.shown⟩) :
    (ExceptT.run (ask op >>= f)).Keeps watch Q w := by
  refine Prog.Keeps.ask (w.stage.allows_unwatched h) fun x => ?_
  have same : watch.next w op x = ⟨w.stage, if op.visible then w.shown ++ [op] else w.shown⟩ := by
    simp only [watch, Stage.next_unwatched h]
  rw [same]
  exact next x

theorem unwinding_keeps {Q : Watch V J → Except Panic α → Prop} {w : Watch V J}
    {x : Except Panic α} (h : Q w x) :
    (unwinding (V := V) (J := J) (B := B) x).run.Keeps watch Q w := by
  cases x with
  | ok a => exact h
  | error p => exact h

/-! ## What the program makes of the task's end -/

/-- The outcome of a task that ended, once the timer had expired or before that. -/
def conclusion (expired : Option Duration) (joined : Joined) : Except Panic JobOutcome :=
  match expired with
  | none => JobOutcome.ofJoined joined
  | some limit => .ok (.retryable ("job timed out after " ++ limit.debug))

/-- The end of the task is known, and `r` is what it comes to. -/
def Concluded (timeout : Option Duration) (w : Watch V J) (r : Except Panic JobOutcome) : Prop :=
  w.shown = [] ∧ ∃ expired joined, w.stage = .finished expired joined ∧
    (∀ limit, expired = some limit → timeout = some limit) ∧ r = conclusion expired joined

theorem awaitTask_keeps (timeout : Option Duration) :
    (awaitTask (V := V) (J := J) (B := B) timeout).run.Keeps watch (Concluded timeout)
      ⟨.watching none, []⟩ := by
  have known (joined : Joined) : (unwinding (V := V) (J := J) (B := B)
      (JobOutcome.ofJoined joined)).run.Keeps watch (Concluded timeout) ⟨.finished none joined, []⟩ :=
    unwinding_keeps ⟨rfl, none, joined, rfl, nofun, rfl⟩
  cases timeout with
  | none =>
    refine Prog.Keeps.ask rfl ?_
    intro joined
    exact known joined
  | some limit =>
    refine Prog.Keeps.ask rfl ?_
    intro answer
    cases answer with
    | some joined => exact known joined
    | none =>
      refine Prog.Keeps.ask trivial fun _ => Prog.Keeps.ask ⟨limit, rfl⟩ fun joined => ?_
      refine ⟨rfl, some limit, joined, rfl, ?_, rfl⟩
      intro other ho
      exact ho

/-- The handler was never started, or its end is known. -/
def Judged (timeout : Option Duration) (w : Watch V J)
    (r : Except Panic (JobOutcome × RetryPolicy)) : Prop :=
  (w.shown = [] ∧ w.stage = .before) ∨ Concluded timeout w (r.map Prod.fst)

theorem runHandler_keeps (handler : Handler) (e : Envelope V) (timeout : Option Duration)
    (configured : RetryPolicy) :
    (runHandler (J := J) (B := B) handler e timeout configured).run.Keeps watch (Judged timeout)
      .fresh := by
  refine Watch.ask_unwatched rfl fun decoded => ?_
  refine Prog.Keeps.seq (unwinding_keeps (Q := fun w _ => w = .fresh) rfl) ?_ ?_
  · rintro w p rfl
    exact .inl ⟨rfl, rfl⟩
  rintro w read rfl
  cases read with
  | error text => exact .inl ⟨rfl, rfl⟩
  | ok job =>
    refine Watch.ask_unwatched rfl fun chosen => ?_
    refine Prog.Keeps.seq (unwinding_keeps (Q := fun w _ => w = .fresh) rfl) ?_ ?_
    · rintro w p rfl
      exact .inl ⟨rfl, rfl⟩
    rintro w own rfl
    refine Watch.ask_unwatched rfl fun now => Prog.Keeps.ask rfl fun _ => ?_
    refine Prog.Keeps.seq (awaitTask_keeps timeout) ?_ ?_
    · intro w p hw
      exact .inr hw
    · intro w outcome hw
      exact .inr hw

theorem settle_keeps (result : Except (Error B) Unit) (w : Watch V J) :
    (settle (V := V) (J := J) result).run.Keeps watch (fun t _ => t = w) w := by
  cases result with
  | ok u => rfl
  | error err => exact ⟨trivial, fun _ => rfl⟩

theorem deadLettered_keeps (hook : Bool) (e : Envelope V) (cause : DeadLetterCause)
    (reason : String) (maxAttempts : Option UInt32) (w : Watch V J) :
    (deadLettered (B := B) hook e cause reason maxAttempts).run.Keeps watch
      (fun t _ => t.stage = w.stage) w := by
  have notified : (notifyDead (J := J) (B := B) hook e cause reason maxAttempts).run.Keeps watch
      (fun t _ => t.stage = w.stage) w := by
    unfold notifyDead
    split
    · exact ⟨trivial, fun _ => rfl⟩
    · exact rfl
  refine Prog.Keeps.seq notified (fun _ _ ht => ht) fun t _ ht => ?_
  refine Watch.ask_unwatched rfl fun result => (settle_keeps result _).mono ?_
  rintro u - rfl
  exact ht

theorem settleOutcome_keeps (worker : Worker) (handler : Handler) (e : Envelope V)
    (policy : RetryPolicy) (outcome : JobOutcome) (w : Watch V J) :
    (settleOutcome (B := B) worker handler e policy outcome).run.Keeps watch
      (fun t _ => t.stage = w.stage ∧ (outcome = .success → t.shown = w.shown ++ [.ack])) w := by
  have failed {x : Io V J B Unit} (hne : outcome ≠ .success)
      (h : x.run.Keeps watch (fun t _ => t.stage = w.stage) w) : x.run.Keeps watch
        (fun t _ => t.stage = w.stage ∧ (outcome = .success → t.shown = w.shown ++ [.ack])) w :=
    h.mono fun t _ ht => ⟨ht, fun hs => absurd hs hne⟩
  have settled (op : Op V J) (hop : op.watched = false) (f : Ans B op → Except (Error B) Unit) :
      (ExceptT.run (ask op >>= fun x => settle (f x))).Keeps watch
        (fun t _ => t.stage = w.stage) w := by
    refine Watch.ask_unwatched hop fun x => (settle_keeps (f x) _).mono ?_
    rintro u - rfl
    rfl
  cases outcome with
  | success =>
    refine Watch.ask_unwatched rfl fun result => (settle_keeps result _).mono ?_
    rintro u - rfl
    exact ⟨rfl, fun _ => rfl⟩
  | decode text => exact failed nofun (deadLettered_keeps _ _ _ _ _ _)
  | fatal text => exact failed nofun (deadLettered_keeps _ _ _ _ _ _)
  | deferred delay reason =>
    refine failed nofun (Prog.Keeps.seq (unwinding_keeps (Q := fun t _ => t = w) rfl) ?_ ?_)
    · rintro t p rfl
      rfl
    · rintro t next rfl
      exact settled (.defer next delay) rfl id
  | retryable text =>
    refine failed nofun (Prog.Keeps.seq (unwinding_keeps (Q := fun t _ => t = w) rfl) ?_ ?_)
    · rintro t p rfl
      rfl
    rintro t decision rfl
    cases decision with
    | giveUp => exact deadLettered_keeps _ _ _ _ _ _
    | retry delay =>
      refine Prog.Keeps.seq (unwinding_keeps (Q := fun u _ => u = t) rfl) ?_ ?_
      · rintro u p rfl
        rfl
      · rintro u next rfl
        exact settled (.retry next delay) rfl id

/-- The handler's task is gone by the end; a job that returned `Ok(())` in time was acked. -/
def Dealt (w : Watch V J) : Prop :=
  w.stage.Closed ∧ (w.stage = .finished none (.returned (.ok ())) → w.shown = [.ack])

theorem process_keeps (worker : Worker) (e : Envelope V) :
    (process (J := J) (B := B) worker e).run.Keeps watch (fun w _ => Dealt w) .fresh := by
  unfold process
  split
  · refine (deadLettered_keeps _ _ _ _ _ .fresh).mono fun w _ hw => ?_
    exact ⟨.inl hw, fun ho => by rw [hw] at ho; cases ho⟩
  · refine Prog.Keeps.seq (runHandler_keeps _ e _ _) ?_ ?_
    · rintro w p (⟨-, hb⟩ | ⟨-, expired, joined, ho, -, hr⟩)
      · exact ⟨.inl hb, fun ho => by rw [hb] at ho; cases ho⟩
      · refine ⟨.inr ⟨expired, joined, ho⟩, fun hok => ?_⟩
        obtain ⟨rfl, rfl⟩ := Stage.finished.inj (ho.symm.trans hok)
        cases hr
    · rintro w ⟨outcome, policy⟩ hj
      refine (settleOutcome_keeps _ _ _ _ _ _).mono fun t _ ht => ?_
      obtain ⟨hstage, hack⟩ := ht
      obtain ⟨-, hb⟩ | ⟨hshown, expired, joined, ho, -, hr⟩ := hj
      · exact ⟨.inl (hstage.trans hb), fun hok => by rw [hstage, hb] at hok; cases hok⟩
      · refine ⟨.inr ⟨expired, joined, hstage.trans ho⟩, fun hok => ?_⟩
        obtain ⟨rfl, rfl⟩ := Stage.finished.inj ((hstage.trans ho).symm.trans hok)
        have hs : outcome = .success := Except.ok.inj hr
        simpa [hshown] using hack hs

/-! ## The program beside the task -/

/-- A program with the handler tasks it spawned: how many are alive, and how the last one
ended. -/
structure Supervision (V J B α : Type) where
  client : Client (Op V J) (Ans B) α
  alive : ℕ
  ended : Option Joined

/-- The program's next question is answered, or the handler's task ends. -/
inductive Progress (V J B : Type) where
  | answer (user : (op : Op V J) → Ans B op)
  | ends (joined : Joined)

def Op.spawns : Op V J → Bool
  | .spawn _ _ _ => true
  | _ => false

namespace Supervision

def start (p : Prog (Op V J) (Ans B) α) : Supervision V J B α := ⟨.start p, 0, none⟩

/-- What a join yields, once there is nothing left to wait for. -/
def gone (t : Supervision V J B α) : Option Joined := if t.alive = 0 then t.ended else none

/-- The answer to a question. Only whether the timer fires is left to the environment where
the handler's task is concerned. -/
def reply (t : Supervision V J B α) (user : (op : Op V J) → Ans B op) :
    (op : Op V J) → Option (Ans B op)
  | .join => t.gone
  | .joinAborted => t.gone
  | .joinWithin limit =>
    match user (.joinWithin limit) with
    | none => some none
    | some _ => t.gone.map some
  | op => some (user op)

def answered (t : Supervision V J B α) (op : Op V J) (x : Ans B op)
    (rest : Prog (Op V J) (Ans B) α) : Supervision V J B α where
  client := ⟨t.client.done ++ [⟨op, x⟩], rest⟩
  alive := if op.spawns then t.alive + 1 else t.alive
  ended := if op.spawns then none else t.ended

def step (t : Supervision V J B α) : Progress V J B → Option (Supervision V J B α)
  | .answer user =>
    match t.client.rest with
    | .ret _ => none
    | .call op next => (t.reply user op).map fun x => t.answered op x (next x)
  | .ends joined =>
    if 0 < t.alive then some { t with alive := t.alive - 1, ended := some joined } else none

/-- The timer of `tokio::time::timeout` fired before the task's end was seen. -/
def TimedOut (t : Supervision V J B α) (limit : Duration) : Prop :=
  ⟨.joinWithin limit, none⟩ ∈ t.client.done

/-- What the dispatcher knows. -/
def watched (t : Supervision V J B α) : Watch V J := watch.after .fresh t.client.done

end Supervision

def supervised (p : Prog (Op V J) (Ans B) α) :
    System (Supervision V J B α) (Progress V J B) where
  start t := t = .start p
  step := Supervision.step

section Supervised
variable {p : Prog (Op V J) (Ans B) α} {t u : Supervision V J B α}
  {R : Watch V J → α → Prop} {a : Progress V J B}

theorem Supervision.step_cases (hs : t.step a = some u) :
    (∃ user op next x, a = .answer user ∧ t.client.rest = .call op next ∧
        t.reply user op = some x ∧ u = t.answered op x (next x)) ∨
      ∃ joined, a = .ends joined ∧ 0 < t.alive ∧
        u = { t with alive := t.alive - 1, ended := some joined } := by
  cases a with
  | answer user =>
    simp only [step] at hs
    split at hs
    · cases hs
    · next op next hrest =>
      obtain ⟨x, hx, rfl⟩ := Option.map_eq_some_iff.mp hs
      exact .inl ⟨user, op, next, x, rfl, hrest, hx, rfl⟩
  | ends joined =>
    simp only [step] at hs
    split at hs
    · next hpos => exact .inr ⟨joined, rfl, hpos, (Option.some.inj hs).symm⟩
    · cases hs

def Stage.expired : Stage → Option Duration
  | .before => none
  | .watching expired => expired
  | .finished expired _ => expired

/-- What the dispatcher knows of the task is so. -/
def Stage.Tells (t : Supervision V J B α) : Stage → Prop
  | .before => t.alive = 0 ∧ t.ended = none
  | .watching _ => (t.alive = 1 ∧ t.ended = none) ∨ (t.alive = 0 ∧ t.ended.isSome)
  | .finished _ joined => t.alive = 0 ∧ t.ended = some joined

/-- The program keeps to its protocol, and what it knows is so. -/
structure Supervision.Sound (R : Watch V J → α → Prop) (t : Supervision V J B α) : Prop where
  keeps : t.client.rest.Keeps watch R t.watched
  tells : t.watched.stage.Tells t
  timer : ∀ limit, t.TimedOut limit ↔ t.watched.stage.expired = some limit

namespace Supervision

theorem sound_start (h : p.Keeps watch R .fresh) : (Supervision.start p).Sound R where
  keeps := h
  tells := ⟨rfl, rfl⟩
  timer limit := by simp [TimedOut, start, Client.start, watched, Protocol.after, Watch.fresh,
    Stage.expired]

theorem gone_eq_some {joined : Joined} :
    t.gone = some joined ↔ t.alive = 0 ∧ t.ended = some joined := by
  simp [gone]

theorem watched_answered (op : Op V J) (x : Ans B op) (rest : Prog (Op V J) (Ans B) α) :
    (t.answered op x rest).watched = watch.next t.watched op x :=
  watch.after_append _ _ op x

theorem stage_answered (op : Op V J) (x : Ans B op) (rest : Prog (Op V J) (Ans B) α) :
    (t.answered op x rest).watched.stage = t.watched.stage.next op x := by
  rw [watched_answered]
  rfl

theorem timedOut_answered {limit : Duration} (op : Op V J) (x : Ans B op)
    (rest : Prog (Op V J) (Ans B) α) : (t.answered op x rest).TimedOut limit ↔
      t.TimedOut limit ∨ (⟨.joinWithin limit, none⟩ : Event (Op V J) (Ans B)) = ⟨op, x⟩ := by
  simp [TimedOut, answered]

/-- An answer that does not concern the task changes nothing of it. -/
theorem unwatched_answered {op : Op V J} (hop : op.watched = false) (x : Ans B op)
    (rest : Prog (Op V J) (Ans B) α) :
    (t.answered op x rest).alive = t.alive ∧ (t.answered op x rest).ended = t.ended ∧
      ∀ limit, (t.answered op x rest).TimedOut limit ↔ t.TimedOut limit := by
  have hspawns : op.spawns = false := by
    cases op <;> first | rfl | cases hop
  refine ⟨by simp [answered, hspawns], by simp [answered, hspawns], fun limit => ?_⟩
  rw [timedOut_answered]
  refine or_iff_left ?_
  intro he
  cases he
  cases hop

theorem tells_congr {u : Supervision V J B α} {s : Stage} (halive : u.alive = t.alive)
    (hended : u.ended = t.ended) : s.Tells u ↔ s.Tells t := by
  cases s <;> simp [Stage.Tells, halive, hended]

/-- After an answer that can be given, what the program knows is so. -/
theorem tells_answered {s : Stage} {user : (op : Op V J) → Ans B op} {op : Op V J} {x : Ans B op}
    (allowed : s.allows op) (h : s.Tells t) (hx : t.reply user op = some x)
    (rest : Prog (Op V J) (Ans B) α) : (s.next op x).Tells (t.answered op x rest) := by
  by_cases hop : op.watched = false
  · obtain ⟨halive, hended, -⟩ := unwatched_answered (t := t) hop x rest
    rw [Stage.next_unwatched hop]
    exact (tells_congr halive hended).mpr h
  cases op with
  | spawn handler job ctx =>
    obtain rfl : s = .before := allowed
    exact .inl ⟨congrArg Nat.succ h.1, rfl⟩
  | join => exact gone_eq_some.mp hx
  | joinWithin limit =>
    obtain rfl : s = .watching none := allowed
    cases x with
    | none => exact h
    | some joined =>
      simp only [reply] at hx
      split at hx
      · cases hx
      · obtain ⟨seen, hseen, hs⟩ := Option.map_eq_some_iff.mp hx
        obtain rfl := Option.some.inj hs
        exact gone_eq_some.mp hseen
  | joinAborted =>
    obtain ⟨limit, rfl⟩ := allowed
    exact gone_eq_some.mp hx
  | _ => exact absurd rfl hop

/-- The program knows whether the timer fired. -/
theorem timer_answered {s : Stage} {op : Op V J} {x : Ans B op} (allowed : s.allows op)
    (h : ∀ limit, t.TimedOut limit ↔ s.expired = some limit) (rest : Prog (Op V J) (Ans B) α)
    (limit : Duration) :
    (t.answered op x rest).TimedOut limit ↔ (s.next op x).expired = some limit := by
  by_cases hop : op.watched = false
  · rw [(unwatched_answered hop x rest).2.2 limit, Stage.next_unwatched hop]
    exact h limit
  rw [timedOut_answered, h]
  cases op with
  | spawn handler job ctx =>
    obtain rfl : s = .before := allowed
    simp [Stage.next, Stage.expired]
  | join =>
    obtain rfl : s = .watching none := allowed
    simp [Stage.next, Stage.expired]
  | joinWithin bound =>
    obtain rfl : s = .watching none := allowed
    cases x with
    | none => simp [Stage.next, Stage.expired, eq_comm]
    | some joined => simp [Stage.next, Stage.expired]
  | joinAborted =>
    obtain ⟨bound, rfl⟩ := allowed
    simp [Stage.next, Stage.expired]
  | _ => exact absurd rfl hop

/-- The task's end is no news to a program that has not spawned one or has seen it end. -/
theorem tells_ends {s : Stage} (h : s.Tells t) (hpos : 0 < t.alive) (joined : Joined) :
    s.Tells { t with alive := t.alive - 1, ended := some joined } := by
  cases s with
  | before =>
    obtain ⟨halive, -⟩ := h
    omega
  | finished expired seen =>
    obtain ⟨halive, -⟩ := h
    omega
  | watching expired =>
    obtain ⟨halive, -⟩ | ⟨halive, -⟩ := h
    · exact .inr ⟨by simp [halive], rfl⟩
    · omega

theorem sound_step (h : t.Sound R) (hs : t.step a = some u) : u.Sound R := by
  obtain ⟨user, op, next, x, -, hrest, hx, rfl⟩ | ⟨joined, -, hpos, rfl⟩ := step_cases hs
  · obtain ⟨allowed, keeps⟩ := Client.keeps_answered h.keeps hrest x
    refine ⟨keeps, ?_, fun limit => ?_⟩
    · rw [stage_answered]
      exact tells_answered allowed h.tells hx _
    · rw [stage_answered]
      exact timer_answered allowed h.timer _ limit
  · exact ⟨h.keeps, tells_ends h.tells hpos joined, h.timer⟩

theorem reachable_sound (hp : p.Keeps watch R .fresh) (h : Reachable (supervised p) t) :
    t.Sound R := by
  refine h.invariant ?_ fun _ _ _ hi _ hs => sound_step hi hs
  rintro s rfl
  exact sound_start hp

/-- At most one task of the handler is alive, and none when the program has ended closed. -/
theorem Sound.alive_le (h : t.Sound R) : t.alive ≤ 1 := by
  have := h.tells
  cases hs : t.watched.stage <;> rw [hs] at this <;> simp only [Stage.Tells] at this <;> omega

theorem Sound.alive_closed (h : t.Sound R) (closed : t.watched.stage.Closed) : t.alive = 0 := by
  have := h.tells
  obtain hb | ⟨expired, joined, ho⟩ := closed
  · rw [hb] at this
    exact this.1
  · rw [ho] at this
    exact this.1

end Supervision

end Supervised

/-! ## Whose result counts -/

/-- What a result of `handle` is classified as. -/
inductive Classified : Except JobError Unit → JobOutcome → Prop where
  | success : Classified (.ok ()) .success
  | retryable {err : BoxedError} {text : String} : err.display = .ok text →
      Classified (.error (.retryable err)) (.retryable text)
  | fatal {err : BoxedError} {text : String} : err.display = .ok text →
      Classified (.error (.fatal err)) (.fatal text)
  | deferred {delay : Duration} {reason : String} :
      Classified (.error (.deferred delay reason)) (.deferred delay reason)

theorem classified_iff {result : Except JobError Unit} {outcome : JobOutcome} :
    Classified result outcome ↔ JobOutcome.ofJoined (.returned result) = .ok outcome := by
  constructor
  · intro h
    cases h with
    | success => rfl
    | retryable hd => simp [JobOutcome.ofJoined, hd, Except.map]
    | fatal hd => simp [JobOutcome.ofJoined, hd, Except.map]
    | deferred => rfl
  · intro h
    cases result with
    | ok _ => cases h; exact .success
    | error e =>
      cases e with
      | deferred delay reason => cases h; exact .deferred
      | retryable err =>
        cases hd : err.display with
        | error p => rw [JobOutcome.ofJoined, hd] at h; cases h
        | ok text => rw [JobOutcome.ofJoined, hd] at h; cases h; exact .retryable hd
      | fatal err =>
        cases hd : err.display with
        | error p => rw [JobOutcome.ofJoined, hd] at h; cases h
        | ok text => rw [JobOutcome.ofJoined, hd] at h; cases h; exact .fatal hd

/-- The settle calls and hook runs of a list of events. -/
def shown (events : List (Event (Op V J) (Ans B))) : List (Op V J) :=
  (events.map Sigma.fst).filter Op.visible

theorem shown_after (events : List (Event (Op V J) (Ans B))) (w : Watch V J) :
    (watch.after w events).shown = w.shown ++ shown events := by
  induction events generalizing w with
  | nil => simp [Protocol.after, shown]
  | cons event events ih =>
    rw [Protocol.after, ih]
    cases hv : event.1.visible <;> simp [watch, shown, hv]

/-- At the end of a program that is not in between, a task that ended was seen to end. -/
theorem Supervision.Sound.finished {R : Watch V J → α → Prop} {t : Supervision V J B α}
    {joined : Joined} (h : t.Sound R) (closed : t.watched.stage.Closed)
    (hended : t.ended = some joined) : ∃ expired, t.watched.stage = .finished expired joined ∧
      ∀ limit, t.TimedOut limit ↔ expired = some limit := by
  have htells := h.tells
  have htimer := h.timer
  obtain hb | ⟨expired, seen, ho⟩ := closed
  · rw [hb] at htells
    rw [htells.2] at hended
    cases hended
  · rw [ho] at htells htimer
    obtain rfl := Option.some.inj (htells.2.symm.trans hended)
    exact ⟨expired, ho, htimer⟩

theorem Supervision.expired_none {t : Supervision V J B α} {expired : Option Duration}
    (htimer : ∀ limit, t.TimedOut limit ↔ expired = some limit)
    (hno : ∀ limit, ¬t.TimedOut limit) : expired = none := by
  by_contra hne
  obtain ⟨limit, hsome⟩ := Option.ne_none_iff_exists'.mp hne
  exact hno limit ((htimer limit).mpr hsome)

/-- The result of a handler that ran to completion counts whenever the dispatcher saw its task
end before the timer fired. Once it has fired, the outcome is the timeout, whatever the task
that is cut off still comes to. A job that returned `Ok(())` in time is acked and nothing else. -/
theorem result_in_time_counts (handler : Handler) (e : Envelope V) (timeout : Option Duration)
    (configured : RetryPolicy) (worker : Worker) :
    (∀ t, Reachable (supervised (runHandler (J := J) (B := B) handler e timeout configured).run) t →
      ∀ outcome policy joined, t.client.rest = .ret (.ok (outcome, policy)) →
        t.ended = some joined →
          (∀ result, (∀ limit, ¬t.TimedOut limit) → joined = .returned result →
            Classified result outcome) ∧
          ∀ limit, t.TimedOut limit → timeout = some limit ∧
            outcome = .retryable ("job timed out after " ++ limit.debug)) ∧
    ∀ t, Reachable (supervised (process (J := J) (B := B) worker e).run) t →
      ∀ r, t.client.rest = .ret r → t.ended = some (.returned (.ok ())) →
        (∀ limit, ¬t.TimedOut limit) → shown t.client.done = [.ack] := by
  constructor
  · intro t h outcome policy joined hret hended
    have sound := Supervision.reachable_sound
      (runHandler_keeps (J := J) (B := B) handler e timeout configured) h
    have hjudged := sound.keeps
    rw [hret] at hjudged
    have closed : t.watched.stage.Closed := by
      obtain ⟨-, hb⟩ | ⟨-, expired, seen, ho, -⟩ := hjudged
      · exact .inl hb
      · exact .inr ⟨expired, seen, ho⟩
    obtain ⟨expired, ho, htimer⟩ := sound.finished closed hended
    obtain ⟨-, hb⟩ | ⟨-, expired', seen, ho', hlimit, hr⟩ := hjudged
    · rw [hb] at ho
      cases ho
    obtain ⟨rfl, rfl⟩ := Stage.finished.inj (ho.symm.trans ho')
    constructor
    · rintro result hno rfl
      rw [Supervision.expired_none htimer hno] at hr
      exact classified_iff.mpr hr.symm
    · intro limit hout
      have hsome := (htimer limit).mp hout
      rw [hsome] at hr
      exact ⟨hlimit limit hsome, Except.ok.inj hr⟩
  · intro t h r hret hended hno
    have sound := Supervision.reachable_sound (process_keeps (J := J) (B := B) worker e) h
    have hdealt := sound.keeps
    rw [hret] at hdealt
    obtain ⟨closed, hack⟩ := hdealt
    obtain ⟨expired, ho, htimer⟩ := sound.finished closed hended
    rw [Supervision.expired_none htimer hno] at ho
    simpa [Supervision.watched, shown_after, Watch.fresh] using hack ho

/-- User code that decodes and ends as given, when the timer may be first. -/
def racing (expires : Bool) (joined : Joined) : (op : Op Unit Unit) → Ans Empty op
  | .joinWithin _ => if expires then none else some joined
  | op => ending (.ok (.ok ())) (.ok none) joined op

/-- The task is spawned, ends with `joined`, and is joined. -/
def raceRun (expires : Bool) (joined : Joined) : List (Progress Unit Unit Empty) :=
  let go := .answer (racing expires joined)
  if expires then [go, go, go, go, go, .ends joined, go, go] else [go, go, go, go, .ends joined, go]

/-- The handler returns `Ok(())` after the timer fired and before its task is cut off. -/
theorem result_lost : ¬∀ t : Supervision Unit Unit Empty (Except Panic (JobOutcome × RetryPolicy)),
    Reachable (supervised (runHandler ⟨"send", "mail", .new "mail", none⟩
      (.raw 7 0 "send" "mail" ()) (some (.fromSecs 5)) ⟨3, .none⟩).run) t →
      ∀ outcome policy result, t.client.rest = .ret (.ok (outcome, policy)) →
        t.ended = some (.returned result) → Classified result outcome := by
  intro h
  have reached := (Reach.start (G := anyway) rfl : Reachable (supervised
    (runHandler (J := Unit) (B := Empty) ⟨"send", "mail", .new "mail", none⟩
      (.raw 7 0 "send" "mail" ()) (some (.fromSecs 5)) ⟨3, .none⟩).run) _).run
      (raceRun true (.returned (.ok ()))) rfl
  cases h _ reached _ _ _ rfl rfl

theorem result_in_time_counts_ok : Classified (.ok ()) .success ∧
    ∃ t, Reachable (supervised (process (J := Unit) (B := Empty) (mailWorker true (some (.fromSecs 5)))
      (.raw 7 0 "send" "mail" ())).run) t ∧ shown t.client.done = [.ack] := by
  have counts := result_in_time_counts (V := Unit) (J := Unit) (B := Empty)
    ⟨"send", "mail", .new "mail", none⟩ (.raw 7 0 "send" "mail" ()) (some (.fromSecs 5)) ⟨3, .none⟩
    (mailWorker true (some (.fromSecs 5)))
  have ran := (Reach.start (G := anyway) rfl : Reachable (supervised
    (runHandler (J := Unit) (B := Empty) ⟨"send", "mail", .new "mail", none⟩
      (.raw 7 0 "send" "mail" ()) (some (.fromSecs 5)) ⟨3, .none⟩).run) _).run
      (raceRun false (.returned (.ok ()))) rfl
  have reached := (Reach.start (G := anyway) rfl : Reachable (supervised
    (process (J := Unit) (B := Empty) (mailWorker true (some (.fromSecs 5)))
      (.raw 7 0 "send" "mail" ())).run) _).run
      (raceRun false (.returned (.ok ())) ++ [Progress.answer (racing false .panicked)]) rfl
  constructor
  · refine (counts.1 _ ran _ _ _ rfl rfl).1 _ (fun limit hout => ?_) rfl
    cases ((Supervision.reachable_sound (runHandler_keeps _ _ _ _) ran).timer limit).mp hout
  · refine ⟨_, reached, counts.2 _ reached _ rfl rfl fun limit hout => ?_⟩
    cases ((Supervision.reachable_sound (process_keeps _ _) reached).timer limit).mp hout

end Queuey.Dispatch
