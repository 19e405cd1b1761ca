import Mathlib.Data.List.Induction
import Queuey.Core.Retry
import Queuey.Rabbit.Lapin

/-!
# Reconnect policies

What a policy decides on, the built-in policy, and the protocol between a policy and the
loop that consults it, as a monitor of the loop's events. A policy may keep a state of its
own, so nothing is assumed of its answers here.
-/
namespace Queuey.Rabbit

inductive Rebuilding where
  | connection
  | consumer
deriving DecidableEq

/-- The client's error, or a core error where a subscription failed. -/
abbrev AttemptError := LapinError ⊕ Failure

structure Attempt where
  failures : UInt32
  error : Option AttemptError
  rebuilding : Rebuilding
deriving DecidableEq

def Attempt.first (rebuilding : Rebuilding) : Attempt := ⟨0, none, rebuilding⟩

def Attempt.after (rebuilding : Rebuilding) (failures : UInt32) (error : AttemptError) : Attempt :=
  ⟨failures, some error, rebuilding⟩

structure BackoffPolicy where
  maxAttempts : Option UInt32
  backoff : Backoff

def BackoffPolicy.nextDelay (fl : Floats) (rng : Rng) (policy : BackoffPolicy) (attempt : Attempt) :
    Except Panic (Option Duration) :=
  if policy.maxAttempts.any fun max => attempt.failures ≥ max then .ok none
  else if attempt.failures = 0 then .ok (some Duration.zero)
  else do return some (← policy.backoff.delayFor fl rng attempt.failures)

/-- The built-in policy gives up exactly at its limit. -/
theorem nextDelay_none_iff (fl : Floats) (rng : Rng) {policy : BackoffPolicy} {limit : UInt32}
    (hmax : policy.maxAttempts = some limit) (attempt : Attempt) :
    policy.nextDelay fl rng attempt = .ok none ↔ limit ≤ attempt.failures := by
  obtain ⟨d, hd⟩ := delayFor_ok fl rng policy.backoff attempt.failures
  unfold BackoffPolicy.nextDelay
  by_cases hle : limit ≤ attempt.failures
  · simp [hmax, hle]
  · by_cases hzero : attempt.failures = 0
    · rw [hzero] at hle
      have hne : limit ≠ 0 := fun heq => hle (heq ▸ UInt32.le_refl 0)
      simp [hmax, hzero, hne]
    · simp [hmax, hle, hzero, hd, bind, Except.bind, pure, Except.pure]

/-- What a loop that rebuilds something does, as far as the policy is concerned. -/
inductive Event where
  | asked (attempt : Attempt) (answer : Option Duration) (time : ℕ)
  | tried (time : ℕ)
  | failed (error : AttemptError)

def Event.isAsked : Event → Bool
  | asked _ _ _ => true
  | _ => false

def Event.isTried : Event → Bool
  | tried _ => true
  | _ => false

/-- What may come next, after so many failures. -/
inductive Next where
  | question (failures : ℕ) (error : Option AttemptError)
  | attempt (failures notBefore : ℕ)
  | outcome (failures : ℕ)
  | nothing (failures : ℕ)

/-- The policy is asked before every attempt, with the failures so far and the last error;
the attempt waits for the delay, and there is none after the first `None`. -/
def govern (rebuilding : Rebuilding) : Next → Event → Option Next
  | .question n error, .asked attempt answer time =>
    if attempt.failures.toNat = n ∧ attempt.error = error ∧ attempt.rebuilding = rebuilding then
      match answer with
      | some delay => some (.attempt n (time + delay.nanos))
      | none => some (.nothing n)
    else none
  | .attempt n notBefore, .tried time => if notBefore ≤ time then some (.outcome n) else none
  | .outcome n, .failed error => some (.question (n + 1) (some error))
  | _, _ => none

def governs (rebuilding : Rebuilding) (start : Next) (trace : List Event) : Option Next :=
  trace.foldlM (govern rebuilding) start

/-- The rebuild has been governed by the policy so far. -/
def Governed (rebuilding : Rebuilding) (trace : List Event) : Prop :=
  (governs rebuilding (.question 0 none) trace).isSome = true

def asks (trace : List Event) : ℕ := trace.countP Event.isAsked

def tries (trace : List Event) : ℕ := trace.countP Event.isTried

/-- The answers in a trace are those of a policy. -/
def Follows (policy : BackoffPolicy) (trace : List Event) : Prop :=
  ∀ attempt answer time, Event.asked attempt answer time ∈ trace →
    ∃ fl rng, policy.nextDelay fl rng attempt = .ok answer

variable {rebuilding : Rebuilding} {trace : List Event} {start next : Next} {event : Event}

theorem Follows.before {policy : BackoffPolicy} (h : Follows policy (trace ++ [event])) :
    Follows policy trace :=
  fun attempt answer time hin => h attempt answer time (List.mem_append_left _ hin)

theorem governs_append (start : Next) (trace : List Event) (event : Event) :
    governs rebuilding start (trace ++ [event]) =
      (governs rebuilding start trace).bind fun next => govern rebuilding next event := by
  simp [governs, List.foldlM_append]

section Govern
attribute [local grind] govern

theorem asked_cases {attempt : Attempt} {answer : Option Duration} {time : ℕ} {after : Next}
    (h : govern rebuilding next (.asked attempt answer time) = some after) :
    ∃ n error, next = .question n error ∧ attempt.failures.toNat = n ∧ attempt.error = error ∧
      attempt.rebuilding = rebuilding ∧
        ((∃ delay, answer = some delay ∧ after = .attempt n (time + delay.nanos)) ∨
          answer = none ∧ after = .nothing n) := by
  cases next <;> cases answer <;> grind

theorem tried_cases {time : ℕ} {after : Next}
    (h : govern rebuilding next (.tried time) = some after) :
    ∃ n notBefore, next = .attempt n notBefore ∧ notBefore ≤ time ∧ after = .outcome n := by
  cases next <;> grind

theorem failed_cases {error : AttemptError} {after : Next}
    (h : govern rebuilding next (.failed error) = some after) :
    ∃ n, next = .outcome n ∧ after = .question (n + 1) (some error) := by
  cases next <;> grind

end Govern

/-- The attempts made when so much is to come. -/
def Next.tries : Next → ℕ
  | question n _ | attempt n _ | nothing n => n
  | outcome n => n + 1

theorem tries_of_governs (hstart : start.tries = 0)
    (h : governs rebuilding start trace = some next) : tries trace = next.tries := by
  induction trace using List.reverseRecOn generalizing next with
  | nil =>
    obtain rfl := Option.some.inj h
    exact hstart.symm
  | append_singleton trace event ih =>
    rw [governs_append] at h
    obtain ⟨before, hbefore, hstep⟩ := Option.bind_eq_some_iff.mp h
    have hcount := ih hbefore
    unfold tries at hcount ⊢
    rw [List.countP_append, hcount]
    cases event with
    | asked attempt answer time =>
      obtain ⟨n, error, rfl, -, -, -, ⟨delay, -, rfl⟩ | ⟨-, rfl⟩⟩ := asked_cases hstep <;> rfl
    | tried time =>
      obtain ⟨n, notBefore, rfl, -, rfl⟩ := tried_cases hstep
      rfl
    | failed error =>
      obtain ⟨n, rfl, rfl⟩ := failed_cases hstep
      rfl

/-- Where a policy with this limit leaves a rebuild that skipped the first questions. -/
def Next.Within (skipped limit : ℕ) : Next → Prop
  | question n _ => skipped ≤ n ∧ n ≤ limit
  | attempt n _ | outcome n => n < limit
  | nothing n => n = limit

/-- The policy gives up exactly at the limit, where it is asked. -/
def Declines (skipped limit : ℕ) (trace : List Event) : Prop :=
  ∀ attempt answer time, Event.asked attempt answer time ∈ trace →
    skipped ≤ attempt.failures.toNat → (answer = none ↔ limit ≤ attempt.failures.toNat)

theorem Follows.declines {policy : BackoffPolicy} {limit : UInt32}
    (hmax : policy.maxAttempts = some limit) (follows : Follows policy trace) (skipped : ℕ) :
    Declines skipped (max limit.toNat skipped) trace := by
  intro attempt answer time hin hskipped
  obtain ⟨fl, rng, hanswer⟩ := follows attempt answer time hin
  have hnone := nextDelay_none_iff fl rng hmax attempt
  rw [hanswer, Except.ok.injEq, UInt32.le_iff_toNat_le] at hnone
  rw [hnone]
  omega

theorem within_of_governs {skipped limit : ℕ} (declines : Declines skipped limit trace)
    (hskipped : skipped ≤ 1) (hstart : start.Within skipped limit)
    (h : governs rebuilding start trace = some next) : next.Within skipped limit := by
  induction trace using List.reverseRecOn generalizing next with
  | nil =>
    obtain rfl := Option.some.inj h
    exact hstart
  | append_singleton trace event ih =>
    rw [governs_append] at h
    obtain ⟨before, hbefore, hstep⟩ := Option.bind_eq_some_iff.mp h
    have hwithin := ih (fun attempt answer time hin =>
      declines attempt answer time (List.mem_append_left _ hin)) hbefore
    cases event with
    | asked attempt answer time =>
      have hnone := declines attempt answer time (by simp)
      obtain ⟨n, error, rfl, hn, -, -, ⟨delay, rfl, rfl⟩ | ⟨rfl, rfl⟩⟩ := asked_cases hstep
      · simp only [Next.Within, reduceCtorEq, false_iff] at hwithin hnone ⊢
        omega
      · simp only [Next.Within, true_iff] at hwithin hnone ⊢
        omega
    | tried time =>
      obtain ⟨n, notBefore, rfl, -, rfl⟩ := tried_cases hstep
      exact hwithin
    | failed error =>
      obtain ⟨n, rfl, rfl⟩ := failed_cases hstep
      simp only [Next.Within] at hwithin ⊢
      omega

/-- A rebuild that the policy has ended has made the attempts that the policy allows. -/
theorem tries_of_declined {skipped limit : ℕ} (declines : Declines skipped limit trace)
    (hskipped : skipped ≤ 1) (hstart : start.Within skipped limit) (htries : start.tries = 0)
    (h : governs rebuilding start trace = some next) {attempt : Attempt} {time : ℕ}
    {before : List Event} (htrace : trace = before ++ [Event.asked attempt none time]) :
    tries trace = limit := by
  have hwithin := within_of_governs declines hskipped hstart h
  rw [tries_of_governs htries h]
  rw [htrace, governs_append] at h
  obtain ⟨u, -, hstep⟩ := Option.bind_eq_some_iff.mp h
  obtain ⟨n, error, -, -, -, -, ⟨delay, hdelay, -⟩ | ⟨-, rfl⟩⟩ := asked_cases hstep
  · cases hdelay
  · exact hwithin

/-! ## A loop that counts its failures in 32 bits -/

/-- The loop is where the monitor is, until the count of failures wraps. -/
def Stands (rebuilding : Rebuilding) (start : Next) (skipped : ℕ) (trace : List Event)
    (next : Next) : Prop :=
  governs rebuilding start trace = if asks trace + skipped ≤ 2 ^ 32 then some next else none

variable {skipped n : ℕ}

theorem Stands.isSome_iff (h : Stands rebuilding start skipped trace next) :
    (governs rebuilding start trace).isSome = true ↔ asks trace + skipped ≤ 2 ^ 32 := by
  rw [h]
  split_ifs with hle
  · exact iff_of_true rfl hle
  · exact iff_of_false nofun hle

theorem asks_append (trace : List Event) (event : Event) :
    asks (trace ++ [event]) = asks trace + if event.isAsked then 1 else 0 := by
  simp [asks, List.countP_append, List.countP_singleton]

theorem Stands.asked {error : Option AttemptError} {a : Attempt}
    (h : Stands rebuilding start skipped trace (.question n error))
    (answer : Option Duration) (time : ℕ)
    (hasks : asks trace + skipped = n) (hfailures : a.failures = UInt32.ofNat n)
    (herror : a.error = error) (hrebuilding : a.rebuilding = rebuilding) :
    Stands rebuilding start skipped (trace ++ [Event.asked a answer time])
      (answer.elim (.nothing n) fun delay => .attempt n (time + delay.nanos)) := by
  have hcount : a.failures.toNat = n % 2 ^ 32 := by rw [hfailures, UInt32.toNat_ofNat']
  unfold Stands at h ⊢
  rw [governs_append, h, asks_append, hasks]
  simp only [Event.isAsked, if_true]
  obtain hlt | rfl | hgt := lt_trichotomy n (2 ^ 32)
  · have hn : a.failures.toNat = n := by omega
    rw [if_pos (by omega), if_pos (by omega)]
    cases answer <;> simp [govern, hn, herror, hrebuilding]
  · have hn : a.failures.toNat ≠ 2 ^ 32 := by omega
    rw [if_pos (by omega), if_neg (by omega)]
    simp only [Option.bind_some, govern]
    exact if_neg fun hall => hn hall.1
  · rw [if_neg (by omega), if_neg (by omega)]
    rfl

theorem Stands.tried {time notBefore : ℕ}
    (h : Stands rebuilding start skipped trace (.attempt n notBefore)) (htime : notBefore ≤ time) :
    Stands rebuilding start skipped (trace ++ [Event.tried time]) (.outcome n) := by
  unfold Stands at h ⊢
  rw [governs_append, h, asks_append]
  simp only [Event.isAsked, Bool.false_eq_true, if_false, Nat.add_zero]
  split_ifs
  · simp [govern, htime]
  · rfl

theorem Stands.failed {error : AttemptError}
    (h : Stands rebuilding start skipped trace (.outcome n)) :
    Stands rebuilding start skipped (trace ++ [Event.failed error])
      (.question (n + 1) (some error)) := by
  unfold Stands at h ⊢
  rw [governs_append, h, asks_append]
  simp only [Event.isAsked, Bool.false_eq_true, if_false, Nat.add_zero]
  split_ifs <;> rfl

/-- Only an empty trace is where it began. -/
theorem Stands.ne_nil (h : Stands rebuilding start skipped trace next) (hskipped : skipped ≤ 1)
    (hne : next ≠ start) : trace ≠ [] := by
  rintro rfl
  unfold Stands at h
  have hle : asks [] + skipped ≤ 2 ^ 32 := by
    have hnone : asks [] = 0 := rfl
    omega
  rw [if_pos hle] at h
  exact hne (Option.some.inj h).symm

/-- Where the policy's limit counts, the count of failures does not wrap. -/
theorem Stands.asks_lt {limit : ℕ} {error : Option AttemptError}
    (h : Stands rebuilding start skipped trace (.question n error))
    (hasks : asks trace + skipped = n)
    (hle : asks trace + skipped ≤ 2 ^ 32) (declines : Declines skipped limit trace)
    (hskipped : skipped ≤ 1) (hstart : start.Within skipped limit) (hlimit : limit < 2 ^ 32) :
    asks trace + skipped < 2 ^ 32 := by
  unfold Stands at h
  rw [if_pos hle] at h
  have hwithin := within_of_governs declines hskipped hstart h
  simp only [Next.Within] at hwithin
  omega

end Queuey.Rabbit
