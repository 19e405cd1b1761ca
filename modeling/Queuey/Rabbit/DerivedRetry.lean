import Queuey.Core.Settlement
import Queuey.Macros.Retry
import Queuey.Rabbit.Healthy
import Queuey.Rabbit.HoldName

/-!
# Retry policies of the derives, on RabbitMQ

A derive accepts a `retry(...)` list whose delays fit 64 bits of milliseconds, a hold queue
waits for at most 31. `Holdable` tells, from the written values, which accepted policies the
backend can carry out. The life of a job that always fails is followed delivery by delivery.
-/
namespace Queuey.Rabbit
open Interaction Prog Rabbit.Topology Macros

/-- `DEFAULT_GRANULARITY`. -/
def defaultGranularity : Duration := .fromSecs 1

/-- The longest delay that is held when it is rounded up to whole seconds. -/
def longestDelay : Duration := .fromSecs 2147483

theorem deferredTtlMs_default {delay : Duration} :
    (deferredTtlMs delay defaultGranularity).isSome = true ↔ delay ≤ longestDelay := by
  have hstep : max 1 (min (millisCeil defaultGranularity) maxDeferralMs) = 1000 := by decide
  have hmax : maxDeferralMs = 2147483647 := by decide
  have hlongest : longestDelay.nanos = 2147483000000000 := by decide
  have hu128 : 2147484000 ≤ u128Max := by decide
  rw [Duration.le_iff, hlongest]
  unfold deferredTtlMs
  rw [hstep, hmax]
  unfold divCeil millisCeil
  dsimp only
  split
  · simp only [Option.isSome_some, true_iff]
    omega
  · simp only [Option.isSome_none, Bool.false_eq_true, false_iff]
    omega

/-! ## Which policies can be held -/

/-- The longest delay the curve reaches below the last attempt is one that can be held. -/
def Holdable (fl : Floats) (spec : RetrySpec) : Prop :=
  match spec.backoff with
  | .none => True
  | .fixed delayMs => spec.maxAttempts = 1 ∨ Duration.fromMillis delayMs ≤ longestDelay
  | .exponential baseMs factor maxMs _ => Duration.fromMillis maxMs ≤ longestDelay ∨
    ∀ n : UInt32, 1 ≤ n → n < spec.maxAttempts →
      fl.Within longestDelay (curveSecs fl (.fromMillis baseMs) factor n)

/-- Every delay decided below the last attempt is one a hold queue takes. -/
def DelaysHeld (fl : Floats) (policy : RetryPolicy) : Prop :=
  ∀ (rng : Rng) (n : UInt32) (delay : Duration), 1 ≤ n → n < policy.maxAttempts →
    policy.decide fl rng n = .ok (.retry delay) →
    (deferredTtlMs delay defaultGranularity).isSome = true

variable {fl : Floats} {spec : RetrySpec}

theorem fromMillis_pos {millis : UInt64} (h : 0 < millis) :
    0 < (Duration.fromMillis millis).nanos := by
  have : 0 < millis.toNat := UInt64.lt_iff_toNat_lt.mp h
  show 0 < millis.toNat * 1000000
  omega

theorem fromMillis_le {a b : UInt64} (h : a ≤ b) :
    (Duration.fromMillis a).nanos ≤ (Duration.fromMillis b).nanos := by
  have : a.toNat ≤ b.toNat := UInt64.le_iff_toNat_le.mp h
  show a.toNat * 1000000 ≤ b.toNat * 1000000
  omega

theorem decide_of_delayFor {policy : RetryPolicy} {rng : Rng} {n : UInt32} {delay : Duration}
    (hn : n < policy.maxAttempts) (h : policy.backoff.delayFor fl rng n = .ok delay) :
    policy.decide fl rng n = .ok (.retry delay) := by
  simp only [RetryPolicy.decide, ge_iff_le, UInt32.not_le.mpr hn, if_false, h]
  rfl

theorem delayFor_of_decide {policy : RetryPolicy} {rng : Rng} {n : UInt32} {delay : Duration}
    (h : policy.decide fl rng n = .ok (.retry delay)) :
    policy.backoff.delayFor fl rng n = .ok delay := by
  rcases decide_cases fl rng policy n with ⟨-, hgive⟩ | ⟨-, d, hd, hretry⟩
  · rw [hgive] at h
    cases h
  · rw [hretry] at h
    cases h
    exact hd

/-- A curve whose cap is above the limit stays within it exactly when its seconds do. -/
theorem exponentialDelay_le_iff {baseMs maxMs : UInt64} {factor : F64} {jitter : Bool} {n : UInt32}
    {d : Duration} (hfl : fl.Rounds longestDelay)
    (hvalid : (BackoffSpec.exponential baseMs factor maxMs jitter).Valid) (hn : 1 ≤ n)
    (hmax : longestDelay < .fromMillis maxMs)
    (hd : exponentialDelay fl (.fromMillis baseMs) factor (.fromMillis maxMs) n = .ok d) :
    d ≤ longestDelay ↔ fl.Within longestDelay (curveSecs fl (.fromMillis baseMs) factor n) := by
  obtain ⟨hbase, hle, hfinite, hfactor⟩ := hvalid
  have hbase' := fromMillis_pos hbase
  rw [exponentialDelay_eq fl hbase' (hbase'.trans_le (fromMillis_le hle)) hfinite hfactor hn] at hd
  exact capped_le_iff hfl hmax hd

theorem delaysHeld_fixed {maxAttempts : UInt32} {delayMs : UInt64} (hone : 1 ≤ maxAttempts) :
    DelaysHeld fl ⟨maxAttempts, .fixed (.fromMillis delayMs)⟩ ↔
      maxAttempts = 1 ∨ Duration.fromMillis delayMs ≤ longestDelay := by
  constructor
  · intro held
    refine or_iff_not_imp_left.mpr fun hne => ?_
    have hlt : 1 < maxAttempts := UInt32.lt_of_le_of_ne hone (Ne.symm hne)
    rw [← deferredTtlMs_default]
    exact held id 1 _ (UInt32.le_refl 1) hlt (decide_of_delayFor hlt rfl)
  · intro holdable rng n delay hn hlt h
    obtain rfl := Except.ok.inj (delayFor_of_decide h)
    rw [deferredTtlMs_default]
    rcases holdable with rfl | hle
    · exact absurd hlt (UInt32.not_lt.mpr hn)
    · exact hle

theorem delaysHeld_exponential {maxAttempts : UInt32} {baseMs maxMs : UInt64} {factor : F64}
    {jitter : Bool} (hfl : fl.Rounds longestDelay)
    (hvalid : (BackoffSpec.exponential baseMs factor maxMs jitter).Valid) :
    DelaysHeld fl
        ⟨maxAttempts, .exponential (.fromMillis baseMs) factor (.fromMillis maxMs) jitter⟩ ↔
      Duration.fromMillis maxMs ≤ longestDelay ∨ ∀ n : UInt32, 1 ≤ n → n < maxAttempts →
        fl.Within longestDelay (curveSecs fl (.fromMillis baseMs) factor n) := by
  constructor
  · intro held
    refine or_iff_not_imp_left.mpr fun hmax n hn hlt => ?_
    obtain ⟨d, hd, -⟩ := exponentialDelay_le fl (.fromMillis baseMs) factor (.fromMillis maxMs) n
    apply (exponentialDelay_le_iff hfl hvalid hn (not_le.mp hmax) hd).mp
    have hdelay := delayFor_exponential id jitter hd
    cases jitter with
    | false => exact deferredTtlMs_default.mp (held id n d hn hlt (decide_of_delayFor hlt hdelay))
    | true =>
      -- the draw at the top of the range is as long as the curve goes
      obtain ⟨j, hj, -⟩ := fullJitter_le fl id d
      have hjle : j ≤ longestDelay := deferredTtlMs_default.mp
        (held id n j hn hlt (decide_of_delayFor hlt (hdelay.trans hj)))
      by_contra habove
      exact absurd (fullJitter_top hfl (not_le.mp habove) hj) (not_lt.mpr hjle)
  · intro holdable rng n delay hn hlt h
    rw [deferredTtlMs_default]
    obtain ⟨d, hd, hdmax⟩ :=
      exponentialDelay_le fl (.fromMillis baseMs) factor (.fromMillis maxMs) n
    have hdle : d ≤ longestDelay := by
      by_cases hmax : Duration.fromMillis maxMs ≤ longestDelay
      · exact hdmax.trans hmax
      · have hsecs := holdable.resolve_left hmax n hn hlt
        exact (exponentialDelay_le_iff hfl hvalid hn (not_le.mp hmax) hd).mpr hsecs
    have hdelay := (delayFor_exponential rng jitter hd).symm.trans (delayFor_of_decide h)
    cases jitter with
    | false =>
      obtain rfl := Except.ok.inj hdelay
      exact hdle
    | true =>
      obtain ⟨j, hj, hjle⟩ := fullJitter_le fl rng d
      obtain rfl := Except.ok.inj (hj.symm.trans hdelay)
      exact hjle.trans hdle

/-- The policy of an accepted list can be held exactly when its written values say so. -/
theorem delaysHeld_iff (hfl : fl.Rounds longestDelay) (hvalid : spec.Valid) :
    DelaysHeld fl spec.toTokens ↔ Holdable fl spec := by
  obtain ⟨maxAttempts, backoff⟩ := spec
  cases backoff with
  | none =>
    simp only [Holdable, iff_true]
    intro rng n delay _ _ h
    obtain rfl := Except.ok.inj (delayFor_of_decide h)
    decide
  | fixed delayMs => exact delaysHeld_fixed hvalid.maxAttempts
  | exponential baseMs factor maxMs jitter => exact delaysHeld_exponential hfl hvalid.backoff

/-! ## The life of a job -/

/-- One delivery: the worker with its draws, the user's code, and what the broker answers
while the delivery is settled. -/
structure Round (V J : Type) where
  worker : Dispatch.Worker
  user : (op : Dispatch.Op V J) → Dispatch.Ans BackendError op
  broker : Env Op Ans

/-- What is left of the job's message after a delivery. -/
inductive After (V : Type) where
  | successor (next : Envelope V)
  | acked
  | deadLettered (reason : String)
  | unsettled
deriving DecidableEq

/-- What a settle call leaves once it has succeeded. -/
def After.of {V J : Type} : Dispatch.Op V J → After V
  | .ack => .acked
  | .deadLetter reason => .deadLettered reason
  | .retry next _ | .defer next _ => .successor next
  | _ => .unsettled

namespace Round
variable {V J : Type} (round : Round V J) (publisher : Publisher V) (e : Envelope V)

def settled (op : Settle V) : Except Failure Unit :=
  (((RabbitMqDelivery.mk e publisher).settle op).run.exec round.broker 0).2

/-- The dispatcher's settle calls are the operations of the delivery of `e`. -/
def answer : (op : Dispatch.Op V J) → Dispatch.Ans BackendError op
  | .ack => round.settled publisher e .ack
  | .deadLetter reason => round.settled publisher e (.deadLetter reason)
  | .retry next delay => round.settled publisher e (.retry next delay)
  | .defer next delay => round.settled publisher e (.defer next delay)
  | op => round.user op

def after : After V :=
  let ops := (Dispatch.process round.worker e).run.trace (round.answer publisher e)
  match ops.find? Dispatch.Op.settles with
  | some op => if Dispatch.refused (round.answer publisher e) op then .unsettled else .of op
  | none => .unsettled

end Round

/-- The envelope of each delivery as long as the job lives. A delivery that is left
unsettled comes back as it was. -/
def delivered {V J : Type} (publisher : Publisher V) (rounds : ℕ → Round V J) (e : Envelope V) :
    ℕ → Option (Envelope V)
  | 0 => some e
  | k + 1 => (delivered publisher rounds e k).bind fun f =>
    match (rounds k).after publisher f with
    | .successor next => some next
    | .unsettled => some f
    | .acked | .deadLettered _ => none

/-- A job all of whose runs fail retryably under the policy, on a healthy broker and under
the default granularity. -/
structure FailsForever {V J : Type} (fl : Floats) (policy : RetryPolicy) (publisher : Publisher V)
    (rounds : ℕ → Round V J) (e : Envelope V) : Prop where
  fresh : e.attempt = 1
  granularity : publisher.options.retryGranularity = defaultGranularity
  serves : ∀ f, e.SameJob f → publisher.Serves f
  healthy : ∀ k, Healthy (rounds k).broker
  floats : ∀ k, (rounds k).worker.floats = fl
  fails : ∀ k f, e.SameJob f → ∃ text,
    Dispatch.Happens (rounds k).worker f ((rounds k).answer publisher f) (.retryable text policy)

/-- The job is run once for each attempt and then dead-lettered. -/
structure RunsOut {V J : Type} (policy : RetryPolicy) (publisher : Publisher V)
    (rounds : ℕ → Round V J) (e : Envelope V) : Prop where
  runs : ∀ k < policy.maxAttempts.toNat, ∃ f, delivered publisher rounds e k = some f ∧
    e.SameJob f ∧ f.attempt.toNat = k + 1
  dies : ∀ k f, k + 1 = policy.maxAttempts.toNat → delivered publisher rounds e k = some f →
    ∃ reason, (rounds k).after publisher f = .deadLettered reason
  gone : delivered publisher rounds e policy.maxAttempts.toNat = none

/-- The policy works on RabbitMQ: no delay is refused, and every job ends. -/
structure CarriedOut (fl : Floats) (policy : RetryPolicy) : Prop where
  held : DelaysHeld fl policy
  runsOut : ∀ {V J : Type} (publisher : Publisher V) (rounds : ℕ → Round V J) (e : Envelope V),
    FailsForever fl policy publisher rounds e → RunsOut policy publisher rounds e

section Life
variable {V J : Type} {publisher : Publisher V} {round : Round V J} {rounds : ℕ → Round V J}
  {e f : Envelope V} {policy : RetryPolicy}

/-- The one settle call of a run that comes to a verdict decides what is left. -/
theorem after_eq {verdict : Dispatch.Verdict} {hooks : List (Dispatch.Op V J)}
    {op : Dispatch.Op V J} (h : Dispatch.Happens round.worker e (round.answer publisher e) verdict)
    (hd : Dispatch.Demands round.worker e verdict hooks op)
    (hfits : ∀ delay handler, verdict = .deferred delay handler → e.deferrals.toNat < u32Max) :
    round.after publisher e =
      if Dispatch.refused (round.answer publisher e) op then .unsettled else .of op := by
  obtain ⟨before, hquiet, hrun, -⟩ := Dispatch.process_does h hd hfits
  have hbefore : before.find? Dispatch.Op.settles = none := by
    rw [List.find?_eq_none]
    intro o ho
    simp [hquiet.settles o ho]
  have hhooks : hooks.find? Dispatch.Op.settles = none := by
    rw [List.find?_eq_none]
    intro o ho
    simp [(hd.hooks_visible o ho).2]
  have hfind : ((Dispatch.process round.worker e).run.trace (round.answer publisher e)).find?
      Dispatch.Op.settles = some op := by
    rw [hrun, List.find?_append, hbefore, List.find?_append, hhooks, Dispatch.settling,
      List.find?_cons_of_pos hd.settles]
    rfl
  unfold Round.after
  dsimp only
  rw [hfind]

section Refused
attribute [local simp] Dispatch.refused Except.toOption

theorem not_refused_retry {next : Envelope V} {delay : Duration}
    (h : round.settled publisher e (.retry next delay) = .ok ()) :
    Dispatch.refused (round.answer publisher e) (.retry next delay) = false := by
  have hanswer : round.answer publisher e (.retry next delay) = .ok () := h
  simp [hanswer]

theorem refused_retry {next : Envelope V} {delay : Duration} {err : Failure}
    (h : round.settled publisher e (.retry next delay) = .error err) :
    Dispatch.refused (round.answer publisher e) (.retry next delay) = true := by
  have hanswer : round.answer publisher e (.retry next delay) = .error err := h
  simp [hanswer]

theorem not_refused_deadLetter {reason : String}
    (h : round.settled publisher e (.deadLetter reason) = .ok ()) :
    Dispatch.refused (round.answer publisher e) (.deadLetter reason) = false := by
  have hanswer : round.answer publisher e (.deadLetter reason) = .ok () := h
  simp [hanswer]

end Refused

/-- The envelope of the next attempt. -/
def nextOf (f : Envelope V) : Envelope V := { f with attempt := f.attempt + 1, priority := 0 }

theorem sameJob_nextOf (h : e.SameJob f) : e.SameJob (nextOf f) :=
  ⟨h.jobId, h.jobType, h.queue, h.enqueuedAtMs, h.correlationId, h.payload⟩

/-- A failed attempt below the last is followed by the next, once its delay is held. -/
theorem after_retry (h : FailsForever fl policy publisher rounds e) (held : DelaysHeld fl policy)
    (k : ℕ) (hsame : e.SameJob f) (hone : 1 ≤ f.attempt) (hlt : f.attempt < policy.maxAttempts) :
    (rounds k).after publisher f = .successor (nextOf f) := by
  obtain ⟨text, hfails⟩ := h.fails k f hsame
  obtain ⟨delay, hdelay⟩ := delayFor_ok (rounds k).worker.floats (rounds k).worker.rng
    policy.backoff f.attempt
  have hafter : (rounds k).after publisher f =
      if Dispatch.refused ((rounds k).answer publisher f) (.retry (nextOf f) delay) then .unsettled
      else .of (.retry (nextOf f) delay) :=
    after_eq hfails (.retry hlt hdelay) (by rintro _ _ ⟨⟩)
  rw [h.floats k] at hdelay
  have hsome := held (rounds k).worker.rng f.attempt delay hone hlt (decide_of_delayFor hlt hdelay)
  obtain ⟨ttl, httl⟩ := Option.isSome_iff_exists.mp hsome
  rw [← h.granularity] at httl
  have hsucceeds := retry_succeeds ⟨f, publisher⟩
    (h.serves (nextOf f) (sameJob_nextOf hsame)) httl
  obtain ⟨u, hu, -⟩ := hsucceeds.exec (h.healthy k) 0
  rw [hafter, not_refused_retry hu]
  rfl

/-- A failed attempt whose delay cannot be held comes back as it was. -/
theorem after_stuck (h : FailsForever fl policy publisher rounds e) (k : ℕ) (hsame : e.SameJob f)
    (hlt : f.attempt < policy.maxAttempts)
    (hnone : ∀ rng delay, policy.decide fl rng f.attempt = .ok (.retry delay) →
      deferredTtlMs delay defaultGranularity = none) :
    (rounds k).after publisher f = .unsettled := by
  obtain ⟨text, hfails⟩ := h.fails k f hsame
  obtain ⟨delay, hdelay⟩ := delayFor_ok (rounds k).worker.floats (rounds k).worker.rng
    policy.backoff f.attempt
  have hafter : (rounds k).after publisher f =
      if Dispatch.refused ((rounds k).answer publisher f) (.retry (nextOf f) delay) then .unsettled
      else .of (.retry (nextOf f) delay) :=
    after_eq hfails (.retry hlt hdelay) (by rintro _ _ ⟨⟩)
  rw [h.floats k] at hdelay
  have httl := hnone (rounds k).worker.rng delay (decide_of_delayFor hlt hdelay)
  rw [← h.granularity] at httl
  obtain ⟨err, herr⟩ := retry_refused ⟨f, publisher⟩ (nextOf f) httl
    (rounds k).broker
  rw [hafter, refused_retry herr]
  rfl

theorem after_last (h : FailsForever fl policy publisher rounds e) (k : ℕ) (hsame : e.SameJob f)
    (hle : policy.maxAttempts ≤ f.attempt) :
    ∃ reason, (rounds k).after publisher f = .deadLettered reason := by
  obtain ⟨text, hfails⟩ := h.fails k f hsame
  rw [after_eq hfails (.giveUp hle rfl) (by rintro _ _ ⟨⟩)]
  have hsucceeds := deadLetter_succeeds ⟨f, publisher⟩
    (Dispatch.exhausted policy f text) (h.serves f hsame)
  obtain ⟨u, hu, -⟩ := hsucceeds.exec (h.healthy k) 0
  rw [not_refused_deadLetter hu]
  exact ⟨_, rfl⟩

/-- While every delay is held, the attempts follow one another. -/
theorem delivered_attempt (h : FailsForever fl policy publisher rounds e)
    (held : DelaysHeld fl policy) {k : ℕ} (hk : k < policy.maxAttempts.toNat) :
    ∃ f, delivered publisher rounds e k = some f ∧ e.SameJob f ∧ f.attempt.toNat = k + 1 := by
  induction k with
  | zero => exact ⟨e, rfl, .refl e, by rw [h.fresh]; rfl⟩
  | succ k ih =>
    obtain ⟨f, hf, hsame, hattempt⟩ := ih (by omega)
    have hone : 1 ≤ f.attempt := UInt32.le_iff_toNat_le.mpr (by rw [hattempt]; simp)
    have hlt : f.attempt < policy.maxAttempts := UInt32.lt_iff_toNat_lt.mpr (by omega)
    refine ⟨nextOf f, ?_, sameJob_nextOf hsame, ?_⟩
    · rw [delivered, hf, Option.bind_some, after_retry h held k hsame hone hlt]
    · have hnext := increment_toNat (Dispatch.nextAttempt_below hlt)
      show (f.attempt + 1).toNat = k + 1 + 1
      omega

/-- A job whose first delay cannot be held is at its first attempt for ever. -/
theorem delivered_stuck (h : FailsForever fl policy publisher rounds e)
    (hlt : e.attempt < policy.maxAttempts)
    (hnone : ∀ rng delay, policy.decide fl rng e.attempt = .ok (.retry delay) →
      deferredTtlMs delay defaultGranularity = none) (k : ℕ) :
    delivered publisher rounds e k = some e := by
  induction k with
  | zero => rfl
  | succ k ih => rw [delivered, ih, Option.bind_some, after_stuck h k (.refl e) hlt hnone]

theorem runsOut_of_held (h : FailsForever fl policy publisher rounds e)
    (held : DelaysHeld fl policy) (hpos : 0 < policy.maxAttempts) :
    RunsOut policy publisher rounds e := by
  have hpos' : 0 < policy.maxAttempts.toNat := UInt32.lt_iff_toNat_lt.mp hpos
  have dies : ∀ k f, k + 1 = policy.maxAttempts.toNat → delivered publisher rounds e k = some f →
      ∃ reason, (rounds k).after publisher f = .deadLettered reason := by
    intro k f hk hf
    obtain ⟨f', hf', hsame, hattempt⟩ := delivered_attempt h held (k := k) (by omega)
    obtain rfl := Option.some.inj (hf.symm.trans hf')
    exact after_last h k hsame (UInt32.le_iff_toNat_le.mpr (by omega))
  refine ⟨fun k hk => delivered_attempt h held hk, dies, ?_⟩
  obtain ⟨k, hk⟩ := Nat.exists_eq_add_of_lt hpos'
  obtain ⟨f, hf, -, -⟩ := delivered_attempt h held (k := k) (by omega)
  obtain ⟨reason, hreason⟩ := dies k f (by omega) hf
  rw [show policy.maxAttempts.toNat = k + 1 by omega, delivered, hf, Option.bind_some, hreason]

end Life

/-- An accepted list's policy works on RabbitMQ exactly when its written delays can be held. -/
theorem derived_carriedOut (fl : Floats) (hfl : fl.Rounds longestDelay)
    (items : List (String × Macros.Value)) (spec : RetrySpec) (h : parseRetry items = .ok spec) :
    CarriedOut fl spec.toTokens ↔ Holdable fl spec := by
  have hvalid := parseRetry_valid h
  rw [← delaysHeld_iff hfl hvalid]
  constructor
  · exact fun carried => carried.held
  · intro held
    exact ⟨held, fun _ _ _ hfails => runsOut_of_held hfails held hvalid.maxAttempts⟩

/-- A number of nanoseconds, unless it is more than a duration holds. -/
def ofNanos (n : ℕ) : Option Duration :=
  if h : n < 2 ^ 64 * nanosPerSec then some ⟨n, h⟩ else none

theorem asSecs_exact (d : Duration) : ∃ q : ℚ, 0 ≤ q ∧
    F64.finite (d.nanos / nanosPerSec) = .finite q :=
  ⟨d.nanos / nanosPerSec, div_nonneg (Nat.cast_nonneg _) (Nat.cast_nonneg _), rfl⟩

/-- Exact arithmetic, read back as whole nanoseconds. -/
def rationalFloats : Floats where
  asSecs d := .finite (d.nanos / nanosPerSec)
  ofSecs
    | .finite q => if 0 ≤ q then ofNanos (q * nanosPerSec).floor.toNat else none
    | _ => none
  mul
    | .finite a, .finite b => .finite (a * b)
    | _, _ => .nan
  powf
    | .finite a, .finite n => .finite (a ^ n.num.toNat)
    | _, _ => .nan
  asSecs_spec := asSecs_exact

theorem ofNanos_mono {m n : ℕ} {d : Duration} (hmn : m ≤ n) (h : ofNanos n = some d) :
    ∃ c, ofNanos m = some c ∧ c ≤ d := by
  unfold ofNanos at h ⊢
  split at h
  · rename_i hn
    obtain rfl := Option.some.inj h
    exact ⟨⟨m, hmn.trans_lt hn⟩, dif_pos _, hmn⟩
  · cases h

theorem rationalFloats_ofSecs {q : ℚ} (h : 0 ≤ q) :
    rationalFloats.ofSecs (.finite q) = ofNanos (q * nanosPerSec).floor.toNat := if_pos h

theorem rationalFloats_asSecs (d : Duration) :
    rationalFloats.ofSecs (rationalFloats.asSecs d) = some d := by
  have hne : ((nanosPerSec : ℕ) : ℚ) ≠ 0 := by decide
  have hfloor : ((d.nanos / nanosPerSec : ℚ) * nanosPerSec).floor.toNat = d.nanos := by
    rw [div_mul_cancel₀ _ hne]
    exact congrArg Int.toNat (Rat.floor_intCast d.nanos)
  have hpos : (0 : ℚ) ≤ d.nanos / nanosPerSec := div_nonneg (Nat.cast_nonneg _) (Nat.cast_nonneg _)
  have hread := rationalFloats_ofSecs hpos
  rw [hfloor] at hread
  exact hread.trans (dif_pos d.bounded)

theorem rationalFloats_rounds (limit : Duration) : rationalFloats.Rounds limit where
  ofSecs_zero := by
    rw [rationalFloats_ofSecs le_rfl, zero_mul]
    decide
  ofSecs_mono p q d hp hpq h := by
    rw [rationalFloats_ofSecs (hp.trans hpq)] at h
    rw [rationalFloats_ofSecs hp]
    have hscaled : p * nanosPerSec ≤ q * nanosPerSec :=
      mul_le_mul_of_nonneg_right hpq (Nat.cast_nonneg _)
    exact ofNanos_mono (Int.toNat_le_toNat (Rat.floor_monotone hscaled)) h
  above d c hd h := by
    rw [rationalFloats_asSecs] at h
    exact Option.some.inj h ▸ hd

/-- The empty list's policy works. -/
theorem derived_default_carriedOut :
    CarriedOut rationalFloats (RetrySpec.toTokens ⟨3, .exponential 1000 (.finite 2) 300000 true⟩) :=
  (derived_carriedOut rationalFloats (rationalFloats_rounds _) [] _ rfl).mpr (.inl (by decide))

/-- `retry(max_attempts = 3, backoff = "fixed", delay = "30d")`. -/
def thirtyDays : List (String × Macros.Value) :=
  [("max_attempts", .lit (.int 3 (.finite 3))), ("backoff", .lit (.str "fixed")),
    ("delay", .lit (.str "30d"))]

def thirtyDaysSpec : RetrySpec := ⟨3, .fixed 2592000000⟩

/-- A publisher under the default options. -/
def mailPublisher : Publisher Unit where
  options := ⟨".dead", true, ".deferred", defaultGranularity, defaultGranularity⟩
  toBytes _ := .ok []

/-- A worker whose handler panics under the thirty days' policy. -/
def panickingRound : Round Unit Unit where
  worker := {
    build := ⟨true⟩
    floats := rationalFloats
    rng := id
    handlers := fun jobType =>
      if jobType = "send" then some ⟨"send", "mail", .new "mail", some thirtyDaysSpec.toTokens⟩
      else none
    policies := fun _ => none
    hook := false
    jobTimeout := none }
  user
    | .decode _ _ => .ok (.ok ())
    | .setRetryPolicy _ _ => .ok none
    | .nowMs => 0
    | .join => .panicked
    | .joinWithin _ => some .panicked
    | .joinAborted => .panicked
    | .onDeadLetter _ => .ok ()
    | .ack | .deadLetter _ | .retry _ _ | .defer _ _ => .ok ()
    | .spawn _ _ _ | .abort | .countFailure => ()
  broker _
    | .configFor queue => some (.new queue)
    | .declareChannelConnected => true
    | .ensureConnected | .createChannel | .confirmSelect | .queueDeclare _ _ _ => .ok ()
    | .acquirePermit => true
    | .popIdle => some true
    | .basicPublish _ _ _ _ _ => .ok ()
    | .awaitConfirm => .ok (.ack none)
    | .ack | .reject _ => .ok true

def mailJob : Envelope Unit := .raw 7 0 "send" "mail" ()

theorem panickingRound_fails : FailsForever rationalFloats thirtyDaysSpec.toTokens mailPublisher
    (fun _ => panickingRound) mailJob where
  fresh := rfl
  granularity := rfl
  serves f hsame := by
    have hqueue : f.queue = "mail" := hsame.queue.symm
    refine ⟨fun ttl hle => ?_, ?_, ⟨[], rfl⟩⟩
    · rw [Publisher.deferredQueue, hqueue, deferredQueueName_eq]
      exact (NumberedName.utf8ByteSize_mono hle).trans (by decide)
    · rw [Publisher.deadQueue, hqueue]
      decide
  healthy _ n op := by
    cases op <;> first | rfl | trivial
  floats _ := rfl
  fails _ f hsame := by
    have hjob : f.jobType = "send" := hsame.jobType.symm
    have hhandler : panickingRound.worker.handlers f.jobType =
        some ⟨"send", "mail", .new "mail", some thirtyDaysSpec.toTokens⟩ := by
      rw [hjob]
      rfl
    exact ⟨_, .panicked ⟨hhandler, (), none, rfl, rfl, rfl⟩ rfl⟩

/-- Thirty days are accepted by the derive and refused by every hold queue, so the job is
at its first attempt for ever. -/
theorem derived_thirty_days_stuck : parseRetry thirtyDays = .ok thirtyDaysSpec ∧
    ¬CarriedOut rationalFloats thirtyDaysSpec.toTokens ∧
    FailsForever rationalFloats thirtyDaysSpec.toTokens mailPublisher (fun _ => panickingRound)
      mailJob ∧
    ∀ k, delivered mailPublisher (fun _ => panickingRound) mailJob k = some mailJob := by
  have hnone : deferredTtlMs (.fromMillis 2592000000) defaultGranularity = none := by decide
  refine ⟨by decide, ?_, panickingRound_fails, ?_⟩
  · intro carried
    have := carried.held id 1 (.fromMillis 2592000000) (by decide) (by decide) rfl
    rw [hnone] at this
    cases this
  · refine delivered_stuck panickingRound_fails (by decide) fun rng delay h => ?_
    obtain rfl := Except.ok.inj (delayFor_of_decide h)
    exact hnone

end Queuey.Rabbit
