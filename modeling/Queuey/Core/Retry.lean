import Queuey.Core.Time

/-!
# Retry policies and the backoff arithmetic

`computeDelay` follows the source step by step through the doubles, with the panics
of `f64::clamp` and `random_range` in place. The random draw is a function of the
range it is asked for. The bounds at the end of the file are what keeps those panics
out of reach.
-/
namespace Queuey

inductive Backoff where
  | none
  | fixed (delay : Duration)
  | exponential (base : Duration) (factor : F64) (max : Duration) (jitter : Bool)
deriving DecidableEq

structure RetryPolicy where
  maxAttempts : UInt32
  backoff : Backoff
deriving DecidableEq

instance : Inhabited RetryPolicy := ⟨⟨1, .none⟩⟩

inductive RetryDecision where
  | retry (delay : Duration)
  | giveUp
deriving DecidableEq

/-- A thread's random generator, as an inclusive draw from `0` up to a bound. -/
abbrev Rng := F64 → F64

/-- `random_range(0.0..=high)`, which panics on an empty or a non-finite range. -/
def randomRange (rng : Rng) (high : F64) : Except Panic F64 :=
  if !F64.le (.finite 0) high then .error ⟨"cannot sample empty range"⟩
  else if !high.isFinite then .error ⟨"range must be finite"⟩
  else .ok (rng high)

/-- The end of `exponential_delay`: bring the computed seconds back under the cap. -/
def capped (fl : Floats) (secs : F64) (max : Duration) : Except Panic Duration := do
  if !secs.isFinite then
    return max
  let capped ← secs.clamp (.finite 0) (fl.asSecs max)
  return min ((fl.ofSecs capped).getD max) max

def exponentialDelay (fl : Floats) (base : Duration) (factor : F64) (max : Duration)
    (failedAttempt : UInt32) : Except Panic Duration := do
  if base.isZero || max.isZero then
    return Duration.zero
  -- Attempt 0 counts as attempt 1, so the subtraction cannot underflow.
  let exponent := F64.finite ((Nat.max failedAttempt.toNat 1 - 1 : ℕ) : ℚ)
  let factor := if factor.isFinite && F64.lt (.finite 0) factor then factor else .finite 1
  capped fl (fl.mul (fl.asSecs base) (fl.powf factor exponent)) max

def fullJitter (fl : Floats) (rng : Rng) (delay : Duration) : Except Panic Duration := do
  let secs := fl.asSecs delay
  if !secs.isFinite || F64.le secs (.finite 0) then
    return Duration.zero
  let sampled ← randomRange rng secs
  return min ((fl.ofSecs sampled).getD delay) delay

def computeDelay (fl : Floats) (rng : Rng) (backoff : Backoff) (failedAttempt : UInt32) :
    Except Panic Duration :=
  match backoff with
  | .none => .ok Duration.zero
  | .fixed delay => .ok delay
  | .exponential base factor max jitter => do
    let computed ← exponentialDelay fl base factor max failedAttempt
    if jitter then fullJitter fl rng computed else return computed

def Backoff.delayFor (fl : Floats) (rng : Rng) (backoff : Backoff) (failedAttempt : UInt32) :
    Except Panic Duration :=
  computeDelay fl rng backoff failedAttempt

def RetryPolicy.decide (fl : Floats) (rng : Rng) (policy : RetryPolicy) (failedAttempt : UInt32) :
    Except Panic RetryDecision :=
  if failedAttempt ≥ policy.maxAttempts then .ok .giveUp
  else do return .retry (← policy.backoff.delayFor fl rng failedAttempt)

variable {fl : Floats} {rng : Rng} {base max delay : Duration} {factor : F64} {n : UInt32}

theorem clamp_ok (fl : Floats) (x : F64) (max : Duration) :
    ∃ y, x.clamp (.finite 0) (fl.asSecs max) = .ok y := by
  obtain ⟨q, hq, hs⟩ := fl.asSecs_spec max
  simp [F64.clamp, F64.le, hs, hq]

theorem capped_le (fl : Floats) (secs : F64) (max : Duration) :
    ∃ d, capped fl secs max = .ok d ∧ d ≤ max := by
  unfold capped
  split
  · exact ⟨max, rfl, le_rfl⟩
  · obtain ⟨y, hy⟩ := clamp_ok fl secs max
    exact ⟨_, by rw [hy]; rfl, min_le_right _ _⟩

theorem exponentialDelay_le (fl : Floats) (base : Duration) (factor : F64) (max : Duration)
    (n : UInt32) : ∃ d, exponentialDelay fl base factor max n = .ok d ∧ d ≤ max := by
  unfold exponentialDelay
  split
  · exact ⟨_, rfl, Nat.zero_le _⟩
  · exact capped_le fl _ max

theorem fullJitter_le (fl : Floats) (rng : Rng) (delay : Duration) :
    ∃ d, fullJitter fl rng delay = .ok d ∧ d ≤ delay := by
  obtain ⟨q, hq, hs⟩ := fl.asSecs_spec delay
  unfold fullJitter
  simp only [hs]
  split
  · exact ⟨_, rfl, Nat.zero_le _⟩
  · exact ⟨_, by simp [randomRange, F64.le, F64.isFinite, hq]; rfl, min_le_right _ _⟩

/-- The exponential backoff never panics and never exceeds its cap. -/
theorem computeDelay_exponential_le (fl : Floats) (rng : Rng) (base : Duration) (factor : F64)
    (max : Duration) (jitter : Bool) (n : UInt32) :
    ∃ d, computeDelay fl rng (.exponential base factor max jitter) n = .ok d ∧ d ≤ max := by
  obtain ⟨d, hd, hle⟩ := exponentialDelay_le fl base factor max n
  obtain ⟨j, hj, hjle⟩ := fullJitter_le fl rng d
  cases jitter with
  | false => exact ⟨d, by simp [computeDelay, hd, bind, Except.bind]; rfl, hle⟩
  | true => exact ⟨j, by simp [computeDelay, hd, bind, Except.bind, hj], hjle.trans hle⟩

/-- What jitter makes of the delay of the curve. -/
theorem delayFor_exponential {d : Duration} (rng : Rng)
    (jitter : Bool) (hd : exponentialDelay fl base factor max n = .ok d) :
    Backoff.delayFor fl rng (.exponential base factor max jitter) n =
      if jitter then fullJitter fl rng d else .ok d := by
  simp only [Backoff.delayFor, computeDelay, hd]
  rfl

theorem delayFor_ok (fl : Floats) (rng : Rng) (backoff : Backoff) (n : UInt32) :
    ∃ d, backoff.delayFor fl rng n = .ok d := by
  cases backoff with
  | none => exact ⟨_, rfl⟩
  | fixed delay => exact ⟨_, rfl⟩
  | exponential base factor max jitter =>
    obtain ⟨d, hd, -⟩ := computeDelay_exponential_le fl rng base factor max jitter n
    exact ⟨d, hd⟩

/-- A decision is reached for every attempt: a further one below the limit, none from it on. -/
theorem decide_cases (fl : Floats) (rng : Rng) (policy : RetryPolicy) (n : UInt32) :
    (policy.maxAttempts ≤ n ∧ policy.decide fl rng n = .ok .giveUp) ∨
    (n < policy.maxAttempts ∧ ∃ d, policy.backoff.delayFor fl rng n = .ok d ∧
      policy.decide fl rng n = .ok (.retry d)) := by
  by_cases h : policy.maxAttempts ≤ n
  · exact .inl ⟨h, by simp [RetryPolicy.decide, h]⟩
  · obtain ⟨d, hd⟩ := delayFor_ok fl rng policy.backoff n
    refine .inr ⟨UInt32.not_le.mp h, d, hd, ?_⟩
    simp only [RetryPolicy.decide, ge_iff_le, h, if_false, hd]
    rfl

/-! ## Delays within a limit -/

/-- The seconds, read back as a duration, are at most `limit`. -/
def Floats.Within (fl : Floats) (limit : Duration) : F64 → Prop
  | .finite q => ∃ d, fl.ofSecs (.finite (Max.max q 0)) = some d ∧ d ≤ limit
  | _ => False

/-- What rounding keeps of the conversions between a duration and its seconds. -/
structure Floats.Rounds (fl : Floats) (limit : Duration) : Prop where
  ofSecs_zero : fl.ofSecs (.finite 0) = some .zero
  ofSecs_mono : ∀ (p q : ℚ) (d : Duration), 0 ≤ p → p ≤ q → fl.ofSecs (.finite q) = some d →
    ∃ c, fl.ofSecs (.finite p) = some c ∧ c ≤ d
  above : ∀ d c, limit < d → fl.ofSecs (fl.asSecs d) = some c → limit < c

section Limit
variable {limit : Duration} {secs : F64}

/-- What `clamp` leaves of a finite number of seconds: the smaller of it and the cap. -/
theorem clamp_finite {q m : ℚ} (hm : 0 ≤ m) :
    (F64.finite q).clamp (.finite 0) (.finite m) = .ok (.finite (Min.min (Max.max q 0) m)) := by
  simp only [F64.clamp, F64.le, F64.lt, hm, decide_true, if_true, decide_eq_true_eq]
  congr 1
  split
  · rename_i hneg
    rw [max_eq_right hneg.le, min_eq_left hm]
  · rename_i hpos
    rw [max_eq_left (not_lt.mp hpos)]
    split
    · rename_i hlt
      rw [min_eq_right hlt.le]
    · rename_i hle
      rw [min_eq_left (not_lt.mp hle)]

/-- Seconds capped far above a limit stay within it exactly when they were before. -/
theorem capped_le_iff (hfl : fl.Rounds limit) (hmax : limit < max)
    (h : capped fl secs max = .ok delay) : delay ≤ limit ↔ fl.Within limit secs := by
  cases secs with
  | finite q =>
    obtain ⟨m, hm, hs⟩ := fl.asSecs_spec max
    have hcapped : capped fl (.finite q) max =
        .ok (min ((fl.ofSecs (.finite (Min.min (Max.max q 0) m))).getD max) max) := by
      simp only [capped, F64.isFinite, hs, clamp_finite hm]
      rfl
    obtain rfl := Except.ok.inj (hcapped.symm.trans h)
    rw [min_le_iff, or_iff_left (not_le.mpr hmax)]
    constructor
    · intro hle
      cases hof : fl.ofSecs (.finite (Min.min (Max.max q 0) m)) with
      | none =>
        rw [hof] at hle
        exact absurd hle (not_le.mpr hmax)
      | some d =>
        rw [hof] at hle
        -- the cap itself reads back above the limit, so it did not take effect
        by_cases hlt : m ≤ Max.max q 0
        · rw [min_eq_right hlt, ← hs] at hof
          exact absurd (hfl.above max d hmax hof) (not_lt.mpr hle)
        · rw [min_eq_left (not_le.mp hlt).le] at hof
          exact ⟨d, hof, hle⟩
    · intro ⟨d, hof, hle⟩
      obtain ⟨c, hc, hcd⟩ := hfl.ofSecs_mono (Min.min (Max.max q 0) m) (Max.max q 0) d
        (le_min (le_max_right q 0) hm) (min_le_left _ _) hof
      rw [hc]
      exact hcd.trans hle
  | _ =>
    simp only [capped, F64.isFinite] at h
    obtain rfl := Except.ok.inj h
    simp only [Floats.Within, iff_false, not_le]
    exact hmax

/-- A positive delay above the limit, drawn at the top of its range, is above it still. -/
theorem fullJitter_top {j : Duration} (hfl : fl.Rounds limit) (hd : limit < delay)
    (h : fullJitter fl id delay = .ok j) : limit < j := by
  obtain ⟨q, hq, hs⟩ := fl.asSecs_spec delay
  have hpos : ¬q ≤ 0 := by
    intro hle
    obtain rfl := le_antisymm hle hq
    have := hfl.above delay .zero hd (by rw [hs]; exact hfl.ofSecs_zero)
    exact absurd this (not_lt.mpr (Nat.zero_le _))
  have hdraw : fullJitter fl id delay = .ok (min ((fl.ofSecs (.finite q)).getD delay) delay) := by
    unfold fullJitter
    simp only [hs, F64.isFinite, F64.le, hpos, randomRange, hq]
    rfl
  obtain rfl := Except.ok.inj (hdraw.symm.trans h)
  rw [lt_min_iff]
  refine ⟨?_, hd⟩
  cases hof : fl.ofSecs (.finite q) with
  | none => exact hd
  | some c =>
    rw [← hs] at hof
    exact hfl.above delay c hd hof

/-- The seconds of the curve for an attempt, before the cap. -/
def curveSecs (fl : Floats) (base : Duration) (factor : F64) (failedAttempt : UInt32) : F64 :=
  fl.mul (fl.asSecs base) (fl.powf factor (.finite ((failedAttempt.toNat - 1 : ℕ) : ℚ)))

theorem exponentialDelay_eq (fl : Floats) {factor : F64} (hbase : 0 < base.nanos)
    (hmax : 0 < max.nanos) (hfinite : factor.isFinite = true)
    (hfactor : F64.lt (.finite 0) factor = true) (hn : 1 ≤ n) :
    exponentialDelay fl base factor max n = capped fl (curveSecs fl base factor n) max := by
  have hone : 1 ≤ n.toNat := UInt32.le_iff_toNat_le.mp hn
  have hbase' : base.isZero = false := by simp [Duration.isZero]; omega
  have hmax' : max.isZero = false := by simp [Duration.isZero]; omega
  unfold exponentialDelay
  rw [hbase', hmax', hfinite, hfactor, show Nat.max n.toNat 1 = n.toNat from Nat.max_eq_left hone]
  rfl

end Limit
end Queuey
