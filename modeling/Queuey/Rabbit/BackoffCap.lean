import Queuey.Rabbit.Reconnect

/-!
# The cap of the exponential backoff

Whatever the power, the product and the draw come out as, a delay is computed without a
panic, at most the cap, and with jitter at most what it is without. Both policies hand it
on as it is.
-/
namespace Queuey.Rabbit

variable {fl : Floats} {rng : Rng} {base max : Duration} {factor : F64} {n : UInt32}

/-- Jitter only shortens, and nothing is longer than the cap. -/
theorem delayFor_exponential_capped (fl : Floats) (rng : Rng) (base : Duration) (factor : F64)
    (max : Duration) (jitter : Bool) (n : UInt32) :
    ∃ plain delay, Backoff.delayFor fl rng (.exponential base factor max false) n = .ok plain ∧
      Backoff.delayFor fl rng (.exponential base factor max jitter) n = .ok delay ∧
      delay ≤ plain ∧ plain ≤ max := by
  obtain ⟨plain, hplain, hle⟩ := exponentialDelay_le fl base factor max n
  have hcurve (jitter : Bool) := delayFor_exponential rng jitter hplain
  cases jitter with
  | false => exact ⟨plain, plain, hcurve false, hcurve false, le_rfl, hle⟩
  | true =>
    obtain ⟨delay, hdelay, hshorter⟩ := fullJitter_le fl rng plain
    exact ⟨plain, delay, hcurve false, (hcurve true).trans hdelay, hshorter, hle⟩

/-- A job is given up from its last attempt on, and retried after the delay before it. -/
theorem decide_of_delayFor_eq {backoff : Backoff} {delay : Duration}
    (h : backoff.delayFor fl rng n = .ok delay) (maxAttempts : UInt32) :
    RetryPolicy.decide fl rng ⟨maxAttempts, backoff⟩ n =
      .ok (if maxAttempts ≤ n then .giveUp else .retry delay) := by
  unfold RetryPolicy.decide
  by_cases hlast : maxAttempts ≤ n
  · simp [hlast]
  · simp [hlast, h, bind, Except.bind, pure, Except.pure]

/-- The first attempt after a drop is immediate, and the others wait for the delay. -/
theorem nextDelay_of_delayFor_eq {backoff : Backoff} {delay : Duration} {attempt : Attempt}
    (h : backoff.delayFor fl rng attempt.failures = .ok delay) (maxAttempts : Option UInt32) :
    BackoffPolicy.nextDelay fl rng ⟨maxAttempts, backoff⟩ attempt =
      .ok (if maxAttempts.any fun limit => limit ≤ attempt.failures then none
        else if attempt.failures = 0 then some Duration.zero else some delay) := by
  unfold BackoffPolicy.nextDelay
  by_cases hlast : maxAttempts.any fun limit => limit ≤ attempt.failures
  · rw [if_pos hlast, if_pos hlast]
  · rw [if_neg hlast, if_neg hlast]
    by_cases hfirst : attempt.failures = 0
    · rw [if_pos hfirst, if_pos hfirst]
    · rw [if_neg hfirst, if_neg hfirst, h]
      rfl

/-- The delay of an exponential backoff exists for every attempt, base, factor and cap and
every result of the floating-point operations, it is within its bounds, and both policies
wait for it or for nothing at all. -/
theorem backoff_capped (fl : Floats) (rng : Rng) (base : Duration) (factor : F64)
    (max : Duration) (jitter : Bool) (n : UInt32) :
    ∃ plain delay, Backoff.delayFor fl rng (.exponential base factor max false) n = .ok plain ∧
      Backoff.delayFor fl rng (.exponential base factor max jitter) n = .ok delay ∧
      delay ≤ plain ∧ plain ≤ max ∧
      (∀ maxAttempts : UInt32,
        RetryPolicy.decide fl rng ⟨maxAttempts, .exponential base factor max jitter⟩ n =
          .ok (if maxAttempts ≤ n then .giveUp else .retry delay)) ∧
      ∀ (maxAttempts : Option UInt32) (error : Option AttemptError) (rebuilding : Rebuilding),
        BackoffPolicy.nextDelay fl rng ⟨maxAttempts, .exponential base factor max jitter⟩
            ⟨n, error, rebuilding⟩ =
          .ok (if maxAttempts.any fun limit => limit ≤ n then none
            else if n = 0 then some Duration.zero else some delay) := by
  obtain ⟨plain, delay, hplain, hdelay, hshorter, hle⟩ :=
    delayFor_exponential_capped fl rng base factor max jitter n
  refine ⟨plain, delay, hplain, hdelay, hshorter, hle, ?_, ?_⟩
  · intro maxAttempts
    exact decide_of_delayFor_eq hdelay maxAttempts
  · intro maxAttempts error rebuilding
    exact nextDelay_of_delayFor_eq hdelay maxAttempts

end Queuey.Rabbit
