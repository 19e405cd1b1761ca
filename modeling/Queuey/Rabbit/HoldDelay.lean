import Queuey.Library.RoundUp
import Queuey.Rabbit.Topology

/-!
# How long a wait is held

A wait is rounded up to a whole positive number of steps of its granularity, or refused.
The arithmetic never saturates: a delay has far fewer than `2 ^ 128` milliseconds.
-/
namespace Queuey.Rabbit.Topology
open RoundUp

/-- The granularity in whole milliseconds, as `deferred_ttl_ms` clamps it. -/
def stepMs (granularity : Duration) : ℕ := max 1 (min (millisCeil granularity) maxDeferralMs)

/-- Whole steps that cover the delay, in milliseconds. -/
def Covers (granularity delay : Duration) (ms : ℕ) : Prop :=
  0 < ms ∧ stepMs granularity ∣ ms ∧ delay.nanos ≤ ms * 1000000

variable {delay granularity : Duration} {ttl : UInt32} {ms : ℕ}

theorem stepMs_pos (granularity : Duration) : 0 < stepMs granularity :=
  lt_max_of_lt_left Nat.one_pos

theorem stepMs_le (granularity : Duration) : stepMs granularity ≤ maxDeferralMs := by
  have hone : 1 ≤ maxDeferralMs := by decide
  exact max_le hone (min_le_right _ _)

theorem millisCeil_le_iff : millisCeil delay ≤ ms ↔ delay.nanos ≤ ms * 1000000 := by
  unfold millisCeil
  omega

theorem covers_iff :
    Covers granularity delay ms ↔ 0 < ms ∧ stepMs granularity ∣ ms ∧ millisCeil delay ≤ ms := by
  unfold Covers
  rw [millisCeil_le_iff]

/-- The product of the rounding is far from where the multiplication would saturate. -/
theorem product_fits (delay granularity : Duration) :
    divCeil (millisCeil delay) (stepMs granularity) * stepMs granularity ≤ u128Max := by
  have hdelay : millisCeil delay ≤ 2 ^ 64 * 1000 := by
    have := delay.bounded
    unfold nanosPerSec at this
    rw [millisCeil_le_iff]
    omega
  have hstep := stepMs_le granularity
  have hbound : 2 ^ 64 * 1000 + maxDeferralMs ≤ u128Max := by decide
  have hmul := Nat.div_mul_le_self (millisCeil delay + stepMs granularity - 1) (stepMs granularity)
  unfold divCeil
  omega

theorem deferredTtlMs_eq (delay granularity : Duration) :
    deferredTtlMs delay granularity =
      if roundUp (stepMs granularity) (millisCeil delay) ≤ maxDeferralMs
      then some (UInt32.ofNat (roundUp (stepMs granularity) (millisCeil delay))) else none := by
  have hvalue : max (min (divCeil (millisCeil delay) (stepMs granularity) * stepMs granularity)
      u128Max) (stepMs granularity) = roundUp (stepMs granularity) (millisCeil delay) := by
    rw [min_eq_left (product_fits delay granularity)]
    rfl
  rw [← hvalue]
  rfl

/-- The conversion to 32 bits is exact. -/
theorem deferredTtlMs_some_iff : deferredTtlMs delay granularity = some ttl ↔
    roundUp (stepMs granularity) (millisCeil delay) = ttl.toNat ∧ ttl.toNat ≤ maxDeferralMs := by
  have hmax : maxDeferralMs < 2 ^ 32 := by decide
  rw [deferredTtlMs_eq]
  constructor
  · intro h
    split at h
    · rename_i hle
      obtain rfl := Option.some.inj h
      rw [UInt32.toNat_ofNat_of_lt' (hle.trans_lt hmax)]
      exact ⟨rfl, hle⟩
    · cases h
  · intro ⟨h, hle⟩
    rw [h, if_pos hle, UInt32.ofNat_toNat]

theorem deferredTtlMs_none_iff : deferredTtlMs delay granularity = none ↔
    maxDeferralMs < roundUp (stepMs granularity) (millisCeil delay) := by
  rw [deferredTtlMs_eq]
  split
  · rename_i hle
    simpa using hle
  · rename_i hle
    simpa using hle

theorem isLeast_covers (delay granularity : Duration) :
    IsLeast {ms | Covers granularity delay ms}
      (roundUp (stepMs granularity) (millisCeil delay)) := by
  simp only [covers_iff]
  exact isLeast_roundUp (stepMs_pos granularity)

/-- Steps of the delay itself and of its milliseconds are as many. -/
theorem ceilDiv_nanos (delay : Duration) {step : ℕ} (h : 0 < step) :
    millisCeil delay ⌈/⌉ step = delay.nanos ⌈/⌉ (step * 1000000) := by
  apply eq_of_forall_ge_iff
  intro k
  rw [ceilDiv_le_iff_le_mul h, millisCeil_le_iff, ceilDiv_le_iff_le_mul (by omega)]
  rw [Nat.mul_right_comm]

/-- What the rounding of every delay under one granularity comes to. -/
structure RoundsUp (granularity : Duration) : Prop where
  /-- A held wait is the least number of whole steps that covers the delay. -/
  held : ∀ delay ttl, deferredTtlMs delay granularity = some ttl ↔
    IsLeast {ms | Covers granularity delay ms} ttl.toNat ∧ ttl.toNat ≤ maxDeferralMs
  refused : ∀ delay, deferredTtlMs delay granularity = none ↔
    ∀ ms, Covers granularity delay ms → maxDeferralMs < ms
  /-- No division by zero and no saturation. -/
  exact : ∀ delay, stepMs granularity ≠ 0 ∧
    divCeil (millisCeil delay) (stepMs granularity) * stepMs granularity ≤ u128Max
  notEarly : ∀ delay ttl, deferredTtlMs delay granularity = some ttl →
    delay.nanos ≤ ttl.toNat * 1000000
  overshoot : ∀ delay ttl, deferredTtlMs delay granularity = some ttl → 0 < delay.nanos →
    ttl.toNat < millisCeil delay + stepMs granularity
  monotone : ∀ shorter delay ttl, shorter ≤ delay → deferredTtlMs delay granularity = some ttl →
    ∃ t ≤ ttl, deferredTtlMs shorter granularity = some t
  fixed : ∀ delay ttl, deferredTtlMs delay granularity = some ttl →
    deferredTtlMs (.fromMillis (UInt64.ofNat ttl.toNat)) granularity = some ttl
  queues : ∀ longest : Duration,
    {ttl | ∃ delay ≤ longest, deferredTtlMs delay granularity = some ttl}.ncard ≤
      max 1 (longest.nanos ⌈/⌉ (stepMs granularity * 1000000))
  expires : ∀ delay ttl config, deferredTtlMs delay granularity = some ttl →
    (deferredQueueArgs config ttl).lookup argExpires = some (.longLongInt (2 * ttl.toNat : ℕ)) ∧
      ttl.toNat < 2 * ttl.toNat ∧ 2 * ttl.toNat ≤ maxTtlMs

theorem refused_iff : deferredTtlMs delay granularity = none ↔
    ∀ ms, Covers granularity delay ms → maxDeferralMs < ms := by
  have hleast := isLeast_covers delay granularity
  rw [deferredTtlMs_none_iff]
  constructor
  · intro h ms hms
    exact h.trans_le (hleast.2 hms)
  · intro h
    exact h _ hleast.1

theorem held_covers (h : deferredTtlMs delay granularity = some ttl) :
    Covers granularity delay ttl.toNat := by
  rw [← (deferredTtlMs_some_iff.mp h).1]
  exact (isLeast_covers delay granularity).1

theorem overshoot_lt (h : deferredTtlMs delay granularity = some ttl) (hpos : 0 < delay.nanos) :
    ttl.toNat < millisCeil delay + stepMs granularity := by
  have hceil : 0 < millisCeil delay := by unfold millisCeil; omega
  rw [← (deferredTtlMs_some_iff.mp h).1]
  exact roundUp_lt (stepMs_pos granularity) hceil

theorem held_mono {shorter : Duration} (hle : shorter ≤ delay)
    (h : deferredTtlMs delay granularity = some ttl) :
    ∃ t ≤ ttl, deferredTtlMs shorter granularity = some t := by
  obtain ⟨hround, hmax⟩ := deferredTtlMs_some_iff.mp h
  have hceil : millisCeil shorter ≤ millisCeil delay := by
    have := Duration.le_iff.mp hle
    unfold millisCeil
    omega
  have hmono := roundUp_mono (stepMs_pos granularity) hceil
  have hlt : roundUp (stepMs granularity) (millisCeil shorter) < 2 ^ 32 := by
    have := ttl.toNat_lt
    omega
  refine ⟨UInt32.ofNat (roundUp (stepMs granularity) (millisCeil shorter)), ?_, ?_⟩
  · rw [UInt32.le_iff_toNat_le, UInt32.toNat_ofNat_of_lt' hlt]
    omega
  · rw [deferredTtlMs_some_iff, UInt32.toNat_ofNat_of_lt' hlt]
    omega

/-- A positive number of whole steps is a delay that is held as it is. -/
theorem deferredTtlMs_fromMillis (hpos : 0 < ttl.toNat) (hdvd : stepMs granularity ∣ ttl.toNat)
    (hmax : ttl.toNat ≤ maxDeferralMs) :
    deferredTtlMs (.fromMillis (UInt64.ofNat ttl.toNat)) granularity = some ttl := by
  have hceil : millisCeil (.fromMillis (UInt64.ofNat ttl.toNat)) = ttl.toNat := by
    have hlt : ttl.toNat < 2 ^ 64 := by
      have := ttl.toNat_lt
      omega
    show ((UInt64.ofNat ttl.toNat).toNat * 1000000 + 999999) / 1000000 = ttl.toNat
    rw [UInt64.toNat_ofNat_of_lt' hlt]
    omega
  rw [deferredTtlMs_some_iff, hceil]
  exact ⟨roundUp_fixed (stepMs_pos granularity) hpos hdvd, hmax⟩

theorem held_fixed (h : deferredTtlMs delay granularity = some ttl) :
    deferredTtlMs (.fromMillis (UInt64.ofNat ttl.toNat)) granularity = some ttl := by
  obtain ⟨-, hmax⟩ := deferredTtlMs_some_iff.mp h
  obtain ⟨hpos, hdvd, -⟩ := held_covers h
  exact deferredTtlMs_fromMillis hpos hdvd hmax

/-- The waits there are under a granularity. -/
theorem held_iff : (∃ delay, deferredTtlMs delay granularity = some ttl) ↔
    0 < ttl.toNat ∧ stepMs granularity ∣ ttl.toNat ∧ ttl.toNat ≤ maxDeferralMs := by
  constructor
  · intro ⟨delay, h⟩
    obtain ⟨hpos, hdvd, -⟩ := held_covers h
    exact ⟨hpos, hdvd, (deferredTtlMs_bounds h).2⟩
  · intro ⟨hpos, hdvd, hmax⟩
    exact ⟨_, deferredTtlMs_fromMillis hpos hdvd hmax⟩

/-- Delays up to a longest one use few hold queues. -/
theorem queues_le (granularity longest : Duration) :
    {ttl | ∃ delay ≤ longest, deferredTtlMs delay granularity = some ttl}.ncard ≤
      max 1 (longest.nanos ⌈/⌉ (stepMs granularity * 1000000)) := by
  rw [← ceilDiv_nanos longest (stepMs_pos granularity)]
  refine le_trans ?_ (ncard_rounded_le _ (stepMs_pos granularity))
  refine Set.ncard_le_ncard_of_injOn UInt32.toNat ?_ ?_ (rounded_finite _ (stepMs_pos granularity))
  · intro ttl ⟨delay, hle, h⟩
    have hceil : millisCeil delay ≤ millisCeil longest := by
      have := Duration.le_iff.mp hle
      unfold millisCeil
      omega
    exact ⟨millisCeil delay, hceil, (deferredTtlMs_some_iff.mp h).1⟩
  · intro a _ b _ h
    exact UInt32.toNat_inj.mp h

theorem expires_doubled (config : QueueConfig) (h : deferredTtlMs delay granularity = some ttl) :
    (deferredQueueArgs config ttl).lookup argExpires = some (.longLongInt (2 * ttl.toNat : ℕ)) ∧
      ttl.toNat < 2 * ttl.toNat ∧ 2 * ttl.toNat ≤ maxTtlMs := by
  obtain ⟨hpos, hle⟩ := deferredTtlMs_bounds h
  have hcap : 2 * maxDeferralMs ≤ maxTtlMs := by decide
  refine ⟨?_, by omega, by omega⟩
  rw [← expiresMs_eq h]
  rfl

/-- Hold delays are rounded up exactly, for every granularity. -/
theorem deferredTtlMs_roundsUp (granularity : Duration) : RoundsUp granularity where
  held delay ttl := by
    have hleast := isLeast_covers delay granularity
    rw [deferredTtlMs_some_iff]
    constructor
    · intro ⟨h, hle⟩
      exact ⟨h ▸ hleast, hle⟩
    · intro ⟨h, hle⟩
      exact ⟨hleast.unique h, hle⟩
  refused _ := refused_iff
  exact delay := ⟨(stepMs_pos granularity).ne', product_fits delay granularity⟩
  notEarly _ _ h := (held_covers h).2.2
  overshoot _ _ h hpos := overshoot_lt h hpos
  monotone _ _ _ hle h := held_mono hle h
  fixed _ _ h := held_fixed h
  queues longest := queues_le granularity longest
  expires _ _ config h := expires_doubled config h

end Queuey.Rabbit.Topology
