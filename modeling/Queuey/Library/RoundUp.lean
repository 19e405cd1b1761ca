import Mathlib.Algebra.Order.Floor.Div
import Mathlib.Data.Set.Card
import Mathlib.Order.Bounds.Basic
import Mathlib.Order.Interval.Finset.Nat

/-!
# Rounding up to a positive multiple

`roundUp step n` is the least positive multiple of `step` that is not below `n`. It is
monotone, idempotent, and less than one step above a positive `n`.
-/
namespace Queuey.RoundUp

def roundUp (step n : ℕ) : ℕ := max (n ⌈/⌉ step * step) step

variable {step n m k : ℕ}

theorem roundUp_eq_mul (step n : ℕ) : roundUp step n = max 1 (n ⌈/⌉ step) * step := by
  unfold roundUp
  by_cases h : 1 ≤ n ⌈/⌉ step
  · rw [max_eq_right h, max_eq_left (Nat.le_mul_of_pos_left step h)]
  · have hzero : n ⌈/⌉ step = 0 := by omega
    simp [hzero]

theorem dvd_roundUp (step n : ℕ) : step ∣ roundUp step n := by
  rw [roundUp_eq_mul]
  exact Nat.dvd_mul_left step _

theorem roundUp_pos (h : 0 < step) : 0 < roundUp step n := lt_max_of_lt_right h

theorem roundUp_le_iff (h : 0 < step) (hm : 0 < m) (hdvd : step ∣ m) :
    roundUp step n ≤ m ↔ n ≤ m := by
  obtain ⟨k, rfl⟩ := hdvd
  have hk : step ≤ step * k := Nat.le_mul_of_pos_right step (Nat.pos_of_mul_pos_left hm)
  unfold roundUp
  rw [max_le_iff, and_iff_left hk, Nat.mul_comm (n ⌈/⌉ step), Nat.mul_le_mul_left_iff h]
  exact ceilDiv_le_iff_le_mul h

theorem le_roundUp (h : 0 < step) : n ≤ roundUp step n :=
  (roundUp_le_iff h (roundUp_pos h) (dvd_roundUp step n)).mp le_rfl

/-- The least positive multiple of the step that is not below `n`. -/
theorem isLeast_roundUp (h : 0 < step) :
    IsLeast {m | 0 < m ∧ step ∣ m ∧ n ≤ m} (roundUp step n) := by
  constructor
  · exact ⟨roundUp_pos h, dvd_roundUp step n, le_roundUp h⟩
  · intro m ⟨hm, hdvd, hle⟩
    exact (roundUp_le_iff h hm hdvd).mpr hle

theorem roundUp_mono (h : 0 < step) (hnm : n ≤ m) : roundUp step n ≤ roundUp step m := by
  apply (roundUp_le_iff h (roundUp_pos h) (dvd_roundUp step m)).mpr
  exact hnm.trans (le_roundUp h)

theorem roundUp_fixed (h : 0 < step) (hm : 0 < m) (hdvd : step ∣ m) : roundUp step m = m := by
  apply le_antisymm
  · exact (roundUp_le_iff h hm hdvd).mpr le_rfl
  · exact le_roundUp h

/-- A positive number is overshot by less than one step. -/
theorem roundUp_lt (h : 0 < step) (hn : 0 < n) : roundUp step n < n + step := by
  by_contra hle
  have hk : step ∣ roundUp step n - step := Nat.dvd_sub (dvd_roundUp step n) dvd_rfl
  have hpos : 0 < roundUp step n - step := by omega
  have hsmaller := (roundUp_le_iff (n := n) h hpos hk).mpr (by omega)
  omega

/-- The numbers up to a bound are rounded to the first multiples of the step. -/
theorem rounded_subset (bound : ℕ) (h : 0 < step) :
    {m | ∃ n ≤ bound, roundUp step n = m} ⊆
      ((Finset.Icc 1 (max 1 (bound ⌈/⌉ step))).image (· * step) : Finset ℕ) := by
  intro m ⟨n, hn, hm⟩
  rw [← hm, roundUp_eq_mul]
  apply Finset.mem_coe.mpr
  apply Finset.mem_image_of_mem (· * step)
  have hmono : n ⌈/⌉ step ≤ bound ⌈/⌉ step :=
    (ceilDiv_le_iff_le_mul h).mpr (hn.trans (le_smul_ceilDiv h))
  rw [Finset.mem_Icc]
  omega

theorem rounded_finite (bound : ℕ) (h : 0 < step) :
    {m | ∃ n ≤ bound, roundUp step n = m}.Finite :=
  (Finset.finite_toSet _).subset (rounded_subset bound h)

theorem ncard_rounded_le (bound : ℕ) (h : 0 < step) :
    {m | ∃ n ≤ bound, roundUp step n = m}.ncard ≤ max 1 (bound ⌈/⌉ step) :=
  calc {m | ∃ n ≤ bound, roundUp step n = m}.ncard
      ≤ (((Finset.Icc 1 (max 1 (bound ⌈/⌉ step))).image (· * step) : Finset ℕ) : Set ℕ).ncard :=
        Set.ncard_le_ncard (rounded_subset bound h) (Finset.finite_toSet _)
    _ = ((Finset.Icc 1 (max 1 (bound ⌈/⌉ step))).image (· * step)).card := Set.ncard_coe_finset _
    _ ≤ (Finset.Icc 1 (max 1 (bound ⌈/⌉ step))).card := Finset.card_image_le
    _ = max 1 (bound ⌈/⌉ step) := by rw [Nat.card_Icc]; omega

end Queuey.RoundUp
