import Mathlib.Algebra.BigOperators.Finprod
import Mathlib.Algebra.Order.BigOperators.Group.Finset
import Mathlib.Data.Set.Card.Arithmetic

/-!
# Tallies

What the components of a family weigh together, when all but finitely many weigh nothing.
Replacing one component changes the tally by what that one weighs.
-/
namespace Queuey.Tally

variable {ι β : Type*} {w v : β → ℕ} {f : ι → β} {i : ι} {b : β}

noncomputable def tally (w : β → ℕ) (f : ι → β) : ℕ := ∑ᶠ i, w (f i)

/-- All but finitely many components weigh nothing. -/
def Light (w : β → ℕ) (f : ι → β) : Prop := (Function.support fun i => w (f i)).Finite

theorem light_of_zero (h : ∀ i, w (f i) = 0) : Light w f := by
  have hsupport : (Function.support fun i => w (f i)) = ∅ := by
    ext i
    simp [h i]
  unfold Light
  rw [hsupport]
  exact Set.finite_empty

theorem tally_of_zero (h : ∀ i, w (f i) = 0) : tally w f = 0 :=
  finsum_eq_zero_of_forall_eq_zero h

theorem Light.update [DecidableEq ι] (h : Light w f) (i : ι) (b : β) :
    Light w (Function.update f i b) := by
  refine (Set.Finite.insert i h).subset fun j hj => ?_
  by_cases hij : j = i
  · exact .inl hij
  · exact .inr (by simpa [hij] using hj)

theorem tally_eq {s : Finset ι} (hs : ∀ j, w (f j) ≠ 0 → j ∈ s) :
    tally w f = ∑ j ∈ s, w (f j) :=
  finsum_eq_sum_of_support_subset _ fun j hj => hs j hj

/-- One component changes, and the tally by what it weighs. -/
theorem Light.tally_update [DecidableEq ι] (h : Light w f) (i : ι) (b : β) :
    tally w (Function.update f i b) + w (f i) = tally w f + w b := by
  let s : Finset ι := insert i h.toFinset
  have hi : i ∈ s := Finset.mem_insert_self i _
  have before : tally w f = ∑ j ∈ s, w (f j) :=
    tally_eq fun j hj => Finset.mem_insert_of_mem (h.mem_toFinset.mpr hj)
  have after : tally w (Function.update f i b) = ∑ j ∈ s, w (Function.update f i b j) := by
    refine tally_eq fun j hj => ?_
    by_cases hij : j = i
    · exact hij ▸ hi
    · exact Finset.mem_insert_of_mem (h.mem_toFinset.mpr (by simpa [hij] using hj))
  have same : ∑ j ∈ s.erase i, w (Function.update f i b j) = ∑ j ∈ s.erase i, w (f j) :=
    Finset.sum_congr rfl fun j hj => by rw [Function.update_of_ne (Finset.ne_of_mem_erase hj)]
  rw [before, after, ← Finset.add_sum_erase s _ hi, ← Finset.add_sum_erase s (fun j => w (f j)) hi,
    same, Function.update_self]
  omega

theorem Light.tally_add (hw : Light w f) (hv : Light v f) :
    tally (fun b => w b + v b) f = tally w f + tally v f :=
  finsum_add_distrib hw hv

theorem Light.le_tally (h : Light w f) (i : ι) : w (f i) ≤ tally w f := by
  by_cases hi : w (f i) = 0
  · omega
  · rw [tally_eq fun j hj => h.mem_toFinset.mpr hj]
    exact Finset.single_le_sum (f := fun j => w (f j)) (fun _ _ => Nat.zero_le _)
      (h.mem_toFinset.mpr hi)

theorem Light.eq_zero (h : Light w f) (hzero : tally w f = 0) (i : ι) : w (f i) = 0 :=
  Nat.eq_zero_of_le_zero (hzero ▸ h.le_tally i)

/-- A tally of zeros and ones counts the components that weigh something. -/
theorem tally_count (p : β → Prop) [DecidablePred p] (f : ι → β) :
    tally (fun b => if p b then 1 else 0) f = {i | p (f i)}.ncard := by
  rw [← finsum_one]
  apply finsum_congr
  intro i
  exact (finsum_eq_if (p := p (f i))).symm

theorem Light.finite {p : β → Prop} [DecidablePred p]
    (h : Light (fun b => if p b then 1 else 0) f) : {i | p (f i)}.Finite := by
  refine h.subset fun i hi => ?_
  have hp : p (f i) := hi
  simp [hp]

end Queuey.Tally
