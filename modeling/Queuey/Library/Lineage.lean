import Mathlib.Logic.Relation
import Mathlib.Order.WellFounded

/-!
# Lineages

An item that is gone has left an heir. Where the heirs of heirs come to an end, every item has
one down its line that is still there.
-/
namespace Queuey.Lineage
open Relation

variable {α : Type*} {heir : α → α → Prop} {known kept : α → Prop} {a : α}

/-- Going from heir to heir ends at an item that is kept. -/
theorem exists_kept (wf : WellFounded fun b a => heir a b)
    (next : ∀ a, known a → kept a ∨ ∃ b, heir a b ∧ known b) (ha : known a) :
    ∃ b, ReflTransGen heir a b ∧ known b ∧ kept b := by
  induction a using wf.induction with
  | _ a ih =>
    obtain hkept | ⟨b, hab, hb⟩ := next a ha
    · exact ⟨a, .refl, ha, hkept⟩
    · obtain ⟨c, hbc, hc⟩ := ih b hab hb
      exact ⟨c, hbc.head hab, hc⟩

/-- Heirs with greater numbers, below a bound, come to an end. -/
theorem wf_of_lt {heir : ℕ → ℕ → Prop} {n : ℕ} (later : ∀ a b, heir a b → a < b ∧ b < n) :
    WellFounded fun b a => heir a b := by
  refine Subrelation.wf (r := InvImage (· < ·) fun a => n - a) ?_ (InvImage.wf _ Nat.lt_wfRel.wf)
  intro b a hab
  have := later a b hab
  show n - b < n - a
  omega

end Queuey.Lineage
