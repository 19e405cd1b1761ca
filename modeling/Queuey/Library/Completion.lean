import Queuey.Library.Transition

/-!
# Completion

Steps that use up a rank come to an end. Where one that is due is enabled until the goal is
reached, a run that keeps taking such steps reaches it.
-/
namespace Queuey.Transition

variable {σ α : Type*} {T : System σ α} {Inv goal : σ → Prop} {works due : α → Prop}
  {rank : σ → ℕ} {s t : σ}

/-- No step adds to the rank, the steps that work take from it, and of those one is due
wherever the goal is not reached. -/
structure Completes (T : System σ α) (Inv goal : σ → Prop) (works due : α → Prop)
    (rank : σ → ℕ) : Prop where
  keep : ∀ s a t, Inv s → T.step s a = some t → Inv t
  idle : ∀ s a t, Inv s → T.step s a = some t → rank t ≤ rank s
  down : ∀ s a t, Inv s → works a → T.step s a = some t → rank t < rank s
  works : ∀ a, due a → works a
  enabled : ∀ s, Inv s → goal s ∨ ∃ a, due a ∧ (T.step s a).isSome = true

/-- A run whose steps, where they work, are paid for out of the rank has no more of them. -/
theorem run_pays [DecidablePred works] (keep : ∀ s a t, Inv s → T.step s a = some t → Inv t)
    (pays : ∀ s a t, Inv s → T.step s a = some t →
      rank t + (if works a then 1 else 0) ≤ rank s)
    {actions : List α} (hs : Inv s) (hrun : T.run s actions = some t) :
    Inv t ∧ actions.countP (works ·) + rank t ≤ rank s := by
  induction actions generalizing s with
  | nil =>
    obtain rfl : s = t := by simpa using hrun
    exact ⟨hs, by simp⟩
  | cons a rest ih =>
    obtain ⟨u, hu, hrest⟩ : ∃ u, T.step s a = some u ∧ T.run u rest = some t := by
      simpa [Option.bind_eq_some_iff] using hrun
    obtain ⟨ht, hbound⟩ := ih (keep s a u hs hu) hrest
    have hpaid := pays s a u hs hu
    refine ⟨ht, ?_⟩
    rw [List.countP_cons]
    simp only [decide_eq_true_eq]
    omega

namespace Completes

/-- A run has no more steps that work than its rank allows. -/
theorem bounded [DecidablePred works] (h : Completes T Inv goal works due rank) (hs : Inv s)
    (actions : List α) (hrun : T.run s actions = some t) :
    Inv t ∧ actions.countP (works ·) + rank t ≤ rank s := by
  refine run_pays h.keep (fun u a v hu hstep => ?_) hs hrun
  split_ifs with hworks
  · exact h.down u a v hu hworks hstep
  · exact h.idle u a v hu hstep

end Completes

/-- What is pending has a step of its own to take, which uses up its rank, until it has ended. -/
theorem run_until {pending : σ → Prop} {own : α → Prop} {ended : σ → σ → Prop}
    (next : ∀ s, pending s → ∃ a u, own a ∧ T.step s a = some u ∧ rank u < rank s ∧
      (pending u ∧ (∀ t, ended u t → ended s t) ∨ ended s u)) (hs : pending s) :
    ∃ actions t, actions.length ≤ rank s ∧ (∀ a ∈ actions, own a) ∧
      T.run s actions = some t ∧ ended s t := by
  induction hn : rank s using Nat.strongRecOn generalizing s with
  | ind n ih =>
    obtain ⟨a, u, hown, hu, hless, ⟨hpending, hback⟩ | hended⟩ := next s hs
    · obtain ⟨rest, t, hlength, hall, hrun, hended⟩ := ih (rank u) (hn ▸ hless) hpending rfl
      refine ⟨a :: rest, t, ?_, by simpa using ⟨hown, hall⟩, run_step hu hrun, hback t hended⟩
      rw [List.length_cons]
      omega
    · refine ⟨[a], u, ?_, by simpa using hown, run_step hu rfl, hended⟩
      rw [List.length_singleton]
      omega

/-! ## Runs within bounds -/

variable {ok : α → σ → Bool} {a : α}

end Queuey.Transition
