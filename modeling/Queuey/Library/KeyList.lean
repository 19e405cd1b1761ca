import Mathlib.Data.List.Basic

/-!
# Lists of keys, each given at most once

A list of keyed items is read item by item into a state with one slot for each key. A key
fills its slot, is refused when the slot is full, and leaves every other slot alone; so an
accepted list gives each key at most once, and its slot holds what the key was given.
-/
namespace Queuey.KeyList

variable {K P S E V : Type}

/-- What a key is given, in order. -/
def given [DecidableEq K] (k : K) (items : List (K × P)) : List P :=
  (items.filter fun item => item.1 = k).map Prod.snd

/-- `get` is the slot of the key `k`, and `Reads` how its values are read. -/
structure Slot (step : S → K × P → Except E S) (k : K) (get : S → Option V)
    (Reads : P → V → Prop) : Prop where
  fill : ∀ s p s', step s (k, p) = .ok s' → get s = none ∧ ∃ v, Reads p v ∧ get s' = some v
  keep : ∀ s item s', item.1 ≠ k → step s item = .ok s' → get s' = get s

/-- The slot is as it was before, or was empty and holds what the key was given. -/
def Filled [DecidableEq K] (k : K) (get : S → Option V) (Reads : P → V → Prop)
    (items : List (K × P)) (s s' : S) : Prop :=
  (given k items = [] ∧ get s' = get s) ∨
    (get s = none ∧ ∃ p v, given k items = [p] ∧ Reads p v ∧ get s' = some v)

variable [DecidableEq K] {step : S → K × P → Except E S} {k : K} {get : S → Option V}
  {Reads : P → V → Prop} {items : List (K × P)} {s s' : S}

@[simp] theorem given_nil (k : K) : given k ([] : List (K × P)) = [] := rfl

@[simp] theorem given_cons_self (k : K) (p : P) (items : List (K × P)) :
    given k ((k, p) :: items) = p :: given k items := by simp [given]

theorem given_cons_of_ne {item : K × P} (h : item.1 ≠ k) :
    given k (item :: items) = given k items := by simp [given, h]

/-- What a whole list does to one slot. -/
theorem Slot.run (h : Slot step k get Reads) (hrun : items.foldlM step s = .ok s') :
    Filled k get Reads items s s' := by
  induction items generalizing s with
  | nil =>
    obtain rfl := Except.ok.inj hrun
    exact .inl ⟨rfl, rfl⟩
  | cons item items ih =>
    rw [List.foldlM_cons] at hrun
    cases hnext : step s item with
    | error e =>
      rw [hnext] at hrun
      cases hrun
    | ok next =>
      rw [hnext] at hrun
      have hrest := ih hrun
      by_cases hkey : item.1 = k
      · obtain ⟨key, p⟩ := item
        obtain rfl : key = k := hkey
        obtain ⟨hempty, v, hv, hget⟩ := h.fill s p next hnext
        -- a second value would find the slot full
        rcases hrest with ⟨hnone, hsame⟩ | ⟨hfree, -⟩
        · exact .inr ⟨hempty, p, v, by simp [hnone], hv, hsame.trans hget⟩
        · rw [hget] at hfree
          cases hfree
      · have hsame := h.keep s item next hkey hnext
        unfold Filled at hrest ⊢
        rwa [given_cons_of_ne hkey, ← hsame]

/-- A slot that starts empty is filled exactly when its key is given. -/
theorem Slot.run_empty (h : Slot step k get Reads) (hrun : items.foldlM step s = .ok s')
    (hempty : get s = none) :
    (given k items = [] ∧ get s' = none) ∨
      ∃ p v, given k items = [p] ∧ Reads p v ∧ get s' = some v := by
  rcases h.run hrun with ⟨hnone, hsame⟩ | ⟨-, hfilled⟩
  · exact .inl ⟨hnone, hsame.trans hempty⟩
  · exact .inr hfilled

end Queuey.KeyList
