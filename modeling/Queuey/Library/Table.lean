import Mathlib.Data.List.Nodup
import Mathlib.Logic.Function.Basic

/-!
# Tables

A hash map by what it maps each key to. Entries are put in one after the other; a table that
takes no key twice stops at the first one it has already.
-/
namespace Queuey

variable {κ α : Type} [DecidableEq κ]

/-- What each key is mapped to. -/
abbrev Table (κ α : Type) := κ → Option α

namespace Table
variable {t u : Table κ α} {entries : List (κ × α)} {k : κ} {a : α}

def empty : Table κ α := fun _ => none

def put (t : Table κ α) (k : κ) (a : α) : Table κ α := Function.update t k (some a)

@[simp] theorem put_self (t : Table κ α) (k : κ) (a : α) : t.put k a k = some a := by
  simp [put]

@[simp] theorem put_of_ne (t : Table κ α) (a : α) {j k : κ} (h : j ≠ k) : t.put k a j = t j := by
  simp [put, h]

/-- Every entry is put in, a later one over an earlier one. -/
def fill (t : Table κ α) : List (κ × α) → Table κ α
  | [] => t
  | (k, a) :: entries => (t.put k a).fill entries

/-- Every entry is put in unless its key is there already; the key that was is the error. -/
def addAll (t : Table κ α) : List (κ × α) → Except κ (Table κ α)
  | [] => .ok t
  | (k, a) :: entries => if (t k).isSome then .error k else (t.put k a).addAll entries

theorem fill_cons (entry : κ × α) :
    t.fill (entry :: entries) = (t.put entry.1 entry.2).fill entries := rfl

theorem addAll_cons (entry : κ × α) : t.addAll (entry :: entries) =
    if (t entry.1).isSome then .error entry.1 else (t.put entry.1 entry.2).addAll entries := rfl

theorem fill_of_not_mem (h : k ∉ entries.map Prod.fst) : t.fill entries k = t k := by
  induction entries generalizing t with
  | nil => rfl
  | cons entry entries ih =>
    simp only [List.map_cons, List.mem_cons, not_or] at h
    rw [fill_cons, ih h.2, put_of_ne _ _ h.1]

/-- Without a repeated key the order of the entries does not matter. -/
theorem fill_of_mem (nodup : (entries.map Prod.fst).Nodup) (h : (k, a) ∈ entries) :
    t.fill entries k = some a := by
  induction entries generalizing t with
  | nil => cases h
  | cons entry entries ih =>
    simp only [List.map_cons, List.nodup_cons] at nodup
    obtain rfl | h := List.mem_cons.mp h
    · rw [fill_cons, fill_of_not_mem nodup.1, put_self]
    · exact ih nodup.2 h

/-- What is added without a repeated key is what filling the table gives. -/
theorem addAll_of_nodup (nodup : (entries.map Prod.fst).Nodup)
    (fresh : ∀ k ∈ entries.map Prod.fst, t k = none) : t.addAll entries = .ok (t.fill entries) := by
  induction entries generalizing t with
  | nil => rfl
  | cons entry entries ih =>
    simp only [List.map_cons, List.nodup_cons] at nodup
    have hnone : t entry.1 = none := fresh entry.1 List.mem_cons_self
    simp only [addAll_cons, fill_cons, hnone, Option.isSome_none, Bool.false_eq_true, if_false]
    apply ih nodup.2
    intro k hk
    have hne : k ≠ entry.1 := fun he => nodup.1 (he ▸ hk)
    rw [put_of_ne _ _ hne]
    exact fresh k (List.mem_cons_of_mem _ hk)

theorem nodup_of_addAll (h : t.addAll entries = .ok u) : (entries.map Prod.fst).Nodup ∧
    (∀ k ∈ entries.map Prod.fst, t k = none) := by
  induction entries generalizing t with
  | nil => exact ⟨List.nodup_nil, nofun⟩
  | cons entry entries ih =>
    rw [addAll_cons] at h
    split_ifs at h with hs
    obtain ⟨nodup, fresh⟩ := ih h
    have hnew : entry.1 ∉ entries.map Prod.fst := by
      intro hk
      have := fresh entry.1 hk
      simp at this
    refine ⟨List.nodup_cons.mpr ⟨hnew, nodup⟩, ?_⟩
    intro k hk
    obtain rfl | hk := List.mem_cons.mp hk
    · simpa using hs
    · have hne : k ≠ entry.1 := fun he => hnew (he ▸ hk)
      have := fresh k hk
      rwa [put_of_ne _ _ hne] at this

/-- The key that is refused is the first one that was there or came before. -/
theorem addAll_error (h : t.addAll entries = .error k) : ∃ before after,
    entries.map Prod.fst = before ++ k :: after ∧ before.Nodup ∧ (∀ j ∈ before, t j = none) ∧
      (k ∈ before ∨ (t k).isSome) := by
  induction entries generalizing t with
  | nil => cases h
  | cons entry entries ih =>
    obtain ⟨first, a⟩ := entry
    rw [addAll_cons] at h
    split_ifs at h with hs
    · obtain rfl := Except.error.inj h
      exact ⟨[], entries.map Prod.fst, rfl, List.nodup_nil, nofun, .inr hs⟩
    · obtain ⟨before, after, heq, nodup, fresh, hin⟩ := ih h
      have hne : ∀ j ∈ before, j ≠ first := by
        rintro j hj rfl
        simpa using fresh j hj
      refine ⟨first :: before, after, by rw [List.map_cons, heq]; rfl,
        List.nodup_cons.mpr ⟨fun hmem => hne first hmem rfl, nodup⟩, fun j hj => ?_, ?_⟩
      · obtain rfl | hj := List.mem_cons.mp hj
        · simpa using hs
        · have hfresh := fresh j hj
          rwa [put_of_ne _ _ (hne j hj)] at hfresh
      · obtain hin | hsome := hin
        · exact .inl (List.mem_cons_of_mem _ hin)
        · by_cases hk : k = first
          · exact .inl (hk ▸ List.mem_cons_self)
          · rw [put_of_ne _ _ hk] at hsome
            exact .inr hsome

/-- A table that takes no key twice takes exactly the entries without a repeated key. -/
theorem addAll_empty_iff :
    (empty : Table κ α).addAll entries = .ok u ↔
      (entries.map Prod.fst).Nodup ∧ u = empty.fill entries := by
  constructor
  · intro h
    have nodup := (nodup_of_addAll h).1
    refine ⟨nodup, ?_⟩
    have := addAll_of_nodup (t := empty) nodup fun _ _ => rfl
    exact Except.ok.inj (h.symm.trans this)
  · rintro ⟨nodup, rfl⟩
    exact addAll_of_nodup nodup fun _ _ => rfl

end Table
end Queuey
