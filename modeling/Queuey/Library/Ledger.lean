import Mathlib.Data.List.Perm.Basic
import Mathlib.Data.List.Nodup
import Mathlib.Logic.Function.Basic

/-!
# Ledgers

Items spread over boxes, each known item in exactly one box and there once. The rules say
which rearrangements keep it so: items stay, some of them move together from one box to
another, a new one arrives.
-/
namespace Queuey.Ledger

variable {κ ι : Type*} {box box' : κ → List ι} {known : ι → Prop} {i : ι} {j k : κ} {l : List ι}

/-- Every known item is in one box, once. -/
structure Holds (box : κ → List ι) (known : ι → Prop) : Prop where
  nodup : ∀ k, (box k).Nodup
  apart : ∀ i j k, i ∈ box j → i ∈ box k → j = k
  all : ∀ i, known i ↔ ∃ k, i ∈ box k

theorem Holds.existsUnique (h : Holds box known) (hi : known i) : ∃! k, i ∈ box k := by
  obtain ⟨k, hk⟩ := (h.all i).mp hi
  exact ⟨k, hk, fun j hj => h.apart i j k hj hk⟩

theorem Holds.of_mem (h : Holds box known) (hi : i ∈ box k) : known i := (h.all i).mpr ⟨k, hi⟩

theorem Holds.count_eq_one [DecidableEq ι] (h : Holds box known) (hi : i ∈ box k) :
    (box k).count i = 1 :=
  List.count_eq_one_of_mem (h.nodup k) hi

/-- The items of `l` move from box `j` to box `k`. -/
theorem Holds.moveAll (h : Holds box known) (hjk : j ≠ k) (out : (box j).Perm (l ++ box' j))
    (into : (box' k).Perm (l ++ box k)) (rest : ∀ m, m ≠ j → m ≠ k → (box' m).Perm (box m)) :
    Holds box' known := by
  have hout : (l ++ box' j).Nodup := out.nodup_iff.mp (h.nodup j)
  have moved : ∀ i ∈ l, i ∈ box j := fun i hi => out.mem_iff.mpr (List.mem_append_left _ hi)
  -- Where an item is now, by where it was.
  have mem : ∀ i m, i ∈ box' m ↔ (m = k ∧ i ∈ l) ∨ (i ∈ box m ∧ ¬(m = j ∧ i ∈ l)) := by
    intro i m
    by_cases hmk : m = k
    · subst m
      rw [into.mem_iff, List.mem_append]
      simp [hjk.symm]
    · by_cases hmj : m = j
      · subst m
        rw [out.mem_iff, List.mem_append]
        have hdisj := List.disjoint_of_nodup_append hout
        constructor
        · intro hi
          exact .inr ⟨.inr hi, fun hl => hdisj hl.2 hi⟩
        · rintro (⟨rfl, -⟩ | ⟨hi | hi, hl⟩)
          · exact absurd rfl hmk
          · exact absurd ⟨rfl, hi⟩ hl
          · exact hi
      · rw [(rest m hmj hmk).mem_iff]
        simp [hmk, hmj]
  refine ⟨fun m => ?_, fun i m m' hm hm' => ?_, fun i => ?_⟩
  · by_cases hmk : m = k
    · subst m
      rw [into.nodup_iff, List.nodup_append]
      refine ⟨(List.nodup_append.mp hout).1, h.nodup _, ?_⟩
      rintro a ha b hb rfl
      exact hjk (h.apart a j _ (moved a ha) hb)
    · by_cases hmj : m = j
      · subst m
        exact (List.nodup_append.mp hout).2.1
      · exact (rest m hmj hmk).nodup_iff.mpr (h.nodup m)
  · rw [mem] at hm hm'
    rcases hm with ⟨rfl, hl⟩ | ⟨hi, hl⟩ <;> rcases hm' with ⟨rfl, hl'⟩ | ⟨hi', hl'⟩
    · rfl
    · exact absurd ⟨h.apart i m' j hi' (moved i hl), hl⟩ hl'
    · exact absurd ⟨h.apart i m j hi (moved i hl'), hl'⟩ hl
    · exact h.apart i m m' hi hi'
  · rw [h.all i]
    constructor
    · rintro ⟨m, hm⟩
      by_cases hl : i ∈ l
      · exact ⟨k, (mem i k).mpr (.inl ⟨rfl, hl⟩)⟩
      · exact ⟨m, (mem i m).mpr (.inr ⟨hm, fun hmj => hl hmj.2⟩)⟩
    · rintro ⟨m, hm⟩
      rcases (mem i m).mp hm with ⟨-, hl⟩ | ⟨hi, -⟩
      · exact ⟨j, moved i hl⟩
      · exact ⟨m, hi⟩

/-- One item moves. -/
theorem Holds.move (h : Holds box known) (hjk : j ≠ k) (out : (box j).Perm (i :: box' j))
    (into : (box' k).Perm (i :: box k)) (rest : ∀ m, m ≠ j → m ≠ k → (box' m).Perm (box m)) :
    Holds box' known :=
  h.moveAll (l := [i]) hjk out into rest

/-- A new item arrives. -/
theorem Holds.arrive {known' : ι → Prop} (h : Holds box known) (new : ¬known i)
    (into : (box' k).Perm (i :: box k)) (rest : ∀ m, m ≠ k → (box' m).Perm (box m))
    (grown : ∀ m, known' m ↔ known m ∨ m = i) : Holds box' known' := by
  have absent : ∀ m, i ∉ box m := fun m hm => new (h.of_mem hm)
  have mem : ∀ a m, a ∈ box' m ↔ (m = k ∧ a = i) ∨ a ∈ box m := by
    intro a m
    by_cases hmk : m = k
    · subst m
      rw [into.mem_iff, List.mem_cons]
      simp
    · rw [(rest m hmk).mem_iff]
      simp [hmk]
  refine ⟨fun m => ?_, fun a m m' hm hm' => ?_, fun a => ?_⟩
  · by_cases hmk : m = k
    · subst m
      exact into.nodup_iff.mpr (List.nodup_cons.mpr ⟨absent _, h.nodup _⟩)
    · exact (rest m hmk).nodup_iff.mpr (h.nodup m)
  · rw [mem] at hm hm'
    rcases hm with ⟨rfl, rfl⟩ | hi <;> rcases hm' with ⟨rfl, ha⟩ | hi'
    · rfl
    · exact absurd hi' (absent m')
    · exact absurd (ha ▸ hi) (absent m)
    · exact h.apart a m m' hi hi'
  · rw [grown, h.all a]
    constructor
    · rintro (⟨m, hm⟩ | rfl)
      · exact ⟨m, (mem a m).mpr (.inr hm)⟩
      · exact ⟨k, (mem a k).mpr (.inl ⟨rfl, rfl⟩)⟩
    · rintro ⟨m, hm⟩
      rcases (mem a m).mp hm with ⟨-, rfl⟩ | hi
      · exact .inr rfl
      · exact .inl ⟨m, hi⟩

section Update
variable [DecidableEq κ]

/-- A transfer between two boxes, as updates of both. -/
theorem Holds.transfer {left filled : List ι} (h : Holds box known) (hjk : j ≠ k)
    (out : (box j).Perm (l ++ left)) (into : filled.Perm (l ++ box k)) :
    Holds (Function.update (Function.update box j left) k filled) known := by
  apply h.moveAll (l := l) hjk
  · rw [Function.update_of_ne hjk, Function.update_self]
    exact out
  · rw [Function.update_self]
    exact into
  · intro m hmj hmk
    rw [Function.update_of_ne hmk, Function.update_of_ne hmj]

/-- An arrival, as an update of its box. -/
theorem Holds.enter {known' : ι → Prop} {filled : List ι} (h : Holds box known) (new : ¬known i)
    (into : filled.Perm (i :: box k)) (grown : ∀ m, known' m ↔ known m ∨ m = i) :
    Holds (Function.update box k filled) known' := by
  apply h.arrive (k := k) new _ _ grown
  · rw [Function.update_self]
    exact into
  · intro m hm
    rw [Function.update_of_ne hm]

/-- One item is lost. -/
theorem Holds.lose {left : List ι} (h : Holds box known) (out : (box k).Perm (i :: left)) :
    Holds (Function.update box k left) fun a => known a ∧ a ≠ i := by
  have hnodup : (i :: left).Nodup := out.nodup_iff.mp (h.nodup k)
  have hi : i ∈ box k := out.mem_iff.mpr List.mem_cons_self
  have mem : ∀ a m, a ∈ Function.update box k left m ↔ a ∈ box m ∧ a ≠ i := by
    intro a m
    by_cases hm : m = k
    · subst m
      rw [Function.update_self, out.mem_iff, List.mem_cons]
      constructor
      · intro ha
        refine ⟨.inr ha, ?_⟩
        rintro rfl
        exact (List.nodup_cons.mp hnodup).1 ha
      · rintro ⟨ha, hne⟩
        exact ha.resolve_left hne
    · rw [Function.update_of_ne hm]
      refine ⟨fun ha => ⟨ha, ?_⟩, And.left⟩
      rintro rfl
      exact hm (h.apart a m k ha hi)
  refine ⟨fun m => ?_, fun a m m' hm hm' => ?_, fun a => ?_⟩
  · by_cases hm : m = k
    · subst m
      rw [Function.update_self]
      exact (List.nodup_cons.mp hnodup).2
    · rw [Function.update_of_ne hm]
      exact h.nodup m
  · exact h.apart a m m' ((mem a m).mp hm).1 ((mem a m').mp hm').1
  · simp only [mem, h.all a, exists_and_right]

end Update

end Queuey.Ledger
