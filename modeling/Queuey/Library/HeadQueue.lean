import Mathlib.Order.Lattice
import Mathlib.Data.List.Basic

/-!
# Queues that are only looked at from the head

Every element of a queue may become due at a moment of its own, and only the head is ever let
go: an element behind it leaves no earlier than all before it have left. Where the moments ascend
along the queue nobody waits for anybody, and what leaves by a time, and when, is what a look at
every single element gives.
-/
namespace Queuey.HeadQueue

variable {α τ : Type*} [LinearOrder τ] {due : α → Option τ} {limit now : τ} {l : List α} {a : α}

/-- What leaves the queue by `limit`, with the moment it does, and what stays. An element that is
never due stays, and so does everything behind it. -/
def drain (due : α → Option τ) (limit : τ) : τ → List α → List (α × τ) × List α
  | _, [] => ([], [])
  | now, a :: rest =>
    match due a with
    | some moment =>
      if moment ≤ limit then
        let drained := drain due limit (max now moment) rest
        ((a, max now moment) :: drained.1, drained.2)
      else ([], a :: rest)
    | none => ([], a :: rest)

/-- The moment an element leaves by itself, if it does by `limit`. -/
def leaves (due : α → Option τ) (limit : τ) (a : α) : Option τ := (due a).filter (· ≤ limit)

/-- Whenever an element is due, so is everything before it. -/
def Ascending (due : α → Option τ) (l : List α) : Prop :=
  l.Pairwise fun a b => ∀ later ∈ due b, ∃ sooner ∈ due a, sooner ≤ later

@[simp] theorem mem_leaves {moment : τ} :
    moment ∈ leaves due limit a ↔ moment ∈ due a ∧ moment ≤ limit := by
  simp [leaves, Option.filter_eq_some_iff]

theorem leaves_eq_none : leaves due limit a = none ↔ ∀ moment ∈ due a, limit < moment := by
  simp [leaves, Option.filter_eq_none_iff]

/-- Behind an element that stays, everything stays. -/
theorem leaves_behind {rest : List α} (h : Ascending due (a :: rest))
    (ha : leaves due limit a = none) : ∀ b ∈ rest, leaves due limit b = none := by
  intro b hb
  rw [leaves_eq_none] at ha ⊢
  intro later hlater
  obtain ⟨sooner, hsooner, hle⟩ := (List.pairwise_cons.mp h).1 b hb later hlater
  exact (ha sooner hsooner).trans_le hle

/-- In a queue with ascending moments the head holds nobody up. -/
theorem drain_ascending (h : Ascending due l) (hnow : ∀ a ∈ l, ∀ moment ∈ due a, now ≤ moment) :
    drain due limit now l =
      (l.filterMap fun a => (leaves due limit a).map (a, ·),
        l.filter fun a => (leaves due limit a).isNone) := by
  induction l generalizing now with
  | nil => rfl
  | cons a rest ih =>
    cases hleaves : leaves due limit a with
    | none =>
      have hbehind := leaves_behind h hleaves
      have hdrain : drain due limit now (a :: rest) = ([], a :: rest) := by
        unfold drain
        split
        · next moment hdue => rw [if_neg (leaves_eq_none.mp hleaves moment hdue).not_ge]
        · rfl
      rw [hdrain, List.filterMap_cons_none (by rw [hleaves]; rfl),
        List.filter_cons_of_pos (by rw [hleaves]; rfl), List.filterMap_eq_nil_iff.mpr
          fun b hb => by rw [hbehind b hb]; rfl, List.filter_eq_self.mpr
          fun b hb => by rw [hbehind b hb]; rfl]
    | some moment =>
      obtain ⟨hdue, hle⟩ := mem_leaves.mp hleaves
      have hmax : max now moment = moment := max_eq_right (hnow a List.mem_cons_self moment hdue)
      obtain ⟨hahead, hrest⟩ := List.pairwise_cons.mp h
      have hdrained := @ih moment hrest fun b hb later hlater => by
        obtain ⟨sooner, hsooner, hsl⟩ := hahead b hb later hlater
        obtain rfl := Option.some.inj (hsooner.symm.trans hdue)
        exact hsl
      unfold drain
      rw [hdue]
      dsimp only
      rw [if_pos hle, hmax, hdrained, List.filterMap_cons_some (by rw [hleaves]; rfl),
        List.filter_cons_of_neg (by rw [hleaves]; simp)]

theorem lookup_filterMap {β : Type*} [BEq α] [LawfulBEq α] (f : α → Option β) (ha : a ∈ l) :
    (l.filterMap fun a => (f a).map (a, ·)).lookup a = f a := by
  induction l with
  | nil => cases ha
  | cons b rest ih =>
    by_cases hab : a = b
    · subst hab
      cases hf : f a with
      | some moment => rw [List.filterMap_cons_some (by rw [hf]; rfl), List.lookup_cons_self]
      | none =>
        rw [List.filterMap_cons_none (by rw [hf]; rfl), List.lookup_eq_none_iff]
        rintro ⟨c, moment⟩ hc
        obtain ⟨d, -, hd⟩ := List.mem_filterMap.mp hc
        obtain ⟨moment', hmoment', hpair⟩ := Option.map_eq_some_iff.mp hd
        obtain ⟨rfl, rfl⟩ := Prod.mk.inj hpair
        refine bne_iff_ne.mpr ?_
        rintro rfl
        cases hf.symm.trans hmoment'
    · have hrest := ih ((List.mem_cons.mp ha).resolve_left hab)
      cases hf : f b with
      | some moment =>
        rw [List.filterMap_cons_some (by rw [hf]; rfl), List.lookup_cons, beq_false_of_ne hab]
        exact hrest
      | none => rwa [List.filterMap_cons_none (by rw [hf]; rfl)]

/-- Then an element leaves at its own moment. -/
theorem lookup_drain [BEq α] [LawfulBEq α] (h : Ascending due l)
    (hnow : ∀ a ∈ l, ∀ moment ∈ due a, now ≤ moment) (ha : a ∈ l) :
    (drain due limit now l).1.lookup a = leaves due limit a := by
  rw [drain_ascending h hnow]
  exact lookup_filterMap _ ha

/-- And what stays is what is not due. -/
theorem mem_drain (h : Ascending due l) (hnow : ∀ a ∈ l, ∀ moment ∈ due a, now ≤ moment) :
    a ∈ (drain due limit now l).2 ↔ a ∈ l ∧ leaves due limit a = none := by
  rw [drain_ascending h hnow, List.mem_filter, Option.isNone_iff_eq_none]

theorem drain_sublist (h : Ascending due l) (hnow : ∀ a ∈ l, ∀ moment ∈ due a, now ≤ moment) :
    (drain due limit now l).2.Sublist l := by
  rw [drain_ascending h hnow]
  exact List.filter_sublist

end Queuey.HeadQueue
