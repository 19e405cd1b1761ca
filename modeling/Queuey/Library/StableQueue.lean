import Mathlib.Order.Lattice
import Mathlib.Data.List.Perm.Basic
import Mathlib.Data.List.Nodup
import Mathlib.Data.List.Induction
import Mathlib.Data.List.TakeWhile

/-!
# Stable priority queues

A list kept by priority, first come first served within one priority. An arrival is put
behind the last element that is at least as important. What such a list must look like is
settled by its members and the order of all arrivals, so a list in that order is the one
that its members alone would have led to.
-/
namespace Queuey.StableQueue

variable {α β : Type*} [LinearOrder β] (priority : α → β) {l history : List α} {a b : α}

/-- The position behind the last element that is at least as important as the arrival. -/
def enqueue (l : List α) (a : α) : List α :=
  let position := (l.reverse.dropWhile fun b => priority b < priority a).length
  l.take position ++ a :: l.drop position

/-- The queue after the arrivals of a list, when nothing is ever taken out. -/
def arrange (l : List α) : List α := l.foldl (enqueue priority) []

/-- `a` goes before `b`: it is more important, or as important and here earlier. -/
def Outranks (history : List α) (a b : α) : Prop :=
  priority b < priority a ∨ (priority a = priority b ∧ [a, b].Sublist history)

instance [DecidableEq α] (history : List α) : DecidableRel (Outranks priority history) :=
  fun _ _ => inferInstanceAs (Decidable (_ ∨ _))

variable {priority}

theorem Outranks.mono {later : List α} (h : Outranks priority history a b)
    (hsub : history.Sublist later) : Outranks priority later a b :=
  h.imp_right fun ⟨heq, hab⟩ => ⟨heq, hab.trans hsub⟩

theorem Outranks.le (h : Outranks priority history a b) : priority b ≤ priority a := by
  obtain h | ⟨h, -⟩ := h
  · exact h.le
  · exact h.ge

theorem enqueue_perm (l : List α) (a : α) : (enqueue priority l a).Perm (a :: l) := by
  unfold enqueue
  refine List.perm_middle.trans ?_
  rw [List.take_append_drop]

/-- An arrival splits the list: what stays ahead ends with the last element that is at least
as important, and all that is left behind is less important. -/
theorem enqueue_split (priority : α → β) (l : List α) (a : α) : ∃ ahead behind, l = ahead ++ behind ∧
    enqueue priority l a = ahead ++ a :: behind ∧
      (∀ b ∈ ahead.getLast?, priority a ≤ priority b) ∧ ∀ b ∈ behind, priority b < priority a := by
  let less : α → Bool := fun b => priority b < priority a
  obtain ⟨ahead, hahead⟩ : ∃ ahead, ahead = (l.reverse.dropWhile less).reverse := ⟨_, rfl⟩
  obtain ⟨behind, hbehind⟩ : ∃ behind, behind = (l.reverse.takeWhile less).reverse := ⟨_, rfl⟩
  have hl : l = ahead ++ behind := by
    rw [hahead, hbehind, ← List.reverse_append, List.takeWhile_append_dropWhile,
      List.reverse_reverse]
  have hlength : (l.reverse.dropWhile less).length = ahead.length := by
    rw [hahead, List.length_reverse]
  refine ⟨ahead, behind, hl, ?_, fun b hb => ?_, fun b hb => ?_⟩
  · show l.take (l.reverse.dropWhile less).length ++ a :: l.drop (l.reverse.dropWhile less).length = _
    rw [hlength, hl, List.take_left, List.drop_left]
  · rw [hahead, List.getLast?_reverse] at hb
    have hhead := List.head?_dropWhile_not less l.reverse
    rw [Option.mem_def.mp hb] at hhead
    simpa [less] using hhead
  · rw [hbehind, List.mem_reverse] at hb
    simpa [less] using List.mem_takeWhile_imp hb

/-- Where nothing is less important than the arrival, it goes to the end. -/
theorem enqueue_last (h : ∀ b ∈ l, priority a ≤ priority b) : enqueue priority l a = l ++ [a] := by
  obtain ⟨ahead, behind, rfl, henqueue, -, hbehind⟩ := enqueue_split priority l a
  have hnone : behind = [] := List.eq_nil_iff_forall_not_mem.mpr fun b hb =>
    (hbehind b hb).not_ge (h b (List.mem_append_right _ hb))
  rw [henqueue, hnone, List.append_nil]

/-- In a list in order, all that stays ahead of an arrival is at least as important. -/
theorem ahead_le {ahead behind : List α} (h : l.Pairwise (Outranks priority history))
    (hl : l = ahead ++ behind) (hlast : ∀ b ∈ ahead.getLast?, priority a ≤ priority b) :
    ∀ b ∈ ahead, priority a ≤ priority b := by
  intro b hb
  subst hl
  have hahead := (List.pairwise_append.mp h).1
  obtain ⟨front, last, rfl⟩ : ∃ front last, ahead = front ++ [last] :=
    ⟨_, _, (List.dropLast_append_getLast (List.ne_nil_of_mem hb)).symm⟩
  have hle : priority a ≤ priority last := hlast last (by simp)
  rw [List.mem_append, List.mem_singleton] at hb
  obtain hb | rfl := hb
  · exact hle.trans ((List.pairwise_append.mp hahead).2.2 b hb last (List.mem_singleton_self _)).le
  · exact hle

/-- An arrival keeps the order. -/
theorem enqueue_pairwise (h : l.Pairwise (Outranks priority history))
    (hsub : ∀ b ∈ l, b ∈ history) :
    (enqueue priority l a).Pairwise (Outranks priority (history ++ [a])) := by
  obtain ⟨ahead, behind, hl, henqueue, hlast, hbehind⟩ := enqueue_split priority l a
  have hahead := ahead_le h hl hlast
  have hl' : (ahead ++ behind).Pairwise (Outranks priority (history ++ [a])) :=
    hl ▸ h.imp fun h => h.mono (List.sublist_append_left _ _)
  rw [List.pairwise_append] at hl'
  rw [henqueue, List.pairwise_append, List.pairwise_cons]
  refine ⟨hl'.1, ⟨fun b hb => .inl (hbehind b hb), hl'.2.1⟩, fun b hb c hc => ?_⟩
  rw [List.mem_cons] at hc
  obtain rfl | hc := hc
  · -- The arrival is the last of the history.
    obtain hlt | heq := (hahead b hb).lt_or_eq
    · exact .inl hlt
    · have hb' : b ∈ history := hsub b (hl ▸ List.mem_append_left _ hb)
      exact .inr ⟨heq.symm, (List.singleton_sublist.mpr hb').append (List.Sublist.refl [c])⟩
  · exact hl'.2.2 b hb c hc

theorem arrange_append (l : List α) (a : α) :
    arrange priority (l ++ [a]) = enqueue priority (arrange priority l) a := by
  simp [arrange]

theorem arrange_perm (l : List α) : (arrange priority l).Perm l := by
  induction l using List.reverseRecOn with
  | nil => exact .refl _
  | append_singleton l a ih =>
    rw [arrange_append]
    exact (enqueue_perm _ a).trans ((ih.cons a).trans (List.perm_append_singleton a l).symm)

theorem arrange_pairwise (l : List α) :
    (arrange priority l).Pairwise (Outranks priority l) := by
  induction l using List.reverseRecOn with
  | nil => exact .nil
  | append_singleton l a ih =>
    rw [arrange_append]
    exact enqueue_pairwise ih fun b hb => (arrange_perm l).mem_iff.mp hb

/-- Two elements arrive in one order only. -/
theorem not_sublist_swap (h : history.Nodup) (hab : [a, b].Sublist history) :
    ¬[b, a].Sublist history := by
  induction history with
  | nil => cases hab
  | cons c rest ih =>
    obtain ⟨hc, hrest⟩ := List.nodup_cons.mp h
    intro hba
    cases hab with
    | cons _ hab =>
      cases hba with
      | cons _ hba => exact ih hrest hab hba
      | cons_cons _ hba => exact hc (hab.subset (by simp))
    | cons_cons _ hab =>
      cases hba with
      | cons _ hba => exact hc (hba.subset (by simp))
      | cons_cons _ hba => exact hc (List.singleton_sublist.mp hab)

theorem Outranks.asymm (h : history.Nodup) (hab : Outranks priority history a b) :
    ¬Outranks priority history b a := by
  intro hba
  obtain hlt | ⟨heq, hsub⟩ := hab
  · exact absurd hba.le hlt.not_ge
  · obtain hlt | ⟨-, hsub'⟩ := hba
    · exact absurd heq.ge hlt.not_ge
    · exact not_sublist_swap h hsub hsub'

/-- A list in order is the one its members alone would have led to. -/
theorem eq_arrange (h : l.Pairwise (Outranks priority history)) (hnodup : history.Nodup)
    (hsub : ∀ b ∈ l, b ∈ history) {kept : α → Bool}
    (hkept : ∀ b ∈ history, kept b = true ↔ b ∈ l) : l = arrange priority (history.filter kept) := by
  have hl : l.Nodup := h.imp fun hab heq => by
    subst heq
    exact hab.asymm hnodup hab
  have hordered : (arrange priority (history.filter kept)).Pairwise (Outranks priority history) :=
    (arrange_pairwise _).imp fun h => h.mono (List.filter_sublist)
  have hperm : l.Perm (arrange priority (history.filter kept)) := by
    refine .trans ?_ (arrange_perm _).symm
    rw [List.perm_ext_iff_of_nodup hl (hnodup.filter _)]
    intro b
    rw [List.mem_filter]
    exact ⟨fun hb => ⟨hsub b hb, (hkept b (hsub b hb)).mpr hb⟩, fun hb => (hkept b hb.1).mp hb.2⟩
  exact hperm.eq_of_pairwise (fun b c _ _ hbc hcb => absurd hcb (hbc.asymm hnodup)) h hordered

/-- Two members of a list are there in one order or the other. -/
theorem pair_sublist (hne : a ≠ b) (ha : a ∈ l) (hb : b ∈ l) :
    [a, b].Sublist l ∨ [b, a].Sublist l := by
  induction l with
  | nil => cases ha
  | cons c rest ih =>
    rw [List.mem_cons] at ha hb
    obtain rfl | ha := ha <;> obtain rfl | hb := hb
    · exact absurd rfl hne
    · exact .inl ((List.singleton_sublist.mpr hb).cons_cons a)
    · exact .inr ((List.singleton_sublist.mpr ha).cons_cons b)
    · exact (ih ha hb).imp (·.cons c) (·.cons c)

/-- The stable sort by descending priority is in order. -/
theorem mergeSort_pairwise (hl : l.Nodup) :
    (l.mergeSort fun a b => priority b ≤ priority a).Pairwise (Outranks priority l) := by
  have trans : ∀ a b c : α, decide (priority b ≤ priority a) = true →
      decide (priority c ≤ priority b) = true → decide (priority c ≤ priority a) = true := by
    intro a b c hab hbc
    simp only [decide_eq_true_eq] at *
    exact hbc.trans hab
  have total : ∀ a b : α,
      (decide (priority b ≤ priority a) || decide (priority a ≤ priority b)) = true := by
    intro a b
    simpa using le_total (priority b) (priority a)
  have hperm := List.mergeSort_perm l fun a b => priority b ≤ priority a
  have hnodup : (l.mergeSort fun a b => priority b ≤ priority a).Nodup := hperm.nodup_iff.mpr hl
  rw [List.pairwise_iff_forall_sublist]
  intro a b hab
  have hle : priority b ≤ priority a := by
    have hsorted := List.pairwise_mergeSort trans total l
    simpa using List.pairwise_iff_forall_sublist.mp hsorted hab
  obtain hlt | heq := hle.lt_or_eq
  · exact .inl hlt
  · -- The sort keeps the order of two elements of one priority.
    have hne : a ≠ b := by
      rintro rfl
      exact absurd (hnodup.sublist hab) (by simp)
    have ha : a ∈ l := hperm.mem_iff.mp (hab.subset (by simp))
    have hb : b ∈ l := hperm.mem_iff.mp (hab.subset (by simp))
    obtain hsub | hsub := pair_sublist hne ha hb
    · exact .inr ⟨heq.symm, hsub⟩
    · have hba := List.pair_sublist_mergeSort trans total (by simpa using heq.ge) hsub
      exact absurd hab (not_sublist_swap hnodup hba)

/-- Arrivals by priority come to the stable sort of all that arrived. -/
theorem arrange_eq_mergeSort (hl : l.Nodup) :
    arrange priority l = l.mergeSort fun a b => priority b ≤ priority a := by
  have hperm : (arrange priority l).Perm (l.mergeSort fun a b => priority b ≤ priority a) :=
    (arrange_perm l).trans (List.mergeSort_perm l _).symm
  exact hperm.eq_of_pairwise (fun b c _ _ hbc hcb => absurd hcb (hbc.asymm hl)) (arrange_pairwise l)
    (mergeSort_pairwise hl)

end Queuey.StableQueue
