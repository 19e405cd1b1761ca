import Mathlib.Data.List.Nodup
import Mathlib.Data.List.Perm.Basic
import Queuey.Library.KeyList

/-!
# Forms

A list is read item by item into a form with one slot for each key. An item reads as an entry
whatever else is written, and the entry is put into its slot if that is empty. So a list is
accepted when its items read and no key comes twice, and then their order does not matter.
-/
namespace Queuey

variable {S I A K E : Type}

/-- The steps put entries into slots. -/
structure KeyForm (step : S → I → Except E S) (Reads : I → A → Prop) (key : A → K)
    (taken : S → A → Bool) (put : S → A → S) : Prop where
  step_ok : ∀ s i s', step s i = .ok s' ↔ ∃ a, Reads i a ∧ taken s a = false ∧ s' = put s a
  taken_put : ∀ s a b, taken (put s a) b = false ↔ taken s b = false ∧ key a ≠ key b
  put_comm : ∀ s a b, key a ≠ key b → put (put s a) b = put (put s b) a

namespace KeyForm
variable {step : S → I → Except E S} {Reads : I → A → Prop} {key : A → K} {taken : S → A → Bool}
  {put : S → A → S} {items items' : List I} {s s' : S}

theorem run_iff (h : KeyForm step Reads key taken put) : items.foldlM step s = .ok s' ↔
    ∃ entries, List.Forall₂ Reads items entries ∧ (entries.map key).Nodup ∧
      (∀ a ∈ entries, taken s a = false) ∧ s' = entries.foldl put s := by
  induction items generalizing s with
  | nil =>
    constructor
    · intro hrun
      obtain rfl := Except.ok.inj hrun
      exact ⟨[], .nil, List.nodup_nil, nofun, rfl⟩
    · rintro ⟨entries, hreads, -, -, rfl⟩
      cases hreads
      rfl
  | cons item items ih =>
    rw [List.foldlM_cons]
    constructor
    · intro hrun
      cases hnext : step s item with
      | error e =>
        rw [hnext] at hrun
        cases hrun
      | ok next =>
        rw [hnext] at hrun
        obtain ⟨a, hread, hfree, rfl⟩ := (h.step_ok s item next).mp hnext
        obtain ⟨entries, hreads, hnodup, hfrees, rfl⟩ := ih.mp hrun
        simp only [h.taken_put] at hfrees
        refine ⟨a :: entries, .cons hread hreads, List.nodup_cons.mpr ⟨fun hmem => ?_, hnodup⟩,
          List.forall_mem_cons.mpr ⟨hfree, fun b hb => (hfrees b hb).1⟩, rfl⟩
        obtain ⟨b, hb, hkey⟩ := List.mem_map.mp hmem
        exact (hfrees b hb).2 hkey.symm
    · rintro ⟨entries, hreads, hnodup, hfrees, rfl⟩
      cases hreads with
      | @cons _ a _ entries hread hreads =>
        obtain ⟨hnew, hnodup⟩ := List.nodup_cons.mp hnodup
        obtain ⟨hfree, hfrees⟩ := List.forall_mem_cons.mp hfrees
        rw [(h.step_ok s item _).mpr ⟨a, hread, hfree, rfl⟩]
        refine ih.mpr ⟨entries, hreads, hnodup, fun b hb => ?_, rfl⟩
        exact (h.taken_put s a b).mpr ⟨hfrees b hb, fun hkey =>
          hnew (List.mem_map.mpr ⟨b, hb, hkey.symm⟩)⟩

theorem reads_of_run (h : KeyForm step Reads key taken put) (hrun : items.foldlM step s = .ok s')
    {i : I} (hi : i ∈ items) : ∃ a, Reads i a := by
  obtain ⟨entries, hreads, -⟩ := h.run_iff.mp hrun
  clear hrun
  induction hreads with
  | nil => cases hi
  | cons hread _ ih =>
    obtain rfl | hi := List.mem_cons.mp hi
    · exact ⟨_, hread⟩
    · exact ih hi

/-- Items that read alike are alike. -/
theorem run_congr (h : KeyForm step Reads key taken put)
    (alike : List.Forall₂ (fun i j => ∀ a, Reads i a → Reads j a) items items')
    (hrun : items.foldlM step s = .ok s') : items'.foldlM step s = .ok s' := by
  obtain ⟨entries, hreads, hrest⟩ := h.run_iff.mp hrun
  refine h.run_iff.mpr ⟨entries, ?_, hrest⟩
  clear hrest hrun
  induction alike generalizing entries with
  | nil => exact hreads
  | cons hij _ ih =>
    cases hreads with
    | cons hread hreads => exact .cons (hij _ hread) (ih _ hreads)

theorem run_perm (h : KeyForm step Reads key taken put) (perm : items'.Perm items)
    (hrun : items.foldlM step s = .ok s') : items'.foldlM step s = .ok s' := by
  obtain ⟨entries, hreads, hnodup, hfrees, rfl⟩ := h.run_iff.mp hrun
  obtain ⟨entries', hreads', hperm⟩ := List.perm_comp_forall₂ perm hreads
  refine h.run_iff.mpr ⟨entries', hreads', (hperm.map key).nodup_iff.mpr hnodup,
    fun a ha => hfrees a (hperm.mem_iff.mp ha), ?_⟩
  refine hperm.symm.foldl_eq' (fun a ha b hb t => ?_) s
  by_cases hkey : key a = key b
  · rw [List.inj_on_of_nodup_map hnodup ha hb hkey]
  · exact h.put_comm t a b hkey

/-- Items that all read are accepted if no key comes twice. -/
theorem run_of_reads {keyOf : I → K} (h : KeyForm step Reads key taken put)
    (reads : ∀ i ∈ items, ∃ a, Reads i a ∧ key a = keyOf i) (nodup : (items.map keyOf).Nodup)
    (free : ∀ a, taken s a = false) : ∃ s', items.foldlM step s = .ok s' := by
  suffices hsome : ∃ entries, List.Forall₂ Reads items entries ∧
      entries.map key = items.map keyOf by
    obtain ⟨entries, hreads, hkeys⟩ := hsome
    exact ⟨_, h.run_iff.mpr ⟨entries, hreads, hkeys ▸ nodup, fun a _ => free a, rfl⟩⟩
  clear nodup
  induction items with
  | nil => exact ⟨[], .nil, rfl⟩
  | cons i items ih =>
    obtain ⟨⟨a, ha, hkey⟩, hrest⟩ := List.forall_mem_cons.mp reads
    obtain ⟨entries, hreads, hkeys⟩ := ih hrest
    exact ⟨a :: entries, .cons ha hreads, by rw [List.map_cons, List.map_cons, hkey, hkeys]⟩

/-- The slot of one key. -/
theorem slot {P V : Type} {step : S → K × P → Except E S} {Reads : K × P → A → Prop} {k : K}
    {get : S → Option V} {R : P → V → Prop} (h : KeyForm step Reads key taken put)
    (keyed : ∀ item a, Reads item a → key a = item.1)
    (hit : ∀ s p a, Reads (k, p) a → taken s a = false →
      get s = none ∧ ∃ v, R p v ∧ get (put s a) = some v)
    (miss : ∀ s a, key a ≠ k → get (put s a) = get s) : KeyList.Slot step k get R where
  fill s p s' hs := by
    obtain ⟨a, hread, hfree, rfl⟩ := (h.step_ok s (k, p) s').mp hs
    exact hit s p a hread hfree
  keep s item s' hne hs := by
    obtain ⟨a, hread, -, rfl⟩ := (h.step_ok s item s').mp hs
    exact miss s a (keyed item a hread ▸ hne)

end KeyForm

namespace KeyList
variable {K P : Type} [DecidableEq K] {items : List (K × P)}

theorem mem_given {item : K × P} (h : item ∈ items) : item.2 ∈ given item.1 items :=
  List.mem_map.mpr ⟨item, List.mem_filter.mpr ⟨h, by simp⟩, rfl⟩

theorem nodup_of_given (h : ∀ k, (given k items).length ≤ 1) : (items.map Prod.fst).Nodup := by
  refine List.nodup_iff_count_le_one.mpr fun k => ?_
  have hcount : (items.map Prod.fst).count k = (given k items).length := by
    rw [given, List.length_map, List.count_eq_countP, List.countP_map, List.countP_eq_length_filter]
    rfl
  exact hcount ▸ h k

end KeyList
end Queuey
