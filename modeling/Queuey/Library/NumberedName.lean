import Mathlib.Data.List.Basic
import Queuey.Library.Utf8

/-!
# Names that end in a number

A stem, a dot and a decimal number: the last dot tells where the stem ends, whatever the
stem is, and a smaller number is not written longer.
-/
namespace Queuey.NumberedName

def numbered (stem : String) (n : ℕ) : String := stem ++ "." ++ toString n

/-- What follows the last occurrence of a separator is determined. -/
theorem append_cons_inj {α : Type} {sep : α} {a b c d : List α} (hc : sep ∉ c) (hd : sep ∉ d)
    (h : a ++ sep :: c = b ++ sep :: d) : a = b ∧ c = d := by
  rcases List.append_eq_append_iff.mp h with ⟨l, hb, hl⟩ | ⟨l, ha, hl⟩
  · cases l with
    | nil =>
      injection hl with _ hcd
      exact ⟨by simpa using hb.symm, hcd⟩
    | cons x l =>
      injection hl with _ hcd
      rw [hcd] at hc
      exact absurd (List.mem_append_right l (List.mem_cons_self ..)) hc
  · cases l with
    | nil =>
      injection hl with _ hcd
      exact ⟨by simpa using ha, hcd.symm⟩
    | cons x l =>
      injection hl with _ hcd
      rw [hcd] at hd
      exact absurd (List.mem_append_right l (List.mem_cons_self ..)) hd

theorem isDigit_of_mem {n : ℕ} {c : Char} (h : c ∈ (toString n).toList) : c.isDigit = true := by
  rw [Nat.toString_eq_repr, Nat.toList_repr] at h
  exact Nat.isDigit_of_mem_toDigits (by decide) (by decide) h

theorem dot_notMem_digits (n : ℕ) : '.' ∉ (toString n).toList := by
  intro h
  cases isDigit_of_mem h

theorem digits_injective {m n : ℕ} (h : (toString m).toList = (toString n).toList) : m = n := by
  simp only [Nat.toString_eq_repr, Nat.toList_repr] at h
  have hread := congrArg (fun digits => Nat.ofDigitChars 10 digits 0) h
  simpa using hread

theorem numbered_inj {a b : String} {m n : ℕ} (h : numbered a m = numbered b n) :
    a = b ∧ m = n := by
  have hlists :
      a.toList ++ '.' :: (toString m).toList = b.toList ++ '.' :: (toString n).toList := by
    simpa [numbered] using congrArg String.toList h
  obtain ⟨hstem, hdigits⟩ :=
    append_cons_inj (dot_notMem_digits m) (dot_notMem_digits n) hlists
  exact ⟨String.toList_inj.mp hstem, digits_injective hdigits⟩

def EndsInDigit (name : String) : Prop := ∃ c ∈ name.toList.getLast?, c.isDigit = true

theorem EndsInDigit.of_append {a b : String} (h : EndsInDigit (a ++ b)) :
    EndsInDigit a ∨ EndsInDigit b := by
  obtain ⟨c, hc, hdigit⟩ := h
  rw [String.toList_append, List.getLast?_append, Option.mem_def, Option.or_eq_some_iff] at hc
  rcases hc with hc | ⟨-, hc⟩
  · exact .inr ⟨c, hc, hdigit⟩
  · exact .inl ⟨c, hc, hdigit⟩

theorem numbered_endsInDigit (stem : String) (n : ℕ) : EndsInDigit (numbered stem n) := by
  have hne : (toString n).toList ≠ [] := by
    simp [Nat.toString_eq_repr, Nat.toList_repr]
  refine ⟨(toString n).toList.getLast hne, ?_, isDigit_of_mem (List.getLast_mem hne)⟩
  rw [numbered, String.toList_append, List.getLast?_append, List.getLast?_eq_some_getLast hne]
  rfl

/-- The number a name has behind a stem and a dot. -/
def numberOf (stem name : String) : Option ℕ :=
  let n := Nat.ofDigitChars 10 (name.toList.drop (stem.length + 1)) 0
  if name = numbered stem n then some n else none

theorem numberOf_eq_some_iff {stem name : String} {n : ℕ} :
    numberOf stem name = some n ↔ name = numbered stem n := by
  unfold numberOf
  dsimp only
  constructor
  · intro h
    split at h
    · rename_i hname
      rwa [← Option.some.inj h]
    · cases h
  · rintro rfl
    have hname : (numbered stem n).toList = stem.toList ++ ['.'] ++ (toString n).toList := by
      simp [numbered]
    have hread : Nat.ofDigitChars 10 (toString n).toList 0 = n := by
      simp [Nat.toString_eq_repr, Nat.toList_repr]
    rw [hname, List.drop_left' (by simp [String.length_toList]), hread, if_pos rfl]

theorem digitChar_size {d : ℕ} (h : d < 16) : (Nat.digitChar d).utf8Size = 1 := by
  have all : ∀ d < 16, (Nat.digitChar d).utf8Size = 1 := by decide
  exact all d h

/-- Every digit is one byte, up to base 16. -/
theorem size_toDigits {b : ℕ} (hb : 1 < b) (h16 : b ≤ 16) (n : ℕ) :
    Utf8.size (Nat.toDigits b n) = (Nat.toDigits b n).length := by
  induction n using Nat.strongRecOn with
  | ind n ih =>
    rw [Nat.toDigits_eq_if hb]
    split_ifs with h
    · simp [digitChar_size (h.trans_le h16)]
    · have hmod : n % b < 16 := (Nat.mod_lt n (by omega)).trans_le h16
      have hdiv := ih (n / b) (Nat.div_lt_self (by omega) hb)
      simp [digitChar_size hmod, hdiv]

theorem utf8ByteSize_repr (n : ℕ) : n.repr.utf8ByteSize = n.repr.length := by
  rw [← Utf8.size_toList, ← String.length_toList, Nat.toList_repr]
  exact size_toDigits (by decide) (by decide) n

theorem length_repr_mono {m n : ℕ} (h : m ≤ n) : m.repr.length ≤ n.repr.length := by
  have hn := (Nat.length_repr_le_iff Nat.length_repr_pos).mp (Nat.le_refl n.repr.length)
  apply (Nat.length_repr_le_iff Nat.length_repr_pos).mpr
  exact Nat.lt_of_le_of_lt h hn

/-- Of two names on one stem, the one with the smaller number is not longer. -/
theorem utf8ByteSize_mono {stem : String} {m n : ℕ} (h : m ≤ n) :
    (numbered stem m).utf8ByteSize ≤ (numbered stem n).utf8ByteSize := by
  have hlen := length_repr_mono h
  simp only [numbered, String.utf8ByteSize_append, Nat.toString_eq_repr, utf8ByteSize_repr]
  omega

end Queuey.NumberedName
