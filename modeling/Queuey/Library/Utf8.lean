import Mathlib.Data.List.TakeWhile
import Mathlib.Algebra.Order.Ring.Nat

/-!
# Byte offsets into UTF-8 text

Text is found and split by byte offsets, and a split off a character boundary fails. The
offset at which a search ends is always on one, and so is the end of the longest prefix that
fits a number of bytes.
-/
namespace Queuey.Utf8

/-- Bytes of the encoding. -/
def size (cs : List Char) : ℕ := (cs.map Char.utf8Size).sum

/-- The byte offset of the first character that satisfies `p`. -/
def find (p : Char → Bool) : List Char → Option ℕ
  | [] => none
  | c :: cs => if p c then some 0 else (find p cs).map (c.utf8Size + ·)

/-- The text before and after a byte offset, unless that is inside a character or past
the end. -/
def splitAt : List Char → ℕ → Option (List Char × List Char)
  | cs, 0 => some ([], cs)
  | [], _ + 1 => none
  | c :: cs, n + 1 =>
    if c.utf8Size ≤ n + 1 then
      (splitAt cs (n + 1 - c.utf8Size)).map fun parts => (c :: parts.1, parts.2)
    else none

variable {cs : List Char} {c : Char}

@[simp] theorem size_nil : size [] = 0 := rfl

@[simp] theorem size_cons : size (c :: cs) = c.utf8Size + size cs := by simp [size]

@[simp] theorem size_append (a b : List Char) : size (a ++ b) = size a + size b := by
  simp [size]

theorem size_eq_length (h : ∀ c ∈ cs, c.utf8Size = 1) : size cs = cs.length := by
  induction cs with
  | nil => rfl
  | cons c cs ih =>
    rw [size_cons, h c List.mem_cons_self, ih fun d hd => h d (List.mem_cons_of_mem c hd),
      List.length_cons, Nat.add_comm]

theorem utf8ByteSize_ofList (cs : List Char) : (String.ofList cs).utf8ByteSize = size cs := by
  induction cs with
  | nil => rfl
  | cons c cs ih =>
    rw [String.ofList_cons, String.utf8ByteSize_append, String.utf8ByteSize_singleton, ih,
      size_cons]

theorem size_toList (s : String) : size s.toList = s.utf8ByteSize := by
  rw [← utf8ByteSize_ofList, String.ofList_toList]

@[simp] theorem splitAt_zero : splitAt cs 0 = some ([], cs) := by cases cs <;> rfl

/-- Splitting after whole characters gives them back. -/
theorem splitAt_size (a b : List Char) : splitAt (a ++ b) (size a) = some (a, b) := by
  induction a with
  | nil => simp
  | cons c a ih =>
    have hpos := c.utf8Size_pos
    obtain ⟨n, hn⟩ : ∃ n, c.utf8Size + size a = n + 1 := ⟨c.utf8Size + size a - 1, by omega⟩
    have hrest : n + 1 - c.utf8Size = size a := by omega
    rw [size_cons, hn, List.cons_append, splitAt, if_pos (by omega), hrest, ih]
    rfl

/-- A search that finds nothing ends at the end of the text. -/
theorem find_getD (p : Char → Bool) (cs : List Char) :
    (find p cs).getD (size cs) = size (cs.takeWhile fun c => !p c) := by
  induction cs with
  | nil => rfl
  | cons c cs ih =>
    cases hc : p c with
    | true => simp [find, hc]
    | false =>
      rw [List.takeWhile_cons, hc]
      cases hf : find p cs with
      | none => simpa [find, hc, hf] using ih
      | some n => simpa [find, hc, hf] using ih

/-- Splitting where a search ended never fails. -/
theorem splitAt_find (p : Char → Bool) (cs : List Char) :
    splitAt cs ((find p cs).getD (size cs)) =
      some (cs.takeWhile (fun c => !p c), cs.dropWhile fun c => !p c) := by
  have h := splitAt_size (cs.takeWhile fun c => !p c) (cs.dropWhile fun c => !p c)
  rwa [List.takeWhile_append_dropWhile, ← find_getD] at h

/-! ## The longest prefix that fits -/

/-- A byte offset between two characters, or at an end of the text. -/
def Boundary (cs : List Char) (n : ℕ) : Prop := ∃ a b, cs = a ++ b ∧ size a = n

/-- Splitting fails at the other offsets only. -/
theorem splitAt_isSome_iff {n : ℕ} : (splitAt cs n).isSome = true ↔ Boundary cs n := by
  constructor
  · intro h
    induction cs generalizing n with
    | nil =>
      cases n with
      | zero => exact ⟨[], [], rfl, rfl⟩
      | succ n => cases h
    | cons c cs ih =>
      cases n with
      | zero => exact ⟨[], c :: cs, rfl, rfl⟩
      | succ n =>
        unfold splitAt at h
        split_ifs at h with hc
        · rw [Option.isSome_map] at h
          obtain ⟨a, b, rfl, ha⟩ := ih h
          refine ⟨c :: a, b, rfl, ?_⟩
          rw [size_cons]
          omega
        · cases h
  · rintro ⟨a, b, rfl, rfl⟩
    rw [splitAt_size]
    rfl

/-- The longest prefix of at most `max` bytes. A prefix is text itself, so it ends between two
characters. -/
structure LongestPrefix (text : String) (max : ℕ) (p : String) : Prop where
  isPrefix : ∃ rest, text = p ++ rest
  fits : p.utf8ByteSize ≤ max
  longest : ∀ q rest, text = q ++ rest → q.utf8ByteSize ≤ max → q.utf8ByteSize ≤ p.utf8ByteSize

variable {text p q : String} {max : ℕ}

theorem LongestPrefix.self (h : text.utf8ByteSize ≤ max) : LongestPrefix text max text where
  isPrefix := ⟨"", by simp⟩
  fits := h
  longest := by
    rintro q rest rfl -
    rw [String.utf8ByteSize_append]
    omega

/-- Prefixes of one text that have as many bytes are the same. -/
theorem eq_of_prefixes {rest rest' : String} (h : p ++ rest = q ++ rest')
    (hsize : p.utf8ByteSize = q.utf8ByteSize) : p = q := by
  have hlists : p.toList ++ rest.toList = q.toList ++ rest'.toList := by
    simpa using congrArg String.toList h
  have hp := splitAt_size p.toList rest.toList
  rw [hlists, size_toList, hsize, ← size_toList, splitAt_size] at hp
  exact String.toList_inj.mp (Prod.mk.inj (Option.some.inj hp)).1.symm

theorem LongestPrefix.unique (h : LongestPrefix text max p) (k : LongestPrefix text max q) :
    p = q := by
  obtain ⟨rest, hp⟩ := h.isPrefix
  obtain ⟨rest', hq⟩ := k.isPrefix
  apply eq_of_prefixes (hp.symm.trans hq)
  exact le_antisymm (k.longest p rest hp h.fits) (h.longest q rest' hq k.fits)

end Queuey.Utf8
