import Queuey.Library.Utf8
import Queuey.Macros.Duration

/-!
# Which duration literals are accepted

`parse_millis` step by step, over byte offsets and 64-bit arithmetic, against the grammar
it is meant to read. It panics on no input, accepts exactly what the grammar spells within
64 bits, and the value is the product that is written.
-/
namespace Queuey.Macros

/-- `u64::checked_mul`. -/
def u64CheckedMul (a b : UInt64) : Option UInt64 :=
  if a.toNat * b.toNat < 2 ^ 64 then some (a * b) else none

/-- `u64::checked_add`. -/
def u64CheckedAdd (a b : UInt64) : Option UInt64 :=
  if a.toNat + b.toNat < 2 ^ 64 then some (a + b) else none

def digitValue (c : Char) : ℕ := c.toNat - '0'.toNat

/-- `str::parse::<u64>` of a run of decimal digits, checked at every digit. -/
def u64FromStr (digits : List Char) : Option UInt64 :=
  digits.foldlM (fun n c =>
    (u64CheckedMul n 10).bind fun m => u64CheckedAdd m (UInt64.ofNat (digitValue c))) 0

/-- `parse_millis` with the panic of `split_at` and the two overflow checks in place. -/
def parseMillisBytes (input : String) : Except Panic (Except String UInt64) :=
  let trimmed := trim input.toList
  let digitEnd := (Utf8.find (fun c => !c.isDigit) trimmed).getD (Utf8.size trimmed)
  match Utf8.splitAt trimmed digitEnd with
  | none => .error ⟨"failed to slice string"⟩
  | some (digits, rest) =>
    if digits.isEmpty then .ok (.error (invalid input))
    else
      match unitMillis (trimStart rest) with
      | none => .ok (.error (invalid input))
      | some factor =>
        match (u64FromStr digits).bind fun value => u64CheckedMul value (UInt64.ofNat factor) with
        | none => .ok (.error (outOfRange input))
        | some millis => .ok (.ok millis)

/-! ## The grammar -/

/-- The units and their milliseconds; a number without one counts seconds. -/
def units : List (String × ℕ) :=
  [("", 1000), ("s", 1000), ("ms", 1), ("m", 60000), ("h", 3600000), ("d", 86400000)]

/-- Trimmed, the text is a run of ASCII digits, optional whitespace and a unit, and their
product is `millis`. -/
def Spells (s : String) (millis : ℕ) : Prop :=
  ∃ (digits space : List Char) (unit : String) (factor : ℕ),
    trim s.toList = digits ++ (space ++ unit.toList) ∧ digits ≠ [] ∧
    (∀ c ∈ digits, c.isDigit) ∧ (∀ c ∈ space, isWhitespace c) ∧ (unit, factor) ∈ units ∧
    millis = decimal digits * factor

theorem mem_units_of_unitMillis {unit : List Char} {factor : ℕ}
    (h : unitMillis unit = some factor) : (String.ofList unit, factor) ∈ units := by
  unfold unitMillis at h
  split at h
  case h_7 => cases h
  all_goals
    obtain rfl := Option.some.inj h
    decide

theorem unitMillis_of_mem_units {unit : String} {factor : ℕ} (h : (unit, factor) ∈ units) :
    unitMillis unit.toList = some factor := by
  have all : ∀ entry ∈ units, unitMillis entry.1.toList = some entry.2 := by decide
  exact all _ h

/-- A unit starts with neither a digit nor a space. -/
theorem units_head {unit : String} {factor : ℕ} (h : (unit, factor) ∈ units) :
    ∀ c ∈ unit.toList.head?, c.isDigit = false ∧ isWhitespace c = false := by
  have all : ∀ entry ∈ units,
      (entry.1.toList.head?.all fun c => !c.isDigit && !isWhitespace c) = true := by decide
  simpa [Option.all_eq_true] using all _ h

/-! ## Arithmetic -/

section Arithmetic
variable {digits : List Char} {n : UInt64} {c : Char}

theorem u64CheckedMul_eq (a b : UInt64) : u64CheckedMul a b =
    if a.toNat * b.toNat < 2 ^ 64 then some (UInt64.ofNat (a.toNat * b.toNat)) else none := by
  unfold u64CheckedMul
  split
  · simp [UInt64.ofNat_mul]
  · rfl

theorem u64CheckedAdd_eq (a b : UInt64) : u64CheckedAdd a b =
    if a.toNat + b.toNat < 2 ^ 64 then some (UInt64.ofNat (a.toNat + b.toNat)) else none := by
  unfold u64CheckedAdd
  split
  · simp [UInt64.ofNat_add]
  · rfl

theorem digitValue_le (h : c.isDigit) : digitValue c ≤ 9 := by
  simp only [Char.isDigit, Bool.and_eq_true, decide_eq_true_eq, ge_iff_le,
    UInt32.le_iff_toNat_le] at h
  have hhigh : c.toNat ≤ 57 := h.2
  unfold digitValue
  have hzero : '0'.toNat = 48 := rfl
  omega

/-- A number that more digits are read onto; `decimal` starts from zero. -/
def decimalFrom (n : ℕ) (digits : List Char) : ℕ :=
  digits.foldl (fun n c => 10 * n + digitValue c) n

theorem le_decimalFrom (n : ℕ) (digits : List Char) : n ≤ decimalFrom n digits := by
  induction digits generalizing n with
  | nil => exact le_rfl
  | cons c digits ih =>
    have hnext := ih (10 * n + digitValue c)
    have hstep : n ≤ 10 * n + digitValue c := by omega
    exact hstep.trans hnext

/-- One more digit, with both of its overflow checks. -/
theorem readDigit_eq (n : UInt64) (h : c.isDigit) :
    ((u64CheckedMul n 10).bind fun m => u64CheckedAdd m (UInt64.ofNat (digitValue c))) =
      if 10 * n.toNat + digitValue c < 2 ^ 64 then
        some (UInt64.ofNat (10 * n.toNat + digitValue c)) else none := by
  have hdigit := digitValue_le h
  have hsmall : digitValue c < 2 ^ 64 := by omega
  have hten : (10 : UInt64).toNat = 10 := rfl
  rw [u64CheckedMul_eq, hten, Nat.mul_comm]
  by_cases hmul : 10 * n.toNat < 2 ^ 64
  · rw [if_pos hmul, Option.bind_some, u64CheckedAdd_eq, UInt64.toNat_ofNat_of_lt' hmul,
      UInt64.toNat_ofNat_of_lt' hsmall]
  · rw [if_neg hmul, if_neg (by omega)]
    rfl

/-- Once a number has left the 64 bits, more digits do not bring it back. -/
theorem foldlM_readDigit (hdigits : ∀ c ∈ digits, c.isDigit) (n : UInt64) :
    digits.foldlM (fun n c => (u64CheckedMul n 10).bind fun m =>
      u64CheckedAdd m (UInt64.ofNat (digitValue c))) n =
      if decimalFrom n.toNat digits < 2 ^ 64 then
        some (UInt64.ofNat (decimalFrom n.toNat digits)) else none := by
  induction digits generalizing n with
  | nil => simp [decimalFrom, n.toNat_lt]
  | cons c digits ih =>
    have hc : c.isDigit := hdigits c (List.mem_cons_self ..)
    have hrest : ∀ d ∈ digits, d.isDigit := fun d hd => hdigits d (List.mem_cons_of_mem c hd)
    have hfrom : decimalFrom n.toNat (c :: digits) =
      decimalFrom (10 * n.toNat + digitValue c) digits := rfl
    rw [List.foldlM_cons, readDigit_eq n hc, hfrom]
    by_cases hnext : 10 * n.toNat + digitValue c < 2 ^ 64
    · rw [if_pos hnext]
      change List.foldlM _ _ digits = _
      rw [ih hrest, UInt64.toNat_ofNat_of_lt' hnext]
    · have hle := le_decimalFrom (10 * n.toNat + digitValue c) digits
      rw [if_neg hnext, if_neg (by omega)]
      rfl

theorem u64FromStr_eq (hdigits : ∀ c ∈ digits, c.isDigit) : u64FromStr digits =
    if decimal digits < 2 ^ 64 then some (UInt64.ofNat (decimal digits)) else none :=
  foldlM_readDigit hdigits 0

/-- Parsing the digits and multiplying by the unit, each with its own check. -/
theorem product_eq {factor : ℕ} (hdigits : ∀ c ∈ digits, c.isDigit) (hpos : 0 < factor)
    (hfactor : factor < 2 ^ 64) :
    ((u64FromStr digits).bind fun value => u64CheckedMul value (UInt64.ofNat factor)) =
      if decimal digits * factor < 2 ^ 64 then
        some (UInt64.ofNat (decimal digits * factor)) else none := by
  rw [u64FromStr_eq hdigits]
  by_cases hvalue : decimal digits < 2 ^ 64
  · rw [if_pos hvalue, Option.bind_some, u64CheckedMul_eq, UInt64.toNat_ofNat_of_lt' hvalue,
      UInt64.toNat_ofNat_of_lt' hfactor]
  · have hle : decimal digits ≤ decimal digits * factor := Nat.le_mul_of_pos_right _ hpos
    rw [if_neg hvalue, if_neg (by omega)]
    rfl

theorem checkedMul_eq {value factor : ℕ} (hpos : 0 < factor) : checkedMul value factor =
    if value * factor < 2 ^ 64 then some (UInt64.ofNat (value * factor)) else none := by
  have hle : value ≤ value * factor := Nat.le_mul_of_pos_right _ hpos
  have hiff : value < 2 ^ 64 ∧ value * factor < 2 ^ 64 ↔ value * factor < 2 ^ 64 := by omega
  exact if_congr hiff rfl rfl

end Arithmetic

/-! ## Every literal -/

section Literal
variable {s : String} {digits space : List Char} {unit : String} {factor : ℕ}

theorem not_isDigit_of_isWhitespace {c : Char} (h : isWhitespace c) : c.isDigit = false := by
  by_contra hdigit
  simp only [Bool.not_eq_false, Char.isDigit, Bool.and_eq_true, decide_eq_true_eq, ge_iff_le,
    UInt32.le_iff_toNat_le] at hdigit
  have hlow : 48 ≤ c.toNat := hdigit.1
  have hhigh : c.toNat ≤ 57 := hdigit.2
  simp only [isWhitespace, Bool.or_eq_true, Bool.and_eq_true, decide_eq_true_eq,
    beq_iff_eq] at h
  omega

theorem factor_bounds (h : (unit, factor) ∈ units) : 0 < factor ∧ factor < 2 ^ 64 := by
  have all : ∀ entry ∈ units, 0 < entry.2 ∧ entry.2 < 2 ^ 64 := by decide
  exact all _ h

/-- The digits are followed by something that is no digit. -/
theorem takeWhile_spelled (hdigits : ∀ c ∈ digits, c.isDigit)
    (hspace : ∀ c ∈ space, isWhitespace c) (hunit : (unit, factor) ∈ units) :
    (digits ++ (space ++ unit.toList)).takeWhile Char.isDigit = digits ∧
    (digits ++ (space ++ unit.toList)).dropWhile Char.isDigit = space ++ unit.toList := by
  have hhead : ∀ c ∈ (space ++ unit.toList).head?, c.isDigit = false := by
    intro c hc
    cases space with
    | nil => exact (units_head hunit c hc).1
    | cons d space =>
      obtain rfl := Option.some.inj hc
      exact not_isDigit_of_isWhitespace (hspace d (List.mem_cons_self ..))
  rw [List.takeWhile_append_of_pos hdigits, List.dropWhile_append_of_pos hdigits]
  generalize space ++ unit.toList = rest at hhead
  cases rest with
  | nil => simp
  | cons d rest => simp [hhead d rfl]

theorem trimStart_spelled (hspace : ∀ c ∈ space, isWhitespace c)
    (hunit : (unit, factor) ∈ units) : trimStart (space ++ unit.toList) = unit.toList := by
  have hhead := units_head hunit
  unfold trimStart
  rw [List.dropWhile_append_of_pos hspace]
  generalize unit.toList = rest at hhead
  cases rest with
  | nil => rfl
  | cons d rest => simp [(hhead d rfl).2]

/-- The step-by-step parser panics nowhere, and its checks are the ones of `parseMillis`. -/
theorem parseMillisBytes_eq (s : String) : parseMillisBytes s = .ok (parseMillis s) := by
  unfold parseMillisBytes parseMillis
  simp only [Utf8.splitAt_find, Bool.not_not]
  have hdigits : ∀ c ∈ (trim s.toList).takeWhile Char.isDigit, c.isDigit :=
    fun c hc => List.mem_takeWhile_imp hc
  generalize (trim s.toList).takeWhile Char.isDigit = digits at hdigits
  generalize (trim s.toList).dropWhile Char.isDigit = rest
  by_cases hempty : digits.isEmpty
  · simp only [hempty, if_true]
  · simp only [hempty]
    cases hunit : unitMillis (trimStart rest) with
    | none => rfl
    | some factor =>
      obtain ⟨hpos, hfactor⟩ := factor_bounds (mem_units_of_unitMillis hunit)
      simp only [product_eq hdigits hpos hfactor, checkedMul_eq hpos]
      by_cases hfits : decimal digits * factor < 2 ^ 64
      · simp only [hfits, if_true]
        rfl
      · simp only [hfits, if_false]
        rfl

theorem parseMillis_of_spells {n : ℕ} (h : Spells s n) :
    parseMillis s = if n < 2 ^ 64 then .ok (UInt64.ofNat n) else .error (outOfRange s) := by
  obtain ⟨digits, space, unit, factor, htrim, hne, hdigits, hspace, hunit, rfl⟩ := h
  obtain ⟨htake, hdrop⟩ := takeWhile_spelled hdigits hspace hunit
  obtain ⟨hpos, -⟩ := factor_bounds hunit
  have hempty : digits.isEmpty = false := by simpa using hne
  unfold parseMillis
  simp only [htrim, htake, hdrop, hempty, trimStart_spelled hspace hunit,
    unitMillis_of_mem_units hunit, checkedMul_eq hpos]
  by_cases hfits : decimal digits * factor < 2 ^ 64
  · simp only [hfits, if_true]
    rfl
  · simp only [hfits, if_false]
    rfl

theorem spells_of_unit (hne : (trim s.toList).takeWhile Char.isDigit ≠ [])
    (hunit : unitMillis (trimStart ((trim s.toList).dropWhile Char.isDigit)) = some factor) :
    Spells s (decimal ((trim s.toList).takeWhile Char.isDigit) * factor) := by
  refine ⟨_, ((trim s.toList).dropWhile Char.isDigit).takeWhile isWhitespace,
    String.ofList (trimStart ((trim s.toList).dropWhile Char.isDigit)), factor, ?_, hne,
    fun c hc => List.mem_takeWhile_imp hc, fun c hc => List.mem_takeWhile_imp hc,
    mem_units_of_unitMillis hunit, rfl⟩
  rw [String.toList_ofList, trimStart, List.takeWhile_append_dropWhile,
    List.takeWhile_append_dropWhile]

theorem parseMillis_of_not_spells (h : ∀ n, ¬Spells s n) : parseMillis s = .error (invalid s) := by
  unfold parseMillis
  by_cases hempty : ((trim s.toList).takeWhile Char.isDigit).isEmpty
  · simp only [hempty, if_true]
  · simp only [hempty]
    cases hunit : unitMillis (trimStart ((trim s.toList).dropWhile Char.isDigit)) with
    | none => rfl
    | some factor =>
      have hne : (trim s.toList).takeWhile Char.isDigit ≠ [] := by simpa using hempty
      exact absurd (spells_of_unit hne hunit) (h _)

theorem parseMillis_ok_iff {millis : UInt64} :
    parseMillis s = .ok millis ↔ Spells s millis.toNat := by
  constructor
  · intro h
    by_cases hs : ∃ n, Spells s n
    · obtain ⟨n, hn⟩ := hs
      have hparse := (parseMillis_of_spells hn).symm.trans h
      split at hparse
      · rename_i hfits
        obtain rfl := Except.ok.inj hparse
        rwa [UInt64.toNat_ofNat_of_lt' hfits]
      · cases hparse
    · have hparse := (parseMillis_of_not_spells fun n hn => hs ⟨n, hn⟩).symm.trans h
      cases hparse
  · intro h
    rw [parseMillis_of_spells h, if_pos millis.toNat_lt, UInt64.ofNat_toNat]

/-- A duration that is asked for under a key is not zero. -/
theorem parseLit_ok_iff {key : String} {millis : UInt64} :
    parseLit s key = .ok millis ↔ parseMillis s = .ok millis ∧ 0 < millis := by
  unfold parseLit
  cases h : parseMillis s with
  | error e => simp
  | ok n =>
    simp only [Except.ok.injEq]
    split
    · rename_i hzero
      simp only [reduceCtorEq, false_iff, not_and]
      rintro rfl
      simp [hzero]
    · rename_i hne
      simp only [Except.ok.injEq, iff_self_and]
      rintro rfl
      exact UInt64.pos_iff_ne_zero.mpr hne

example : parseMillisBytes "3é" = .ok (.error (invalid "3é")) := by decide

/-- The parser panics on no text. A text of the grammar is read as exactly the product it
spells, or refused when that leaves 64 bits; any other text is refused. -/
theorem duration_literal (s : String) : ∃ read, parseMillisBytes s = .ok read ∧
    (∀ millis : UInt64, read = .ok millis ↔ Spells s millis.toNat) ∧
    (∀ n, Spells s n → 2 ^ 64 ≤ n → read = .error (outOfRange s)) ∧
    ((∀ n, ¬Spells s n) → read = .error (invalid s)) := by
  refine ⟨parseMillis s, parseMillisBytes_eq s, fun millis => parseMillis_ok_iff, ?_,
    parseMillis_of_not_spells⟩
  intro n hn hwide
  rw [parseMillis_of_spells hn, if_neg (by omega)]

end Literal

end Queuey.Macros
