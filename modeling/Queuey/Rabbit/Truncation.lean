import Mathlib.Data.Nat.Find
import Queuey.Rabbit.Codec

/-!
# Cutting user strings

The conversion to an AMQP short string panics past 255 bytes, and a slice panics that ends
inside a character. Both are here with their panics. Neither happens: the backwards scan ends
at the last character boundary that fits.
-/
namespace Queuey.Rabbit.Codec
open Rabbit.Topology

/-! ## The source with its panics, where `none` is a panic -/

/-- `&value[..stop]`, a panic inside a character. -/
def sliceTo (value : String) (stop : ℕ) : Option String :=
  (Utf8.splitAt value.toList stop).map fun parts => String.ofList parts.1

def truncateAtBoundary? (value : String) (max : ℕ) : Option String :=
  if value.utf8ByteSize ≤ max then some value
  else sliceTo value (stepBack value.toList max)

/-- `ShortString::from`, a panic past the limit. -/
def fromText? (value : String) : Option ShortString :=
  if h : value.utf8ByteSize ≤ maxShortStringLength then some ⟨value, h⟩ else none

def clamped? (value : String) : Option ShortString := do
  let kept ← truncateAtBoundary? value maxShortStringLength
  fromText? kept

variable {V : Type}

def baseHeaders? (e : Envelope V) : Option FieldTable := do
  let attempt ← fromText? headerAttempt
  let deferrals ← fromText? headerDeferrals
  return [(attempt.value, .longUInt e.attempt), (deferrals.value, .longUInt e.deferrals)]

def propsFor? (e : Envelope V) : Option BasicProperties := do
  let contentType ← fromText? "application/json"
  let messageId ← clamped? e.jobId.display
  let kind ← clamped? e.jobType
  let headers ← baseHeaders? e
  return { BasicProperties.empty with
    contentType := some contentType
    deliveryMode := some deliveryModePersistent
    messageId := some messageId
    kind := some kind
    priority := some e.priority
    headers := some headers }

/-! ## The scan -/

variable {cs : List Char} {m n : ℕ}

theorem isCharBoundary_eq (cs : List Char) (n : ℕ) :
    isCharBoundary cs n = (Utf8.splitAt cs n).isSome := by
  induction cs generalizing n with
  | nil => cases n <;> rfl
  | cons c cs ih =>
    cases n with
    | zero => rfl
    | succ n =>
      unfold isCharBoundary Utf8.splitAt
      rw [ih]
      split_ifs with hc <;> simp [hc]

theorem isCharBoundary_iff : isCharBoundary cs n = true ↔ Utf8.Boundary cs n := by
  rw [isCharBoundary_eq, Utf8.splitAt_isSome_iff]

theorem stepBack_eq (cs : List Char) (n : ℕ) :
    stepBack cs n = Nat.findGreatest (fun i => isCharBoundary cs i = true) n := by
  induction n with
  | zero => rfl
  | succ n ih => rw [stepBack, Nat.findGreatest_succ, ih]

/-- The scan ends at the latest at the start of the text. -/
theorem stepBack_boundary (cs : List Char) (n : ℕ) : Utf8.Boundary cs (stepBack cs n) := by
  have hstart : isCharBoundary cs 0 = true := isCharBoundary_iff.mpr ⟨[], cs, rfl, rfl⟩
  rw [← isCharBoundary_iff, stepBack_eq]
  exact Nat.findGreatest_spec (P := fun i => isCharBoundary cs i = true) (Nat.zero_le n) hstart

/-- It goes past no boundary. -/
theorem le_stepBack (hmn : m ≤ n) (h : Utf8.Boundary cs m) : m ≤ stepBack cs n := by
  rw [stepBack_eq]
  apply Nat.le_findGreatest hmn
  exact isCharBoundary_iff.mpr h

theorem takeBytes_size (a b : List Char) : takeBytes (a ++ b) (Utf8.size a) = a := by
  induction a with
  | nil => cases b <;> rfl
  | cons c a ih =>
    have hpos := c.utf8Size_pos
    obtain ⟨n, hn⟩ : ∃ n, c.utf8Size + Utf8.size a = n + 1 :=
      ⟨c.utf8Size + Utf8.size a - 1, by omega⟩
    have hrest : n + 1 - c.utf8Size = Utf8.size a := by omega
    rw [Utf8.size_cons, hn, List.cons_append, takeBytes, if_pos (by omega), hrest, ih]

/-! ## What is kept -/

variable {value kept : String} {max : ℕ}

/-- A text that does not fit is cut where the scan ends. -/
theorem truncateAtBoundary_cut (hlong : ¬value.utf8ByteSize ≤ max) :
    ∃ a b, value.toList = a ++ b ∧ Utf8.size a = stepBack value.toList max ∧
      truncateAtBoundary value max = String.ofList a ∧
      truncateAtBoundary? value max = some (String.ofList a) := by
  obtain ⟨a, b, hvalue, hsize⟩ := stepBack_boundary value.toList max
  refine ⟨a, b, hvalue, hsize, ?_, ?_⟩
  · rw [truncateAtBoundary, if_neg hlong, ← hsize, hvalue, takeBytes_size]
  · rw [truncateAtBoundary?, if_neg hlong, sliceTo, ← hsize, hvalue, Utf8.splitAt_size]
    rfl

theorem truncateAtBoundary?_eq (value : String) (max : ℕ) :
    truncateAtBoundary? value max = some (truncateAtBoundary value max) := by
  by_cases hfits : value.utf8ByteSize ≤ max
  · rw [truncateAtBoundary?, truncateAtBoundary, if_pos hfits, if_pos hfits]
  · obtain ⟨a, b, -, -, hkept, hcut⟩ := truncateAtBoundary_cut hfits
    rw [hkept, hcut]

theorem truncateAtBoundary_longest (value : String) (max : ℕ) :
    Utf8.LongestPrefix value max (truncateAtBoundary value max) := by
  by_cases hfits : value.utf8ByteSize ≤ max
  · rw [truncateAtBoundary, if_pos hfits]
    exact .self hfits
  · obtain ⟨a, b, hvalue, hsize, hkept, -⟩ := truncateAtBoundary_cut hfits
    constructor
    · refine ⟨String.ofList b, String.toList_inj.mp ?_⟩
      simp [hkept, hvalue]
    · exact truncateAtBoundary_short value max
    · intro q rest hq hmax
      rw [hkept, Utf8.utf8ByteSize_ofList, hsize]
      apply le_stepBack hmax
      exact ⟨q.toList, rest.toList, by simp [hq], Utf8.size_toList q⟩

/-- The source's function returns, for every text and every bound, the longest prefix that fits. -/
theorem truncateAtBoundary?_iff :
    truncateAtBoundary? value max = some kept ↔ Utf8.LongestPrefix value max kept := by
  rw [truncateAtBoundary?_eq, Option.some.injEq]
  constructor
  · rintro rfl
    exact truncateAtBoundary_longest value max
  · exact (truncateAtBoundary_longest value max).unique

example : truncateAtBoundary? "é" 1 = some "" := by decide

theorem truncateAtBoundary_of_fits (h : value.utf8ByteSize ≤ max) :
    truncateAtBoundary value max = value := if_pos h

/-! ## Properties -/

theorem fromText?_eq (key : ShortString) : fromText? key.value = some key := dif_pos key.short

theorem clamped_value (value : String) :
    (clamped value).value = truncateAtBoundary value maxShortStringLength := rfl

theorem clamped?_eq (value : String) : clamped? value = some (clamped value) := by
  rw [clamped?, truncateAtBoundary?_eq]
  exact fromText?_eq (clamped value)

theorem hexDigit_size {d : ℕ} (h : d < 16) : (hexDigit d).utf8Size = 1 := by
  have all : ∀ d < 16, (hexDigit d).utf8Size = 1 := by decide
  exact all d h

/-- 32 digits and 4 hyphens. -/
theorem display_size (id : Uuid) : id.display.utf8ByteSize = 36 := by
  have part (start size : ℕ) (h : start + size ≤ 32) :
      (String.ofList ((((List.range 32).map fun i =>
        hexDigit (id.toNat / 16 ^ (31 - i) % 16)).drop start).take size)).utf8ByteSize = size := by
    have one : ∀ c ∈ (((List.range 32).map fun i =>
        hexDigit (id.toNat / 16 ^ (31 - i) % 16)).drop start).take size, c.utf8Size = 1 := by
      intro c hc
      obtain ⟨i, -, rfl⟩ := List.mem_map.mp (List.mem_of_mem_drop (List.mem_of_mem_take hc))
      exact hexDigit_size (Nat.mod_lt _ (by decide))
    rw [Utf8.utf8ByteSize_ofList, Utf8.size_eq_length one, List.length_take, List.length_drop,
      List.length_map, List.length_range]
    omega
  simp only [Uuid.display, String.utf8ByteSize_append]
  rw [part 0 8 (by decide), part 8 4 (by decide), part 12 4 (by decide), part 16 4 (by decide),
    part 20 12 (by decide)]
  decide

/-- A job id is never cut. -/
theorem clamped_display (id : Uuid) : (clamped id.display).value = id.display := by
  rw [clamped_value]
  apply truncateAtBoundary_of_fits
  rw [display_size]
  decide

theorem baseHeaders?_eq (e : Envelope V) : baseHeaders? e = some (baseHeaders e) := rfl

/-- Building the properties never panics. -/
theorem propsFor?_eq (e : Envelope V) : propsFor? e = some (propsFor e) := by
  unfold propsFor?
  rw [clamped?_eq, clamped?_eq, baseHeaders?_eq]
  rfl

/-- The short strings among the properties, and the names of the headers. -/
def BasicProperties.shortStrings (props : BasicProperties) : List String :=
  ([props.contentType, props.messageId, props.kind, props.expiration].reduceOption.map
    ShortString.value) ++ (props.headers.getD []).map Prod.fst

theorem propsFor_short (e : Envelope V) :
    ∀ text ∈ (propsFor e).shortStrings, text.utf8ByteSize ≤ maxShortStringLength := by
  intro text htext
  obtain hkey | hheader := List.mem_append.mp htext
  · obtain ⟨key, -, rfl⟩ := List.mem_map.mp hkey
    exact key.short
  · have hnames : text = headerAttempt ∨ text = headerDeferrals := by
      simpa [propsFor, baseHeaders] using hheader
    obtain rfl | rfl := hnames <;> decide

end Queuey.Rabbit.Codec
