import Mathlib.Data.List.Infix
import Queuey.Macros.Duration

/-!
# Default queue names

`snake_case` turns a variant's identifier into its default queue name. The case tables are
those of the compiler's Unicode version; on ASCII they are known.
-/
namespace Queuey.Macros

def isAscii (c : Char) : Bool := c.toNat < 128

/-- `char::is_uppercase`, `char::is_lowercase` and `char::to_lowercase`. -/
structure CaseTable where
  isUppercase : Char → Bool
  isLowercase : Char → Bool
  toLowercase : Char → List Char
  isUppercase_ascii : ∀ c, isAscii c → isUppercase c = c.isUpper
  isLowercase_ascii : ∀ c, isAscii c → isLowercase c = c.isLower
  toLowercase_ascii : ∀ c, isAscii c → toLowercase c = [c.toLower]
  toLowercase_visible : ∀ c, isWhitespace c = false →
    ∀ d ∈ toLowercase c, isWhitespace d = false

/-- A fact about the ASCII characters is checked on each of them. -/
theorem ascii_forall {P : Char → Prop} (h : ∀ n < 128, P (Char.ofNat n)) {c : Char}
    (hc : isAscii c) : P c := by
  have hlt : c.toNat < 128 := by simpa [isAscii] using hc
  have hP := h c.toNat hlt
  rwa [Char.ofNat_toNat] at hP

theorem isUpper_iff {c : Char} : c.isUpper = true ↔ 'A'.val ≤ c.val ∧ c.val ≤ 'Z'.val :=
  decide_eq_true_iff

theorem isLower_iff {c : Char} : c.isLower = true ↔ 'a'.val ≤ c.val ∧ c.val ≤ 'z'.val :=
  Bool.and_eq_true_iff.trans (and_congr decide_eq_true_iff decide_eq_true_iff)

theorem isAscii_of_isUpper {c : Char} (h : c.isUpper) : isAscii c := by
  have hhigh : c.toNat ≤ 90 := (isUpper_iff.mp h).2
  simp only [isAscii, decide_eq_true_eq]
  omega

theorem isWhitespace_toLower {c : Char} (h : isWhitespace c = false) :
    isWhitespace c.toLower = false := by
  by_cases hupper : c.isUpper
  · exact ascii_forall (P := fun c => c.isUpper → isWhitespace c.toLower = false) (by decide)
      (isAscii_of_isUpper hupper) hupper
  · have hsame : c.toLower = c := by
      rw [isUpper_iff] at hupper
      exact dif_neg hupper
    rwa [hsame]

/-- The tables of a compiler that knows no letters but the ASCII ones. -/
def asciiTable : CaseTable where
  isUppercase := Char.isUpper
  isLowercase := Char.isLower
  toLowercase c := [c.toLower]
  isUppercase_ascii _ _ := rfl
  isLowercase_ascii _ _ := rfl
  toLowercase_ascii _ _ := rfl
  toLowercase_visible c hc d hd := by
    obtain rfl := List.mem_singleton.mp hd
    exact isWhitespace_toLower hc

/-- Whether a word starts at a capital, by the characters around it. -/
def wordStarts (t : CaseTable) (previous next : Option Char) : Bool :=
  match previous with
  | none => false
  | some p =>
    if p = '_' then false
    else if t.isLowercase p || p.isDigit then true
    -- `HTTPCalls`: split before the last capital of a run.
    else next.any t.isLowercase

def endsWithUnderscore (out : List Char) : Bool := out.getLast? = some '_'

/-- One round of the loop: what has been output after the character `c`. -/
def snakeStep (t : CaseTable) (previous next : Option Char) (out : List Char) (c : Char) :
    List Char :=
  if c = '_' then
    if !endsWithUnderscore out && !out.isEmpty then out ++ ['_'] else out
  else
    let boundary := t.isUppercase c && wordStarts t previous next
    (if boundary && !endsWithUnderscore out then out ++ ['_'] else out) ++ t.toLowercase c

def snakeLoop (t : CaseTable) (previous : Option Char) (out : List Char) :
    List Char → List Char
  | [] => out
  | c :: rest => snakeLoop t (some c) (snakeStep t previous rest.head? out c) rest

def snakeCase (t : CaseTable) (ident : String) : String :=
  String.ofList (snakeLoop t none [] ident.toList)

example : snakeCase asciiTable "XMLHTTPRequest" = "xmlhttp_request" := by decide

/-! ## The normal form -/

/-- What an ASCII identifier is made of. -/
def identChar (c : Char) : Bool := c.isUpper || c.isLower || c.isDigit || c = '_'

def letters (cs : List Char) : List Char := cs.filter (· ≠ '_')

def lowered (cs : List Char) : List Char := (letters cs).map Char.toLower

/-- Lowercase letters, digits and single underscores, none of them in front. -/
structure Clean (out : List Char) : Prop where
  chars : ∀ c ∈ out, c.isLower ∨ c.isDigit ∨ c = '_'
  head : out.head? ≠ some '_'
  single : ¬['_', '_'] <:+: out

/-- An underscore stands before the capital between `before` and `rest`. -/
def Separated (out before : List Char) (capital : Char) (rest : List Char) : Prop :=
  ∃ front back, out = front ++ '_' :: capital.toLower :: back ∧
    letters front = lowered before ∧ letters back = lowered rest

/-- `out` is `ident` in lower case, with its words set apart. -/
structure SnakeForm (ident out : List Char) : Prop where
  clean : Clean out
  empty : out = [] ↔ ∀ c ∈ ident, c = '_'
  same : letters out = lowered ident
  afterSmall : ∀ before p c rest, ident = before ++ p :: c :: rest →
    p.isLower ∨ p.isDigit → c.isUpper → Separated out (before ++ [p]) c rest
  lastCapital : ∀ before p c n rest, ident = before ++ p :: c :: n :: rest →
    p.isUpper → c.isUpper → n.isLower → Separated out (before ++ [p]) c (n :: rest)

section Characters
variable {c : Char}

theorem isAscii_of_identChar (h : identChar c) : isAscii c := by
  simp only [identChar, isUpper_iff, isLower_iff, Char.isDigit, Bool.or_eq_true,
    Bool.and_eq_true, decide_eq_true_eq, ge_iff_le, UInt32.le_iff_toNat_le] at h
  simp only [isAscii, decide_eq_true_eq]
  rcases h with ((h | h) | h) | rfl
  · have hhigh : c.toNat ≤ 90 := h.2
    omega
  · have hhigh : c.toNat ≤ 122 := h.2
    omega
  · have hhigh : c.toNat ≤ 57 := h.2
    omega
  · decide

theorem toLower_small (h : identChar c) (hne : c ≠ '_') :
    c.toLower.isLower ∨ c.toLower.isDigit := by
  have all : ∀ n < 128, identChar (Char.ofNat n) → Char.ofNat n ≠ '_' →
      (Char.ofNat n).toLower.isLower ∨ (Char.ofNat n).toLower.isDigit := by decide
  exact ascii_forall (P := fun c => identChar c → c ≠ '_' → c.toLower.isLower ∨ c.toLower.isDigit)
    all (isAscii_of_identChar h) h hne

theorem ne_underscore_of_small (h : c.isLower ∨ c.isDigit) : c ≠ '_' := by
  rintro rfl
  simp at h

theorem toLower_of_small (h : c.isLower ∨ c.isDigit) : c.toLower = c ∧ c.isUpper = false := by
  have hident : identChar c := by
    rcases h with h | h <;> simp [identChar, h]
  exact ascii_forall (P := fun c => c.isLower ∨ c.isDigit → c.toLower = c ∧ c.isUpper = false)
    (by decide) (isAscii_of_identChar hident) h

end Characters

section Output
variable {out : List Char} {c : Char}

@[simp] theorem letters_append (a b : List Char) : letters (a ++ b) = letters a ++ letters b :=
  List.filter_append ..

@[simp] theorem lowered_append (a b : List Char) : lowered (a ++ b) = lowered a ++ lowered b := by
  simp [lowered]

theorem lowered_letter (hne : c ≠ '_') : lowered [c] = [c.toLower] := by
  simp [lowered, letters, hne]

theorem not_single_concat (h : ¬['_', '_'] <:+: out)
    (hlast : endsWithUnderscore out = false ∨ c ≠ '_') : ¬['_', '_'] <:+: out ++ [c] := by
  intro hinfix
  rcases List.infix_concat_iff.mp hinfix with hsuffix | hinfix
  · obtain ⟨front, hfront⟩ := hsuffix
    have hsplit : (front ++ ['_']) ++ ['_'] = out ++ [c] := by simpa using hfront
    obtain ⟨rfl, hc⟩ := List.append_inj' hsplit rfl
    obtain rfl := List.singleton_inj.mp hc
    simp [endsWithUnderscore] at hlast
  · exact h hinfix

theorem Clean.push_letter (h : Clean out) (hc : c.isLower ∨ c.isDigit) : Clean (out ++ [c]) where
  chars d hd := by
    rcases List.mem_append.mp hd with hd | hd
    · exact h.chars d hd
    · obtain rfl := List.mem_singleton.mp hd
      exact hc.imp_right .inl
  head := by
    cases out with
    | nil => simpa using ne_underscore_of_small hc
    | cons d out => exact h.head
  single := not_single_concat h.single (.inr (ne_underscore_of_small hc))

theorem Clean.push_underscore (h : Clean out) (hne : out ≠ [])
    (hlast : endsWithUnderscore out = false) : Clean (out ++ ['_']) where
  chars d hd := by
    rcases List.mem_append.mp hd with hd | hd
    · exact h.chars d hd
    · exact .inr (.inr (List.mem_singleton.mp hd))
  head := by
    cases out with
    | nil => exact absurd rfl hne
    | cons d out => exact h.head
  single := not_single_concat h.single (.inl hlast)

theorem clean_nil : Clean [] := ⟨by simp, by simp, by simp⟩

end Output

/-! ## One round and the whole loop -/

/-- Once a letter has been read, something has been output. -/
structure Running (previous : Option Char) (out : List Char) : Prop where
  clean : Clean out
  started : ∀ p ∈ previous, p ≠ '_' → out ≠ []

section Loop
variable {t : CaseTable} {previous next : Option Char} {out : List Char} {c p : Char}

theorem snakeStep_letter (hc : identChar c) (hne : c ≠ '_') :
    snakeStep t previous next out c =
      (if c.isUpper && wordStarts t previous next && !endsWithUnderscore out then out ++ ['_']
        else out) ++ [c.toLower] := by
  have hascii := isAscii_of_identChar hc
  simp only [snakeStep, hne, if_false, t.isUppercase_ascii c hascii,
    t.toLowercase_ascii c hascii]

theorem previous_of_wordStarts (h : wordStarts t previous next) :
    ∃ p ∈ previous, p ≠ '_' := by
  unfold wordStarts at h
  split at h
  · cases h
  · split at h
    · cases h
    · exact ⟨_, rfl, ‹_›⟩

/-- A round appends to the output, and what it appends has the letters of its character. -/
theorem Running.step (h : Running previous out) (t : CaseTable) (next : Option Char)
    (hc : identChar c) :
    ∃ part, snakeStep t previous next out c = out ++ part ∧ Running (some c) (out ++ part) ∧
      letters part = lowered [c] := by
  by_cases hne : c = '_'
  · subst hne
    have hfree : ∀ q ∈ some '_', q ≠ '_' → ∀ part : List Char, out ++ part ≠ [] := by
      intro q hq hne
      exact absurd (Option.some.inj hq).symm hne
    by_cases hpush : !endsWithUnderscore out && !out.isEmpty
    · have hparts : endsWithUnderscore out = false ∧ out ≠ [] := by simpa using hpush
      refine ⟨['_'], by simp [snakeStep, hpush], ⟨?_, fun q hq hne => hfree q hq hne _⟩, rfl⟩
      exact h.clean.push_underscore hparts.2 hparts.1
    · refine ⟨[], by simp [snakeStep, hpush], ⟨?_, fun q hq hne => hfree q hq hne _⟩, rfl⟩
      rw [List.append_nil]
      exact h.clean
  · have hsmall := toLower_small hc hne
    have hlast : c.toLower ≠ '_' := ne_underscore_of_small hsmall
    rw [snakeStep_letter hc hne, lowered_letter hne]
    by_cases hpush : c.isUpper && wordStarts t previous next && !endsWithUnderscore out
    · simp only [Bool.and_eq_true, Bool.not_eq_true'] at hpush
      obtain ⟨p, hp, hpne⟩ := previous_of_wordStarts hpush.1.2
      have hclean := h.clean.push_underscore (h.started p hp hpne) hpush.2
      refine ⟨['_', c.toLower], by simp [hpush], ⟨?_, by simp⟩, by simp [letters, hlast]⟩
      simpa using hclean.push_letter hsmall
    · refine ⟨[c.toLower], by simp [hpush], ⟨?_, by simp⟩, by simp [letters, hlast]⟩
      exact h.clean.push_letter hsmall

theorem Running.loop {before : List Char} (h : Running previous out) (t : CaseTable)
    (rest : List Char) (hbefore : ∀ c ∈ before, identChar c) :
    ∃ part last, snakeLoop t previous out (before ++ rest) = snakeLoop t last (out ++ part) rest ∧
      Running last (out ++ part) ∧ letters part = lowered before := by
  induction before generalizing previous out with
  | nil => exact ⟨[], previous, by simp, by simpa using h, rfl⟩
  | cons c before ih =>
    have hc := hbefore c (List.mem_cons_self ..)
    obtain ⟨part, hstep, hrun, hpart⟩ := h.step t (before ++ rest).head? hc
    obtain ⟨more, last, hloop, hlast, hmore⟩ :=
      ih hrun fun d hd => hbefore d (List.mem_cons_of_mem c hd)
    refine ⟨part ++ more, last, ?_, ?_, ?_⟩
    · rw [List.cons_append, snakeLoop, hstep, hloop, List.append_assoc]
    · rwa [← List.append_assoc]
    · rw [letters_append, hpart, hmore, ← lowered_append, List.singleton_append]

theorem running_nil : Running none [] := ⟨clean_nil, by simp⟩

/-- A letter is what the output ends with once it has been read. -/
theorem endsWithUnderscore_step {after : List Char} (hc : identChar c) (hne : c ≠ '_')
    (h : snakeStep t previous next out c = after) : endsWithUnderscore after = false := by
  have hlast : c.toLower ≠ '_' := ne_underscore_of_small (toLower_small hc hne)
  rw [← h, snakeStep_letter hc hne]
  simp [endsWithUnderscore, hlast]

/-- A capital that starts a word is set apart from the letter before it. -/
theorem separated_of_wordStarts {before rest : List Char} (hp : identChar p) (hpne : p ≠ '_')
    (hc : c.isUpper) (hstart : wordStarts t (some p) rest.head?)
    (hident : ∀ d ∈ before ++ p :: c :: rest, identChar d) :
    Separated (snakeLoop t none [] (before ++ p :: c :: rest)) (before ++ [p]) c rest := by
  have hcident : identChar c := by simp [identChar, hc]
  have hcne : c ≠ '_' := by
    rintro rfl
    cases hc
  have hbefore : ∀ d ∈ before, identChar d := fun d hd => hident d (List.mem_append_left _ hd)
  have hrest : ∀ d ∈ rest, identChar d := fun d hd => hident d (by simp [hd])
  obtain ⟨part, last, hloop, hrun, hpart⟩ := running_nil.loop t (p :: c :: rest) hbefore
  rw [List.nil_append] at hloop hrun
  obtain ⟨chunk, hstep, hrun, hchunk⟩ := hrun.step t (some c) hp
  have hends := endsWithUnderscore_step hp hpne hstep
  have hsplit : snakeStep t (some p) rest.head? (part ++ chunk) c =
      part ++ chunk ++ ['_', c.toLower] := by
    simp only [snakeStep_letter hcident hcne, hc, hstart, hends]
    simp
  obtain ⟨_, hsame, hrun, -⟩ := hrun.step t rest.head? hcident
  rw [← hsame, hsplit] at hrun
  obtain ⟨back, _, hback, -, hletters⟩ := hrun.loop t [] hrest
  refine ⟨part ++ chunk, back, ?_, ?_, hletters⟩
  · rw [List.append_nil] at hback
    rw [hloop, snakeLoop, List.head?_cons, hstep, snakeLoop, hsplit, hback, snakeLoop]
    simp
  · rw [letters_append, hpart, hchunk, ← lowered_append]

theorem eq_nil_iff_of_letters {ident : List Char} (h : Clean out)
    (hsame : letters out = lowered ident) : out = [] ↔ ∀ c ∈ ident, c = '_' := by
  have hident : lowered ident = [] ↔ ∀ c ∈ ident, c = '_' := by
    simp [lowered, letters, List.filter_eq_nil_iff]
  rw [← hident, ← hsame]
  constructor
  · rintro rfl
    rfl
  · intro hnone
    have hall : ∀ c ∈ out, c = '_' := by
      simpa [letters, List.filter_eq_nil_iff] using hnone
    cases out with
    | nil => rfl
    | cons c out =>
      obtain rfl := hall c (List.mem_cons_self ..)
      exact absurd rfl h.head

/-- An output in normal form is left as it is. -/
theorem snakeLoop_clean (t : CaseTable) (previous : Option Char) {rest : List Char}
    (h : Clean (out ++ rest)) : snakeLoop t previous out rest = out ++ rest := by
  induction rest generalizing previous out with
  | nil => simp [snakeLoop]
  | cons c rest ih =>
    have hround : snakeStep t previous rest.head? out c = out ++ [c] := by
      by_cases hne : c = '_'
      · subst hne
        have hout : out ≠ [] := by
          rintro rfl
          exact h.head rfl
        have hends : endsWithUnderscore out = false := by
          by_contra hends
          have hlast : out.getLast? = some '_' := by simpa [endsWithUnderscore] using hends
          obtain ⟨front, rfl⟩ := List.getLast?_eq_some_iff.mp hlast
          exact h.single ⟨front, rest, by simp⟩
        simp [snakeStep, hends, hout]
      · have hsmall : c.isLower ∨ c.isDigit := by
          rcases h.chars c (by simp) with hlower | hdigit | rfl
          · exact .inl hlower
          · exact .inr hdigit
          · exact absurd rfl hne
        have hident : identChar c := by
          rcases hsmall with hlower | hdigit <;> simp [identChar, *]
        obtain ⟨hlower, hupper⟩ := toLower_of_small hsmall
        simp [snakeStep_letter hident hne, hlower, hupper]
    have hnext : Clean (out ++ [c] ++ rest) := by simpa using h
    rw [snakeLoop, hround, ih _ hnext, List.append_assoc, List.singleton_append]

end Loop

/-- The default name of an ASCII identifier is its words in lower case, separated by single
underscores, and converting it once more changes nothing. -/
theorem snakeCase_normalForm (t : CaseTable) (ident : String)
    (hident : ∀ c ∈ ident.toList, identChar c) :
    SnakeForm ident.toList (snakeCase t ident).toList ∧
      snakeCase t (snakeCase t ident) = snakeCase t ident := by
  obtain ⟨out, last, hloop, hrun, hsame⟩ := running_nil.loop t [] hident
  have hout : (snakeCase t ident).toList = out := by
    rw [snakeCase, String.toList_ofList, ← List.append_nil ident.toList, hloop]
    rfl
  have hclean : Clean out := hrun.clean
  constructor
  · rw [hout]
    refine ⟨hclean, eq_nil_iff_of_letters hclean hsame, hsame, ?_, ?_⟩
    · intro before p c rest hsplit hp hc
      rw [← hout, snakeCase, String.toList_ofList]
      rw [hsplit] at hident ⊢
      have hpident : identChar p := hident p (by simp)
      apply separated_of_wordStarts hpident (ne_underscore_of_small hp) hc _ hident
      have hascii := isAscii_of_identChar hpident
      rcases hp with hp | hp
      · simp [wordStarts, ne_underscore_of_small (.inl hp), t.isLowercase_ascii p hascii, hp]
      · simp [wordStarts, ne_underscore_of_small (.inr hp), hp]
    · intro before p c n rest hsplit hp hc hn
      rw [← hout, snakeCase, String.toList_ofList]
      rw [hsplit] at hident ⊢
      have hpident : identChar p := hident p (by simp)
      have hpne : p ≠ '_' := by
        rintro rfl
        cases hp
      apply separated_of_wordStarts hpident hpne hc _ hident
      have hascii := isAscii_of_identChar (hident n (by simp))
      simp [wordStarts, hpne, t.isLowercase_ascii n hascii, hn]
  · have hagain : snakeLoop t none [] out = out := snakeLoop_clean t none hclean
    rw [snakeCase, hout, hagain, ← hout, String.ofList_toList]

theorem snakeCase_normalForm_capitals :
    SnakeForm "__HTTPCalls2Go_".toList (snakeCase asciiTable "__HTTPCalls2Go_").toList ∧
      snakeCase asciiTable (snakeCase asciiTable "__HTTPCalls2Go_") =
        snakeCase asciiTable "__HTTPCalls2Go_" :=
  snakeCase_normalForm asciiTable "__HTTPCalls2Go_" (List.all_eq_true.mp (by decide))

end Queuey.Macros
