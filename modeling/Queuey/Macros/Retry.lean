import Queuey.Core.Retry
import Queuey.Core.Envelope
import Queuey.Macros.Duration

/-!
# The `retry(...)` list of the derives

The keys are read one after the other into `RetryRaw`, each at most once, and `finish`
resolves the defaults and rejects what does not belong to the chosen backoff. Errors are
their messages; where in the source they point is left out.
-/
namespace Queuey.Macros

/-- A literal token; a number comes with the double its digits are read as. -/
inductive Lit where
  | str (value : String)
  | int (magnitude : ℕ) (asF64 : F64)
  | float (asF64 : F64)
  | bool (value : Bool)
  | other
deriving DecidableEq

/-- What follows a key: a literal, one behind a minus sign, another expression, or tokens
that are no value at all, which the token parser refuses in its own words. -/
inductive Value where
  | lit (lit : Lit)
  | negated (lit : Lit)
  | expr
  | malformed (error : String)
deriving DecidableEq

/-- `parse::<Lit>()`, which takes a minus sign only before a number. -/
def Value.literal : Value → Except String (Bool × Lit)
  | lit l => .ok (false, l)
  | negated (.int n x) => .ok (true, .int n x)
  | negated (.float x) => .ok (true, .float x)
  | negated _ => .error "expected literal"
  | expr => .error "expected literal"
  | malformed error => .error error

def litStr (key : String) (value : Value) : Except String String := do
  match ← value.literal with
  | (_, .str s) => .ok s
  | _ => .error ("`" ++ key ++ "` must be a string literal")

def litBool (key : String) (value : Value) : Except String Bool := do
  match ← value.literal with
  | (_, .bool b) => .ok b
  | _ => .error ("`" ++ key ++ "` must be `true` or `false`")

/-- An unsigned integer of at most `max`; `range` describes what is accepted. -/
def litInt (key range : String) (max : ℕ) (value : Value) : Except String ℕ := do
  match ← value.literal with
  | (false, .int n _) =>
    if n ≤ max then .ok n else .error ("`" ++ key ++ "` must be an integer " ++ range)
  | _ => .error ("`" ++ key ++ "` must be an integer " ++ range)

def floatError (key : String) : String := "`" ++ key ++ "` must be a floating point literal"

def negate : F64 → F64
  | .nan => .nan
  | .infinity => .negInfinity
  | .negInfinity => .infinity
  | .finite q => .finite (-q)

def litF64 (key : String) : Value → Except String F64
  | .lit (.float x) | .lit (.int _ x) => .ok x
  | .negated (.float x) | .negated (.int _ x) => .ok (negate x)
  | .malformed error => .error error
  | _ => .error (floatError key)

def defaultMaxAttempts : UInt32 := 3
def defaultExpBaseMs : UInt64 := 1000
def defaultExpFactor : F64 := .finite 2
def defaultExpMaxMs : UInt64 := 300000
def defaultExpJitter : Bool := true

def maxAttemptsRange : String := "between 1 and 4294967295"

/-- Fully resolved backoff, with all defaults applied. -/
inductive BackoffSpec where
  | none
  | fixed (delayMs : UInt64)
  | exponential (baseMs : UInt64) (factor : F64) (maxMs : UInt64) (jitter : Bool)
deriving DecidableEq

structure RetrySpec where
  maxAttempts : UInt32
  backoff : BackoffSpec
deriving DecidableEq

/-- The expression the derive writes for the backoff. -/
def BackoffSpec.toTokens : BackoffSpec → Backoff
  | none => .none
  | fixed delayMs => .fixed (.fromMillis delayMs)
  | exponential baseMs factor maxMs jitter =>
    .exponential (.fromMillis baseMs) factor (.fromMillis maxMs) jitter

def RetrySpec.toTokens (spec : RetrySpec) : RetryPolicy := ⟨spec.maxAttempts, spec.backoff.toTokens⟩

/-- The keys as they were written. -/
structure RetryRaw where
  maxAttempts : Option UInt32
  backoff : Option String
  delay : Option UInt64
  base : Option UInt64
  factor : Option F64
  max : Option UInt64
  jitter : Option Bool
deriving DecidableEq

def RetryRaw.empty : RetryRaw :=
  ⟨Option.none, Option.none, Option.none, Option.none, Option.none, Option.none, Option.none⟩

variable {α : Type}

def setOnce (key : String) (slot : Option α) (value : α) : Except String (Option α) :=
  match slot with
  | some _ => .error ("duplicate key `" ++ key ++ "`")
  | Option.none => .ok (some value)

def parseKey (raw : RetryRaw) (key : String) (value : Value) : Except String RetryRaw := do
  if key = "max_attempts" then
    let n ← litInt key maxAttemptsRange u32Max value
    return { raw with maxAttempts := ← setOnce key raw.maxAttempts (UInt32.ofNat n) }
  else if key = "backoff" then
    let kind ← litStr key value
    return { raw with backoff := ← setOnce key raw.backoff kind }
  else if key = "delay" then
    let millis ← parseLit (← litStr key value) key
    return { raw with delay := ← setOnce key raw.delay millis }
  else if key = "base" then
    let millis ← parseLit (← litStr key value) key
    return { raw with base := ← setOnce key raw.base millis }
  else if key = "factor" then
    let x ← litF64 key value
    return { raw with factor := ← setOnce key raw.factor x }
  else if key = "max" then
    let millis ← parseLit (← litStr key value) key
    return { raw with max := ← setOnce key raw.max millis }
  else if key = "jitter" then
    let b ← litBool key value
    return { raw with jitter := ← setOnce key raw.jitter b }
  else
    throw ("unknown key `" ++ key ++ "` in `retry(...)`, expected one of `max_attempts`, " ++
      "`backoff`, `delay`, `base`, `factor`, `max`, `jitter`")

def reject (slot : Option α) (key requiredKind : String) : Except String Unit :=
  match slot with
  | some _ => .error ("`" ++ key ++ "` is only valid with `backoff = \"" ++ requiredKind ++ "\"`")
  | Option.none => .ok ()

namespace RetryRaw
variable (raw : RetryRaw)

def attempts : Except String UInt32 :=
  match raw.maxAttempts with
  | some n => if n = 0 then .error "`max_attempts` must be >= 1; 1 means no retries" else .ok n
  | Option.none => .ok defaultMaxAttempts

def rejectExponential : Except String Unit := do
  reject raw.base "base" "exponential"
  reject raw.factor "factor" "exponential"
  reject raw.max "max" "exponential"
  reject raw.jitter "jitter" "exponential"

def expFactor : Except String F64 :=
  match raw.factor with
  | some x =>
    if F64.le x (.finite 0) || !x.isFinite then
      .error "`factor` must be a finite number greater than 0"
    else .ok x
  | Option.none => .ok defaultExpFactor

def exponential : Except String BackoffSpec := do
  reject raw.delay "delay" "fixed"
  let factor ← raw.expFactor
  let baseMs := raw.base.getD defaultExpBaseMs
  let maxMs := raw.max.getD defaultExpMaxMs
  if maxMs < baseMs then throw "`base` must be <= `max`"
  return .exponential baseMs factor maxMs (raw.jitter.getD defaultExpJitter)

def resolve (kind : String) : Except String BackoffSpec := do
  if kind = "none" then
    reject raw.delay "delay" "fixed"
    raw.rejectExponential
    return .none
  else if kind = "fixed" then
    raw.rejectExponential
    match raw.delay with
    | some delayMs => return .fixed delayMs
    | Option.none => throw "`backoff = \"fixed\"` requires `delay = \"...\"`"
  else if kind = "exponential" then raw.exponential
  else
    throw ("unknown backoff `" ++ kind ++ "`, expected \"none\", \"fixed\" or \"exponential\"")

def finish : Except String RetrySpec := do
  let maxAttempts ← raw.attempts
  let backoff ← raw.resolve (raw.backoff.getD "exponential")
  return ⟨maxAttempts, backoff⟩

end RetryRaw

/-- The body of a `retry(...)` list; the first key that is refused ends it. -/
def parseRetry (items : List (String × Value)) : Except String RetrySpec := do
  let raw ← items.foldlM (fun raw item => parseKey raw item.1 item.2) RetryRaw.empty
  raw.finish

example : parseRetry [("max_attempts", .lit (.int 5 (.finite 5)))] =
    .ok ⟨5, .exponential 1000 (.finite 2) 300000 true⟩ := by decide

/-! ## What an accepted list comes to -/

/-- The keys read so far hold no zero duration. -/
structure RetryRaw.Positive (raw : RetryRaw) : Prop where
  delay : ∀ d ∈ raw.delay, 0 < d
  base : ∀ d ∈ raw.base, 0 < d
  max : ∀ d ∈ raw.max, 0 < d

/-- The delays are positive and in order, and the factor is one a curve can be drawn with. -/
def BackoffSpec.Valid : BackoffSpec → Prop
  | none => True
  | fixed delayMs => 0 < delayMs
  | exponential baseMs factor maxMs _ =>
    0 < baseMs ∧ baseMs ≤ maxMs ∧ factor.isFinite = true ∧ F64.lt (.finite 0) factor = true

structure RetrySpec.Valid (spec : RetrySpec) : Prop where
  maxAttempts : 0 < spec.maxAttempts
  backoff : spec.backoff.Valid

theorem bind_ok {ε β : Type} {x : Except ε α} {f : α → Except ε β} {b : β}
    (h : x >>= f = .ok b) : ∃ a, x = .ok a ∧ f a = .ok b := by
  cases x with
  | error e => cases h
  | ok a => exact ⟨a, rfl, h⟩

theorem setOnce_ok {key : String} {slot slot' : Option α} {value : α}
    (h : setOnce key slot value = .ok slot') : slot' = some value := by
  unfold setOnce at h
  split at h
  · cases h
  · exact (Except.ok.inj h).symm

/-- A duration that is recorded is positive. -/
theorem recorded_pos {key : String} {slot slot' : Option UInt64}
    {literal : String} {millis : UInt64} (hlit : parseLit literal key = .ok millis)
    (hset : setOnce key slot millis = .ok slot') : ∀ d ∈ slot', 0 < d := by
  intro d hd
  rw [setOnce_ok hset] at hd
  obtain rfl := Option.some.inj hd
  exact parseLit_pos hlit

theorem parseKey_positive {raw raw' : RetryRaw} {key : String} {value : Value}
    (h : parseKey raw key value = .ok raw') (hraw : raw.Positive) : raw'.Positive := by
  unfold parseKey at h
  split_ifs at h
  case pos => -- max_attempts
    obtain ⟨n, -, h⟩ := bind_ok h
    obtain ⟨slot, -, h⟩ := bind_ok h
    obtain rfl := Except.ok.inj h
    exact ⟨hraw.delay, hraw.base, hraw.max⟩
  case pos => -- backoff
    obtain ⟨kind, -, h⟩ := bind_ok h
    obtain ⟨slot, -, h⟩ := bind_ok h
    obtain rfl := Except.ok.inj h
    exact ⟨hraw.delay, hraw.base, hraw.max⟩
  case pos => -- delay
    obtain ⟨literal, -, h⟩ := bind_ok h
    obtain ⟨millis, hlit, h⟩ := bind_ok h
    obtain ⟨slot, hset, h⟩ := bind_ok h
    obtain rfl := Except.ok.inj h
    exact ⟨recorded_pos hlit hset, hraw.base, hraw.max⟩
  case pos => -- base
    obtain ⟨literal, -, h⟩ := bind_ok h
    obtain ⟨millis, hlit, h⟩ := bind_ok h
    obtain ⟨slot, hset, h⟩ := bind_ok h
    obtain rfl := Except.ok.inj h
    exact ⟨hraw.delay, recorded_pos hlit hset, hraw.max⟩
  case pos => -- factor
    obtain ⟨x, -, h⟩ := bind_ok h
    obtain ⟨slot, -, h⟩ := bind_ok h
    obtain rfl := Except.ok.inj h
    exact ⟨hraw.delay, hraw.base, hraw.max⟩
  case pos => -- max
    obtain ⟨literal, -, h⟩ := bind_ok h
    obtain ⟨millis, hlit, h⟩ := bind_ok h
    obtain ⟨slot, hset, h⟩ := bind_ok h
    obtain rfl := Except.ok.inj h
    exact ⟨hraw.delay, hraw.base, recorded_pos hlit hset⟩
  case pos => -- jitter
    obtain ⟨b, -, h⟩ := bind_ok h
    obtain ⟨slot, -, h⟩ := bind_ok h
    obtain rfl := Except.ok.inj h
    exact ⟨hraw.delay, hraw.base, hraw.max⟩

theorem foldlM_positive {items : List (String × Value)} {raw raw' : RetryRaw}
    (h : items.foldlM (fun raw item => parseKey raw item.1 item.2) raw = .ok raw')
    (hraw : raw.Positive) : raw'.Positive := by
  induction items generalizing raw with
  | nil =>
    obtain rfl := Except.ok.inj h
    exact hraw
  | cons item items ih =>
    rw [List.foldlM_cons] at h
    obtain ⟨next, hnext, h⟩ := bind_ok h
    apply ih h
    exact parseKey_positive hnext hraw

namespace RetryRaw
variable {raw : RetryRaw}

theorem attempts_pos {n : UInt32} (h : raw.attempts = .ok n) : 0 < n := by
  unfold attempts at h
  split at h
  · split at h
    · cases h
    · rename_i hne
      obtain rfl := Except.ok.inj h
      exact UInt32.pos_iff_ne_zero.mpr hne
  · obtain rfl := Except.ok.inj h
    decide

theorem expFactor_valid {x : F64} (h : raw.expFactor = .ok x) :
    x.isFinite = true ∧ F64.lt (.finite 0) x = true := by
  unfold expFactor at h
  split at h
  · rename_i y _
    split at h
    · cases h
    · rename_i hy
      obtain rfl := Except.ok.inj h
      cases y with
      | finite q => simpa [F64.le, F64.lt, F64.isFinite] using hy
      | _ => simp [F64.isFinite] at hy
  · obtain rfl := Except.ok.inj h
    decide

theorem getD_pos {slot : Option UInt64} {millis : UInt64} (h : ∀ d ∈ slot, 0 < d)
    (hm : 0 < millis) : 0 < slot.getD millis := by
  cases slot with
  | none => exact hm
  | some d => exact h d rfl

theorem exponential_valid {backoff : BackoffSpec} (hraw : raw.Positive)
    (h : raw.exponential = .ok backoff) : backoff.Valid := by
  unfold exponential at h
  obtain ⟨-, -, h⟩ := bind_ok h
  obtain ⟨factor, hfactor, h⟩ := bind_ok h
  dsimp only at h
  split at h
  · cases h
  · rename_i hle
    obtain rfl := Except.ok.inj h
    have hbase : 0 < raw.base.getD defaultExpBaseMs := getD_pos hraw.base (by decide)
    exact ⟨hbase, UInt64.not_lt.mp hle, expFactor_valid hfactor⟩

theorem resolve_valid {kind : String} {backoff : BackoffSpec} (hraw : raw.Positive)
    (h : raw.resolve kind = .ok backoff) : backoff.Valid := by
  unfold resolve at h
  split_ifs at h
  case pos => -- none
    obtain ⟨-, -, h⟩ := bind_ok h
    obtain ⟨-, -, h⟩ := bind_ok h
    obtain rfl := Except.ok.inj h
    trivial
  case pos => -- fixed
    obtain ⟨-, -, h⟩ := bind_ok h
    split at h
    · rename_i delayMs hdelay
      obtain rfl := Except.ok.inj h
      exact hraw.delay delayMs hdelay
    · cases h
  case pos => exact exponential_valid hraw h

end RetryRaw

/-- An accepted list is one whose policy makes sense on its own. -/
theorem parseRetry_valid {items : List (String × Value)} {spec : RetrySpec}
    (h : parseRetry items = .ok spec) : spec.Valid := by
  unfold parseRetry at h
  obtain ⟨raw, hraw, h⟩ := bind_ok h
  unfold RetryRaw.finish at h
  obtain ⟨n, hn, h⟩ := bind_ok h
  obtain ⟨backoff, hbackoff, h⟩ := bind_ok h
  obtain rfl := Except.ok.inj h
  have positive := foldlM_positive hraw
    ⟨by simp [RetryRaw.empty], by simp [RetryRaw.empty], by simp [RetryRaw.empty]⟩
  exact ⟨RetryRaw.attempts_pos hn, RetryRaw.resolve_valid positive hbackoff⟩

end Queuey.Macros
