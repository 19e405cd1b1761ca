import Queuey.Core.Time

/-!
# Duration literals

The grammar of `"500ms"`, `"2m"` or `"30"`: a run of decimal digits and an optional unit,
read as a number of milliseconds that fits 64 bits.
-/
namespace Queuey.Macros

def millisPerSecond : ℕ := 1000
def millisPerMinute : ℕ := 60 * millisPerSecond
def millisPerHour : ℕ := 60 * millisPerMinute
def millisPerDay : ℕ := 24 * millisPerHour

/-- Unicode `White_Space`. -/
def isWhitespace (c : Char) : Bool :=
  let n := c.toNat
  (0x9 ≤ n && n ≤ 0xD) || n == 0x20 || n == 0x85 || n == 0xA0 || n == 0x1680 ||
    (0x2000 ≤ n && n ≤ 0x200A) || n == 0x2028 || n == 0x2029 || n == 0x202F || n == 0x205F ||
    n == 0x3000

def trimStart (cs : List Char) : List Char := cs.dropWhile isWhitespace

def trimEnd (cs : List Char) : List Char := (trimStart cs.reverse).reverse

def trim (cs : List Char) : List Char := trimEnd (trimStart cs)

/-- The number a run of decimal digits is written as. -/
def decimal (digits : List Char) : ℕ :=
  digits.foldl (fun n c => 10 * n + (c.toNat - '0'.toNat)) 0

/-- The milliseconds in one unit; without a unit a number counts seconds. -/
def unitMillis : List Char → Option ℕ
  | [] | ['s'] => some millisPerSecond
  | ['m', 's'] => some 1
  | ['m'] => some millisPerMinute
  | ['h'] => some millisPerHour
  | ['d'] => some millisPerDay
  | _ => none

def invalid (input : String) : String :=
  "invalid duration `" ++ input ++ "`: expected an integer with an optional unit " ++
    "(`ms`, `s`, `m`, `h`, `d`), for example \"500ms\", \"30s\" or \"2m\""

def outOfRange (input : String) : String :=
  "duration `" ++ input ++ "` does not fit in a `u64` number of milliseconds"

def zero (key : String) : String :=
  let hint :=
    if key = "message_ttl" then "a zero TTL discards every message the moment it is published"
    else "express \"no backoff\" as `backoff = \"none\"` instead"
  "`" ++ key ++ "` must be greater than zero: " ++ hint

/-- `u64::checked_mul`, on a factor that is itself parsed with a check. -/
def checkedMul (value factor : ℕ) : Option UInt64 :=
  if value < 2 ^ 64 ∧ value * factor < 2 ^ 64 then some (UInt64.ofNat (value * factor)) else none

def parseMillis (input : String) : Except String UInt64 :=
  let trimmed := trim input.toList
  let digits := trimmed.takeWhile Char.isDigit
  let rest := trimmed.dropWhile Char.isDigit
  if digits.isEmpty then .error (invalid input)
  else
    match unitMillis (trimStart rest) with
    | none => .error (invalid input)
    | some factor =>
      match checkedMul (decimal digits) factor with
      | none => .error (outOfRange input)
      | some millis => .ok millis

/-- Every duration of the grammar is a delay or a time-to-live, so zero is rejected. -/
def parseLit (literal key : String) : Except String UInt64 :=
  match parseMillis literal with
  | .error message => .error message
  | .ok millis => if millis = 0 then .error (zero key) else .ok millis

example : parseMillis "\t300\tms\n" = .ok 300 := by decide

example : parseMillis "1.5s" = .error (invalid "1.5s") := by decide

theorem parseLit_pos {literal key : String} {millis : UInt64}
    (h : parseLit literal key = .ok millis) : 0 < millis := by
  unfold parseLit at h
  split at h
  · cases h
  · split at h
    · cases h
    · rename_i hne
      obtain rfl := Except.ok.inj h
      exact UInt64.pos_iff_ne_zero.mpr hne

end Queuey.Macros
