import Mathlib.Order.Basic
import Mathlib.Data.Rat.Defs
import Mathlib.Algebra.Order.Ring.Rat
import Mathlib.Data.Nat.Digits.Defs

/-!
# Durations and floating-point seconds

`Duration` is the standard library's type: a whole number of nanoseconds below
`2 ^ 64` seconds, with the bound carried by the value. `F64` keeps the classes of a
double that the backoff arithmetic tells apart; rounding and the transcendental
functions are the fields of `Floats`, with only what their documentation promises.
-/
namespace Queuey

/-- The payload of an unwinding panic. -/
structure Panic where
  message : String
deriving DecidableEq, Repr

/-- Nanoseconds in one second. -/
def nanosPerSec : ℕ := 1000000000

structure Duration where
  nanos : ℕ
  bounded : nanos < 2 ^ 64 * nanosPerSec
deriving DecidableEq

namespace Duration

theorem nanos_injective : Function.Injective nanos := by
  rintro ⟨a, ha⟩ ⟨b, hb⟩ rfl
  rfl

instance : LinearOrder Duration := LinearOrder.lift' nanos nanos_injective

theorem le_iff {a b : Duration} : a ≤ b ↔ a.nanos ≤ b.nanos := Iff.rfl

def zero : Duration := ⟨0, by decide⟩

instance : Inhabited Duration := ⟨zero⟩

/-- `Duration::MAX`. -/
def max : Duration := ⟨2 ^ 64 * nanosPerSec - 1, by decide⟩

def fromSecs (secs : UInt64) : Duration :=
  ⟨secs.toNat * nanosPerSec, by
    have := secs.toNat_lt
    unfold nanosPerSec
    omega⟩

def fromMillis (millis : UInt64) : Duration :=
  ⟨millis.toNat * 1000000, by
    have := millis.toNat_lt
    unfold nanosPerSec
    omega⟩

def isZero (d : Duration) : Bool := d.nanos = 0

/-- Whole milliseconds, rounded down; the source's `u128` never overflows here. -/
def asMillis (d : Duration) : ℕ := d.nanos / 1000000

/-- The part below one millisecond, in nanoseconds. -/
def subMillis (d : Duration) : ℕ := d.nanos % 1000000

/-- The decimal digits of a fraction of `width` digits, without its trailing zeros. -/
def fraction (width value : ℕ) : String :=
  let digits := (List.range width).map fun i => value / 10 ^ (width - 1 - i) % 10
  let kept := (digits.reverse.dropWhile (· == 0)).reverse
  if kept.isEmpty then "" else "." ++ String.join (kept.map toString)

/-- The `Debug` rendering: the largest unit with a whole part, at full precision. -/
def debug (d : Duration) : String :=
  if nanosPerSec ≤ d.nanos then
    toString (d.nanos / nanosPerSec) ++ fraction 9 (d.nanos % nanosPerSec) ++ "s"
  else if 1000000 ≤ d.nanos then
    toString (d.nanos / 1000000) ++ fraction 6 (d.nanos % 1000000) ++ "ms"
  else if 1000 ≤ d.nanos then
    toString (d.nanos / 1000) ++ fraction 3 (d.nanos % 1000) ++ "µs"
  else
    toString d.nanos ++ "ns"

example : (fromMillis 1500).debug = "1.5s" := by decide

end Duration

/-- A double, up to the sign of zero and the payload of a NaN. -/
inductive F64 where
  | nan
  | infinity
  | negInfinity
  | finite (value : ℚ)
deriving DecidableEq

namespace F64

def isFinite : F64 → Bool
  | finite _ => true
  | _ => false

/-- IEEE `<`: false as soon as one side is a NaN. -/
def lt : F64 → F64 → Bool
  | nan, _ => false
  | _, nan => false
  | finite a, finite b => a < b
  | negInfinity, negInfinity => false
  | negInfinity, _ => true
  | _, infinity => true
  | infinity, _ => false
  | finite _, negInfinity => false

/-- IEEE `<=`. -/
def le : F64 → F64 → Bool
  | nan, _ => false
  | _, nan => false
  | finite a, finite b => a ≤ b
  | negInfinity, _ => true
  | _, infinity => true
  | infinity, finite _ => false
  | infinity, negInfinity => false
  | finite _, negInfinity => false

/-- `f64::clamp`, which asserts that its bounds are ordered. -/
def clamp (x lo hi : F64) : Except Panic F64 :=
  if le lo hi then
    .ok (if lt x lo then lo else if lt hi x then hi else x)
  else
    .error ⟨"min > max, or either was NaN"⟩

end F64

/-- The floating-point operations the backoff arithmetic uses. Only the conversion
from a `Duration` is promised anything: it gives a finite number that is not negative. -/
structure Floats where
  asSecs : Duration → F64
  ofSecs : F64 → Option Duration
  mul : F64 → F64 → F64
  powf : F64 → F64 → F64
  asSecs_spec : ∀ d, ∃ q : ℚ, 0 ≤ q ∧ asSecs d = .finite q

instance : Nonempty Floats :=
  ⟨fun _ => .finite 0, fun _ => none, fun _ _ => .nan, fun _ _ => .nan, fun _ => ⟨0, le_rfl, rfl⟩⟩

end Queuey
