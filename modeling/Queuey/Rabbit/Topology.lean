import Queuey.Rabbit.Lapin

/-!
# Queue names and declaration arguments

The names, delays and arguments of the three kinds of broker queues. A hold queue's
arguments are a function of its delay and of the main queue's name.
-/
namespace Queuey.Rabbit

/-- The argument and header values the backend writes. -/
inductive AmqpValue where
  | longLongInt (value : ℤ)
  | longUInt (value : UInt32)
  | shortShortUInt (value : UInt8)
  | longString (value : String)
deriving DecidableEq

/-- A field table, in the order of its insertions; every table here has distinct keys. -/
abbrev FieldTable := List (String × AmqpValue)

namespace Topology

def headerDeathReason : String := "x-death-reason"
def headerOriginalQueue : String := "x-original-queue"
def headerAttempts : String := "x-attempts"
def headerAttempt : String := "x-attempt"
def headerDeferrals : String := "x-deferrals"
def argDeadLetterExchange : String := "x-dead-letter-exchange"
def argDeadLetterRoutingKey : String := "x-dead-letter-routing-key"
def argMessageTtl : String := "x-message-ttl"
def argMaxPriority : String := "x-max-priority"
def argExpires : String := "x-expires"

/-- The largest time-to-live the broker accepts, in milliseconds: `u32::MAX`. -/
def maxTtlMs : ℕ := 2 ^ 32 - 1

/-- The longest wait of a hold queue, in milliseconds. -/
def maxDeferralMs : ℕ := maxTtlMs / 2

def deadQueueName (queue suffix : String) : String := queue ++ suffix

def deferredQueueName (queue suffix : String) (ttlMs : UInt32) : String :=
  queue ++ suffix ++ "." ++ toString ttlMs.toNat

/-- `u128::MAX`. -/
def u128Max : ℕ := 2 ^ 128 - 1

/-- Whole milliseconds, rounded up. -/
def millisCeil (d : Duration) : ℕ := (d.nanos + 999999) / 1000000

def divCeil (a b : ℕ) : ℕ := (a + b - 1) / b

/-- The delay rounded up to a whole positive multiple of the granularity, unless that is
more than a hold queue can wait. -/
def deferredTtlMs (delay granularity : Duration) : Option UInt32 :=
  let step := max 1 (min (millisCeil granularity) maxDeferralMs)
  let ttl := max (min (divCeil (millisCeil delay) step * step) u128Max) step
  if ttl ≤ maxDeferralMs then some (UInt32.ofNat ttl) else none

/-- `ttl_millis`: whole milliseconds rounded up, clamped to what the broker accepts. -/
def ttlMillis (ttl : Duration) : ℤ := max 1 (min (millisCeil ttl) maxTtlMs)

def queueArgs (config : QueueConfig) : FieldTable :=
  (match config.messageTtl with
    | some ttl => [(argMessageTtl, .longLongInt (ttlMillis ttl))]
    | none => []) ++
  (match config.maxPriority with
    | some levels => [(argMaxPriority, .shortShortUInt levels)]
    | none => [])

/-- The lifetime of an idle hold queue: twice its delay, within the broker's domain. -/
def expiresMs (ttlMs : UInt32) : ℕ := min (ttlMs.toNat * 2) maxTtlMs

def deferredQueueArgs (config : QueueConfig) (ttlMs : UInt32) : FieldTable :=
  [(argMessageTtl, .longLongInt ttlMs.toNat),
    (argDeadLetterExchange, .longString ""),
    (argDeadLetterRoutingKey, .longString config.name),
    (argExpires, .longLongInt (expiresMs ttlMs))]

def deadQueueArgs (_config : QueueConfig) : FieldTable := []

structure QueueDeclareOptions where
  passive : Bool
  durable : Bool
  exclusive : Bool
  autoDelete : Bool
  nowait : Bool
deriving DecidableEq

def declareOptions (durable : Bool) : QueueDeclareOptions := ⟨false, durable, false, false, false⟩

theorem deferredTtlMs_bounds {delay granularity : Duration} {ttl : UInt32}
    (h : deferredTtlMs delay granularity = some ttl) :
    0 < ttl.toNat ∧ ttl.toNat ≤ maxDeferralMs := by
  unfold deferredTtlMs at h
  dsimp only at h
  generalize hstep : max 1 (min (millisCeil granularity) maxDeferralMs) = step at h
  have hpos : 1 ≤ step := hstep ▸ Nat.le_max_left _ _
  split at h
  · rename_i hle
    obtain rfl := Option.some.inj h
    have hmax : maxDeferralMs < 2 ^ 32 := by decide
    rw [UInt32.toNat_ofNat_of_lt' (hle.trans_lt hmax)]
    exact ⟨lt_of_lt_of_le hpos (Nat.le_max_right _ _), hle⟩
  · cases h

/-- A delay that is held at all is held in a queue that outlives it by its own length. -/
theorem expiresMs_eq {delay granularity : Duration} {ttl : UInt32}
    (h : deferredTtlMs delay granularity = some ttl) : expiresMs ttl = 2 * ttl.toNat := by
  have hle := (deferredTtlMs_bounds h).2
  unfold expiresMs
  unfold maxDeferralMs at hle
  omega

end Topology
end Queuey.Rabbit
