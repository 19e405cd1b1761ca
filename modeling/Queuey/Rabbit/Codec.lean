import Queuey.Core.Envelope
import Queuey.Library.Utf8
import Queuey.Rabbit.Topology

/-!
# Message properties

The properties and headers a message is published with. User strings that have to fit an
AMQP short string are cut at a character boundary, so building properties never fails.
-/
namespace Queuey

def hexDigit (n : ℕ) : Char := "0123456789abcdef".toList.getD n '0'

/-- The hyphenated form: 32 lower-case hexadecimal digits grouped 8-4-4-4-12. -/
def Uuid.display (id : Uuid) : String :=
  let digits := (List.range 32).map fun i => hexDigit (id.toNat / 16 ^ (31 - i) % 16)
  let part (start size : ℕ) := String.ofList ((digits.drop start).take size)
  part 0 8 ++ "-" ++ part 8 4 ++ "-" ++ part 12 4 ++ "-" ++ part 16 4 ++ "-" ++ part 20 12

namespace Rabbit.Codec
open Rabbit.Topology

structure BasicProperties where
  contentType : Option ShortString
  deliveryMode : Option UInt8
  messageId : Option ShortString
  kind : Option ShortString
  priority : Option UInt8
  headers : Option FieldTable
  expiration : Option ShortString
deriving DecidableEq

def BasicProperties.empty : BasicProperties := ⟨none, none, none, none, none, none, none⟩

/-- Bytes of the UTF-8 encoding. -/
def byteLength (cs : List Char) : ℕ := (cs.map Char.utf8Size).sum

/-- `is_char_boundary`: byte `i` starts a character or ends the text. -/
def isCharBoundary : List Char → ℕ → Bool
  | _, 0 => true
  | [], _ + 1 => false
  | c :: cs, i + 1 => c.utf8Size ≤ i + 1 && isCharBoundary cs (i + 1 - c.utf8Size)

/-- The characters of the first `n` bytes, for `n` on a boundary. -/
def takeBytes : List Char → ℕ → List Char
  | _, 0 => []
  | [], _ + 1 => []
  | c :: cs, n + 1 => if c.utf8Size ≤ n + 1 then c :: takeBytes cs (n + 1 - c.utf8Size) else []

/-- The `while` loop: step back from `end` to a character boundary. -/
def stepBack (cs : List Char) : ℕ → ℕ
  | 0 => 0
  | n + 1 => if isCharBoundary cs (n + 1) then n + 1 else stepBack cs n

def truncateAtBoundary (value : String) (max : ℕ) : String :=
  if value.utf8ByteSize ≤ max then value
  else String.ofList (takeBytes value.toList (stepBack value.toList max))

theorem byteLength_takeBytes_le (cs : List Char) (n : ℕ) : byteLength (takeBytes cs n) ≤ n := by
  induction cs generalizing n with
  | nil => cases n <;> simp [takeBytes, byteLength]
  | cons c cs ih =>
    cases n with
    | zero => simp [takeBytes, byteLength]
    | succ n =>
      unfold takeBytes
      split
      · rename_i hc
        have := ih (n + 1 - c.utf8Size)
        simp only [byteLength, List.map_cons, List.sum_cons] at this ⊢
        omega
      · simp [byteLength]

theorem stepBack_le (cs : List Char) (n : ℕ) : stepBack cs n ≤ n := by
  induction n with
  | zero => rfl
  | succ n ih =>
    unfold stepBack
    split
    · exact le_rfl
    · omega

theorem truncateAtBoundary_short (value : String) (max : ℕ) :
    (truncateAtBoundary value max).utf8ByteSize ≤ max := by
  unfold truncateAtBoundary
  split
  · assumption
  · rw [Utf8.utf8ByteSize_ofList]
    exact (byteLength_takeBytes_le _ _).trans (stepBack_le _ _)

def clamped (value : String) : ShortString :=
  ⟨truncateAtBoundary value maxShortStringLength, truncateAtBoundary_short _ _⟩

def contentTypeJson : ShortString := ⟨"application/json", by decide⟩

/-- `DELIVERY_MODE_PERSISTENT`. -/
def deliveryModePersistent : UInt8 := 2

def reasonMalformed : String := "malformed envelope"

variable {V : Type}

def baseHeaders (e : Envelope V) : FieldTable :=
  [(headerAttempt, .longUInt e.attempt), (headerDeferrals, .longUInt e.deferrals)]

def propsFor (e : Envelope V) : BasicProperties where
  contentType := some contentTypeJson
  deliveryMode := some deliveryModePersistent
  messageId := some (clamped e.jobId.display)
  kind := some (clamped e.jobType)
  priority := some e.priority
  headers := some (baseHeaders e)
  expiration := none

def deadLetterHeaders (e : Envelope V) (reason : String) : FieldTable :=
  baseHeaders e ++ [(headerDeathReason, .longString reason),
    (headerOriginalQueue, .longString e.queue), (headerAttempts, .longUInt e.attempt)]

def deadLetterProps (e : Envelope V) (reason : String) : BasicProperties :=
  { propsFor e with headers := some (deadLetterHeaders e reason) }

/-- The headers of a body that is not an envelope: where it came from, and why it is dead. -/
def malformedProps (originalQueue reason : String) : BasicProperties :=
  { BasicProperties.empty with
    deliveryMode := some deliveryModePersistent
    headers := some [(headerDeathReason, .longString reason),
      (headerOriginalQueue, .longString originalQueue)] }

end Rabbit.Codec
end Queuey
