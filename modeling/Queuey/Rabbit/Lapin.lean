import Queuey.Core.Queue

/-!
# The AMQP client's vocabulary and this backend's errors

The values the client library hands back, as far as the backend looks at them, the
backend's own error type with its texts, and the checked conversion to an AMQP short
string.
-/
namespace Queuey.Rabbit

inductive LinkState where
  | initial
  | connected
  | closing
  | closed
  | error
deriving DecidableEq

/-- A client error. Only the two state errors are ever told apart from the rest. -/
inductive LapinError where
  | invalidChannelState (state : LinkState)
  | invalidConnectionState (state : LinkState)
  | other (text : String)
deriving DecidableEq

/-- `is_benign_close_error`. -/
def isBenignCloseError : LapinError → Bool
  | .invalidChannelState .closing => true
  | .invalidChannelState .closed => true
  | .invalidConnectionState .closing => true
  | .invalidConnectionState .closed => true
  | _ => false

/-- A returned message; `message` tells which publish it hands back. -/
structure BasicReturnMessage where
  replyCode : UInt16
  replyText : String
  message : ℕ
deriving DecidableEq

inductive Confirmation where
  | ack (returned : Option BasicReturnMessage)
  | nack (returned : Option BasicReturnMessage)
  | notRequested
deriving DecidableEq

/-- The longest AMQP short string, in bytes. -/
def maxShortStringLength : ℕ := 255

inductive RabbitMqError where
  | nacked (queue : String)
  | returned (replyCode : UInt16) (replyText routingKey : String)
  | confirmsNotEnabled (queue : String)
  | alreadySettled (operation jobId queue : String)
  | invalidName (name : String)
  | delayTooLong (requested max : Duration)
  | deferredNameTooLong (queue hold : String) (length limit : ℕ)
  | connectionLost
  | reconnectExhausted (attempts : UInt32) (source : Option LapinError)
  | closed
  | tlsUnavailable
deriving DecidableEq

/-- The texts; the client library words the reason inside `invalidName`. -/
def RabbitMqError.display (shortStringError : String) : RabbitMqError → String
  | nacked queue => "broker nacked the message published to `" ++ queue ++ "`"
  | returned code text key =>
    "broker returned the message published to `" ++ key ++ "` as unroutable: " ++
      toString code.toNat ++ " " ++ text
  | confirmsNotEnabled queue =>
    "publisher confirms are not enabled; cannot confirm publish to `" ++ queue ++ "`"
  | alreadySettled operation jobId queue =>
    "cannot " ++ operation ++ " delivery of job `" ++ jobId ++ "` on `" ++ queue ++
      "`: it was already settled or its channel is gone"
  | invalidName name => "invalid AMQP name `" ++ name ++ "`: " ++ shortStringError
  | delayTooLong requested max =>
    "delay of " ++ requested.debug ++ " is longer than a hold queue can wait (" ++ max.debug ++
      "); it was refused rather than released early"
  | deferredNameTooLong queue hold length limit =>
    "queue `" ++ queue ++ "` leaves no room for its hold queues: `" ++ hold ++ "` is " ++
      toString length ++ " bytes, over the " ++ toString limit ++ "-byte AMQP limit"
  | connectionLost => "the rabbitmq connection is gone and reconnection is disabled"
  | reconnectExhausted attempts _ =>
    "could not reconnect to rabbitmq after " ++ toString attempts.toNat ++ " attempts"
  | closed => "the rabbitmq backend is closed"
  | tlsUnavailable =>
    "`amqps://` needs a TLS backend, but queuey-rabbitmq was built without one; " ++
      "enable its `rustls`, `native-tls` or `openssl` feature"

/-- What a core `Backend` error wraps in this backend. -/
inductive BackendError where
  | lapin (error : LapinError)
  | rabbit (error : RabbitMqError)
deriving DecidableEq

abbrev Failure := Error BackendError

/-- `amqp`: wrap a client error. -/
def amqp (error : LapinError) : Failure := .backend (.lapin error)

def RabbitMqError.intoCore (error : RabbitMqError) : Failure := .backend (.rabbit error)

/-- A checked AMQP short string. -/
structure ShortString where
  value : String
  short : value.utf8ByteSize ≤ maxShortStringLength
deriving DecidableEq

def shortString (value : String) : Except Failure ShortString :=
  if h : value.utf8ByteSize ≤ maxShortStringLength then .ok ⟨value, h⟩
  else .error (RabbitMqError.invalidName value).intoCore

/-- `confirmation_to_result`: only a bare `Ack` means "durably stored". -/
def confirmationToResult (confirmation : Confirmation) (routingKey : String) :
    Except Failure Unit :=
  match confirmation with
  | .ack none => .ok ()
  | .ack (some returned) | .nack (some returned) =>
    .error (RabbitMqError.returned returned.replyCode returned.replyText routingKey).intoCore
  | .nack none => .error (RabbitMqError.nacked routingKey).intoCore
  | .notRequested => .error (RabbitMqError.confirmsNotEnabled routingKey).intoCore

theorem confirmationToResult_ok {c : Confirmation} {key : String} :
    confirmationToResult c key = .ok () ↔ c = .ack none := by
  constructor
  · intro h
    match c with
    | .ack none => rfl
    | .ack (some _) | .nack (some _) | .nack none | .notRequested =>
      simp [confirmationToResult] at h
  · rintro rfl
    rfl

theorem shortString_ok {value : String} {s : ShortString} (h : shortString value = .ok s) :
    s.value = value := by
  unfold shortString at h
  split at h
  · injection h with h
    rw [← h]
  · cases h

end Queuey.Rabbit
