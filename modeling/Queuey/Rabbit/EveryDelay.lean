import Queuey.Core.Delays
import Queuey.Core.Settlement
import Queuey.Rabbit.HoldName

/-!
# Every delay

A delay reaches a backend through four operations, whoever chose it. On RabbitMQ it is held
for at least as long as asked, or refused before the broker is touched. In memory the same
holds as long as the clock can represent the end of the delay; past that the operation
panics, and the task that settled with it never gets to count the failure.
-/
namespace Queuey.Rabbit
open Interaction Prog Codec Rabbit.Topology HoldQueues

variable {V : Type} {publisher : Publisher V} {e : Envelope V} {delay : Duration} {hold : Hold}
  {delivery : RabbitMqDelivery V} {op : Settle V}

/-- `publish` of the backend. -/
def RabbitMqBackend.publish (publisher : Publisher V) (e : Envelope V) : Option Duration → Io Unit
  | none => publisher.publishEnvelope e
  | some delay => publisher.publishHeld e delay .retry

/-- `defer` of the backend. -/
def RabbitMqBackend.defer (publisher : Publisher V) (e : Envelope V) (delay : Duration) : Io Unit :=
  publisher.publishHeld e delay .deferral

/-- A hold queue releases nothing before its TTL is over. -/
theorem ttl_le_of_releases {q : HoldQueue} {config : QueueConfig} {ttl : UInt32} {acceptedAt t : ℕ}
    (hargs : q.args = deferredQueueArgs config ttl) (h : q.releases acceptedAt t = true) :
    acceptedAt + ttl.toNat * nanosPerMs ≤ t := by
  have hdeadline : q.deadline acceptedAt = some (acceptedAt + ttl.toNat * nanosPerMs) := by
    rw [HoldQueue.deadline, hargs]
    simp [argMs, deferredQueueArgs]
  unfold HoldQueue.releases at h
  rw [hdeadline] at h
  split at h
  · rename_i d x hd hx
    obtain rfl := Option.some.inj hd
    exact (of_decide_eq_true (Bool.and_eq_true_iff.mp h).1)
  · rename_i d hd hx
    obtain rfl := Option.some.inj hd
    exact of_decide_eq_true h
  · cases h

end Queuey.Rabbit
