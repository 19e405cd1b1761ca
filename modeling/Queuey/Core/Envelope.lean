import Queuey.Core.Time
import Mathlib.Order.Basic

/-!
# Envelopes

The wire record a job travels in, and its two successors: the next attempt of a
retried job and the copy of a deferred one. Counters are machine words. Whether an
overflowing `+` panics is a property of the build, so it is an argument here.
-/
namespace Queuey

abbrev Uuid := BitVec 128

/-- How the crate was compiled. With `overflowChecks` an overflowing `+` panics,
without it the sum wraps. -/
structure Build where
  overflowChecks : Bool
deriving DecidableEq

/-- `u32::MAX`. -/
def u32Max : ℕ := 2 ^ 32 - 1

/-- `n + 1` as the build evaluates it. -/
def Build.increment (build : Build) (n : UInt32) : Except Panic UInt32 :=
  if n.toNat < u32Max then .ok (n + 1)
  else if build.overflowChecks then .error ⟨"attempt to add with overflow"⟩
  else .ok 0

theorem increment_eq (build : Build) {n : UInt32} (h : n.toNat < u32Max) :
    build.increment n = .ok (n + 1) := by
  simp [Build.increment, h]

theorem increment_overflow (build : Build) {n : UInt32} (h : ¬ n.toNat < u32Max) :
    build.increment n =
      if build.overflowChecks then .error ⟨"attempt to add with overflow"⟩ else .ok 0 := by
  simp [Build.increment, h]

theorem increment_toNat {n : UInt32} (h : n.toNat < u32Max) :
    (n + 1).toNat = n.toNat + 1 := by
  unfold u32Max at h
  rw [UInt32.toNat_add, UInt32.toNat_one]
  omega

/-- `V` stands for the JSON values of the payload, which no operation here inspects. -/
@[ext] structure Envelope (V : Type) where
  jobId : Uuid
  jobType : String
  queue : String
  attempt : UInt32
  enqueuedAtMs : UInt64
  deferrals : UInt32
  priority : UInt8
  correlationId : Option String
  payload : V
deriving DecidableEq

namespace Envelope
variable {V : Type} {e f g : Envelope V} {build : Build} {p : UInt8}

/-- A first-attempt envelope; the fresh id and the clock reading are arguments. -/
def raw (jobId : Uuid) (nowMs : UInt64) (jobType queue : String) (payload : V) : Envelope V where
  jobId := jobId
  jobType := jobType
  queue := queue
  attempt := 1
  enqueuedAtMs := nowMs
  deferrals := 0
  priority := 0
  correlationId := none
  payload := payload

def withCorrelationId (e : Envelope V) (correlationId : String) : Envelope V :=
  { e with correlationId := some correlationId }

def nextAttempt (build : Build) (e : Envelope V) : Except Panic (Envelope V) := do
  let attempt ← build.increment e.attempt
  return { e with attempt := attempt, priority := 0 }

def deferred (build : Build) (e : Envelope V) (priority : UInt8) : Except Panic (Envelope V) := do
  let deferrals ← build.increment e.deferrals
  return { e with deferrals := deferrals, priority := priority }

/-- Two envelopes of one job: everything but the counters and the priority agrees. -/
structure SameJob (e f : Envelope V) : Prop where
  jobId : e.jobId = f.jobId
  jobType : e.jobType = f.jobType
  queue : e.queue = f.queue
  enqueuedAtMs : e.enqueuedAtMs = f.enqueuedAtMs
  correlationId : e.correlationId = f.correlationId
  payload : e.payload = f.payload

theorem SameJob.refl (e : Envelope V) : SameJob e e := ⟨rfl, rfl, rfl, rfl, rfl, rfl⟩

theorem SameJob.trans (h : SameJob e f) (k : SameJob f g) : SameJob e g :=
  ⟨h.jobId.trans k.jobId, h.jobType.trans k.jobType, h.queue.trans k.queue,
    h.enqueuedAtMs.trans k.enqueuedAtMs, h.correlationId.trans k.correlationId,
    h.payload.trans k.payload⟩

theorem nextAttempt_eq (build : Build) (h : e.attempt.toNat < u32Max) :
    e.nextAttempt build = .ok { e with attempt := e.attempt + 1, priority := 0 } := by
  simp only [nextAttempt, increment_eq build h]
  rfl

theorem deferred_eq (build : Build) (p : UInt8) (h : e.deferrals.toNat < u32Max) :
    e.deferred build p = .ok { e with deferrals := e.deferrals + 1, priority := p } := by
  simp only [deferred, increment_eq build h]
  rfl

theorem deferred_overflow (p : UInt8) (h : ¬ e.deferrals.toNat < u32Max) :
    e.deferred build p =
      if build.overflowChecks then .error ⟨"attempt to add with overflow"⟩
      else .ok { e with deferrals := 0, priority := p } := by
  simp only [deferred, increment_overflow build h]
  cases build.overflowChecks <;> rfl

/-- A counter that overflows yields no envelope. -/
theorem SameJob.of_count {counter : Except Panic UInt32} {next : UInt32 → Envelope V}
    (h : counter >>= (pure <| next ·) = .ok f) (same : ∀ n, SameJob e (next n)) : SameJob e f := by
  cases counter with
  | error p => cases h
  | ok n =>
    obtain rfl := Except.ok.inj h
    exact same n

theorem nextAttempt_sameJob (h : e.nextAttempt build = .ok f) : SameJob e f := by
  unfold nextAttempt at h
  exact .of_count h fun _ => ⟨rfl, rfl, rfl, rfl, rfl, rfl⟩

theorem deferred_sameJob (h : e.deferred build p = .ok f) : SameJob e f := by
  unfold deferred at h
  exact .of_count h fun _ => ⟨rfl, rfl, rfl, rfl, rfl, rfl⟩

end Envelope
end Queuey
