import Queuey.Macros.DerivedSet
import Queuey.Macros.DurationLiteral
import Queuey.Macros.RetryGrammar
import Queuey.Rabbit.Topology

/-!
# The time-to-live written in source

A `message_ttl` is accepted by the derive exactly when a broker can hold it, and then it is
what the main queue is declared with, to the millisecond. The two crates have the limit
each for itself.
-/
namespace Queuey.Rabbit
open Macros Rabbit.Topology

/-- A duration that the broker has a number of milliseconds for. -/
def Expressible (s : String) (millis : ℕ) : Prop :=
  Spells s millis ∧ 1 ≤ millis ∧ millis ≤ maxTtlMs

/-- The argument of the main queue is what its attribute spells, and absent without one. -/
def Carried (written : List Payload) (config : QueueConfig) : Prop :=
  (written = [] ∧ (queueArgs config).lookup argMessageTtl = none) ∨
    ∃ s millis, written = [.text s] ∧ Expressible s millis ∧
      (queueArgs config).lookup argMessageTtl = some (.longLongInt millis)

theorem maxMessageTtlMs_eq : maxMessageTtlMs.toNat = maxTtlMs := rfl

theorem parseMessageTtl_ok_iff {s : String} {millis : UInt64} :
    parseMessageTtl s = .ok millis ↔ Expressible s millis.toNat := by
  have hiff : parseMessageTtl s = .ok millis ↔
      parseLit s "message_ttl" = .ok millis ∧ ¬maxMessageTtlMs < millis := by
    unfold parseMessageTtl
    cases hlit : parseLit s "message_ttl" with
    | error e => simp [bind, Except.bind]
    | ok found =>
      by_cases hlarge : maxMessageTtlMs < found
      · simp only [bind, Except.bind, hlarge, if_true]
        constructor
        · intro h
          cases h
        · rintro ⟨h, hsmall⟩
          obtain rfl := Except.ok.inj h
          exact absurd hlarge hsmall
      · simp only [bind, Except.bind, hlarge, if_false]
        constructor
        · intro h
          obtain rfl := Except.ok.inj h
          exact ⟨rfl, hlarge⟩
        · rintro ⟨h, -⟩
          obtain rfl := Except.ok.inj h
          rfl
  have hpos : 0 < millis ↔ 1 ≤ millis.toNat := UInt64.lt_iff_toNat_lt
  have hmax : ¬maxMessageTtlMs < millis ↔ millis.toNat ≤ maxTtlMs := by
    rw [UInt64.lt_iff_toNat_lt, maxMessageTtlMs_eq, not_lt]
  rw [hiff, parseLit_ok_iff, parseMillis_ok_iff, hpos, hmax, and_assoc]
  rfl

/-- Neither rounded nor clamped. -/
theorem ttlMillis_fromMillis {millis : UInt64} (hpos : 1 ≤ millis.toNat)
    (hle : millis.toNat ≤ maxTtlMs) : ttlMillis (.fromMillis millis) = millis.toNat := by
  have hceil : millisCeil (.fromMillis millis) = millis.toNat := by
    simp only [millisCeil, Duration.fromMillis]
    omega
  unfold ttlMillis
  rw [hceil]
  omega

theorem queueArgs_lookup (config : QueueConfig) : (queueArgs config).lookup argMessageTtl =
    config.messageTtl.map fun ttl => .longLongInt (ttlMillis ttl) := by
  unfold queueArgs
  cases config.messageTtl <;> cases config.maxPriority <;> rfl

theorem configExpr_messageTtl (queue : ResolvedQueue) :
    (configExpr queue).messageTtl = queue.attr.messageTtl.map .fromMillis := by
  unfold configExpr
  cases queue.attr.prefetch <;> cases queue.attr.durable <;> cases queue.attr.messageTtl <;>
    cases queue.attr.maxPriority <;> cases queue.attr.retry <;> rfl

/-- A main queue is declared with the time-to-live its variant was resolved with. -/
theorem carried_of_resolve {t : CaseTable} {container : ContainerAttr} {v : Variant}
    {queue : ResolvedQueue} (h : resolveVariant t container v = .ok queue) :
    Carried (givenTo "queue" "message_ttl" v.attrs) (configExpr queue) := by
  unfold Carried
  rw [queueArgs_lookup, configExpr_messageTtl]
  rcases messageTtl_of_resolve h with ⟨hgiven, hnone⟩ | ⟨s, millis, hgiven, hparse, hsome⟩
  · rw [hnone]
    exact .inl ⟨hgiven, rfl⟩
  · obtain ⟨hspells, hpos, hle⟩ := parseMessageTtl_ok_iff.mp hparse
    refine .inr ⟨s, millis.toNat, hgiven, ⟨hspells, hpos, hle⟩, ?_⟩
    rw [hsome, Option.map_some, Option.map_some, ttlMillis_fromMillis hpos hle]

/-- Next to whatever else has been read, a time-to-live is accepted exactly when a broker can
hold it. Whatever enum is accepted, each main queue is declared with exactly what is written,
its dead-letter queue with no time-to-live, and a hold queue with its own delay alone. -/
theorem message_ttl_exact :
    (∀ (s : String) (parsed : QueueAttr), parsed.messageTtl = none →
      ((∃ parsed', parseQueueKey parsed ("message_ttl", .text s) = .ok parsed') ↔
        ∃ millis, Expressible s millis)) ∧
    ∀ (t : CaseTable) (paths : CratePaths) (attrs : List Attr) (generic : Bool)
      (variants : List Variant) (distinct : (variants.map Variant.ident).Nodup)
      (set : QueueSetImpl),
      derive t paths ⟨attrs, generic, .enumeration variants distinct⟩ = .ok set →
      ∀ v ∈ variants, ∃ config, set.config v.ident = some config ∧
        Carried (givenTo "queue" "message_ttl" v.attrs) config ∧
        (deadQueueArgs config).lookup argMessageTtl = none ∧
        ∀ ttl : UInt32, (deferredQueueArgs config ttl).lookup argMessageTtl =
          some (.longLongInt ttl.toNat) := by
  constructor
  · intro s parsed hempty
    constructor
    · rintro ⟨parsed', h⟩
      obtain ⟨-, millis, ⟨_, htext, hmillis⟩, -⟩ := messageTtlSlot.fill parsed _ parsed' h
      obtain rfl : s = _ := by simpa using htext
      exact ⟨_, parseMessageTtl_ok_iff.mp hmillis⟩
    · rintro ⟨millis, hspells, hpos, hle⟩
      have hmillis : (UInt64.ofNat millis).toNat = millis := by
        have hmax : maxTtlMs < 2 ^ 64 := by decide
        exact UInt64.toNat_ofNat_of_lt' (hle.trans_lt hmax)
      have hparse : parseMessageTtl s = .ok (UInt64.ofNat millis) := by
        rw [parseMessageTtl_ok_iff, hmillis]
        exact ⟨hspells, hpos, hle⟩
      have hfree : parsed.messageTtl.isSome = false := by simp [hempty]
      exact ⟨_, bind_ok_iff.mpr ⟨.lit (.str s), rfl, bind_ok_iff.mpr ⟨s, rfl,
        bind_ok_iff.mpr ⟨_, hparse, setOnce_bind_ok.mpr ⟨hfree, rfl⟩⟩⟩⟩⟩
  · intro t paths attrs generic variants distinct set h v hv
    obtain ⟨container, resolved, -, hres, rfl⟩ := resolves_of_derive rfl h
    obtain ⟨queue, -, hok, -, -, hconfig⟩ := hres.arms hv
    exact ⟨configExpr queue, hconfig, carried_of_resolve hok, rfl, fun ttl => rfl⟩

def weekly : Variant :=
  ⟨⟨"Weekly", visible_of_all (by decide)⟩, true, [⟨"queue", .list [("message_ttl", .text "7 d")]⟩]⟩

def weeklySet : QueueSetImpl :=
  emit [⟨weekly.ident, "weekly", { QueueAttr.empty with messageTtl := some 604800000 }⟩]

theorem message_ttl_exact_weekly : ∃ config, weeklySet.config weekly.ident = some config ∧
    Carried (givenTo "queue" "message_ttl" weekly.attrs) config ∧
    (deadQueueArgs config).lookup argMessageTtl = none ∧
    ∀ ttl : UInt32, (deferredQueueArgs config ttl).lookup argMessageTtl =
      some (.longLongInt ttl.toNat) :=
  message_ttl_exact.2 asciiTable mailPaths [] false [weekly] (by decide) weeklySet
    (by decide) weekly (List.mem_singleton_self weekly)

end Queuey.Rabbit
