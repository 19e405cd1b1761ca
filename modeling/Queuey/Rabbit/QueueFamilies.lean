import Queuey.Rabbit.HoldName
import Queuey.Rabbit.RefusedNames

/-!
# The broker queues of a set

Main queues, dead-letter queues and hold queues are named in one namespace. Queues of one
role never meet under one name. Queues of two roles can, since nothing compares a name with
the suffixes: whether they do is decided by the names and the options alone.
-/
namespace Queuey.Rabbit
open Interaction Prog Codec Rabbit.Topology NumberedName HoldQueues
open Declaring (checkNames)

/-- What a broker queue is to its main queue. -/
inductive Role where
  | main
  | dead
  | hold (ttlMs : UInt32)
deriving DecidableEq

def Role.nameOf (options : RabbitMqOptions) (queue : String) : Role → String
  | main => queue
  | dead => deadQueueName queue options.deadSuffix
  | hold ttlMs => deferredQueueName queue options.deferredSuffix ttlMs

/-- Tells the three kinds of roles apart. -/
def Role.rank : Role → ℕ
  | main => 0
  | dead => 1
  | hold _ => 2

/-- The backend uses queues of this role: hold queues for the waits that it holds. -/
def Role.Used (options : RabbitMqOptions) : Role → Prop
  | main => True
  | dead => options.declareDeadLetterQueues = true
  | hold ttlMs => ∃ (hold : Hold) (delay : Duration),
      deferredTtlMs delay (hold.granularity options) = some ttlMs

/-- One name is one queue in one role. -/
def Apart (options : RabbitMqOptions) (configs : List QueueConfig) : Prop :=
  ∀ p ∈ configs, ∀ q ∈ configs, ∀ r s : Role, r.Used options → s.Used options →
    r.nameOf options p.name = s.nameOf options q.name → p.name = q.name ∧ r = s

/-! ## Deciding it -/

/-- A wait of so many milliseconds is held, as a retry or as a deferral. -/
def holdable (options : RabbitMqOptions) (ms : ℕ) : Bool :=
  0 < ms && ms ≤ maxDeferralMs &&
    (ms % stepMs options.retryGranularity == 0 || ms % stepMs options.deferredGranularity == 0)

/-- A name of one of the hold queues of `queue`. -/
def isHoldName (options : RabbitMqOptions) (queue name : String) : Bool :=
  match numberOf (queue ++ options.deferredSuffix) name with
  | some ms => holdable options ms
  | none => false

/-- The main or the dead-letter name of `p` is the name of a queue of `q` in another role. -/
def clash (options : RabbitMqOptions) (p q : String) : Bool :=
  options.declareDeadLetterQueues && p == deadQueueName q options.deadSuffix ||
    isHoldName options q p ||
    options.declareDeadLetterQueues && isHoldName options q (deadQueueName p options.deadSuffix)

def clashes (options : RabbitMqOptions) (configs : List QueueConfig) : Bool :=
  configs.any fun p => configs.any fun q => clash options p.name q.name

variable {options : RabbitMqOptions} {configs : List QueueConfig} {p q name : String}
  {ttl : UInt32}

theorem used_hold_iff : (Role.hold ttl).Used options ↔ holdable options ttl.toNat = true := by
  have hused : (Role.hold ttl).Used options ↔
      (∃ delay, deferredTtlMs delay options.retryGranularity = some ttl) ∨
        ∃ delay, deferredTtlMs delay options.deferredGranularity = some ttl := by
    constructor
    · rintro ⟨_ | _, delay, h⟩
      · exact .inl ⟨delay, h⟩
      · exact .inr ⟨delay, h⟩
    · rintro (⟨delay, h⟩ | ⟨delay, h⟩)
      · exact ⟨.retry, delay, h⟩
      · exact ⟨.deferral, delay, h⟩
  rw [hused, held_iff, held_iff]
  simp only [holdable, Bool.and_eq_true, Bool.or_eq_true, decide_eq_true_eq, beq_iff_eq,
    Nat.dvd_iff_mod_eq_zero]
  grind

theorem isHoldName_iff : isHoldName options q name = true ↔ ∃ ttl : UInt32,
    (Role.hold ttl).Used options ∧ name = deferredQueueName q options.deferredSuffix ttl := by
  unfold isHoldName
  constructor
  · intro h
    split at h
    · rename_i ms hms
      have hlt : ms < 2 ^ 32 := by
        simp only [holdable, Bool.and_eq_true, decide_eq_true_eq] at h
        have hmax : maxDeferralMs < 2 ^ 32 := by decide
        omega
      refine ⟨UInt32.ofNat ms, ?_, ?_⟩
      · rwa [used_hold_iff, UInt32.toNat_ofNat_of_lt' hlt]
      · rw [deferredQueueName_eq, UInt32.toNat_ofNat_of_lt' hlt]
        exact numberOf_eq_some_iff.mp hms
    · cases h
  · rintro ⟨ttl, hused, rfl⟩
    rw [deferredQueueName_eq, numberOf_eq_some_iff.mpr rfl]
    rwa [used_hold_iff] at hused

theorem clash_iff : clash options p q = true ↔ ∃ r s : Role, r.Used options ∧ s.Used options ∧
    r.rank < s.rank ∧ r.nameOf options p = s.nameOf options q := by
  simp only [clash, Bool.or_eq_true, Bool.and_eq_true, beq_iff_eq, isHoldName_iff]
  constructor
  · rintro ((⟨hdead, hname⟩ | ⟨ttl, hused, hname⟩) | ⟨hdead, ttl, hused, hname⟩)
    · exact ⟨.main, .dead, trivial, hdead, Nat.zero_lt_one, hname⟩
    · exact ⟨.main, .hold ttl, trivial, hused, Nat.zero_lt_two, hname⟩
    · exact ⟨.dead, .hold ttl, hdead, hused, Nat.one_lt_two, hname⟩
  · rintro ⟨r, s, hr, hs, hlt, hname⟩
    -- The rank of the first role is the smaller one: three pairs of kinds are left.
    cases r with
    | main =>
      cases s with
      | main => simp [Role.rank] at hlt
      | dead => exact .inl (.inl ⟨hs, hname⟩)
      | hold ttl => exact .inl (.inr ⟨ttl, hs, hname⟩)
    | dead =>
      cases s with
      | hold ttl => exact .inr ⟨hr, ttl, hs, hname⟩
      | _ => simp [Role.rank] at hlt
    | hold _ => cases s <;> simp [Role.rank] at hlt

/-! ## Within one role -/

theorem deadQueueName_inj {suffix : String} (h : deadQueueName p suffix = deadQueueName q suffix) :
    p = q := by
  have hlists : p.toList ++ suffix.toList = q.toList ++ suffix.toList := by
    simpa [deadQueueName] using congrArg String.toList h
  exact String.toList_inj.mp (List.append_cancel_right hlists)

/-- Names of one role tell their queues apart, hold names also their delays. -/
theorem nameOf_inj {r s : Role} (hrank : r.rank = s.rank)
    (h : r.nameOf options p = s.nameOf options q) : p = q ∧ r = s := by
  cases r with
  | main =>
    cases s with
    | main => exact ⟨h, rfl⟩
    | _ => simp [Role.rank] at hrank
  | dead =>
    cases s with
    | dead => exact ⟨deadQueueName_inj h, rfl⟩
    | _ => simp [Role.rank] at hrank
  | hold t =>
    cases s with
    | hold u =>
      obtain ⟨hqueue, rfl⟩ := deferredQueueName_inj h
      exact ⟨hqueue, rfl⟩
    | _ => simp [Role.rank] at hrank

theorem clashes_iff : clashes options configs = true ↔
    ∃ p ∈ configs, ∃ q ∈ configs, clash options p.name q.name = true := by
  simp only [clashes, List.any_eq_true]

theorem apart_iff : Apart options configs ↔ clashes options configs = false := by
  rw [← Bool.not_eq_true, clashes_iff]
  constructor
  · rintro hapart ⟨p, hp, q, hq, hclash⟩
    rw [clash_iff] at hclash
    obtain ⟨r, s, hr, hs, hlt, hname⟩ := hclash
    obtain ⟨-, rfl⟩ := hapart p hp q hq r s hr hs hname
    exact Nat.lt_irrefl _ hlt
  · intro hclear p hp q hq r s hr hs hname
    rcases Nat.lt_trichotomy r.rank s.rank with hlt | heq | hlt
    · refine absurd ⟨p, hp, q, hq, ?_⟩ hclear
      rw [clash_iff]
      exact ⟨r, s, hr, hs, hlt, hname⟩
    · exact nameOf_inj heq hname
    · refine absurd ⟨q, hq, p, hp, ?_⟩ hclear
      rw [clash_iff]
      exact ⟨s, r, hs, hr, hlt, hname.symm⟩

/-- Main names that end neither in the dead-letter suffix nor in a digit. -/
structure PlainNames (options : RabbitMqOptions) (configs : List QueueConfig) : Prop where
  suffix : ¬EndsInDigit options.deadSuffix
  digits : ∀ config ∈ configs, ¬EndsInDigit config.name
  dead : ∀ config ∈ configs, ¬options.deadSuffix.toList <:+ config.name.toList

theorem PlainNames.apart (h : PlainNames options configs) : Apart options configs := by
  rw [apart_iff, ← Bool.not_eq_true, clashes_iff]
  rintro ⟨p, hp, q, hq, hclash⟩
  simp only [clash, Bool.or_eq_true, Bool.and_eq_true, beq_iff_eq, isHoldName_iff,
    deferredQueueName_eq] at hclash
  rcases hclash with (⟨-, hname⟩ | ⟨ttl, -, hname⟩) | ⟨-, ttl, -, hname⟩
  · apply h.dead p hp
    rw [hname, deadQueueName, String.toList_append]
    exact List.suffix_append ..
  · apply h.digits p hp
    rw [hname]
    exact numbered_endsInDigit ..
  · have hdigit : EndsInDigit (deadQueueName p.name options.deadSuffix) := by
      rw [hname]
      exact numbered_endsInDigit ..
    exact hdigit.of_append.elim (h.digits p hp) h.suffix

/-! ## Where messages are stored -/

/-- Publishes to nothing but this queue. -/
def PublishesTo (name : String) : Op → Prop
  | .basicPublish key _ _ _ _ => key.value = name
  | _ => True

/-- Everything published goes to a dead-letter or hold queue of this queue. -/
def KeepsIn (options : RabbitMqOptions) (queue : String) (events : Trace) : Prop :=
  ∀ event ∈ events, event.1.publishes = true → ∃ role : Role, role.Used options ∧ role ≠ .main ∧
    PublishesTo (role.nameOf options queue) event.1

/-- The successor of a settled delivery is on the same queue. -/
def Settle.On {V : Type} (queue : String) : Settle V → Prop
  | .ack | .deadLetter _ => True
  | .retry next _ | .defer next _ => next.queue = queue

variable {V : Type}

theorem targets_publishesTo {key : ShortString} {declared : QueueDeclareOptions} {args : FieldTable}
    {op : Op} (h : Targets key declared args op) : PublishesTo key.value op := by
  cases op with
  | basicPublish k m i payload properties => exact congrArg ShortString.value h
  | _ => trivial

theorem publishConfirmed_publishesTo (queue : String) (payload : Bytes)
    (properties : BasicProperties) :
    (publishConfirmed queue payload properties).run.Only (PublishesTo queue) := by
  cases hkey : shortString queue with
  | error e =>
    unfold publishConfirmed
    rw [hkey]
    trivial
  | ok key =>
    have htargets : (publishConfirmed queue payload properties).run.Only
        (Targets key (declareOptions true) []) := publishConfirmed_targets payload properties hkey
    have hvalue := shortString_ok hkey
    exact htargets.mono fun _ h => hvalue ▸ targets_publishesTo h

theorem KeepsIn.append {queue : String} {before after : Trace} (h : KeepsIn options queue before)
    (k : KeepsIn options queue after) : KeepsIn options queue (before ++ after) :=
  fun event hevent => (List.mem_append.mp hevent).elim (h event) (k event)

/-- What publishes nothing keeps everything. -/
theorem KeepsIn.of_quiet {queue : String} {events : Trace}
    (h : ∀ event ∈ events, event.1.publishes = false) : KeepsIn options queue events := by
  intro event hevent hpublishes
  rw [h event hevent] at hpublishes
  cases hpublishes

theorem publishDeadLetter_keepsIn (publisher : Publisher V) (e : Envelope V) (reason : String)
    (hdead : publisher.options.declareDeadLetterQueues = true) :
    (publisher.publishDeadLetter e reason).run.Ensures fun events _ =>
      KeepsIn publisher.options e.queue events := by
  have hto : (publisher.publishDeadLetter e reason).run.Only
      (PublishesTo (publisher.deadQueue e.queue)) :=
    (only_orFail _).run_bind fun _ => publishConfirmed_publishesTo ..
  exact hto.ensures.mono fun events _ hall event hevent _ =>
    ⟨.dead, hdead, by simp, hall event hevent⟩

theorem publishHeld_keepsIn (publisher : Publisher V) (e : Envelope V) (delay : Duration)
    (hold : Hold) : (publisher.publishHeld e delay hold).run.Ensures fun events _ =>
      KeepsIn publisher.options e.queue events := by
  have haims := program_aims ⟨publisher, e, delay, hold⟩
  refine haims.mono ?_
  intro _ _ ⟨config, rest, hevents, haims⟩ event hevent hpublishes
  subst hevents
  rcases List.mem_cons.mp hevent with rfl | hevent
  · cases hpublishes
  obtain ⟨known, -, ttl, key, httl, hkey, htargets⟩ := haims event hevent
  refine ⟨.hold ttl, ⟨hold, delay, httl⟩, by simp, ?_⟩
  have hto := targets_publishesTo htargets
  rwa [hkey] at hto

/-- What is published before the original is settled decides. -/
theorem thenAck_keepsIn (delivery : RabbitMqDelivery V) {queue : String} {publish : Io Unit}
    (h : publish.run.Ensures fun events _ => KeepsIn options queue events) :
    (ExceptT.run (do publish; delivery.ackOriginal)).Ensures fun events _ =>
      KeepsIn options queue events := by
  refine Ensures.seq h (fun _ _ => id) fun before _ hbefore => ?_
  refine (ackOriginal_spec delivery).mono fun _ _ hack => ?_
  obtain ⟨answer, rfl, -⟩ := hack
  exact hbefore.append (.of_quiet (by simp [Op.publishes]))

theorem settle_keepsIn (delivery : RabbitMqDelivery V) (op : Settle V)
    (hon : op.On delivery.envelope.queue) : (delivery.settle op).run.Ensures fun events _ =>
      KeepsIn delivery.publisher.options delivery.envelope.queue events := by
  unfold RabbitMqDelivery.settle
  cases op with
  | ack =>
    refine (ackOriginal_spec delivery).mono fun _ _ hack => ?_
    obtain ⟨answer, rfl, -⟩ := hack
    exact .of_quiet (by simp [Op.publishes])
  | deadLetter reason =>
    dsimp only
    split
    · rename_i hdead
      exact thenAck_keepsIn delivery (publishDeadLetter_keepsIn _ _ reason hdead)
    · refine (rejectOriginal_spec delivery).mono fun _ _ hreject => ?_
      obtain ⟨answer, rfl, -⟩ := hreject
      exact .of_quiet (by simp [Op.publishes])
  | retry next delay =>
    apply thenAck_keepsIn delivery
    rw [← (hon : next.queue = _)]
    exact publishHeld_keepsIn _ next delay .retry
  | defer next delay =>
    apply thenAck_keepsIn delivery
    rw [← (hon : next.queue = _)]
    exact publishHeld_keepsIn _ next delay .deferral

/-- Of all queues of the set's families, nothing but the other queues of this one is
published to. -/
def Confined (options : RabbitMqOptions) (configs : List QueueConfig) (queue : String)
    (events : Trace) : Prop :=
  ∀ event ∈ events, event.1.publishes = true → ∀ other ∈ configs, ∀ role : Role,
    role.Used options → PublishesTo (role.nameOf options other.name) event.1 →
      other.name = queue ∧ role ≠ .main

theorem publishesTo_inj {a b : String} {op : Op} (hop : op.publishes = true) (h : PublishesTo a op)
    (k : PublishesTo b op) : a = b := by
  cases op with
  | basicPublish key m i payload properties => exact h.symm.trans k
  | _ => cases hop

theorem KeepsIn.confined {config : QueueConfig} {events : Trace} (hapart : Apart options configs)
    (hconfig : config ∈ configs) (h : KeepsIn options config.name events) :
    Confined options configs config.name events := by
  intro event hevent hpublishes other hother role hrole hto
  obtain ⟨kept, hkept, hmain, hkeptTo⟩ := h event hevent hpublishes
  have hname := publishesTo_inj hpublishes hto hkeptTo
  obtain ⟨hqueue, rfl⟩ := hapart other hother config hconfig role kept hrole hkept hname
  exact ⟨hqueue, hmain⟩

/-- When the broker queues of a set are apart, and what follows from it. -/
structure QueueFamilies (options : RabbitMqOptions) (configs : List QueueConfig) : Prop where
  deadNames : ∀ p q, deadQueueName p options.deadSuffix = deadQueueName q options.deadSuffix → p = q
  holdNames : ∀ p q s t, deferredQueueName p options.deferredSuffix s =
    deferredQueueName q options.deferredSuffix t → p = q ∧ s = t
  apart : Apart options configs ↔ clashes options configs = false
  plain : PlainNames options configs → Apart options configs
  /-- Dead letters, retries and deferrals. -/
  settled : clashes options configs = false → ∀ {V : Type} (delivery : RabbitMqDelivery V)
    (op : Settle V) (config : QueueConfig) (env : Env Op Ans), config ∈ configs →
    delivery.publisher.options = options → delivery.envelope.queue = config.name →
    op.On config.name →
      Confined options configs config.name ((delivery.settle op).run.exec env 0).1
  /-- Delayed publishes. -/
  delayed : clashes options configs = false → ∀ {V : Type} (r : Request V) (config : QueueConfig)
    (env : Env Op Ans), config ∈ configs → r.publisher.options = options →
    r.envelope.queue = config.name → Confined options configs config.name (r.events env)
  /-- Room for the name of every hold queue. -/
  deferrable : checkNames options.deferredSuffix configs = .ok () → ∀ config ∈ configs, ∀ ttl,
    (Role.hold ttl).Used options →
    (deferredQueueName config.name options.deferredSuffix ttl).utf8ByteSize ≤ maxShortStringLength

/-- Whether the families of a set overlap is decided by its names and the options. -/
theorem queueFamilies (options : RabbitMqOptions) (configs : List QueueConfig) :
    QueueFamilies options configs where
  deadNames _ _ h := deadQueueName_inj h
  holdNames _ _ _ _ h := deferredQueueName_inj h
  apart := apart_iff
  plain := PlainNames.apart
  settled hclear _ delivery op config env hconfig hoptions hqueue hon := by
    subst hoptions
    have hkeeps := (settle_keepsIn delivery op (hqueue ▸ hon)).exec env 0
    rw [hqueue] at hkeeps
    exact hkeeps.confined (apart_iff.mpr hclear) hconfig
  delayed hclear _ r config env hconfig hoptions hqueue := by
    subst hoptions
    have hkeeps := (publishHeld_keepsIn r.publisher r.envelope r.delay r.hold).exec env 0
    rw [hqueue] at hkeeps
    exact hkeeps.confined (apart_iff.mpr hclear) hconfig
  deferrable hchecked config hconfig ttl hused := by
    obtain ⟨hold, delay, httl⟩ := hused
    have hfits := checkNames_ok.mp hchecked config hconfig
    exact deferrable_short (if_pos (Nat.le_of_not_lt hfits)) httl

/-- With the default suffixes, `mail` meets `mail.dead` and `mail.deferred.30000`. -/
theorem queueFamilies_overlap :
    let options : RabbitMqOptions := ⟨".dead", true, ".deferred", .fromSecs 1, .fromSecs 1⟩
    let dead : List QueueConfig := [.new "mail", .new "mail.dead"]
    let held : List QueueConfig := [.new "mail", .new "mail.deferred.30000"]
    (checkNames options.deferredSuffix dead = .ok () ∧ (dead.map (·.name)).Nodup ∧
        ¬Apart options dead) ∧
      checkNames options.deferredSuffix held = .ok () ∧ (held.map (·.name)).Nodup ∧
        ¬Apart options held := by
  intro options dead held
  rw [apart_iff, apart_iff]
  decide

end Queuey.Rabbit
