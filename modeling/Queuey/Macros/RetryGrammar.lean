import Queuey.Macros.DurationLiteral
import Queuey.Macros.Retry

/-!
# The `retry(...)` grammar

What a list of the seven keys is accepted for, key by key, and the policy it stands for.
The parser accepts exactly the lists of the grammar, and the policy it builds shows every
key that was written.
-/
namespace Queuey.Macros

/-- One key with its parsed value. -/
inductive Entry where
  | maxAttempts (n : UInt32)
  | backoff (kind : String)
  | delay (millis : UInt64)
  | base (millis : UInt64)
  | factor (x : F64)
  | max (millis : UInt64)
  | jitter (b : Bool)
deriving DecidableEq

def Entry.key : Entry → String
  | maxAttempts _ => "max_attempts"
  | backoff _ => "backoff"
  | delay _ => "delay"
  | base _ => "base"
  | factor _ => "factor"
  | max _ => "max"
  | jitter _ => "jitter"

/-- What is written after a key reads as a value of its type. -/
inductive Reads : String × Value → Entry → Prop
  | maxAttempts {value : Value} {n : ℕ} :
      litInt "max_attempts" maxAttemptsRange u32Max value = .ok n →
      Reads ("max_attempts", value) (.maxAttempts (UInt32.ofNat n))
  | backoff {value : Value} {kind : String} :
      litStr "backoff" value = .ok kind → Reads ("backoff", value) (.backoff kind)
  | delay {value : Value} {s : String} {millis : UInt64} :
      litStr "delay" value = .ok s → parseMillis s = .ok millis →
      Reads ("delay", value) (.delay millis)
  | base {value : Value} {s : String} {millis : UInt64} :
      litStr "base" value = .ok s → parseMillis s = .ok millis →
      Reads ("base", value) (.base millis)
  | factor {value : Value} {x : F64} :
      litF64 "factor" value = .ok x → Reads ("factor", value) (.factor x)
  | max {value : Value} {s : String} {millis : UInt64} :
      litStr "max" value = .ok s → parseMillis s = .ok millis →
      Reads ("max", value) (.max millis)
  | jitter {value : Value} {b : Bool} :
      litBool "jitter" value = .ok b → Reads ("jitter", value) (.jitter b)

namespace Entry

def maxAttempts? : Entry → Option UInt32
  | maxAttempts n => some n
  | _ => none

def backoff? : Entry → Option String
  | backoff kind => some kind
  | _ => none

def delay? : Entry → Option UInt64
  | delay millis => some millis
  | _ => none

def base? : Entry → Option UInt64
  | base millis => some millis
  | _ => none

def factor? : Entry → Option F64
  | factor x => some x
  | _ => none

def max? : Entry → Option UInt64
  | max millis => some millis
  | _ => none

def jitter? : Entry → Option Bool
  | jitter b => some b
  | _ => none

/-- A duration that is given is positive. -/
def Positive : Entry → Prop
  | delay millis | base millis | max millis => 0 < millis
  | _ => True

end Entry

/-- The keys of a list, each with the first value it is given. -/
def written (entries : List Entry) : RetryRaw where
  maxAttempts := entries.findSome? Entry.maxAttempts?
  backoff := entries.findSome? Entry.backoff?
  delay := entries.findSome? Entry.delay?
  base := entries.findSome? Entry.base?
  factor := entries.findSome? Entry.factor?
  max := entries.findSome? Entry.max?
  jitter := entries.findSome? Entry.jitter?

namespace RetryRaw
variable (keys : RetryRaw)

/-- The kind of backoff, exponential unless it is written. -/
def kind : String := keys.backoff.getD "exponential"

/-- The lists the grammar allows, by the keys that are given. -/
structure Allowed : Prop where
  attempts : ∀ n ∈ keys.maxAttempts, 1 ≤ n
  kind : keys.kind = "none" ∨ keys.kind = "fixed" ∨ keys.kind = "exponential"
  /-- A fixed backoff has a delay, and no other kind has one. -/
  delay : keys.delay.isSome ↔ keys.kind = "fixed"
  /-- Only an exponential backoff has the keys of the curve. -/
  curve : keys.base.isSome ∨ keys.factor.isSome ∨ keys.max.isSome ∨ keys.jitter.isSome →
    keys.kind = "exponential"
  factor : ∀ x ∈ keys.factor, x.isFinite ∧ F64.lt (.finite 0) x
  /-- `base` is at most `max`, where one second and five minutes stand for what is left out. -/
  ordered : keys.kind = "exponential" → keys.base.getD 1000 ≤ keys.max.getD 300000

/-- The policy a list stands for: its own values, and the documented ones for the rest. -/
def policy : RetryPolicy where
  maxAttempts := keys.maxAttempts.getD 3
  backoff :=
    if keys.kind = "none" then .none
    else if keys.kind = "fixed" then .fixed (.fromMillis (keys.delay.getD 0))
    else
      .exponential ((keys.base.map .fromMillis).getD (.fromSecs 1)) (keys.factor.getD (.finite 2))
        ((keys.max.map .fromMillis).getD (.fromSecs 300)) (keys.jitter.getD true)

end RetryRaw

/-- The policy has the value that was written. -/
def Entry.ShownIn (policy : RetryPolicy) : Entry → Prop
  | maxAttempts n => policy.maxAttempts = n
  | backoff kind =>
    match policy.backoff with
    | .none => kind = "none"
    | .fixed _ => kind = "fixed"
    | .exponential .. => kind = "exponential"
  | delay millis => policy.backoff = .fixed (.fromMillis millis)
  | base millis => ∃ factor max jitter,
      policy.backoff = .exponential (.fromMillis millis) factor max jitter
  | factor x => ∃ base max jitter, policy.backoff = .exponential base x max jitter
  | max millis => ∃ base factor jitter,
      policy.backoff = .exponential base factor (.fromMillis millis) jitter
  | jitter b => ∃ base factor max, policy.backoff = .exponential base factor max b

/-! ## Reading the keys -/

namespace RetryRaw

/-- The key of an entry has been given. -/
def taken (raw : RetryRaw) : Entry → Bool
  | .maxAttempts _ => raw.maxAttempts.isSome
  | .backoff _ => raw.backoff.isSome
  | .delay _ => raw.delay.isSome
  | .base _ => raw.base.isSome
  | .factor _ => raw.factor.isSome
  | .max _ => raw.max.isSome
  | .jitter _ => raw.jitter.isSome

/-- Record an entry whose key has not been given. -/
def put (raw : RetryRaw) : Entry → RetryRaw
  | .maxAttempts n => { raw with maxAttempts := raw.maxAttempts.or (some n) }
  | .backoff kind => { raw with backoff := raw.backoff.or (some kind) }
  | .delay millis => { raw with delay := raw.delay.or (some millis) }
  | .base millis => { raw with base := raw.base.or (some millis) }
  | .factor x => { raw with factor := raw.factor.or (some x) }
  | .max millis => { raw with max := raw.max.or (some millis) }
  | .jitter b => { raw with jitter := raw.jitter.or (some b) }

end RetryRaw

section Reading
variable {α β : Type} {raw raw' : RetryRaw} {key : String} {value : Value} {entry : Entry}
  {items : List (String × Value)} {entries : List Entry}

theorem bind_ok_iff {ε : Type} {x : Except ε α} {f : α → Except ε β} {b : β} :
    x >>= f = .ok b ↔ ∃ a, x = .ok a ∧ f a = .ok b := by
  constructor
  · exact bind_ok
  · rintro ⟨a, rfl, h⟩
    exact h

/-- A key is recorded only in an empty slot. -/
theorem setOnce_bind_ok {slot : Option α} {v : α} {f : Option α → β} {b : β} :
    (do return f (← setOnce key slot v) : Except String β) = .ok b ↔
      slot.isSome = false ∧ b = f (slot.or (some v)) := by
  cases slot with
  | none => simp [setOnce, bind, Except.bind, pure, Except.pure, eq_comm]
  | some w => simp [setOnce, bind, Except.bind]

theorem parseKey_ok (h : parseKey raw key value = .ok raw') :
    ∃ entry, Reads (key, value) entry ∧ entry.Positive ∧ raw.taken entry = false ∧
      raw' = raw.put entry := by
  unfold parseKey at h
  split_ifs at h with hattempts hbackoff hdelay hbase hfactor hmax hjitter
  · obtain ⟨n, hn, h⟩ := bind_ok h
    obtain ⟨hslot, rfl⟩ := setOnce_bind_ok.mp h
    exact ⟨.maxAttempts _, hattempts ▸ .maxAttempts (hattempts ▸ hn), trivial, hslot, rfl⟩
  · obtain ⟨kind, hkind, h⟩ := bind_ok h
    obtain ⟨hslot, rfl⟩ := setOnce_bind_ok.mp h
    exact ⟨.backoff kind, hbackoff ▸ .backoff (hbackoff ▸ hkind), trivial, hslot, rfl⟩
  · obtain ⟨s, hs, h⟩ := bind_ok h
    obtain ⟨millis, hmillis, h⟩ := bind_ok h
    obtain ⟨hslot, rfl⟩ := setOnce_bind_ok.mp h
    obtain ⟨hparse, hpos⟩ := parseLit_ok_iff.mp hmillis
    exact ⟨.delay millis, hdelay ▸ .delay (hdelay ▸ hs) hparse, hpos, hslot, rfl⟩
  · obtain ⟨s, hs, h⟩ := bind_ok h
    obtain ⟨millis, hmillis, h⟩ := bind_ok h
    obtain ⟨hslot, rfl⟩ := setOnce_bind_ok.mp h
    obtain ⟨hparse, hpos⟩ := parseLit_ok_iff.mp hmillis
    exact ⟨.base millis, hbase ▸ .base (hbase ▸ hs) hparse, hpos, hslot, rfl⟩
  · obtain ⟨x, hx, h⟩ := bind_ok h
    obtain ⟨hslot, rfl⟩ := setOnce_bind_ok.mp h
    exact ⟨.factor x, hfactor ▸ .factor (hfactor ▸ hx), trivial, hslot, rfl⟩
  · obtain ⟨s, hs, h⟩ := bind_ok h
    obtain ⟨millis, hmillis, h⟩ := bind_ok h
    obtain ⟨hslot, rfl⟩ := setOnce_bind_ok.mp h
    obtain ⟨hparse, hpos⟩ := parseLit_ok_iff.mp hmillis
    exact ⟨.max millis, hmax ▸ .max (hmax ▸ hs) hparse, hpos, hslot, rfl⟩
  · obtain ⟨b, hb, h⟩ := bind_ok h
    obtain ⟨hslot, rfl⟩ := setOnce_bind_ok.mp h
    exact ⟨.jitter b, hjitter ▸ .jitter (hjitter ▸ hb), trivial, hslot, rfl⟩

theorem parseKey_reads (h : Reads (key, value) entry) (hpos : entry.Positive)
    (hfree : raw.taken entry = false) : parseKey raw key value = .ok (raw.put entry) := by
  cases h with
  | maxAttempts hn =>
    exact bind_ok_iff.mpr ⟨_, hn, setOnce_bind_ok.mpr ⟨hfree, rfl⟩⟩
  | backoff hkind =>
    exact bind_ok_iff.mpr ⟨_, hkind, setOnce_bind_ok.mpr ⟨hfree, rfl⟩⟩
  | delay hs hparse =>
    exact bind_ok_iff.mpr ⟨_, hs, bind_ok_iff.mpr ⟨_, parseLit_ok_iff.mpr ⟨hparse, hpos⟩,
      setOnce_bind_ok.mpr ⟨hfree, rfl⟩⟩⟩
  | base hs hparse =>
    exact bind_ok_iff.mpr ⟨_, hs, bind_ok_iff.mpr ⟨_, parseLit_ok_iff.mpr ⟨hparse, hpos⟩,
      setOnce_bind_ok.mpr ⟨hfree, rfl⟩⟩⟩
  | factor hx =>
    exact bind_ok_iff.mpr ⟨_, hx, setOnce_bind_ok.mpr ⟨hfree, rfl⟩⟩
  | max hs hparse =>
    exact bind_ok_iff.mpr ⟨_, hs, bind_ok_iff.mpr ⟨_, parseLit_ok_iff.mpr ⟨hparse, hpos⟩,
      setOnce_bind_ok.mpr ⟨hfree, rfl⟩⟩⟩
  | jitter hb =>
    exact bind_ok_iff.mpr ⟨_, hb, setOnce_bind_ok.mpr ⟨hfree, rfl⟩⟩

theorem taken_put (raw : RetryRaw) (entry e : Entry) :
    (raw.put entry).taken e = false ↔ raw.taken e = false ∧ entry.key ≠ e.key := by
  cases entry <;> cases e <;> simp [RetryRaw.put, RetryRaw.taken, Entry.key]

/-- A list is read when each of its items is, and no key comes twice. -/
theorem foldlM_ok_iff :
    items.foldlM (fun raw item => parseKey raw item.1 item.2) raw = .ok raw' ↔
      ∃ entries, List.Forall₂ Reads items entries ∧ (∀ e ∈ entries, e.Positive) ∧
        (entries.map Entry.key).Nodup ∧ (∀ e ∈ entries, raw.taken e = false) ∧
        raw' = entries.foldl RetryRaw.put raw := by
  induction items generalizing raw with
  | nil =>
    constructor
    · intro h
      obtain rfl := Except.ok.inj h
      exact ⟨[], .nil, by simp, List.nodup_nil, by simp, rfl⟩
    · rintro ⟨entries, hreads, -, -, -, rfl⟩
      cases hreads
      rfl
  | cons item items ih =>
    rw [List.foldlM_cons]
    constructor
    · intro h
      obtain ⟨next, hnext, h⟩ := bind_ok h
      obtain ⟨e, he, hpos, hfree, rfl⟩ := parseKey_ok hnext
      obtain ⟨entries, hreads, hall, hnodup, hfrees, rfl⟩ := ih.mp h
      simp only [taken_put] at hfrees
      refine ⟨e :: entries, .cons he hreads, ?_, ?_, ?_, rfl⟩
      · exact List.forall_mem_cons.mpr ⟨hpos, hall⟩
      · refine List.nodup_cons.mpr ⟨?_, hnodup⟩
        intro hmem
        obtain ⟨other, hother, hkey⟩ := List.mem_map.mp hmem
        exact (hfrees other hother).2 hkey.symm
      · exact List.forall_mem_cons.mpr ⟨hfree, fun other hother => (hfrees other hother).1⟩
    · rintro ⟨entries, hreads, hall, hnodup, hfrees, rfl⟩
      cases hreads with
      | cons he hreads =>
        rename_i e entries
        obtain ⟨hpos, hall⟩ := List.forall_mem_cons.mp hall
        obtain ⟨hfree, hfrees⟩ := List.forall_mem_cons.mp hfrees
        obtain ⟨hnotMem, hnodup⟩ := List.nodup_cons.mp hnodup
        refine bind_ok_iff.mpr ⟨_, parseKey_reads he hpos hfree, ?_⟩
        refine ih.mpr ⟨entries, hreads, hall, hnodup, ?_, rfl⟩
        intro other hother
        refine (taken_put raw e other).mpr ⟨hfrees other hother, ?_⟩
        intro hkey
        exact hnotMem (List.mem_map.mpr ⟨other, hother, hkey.symm⟩)

theorem foldl_put (raw : RetryRaw) (entries : List Entry) :
    entries.foldl RetryRaw.put raw =
      ⟨raw.maxAttempts.or (entries.findSome? Entry.maxAttempts?),
        raw.backoff.or (entries.findSome? Entry.backoff?),
        raw.delay.or (entries.findSome? Entry.delay?),
        raw.base.or (entries.findSome? Entry.base?),
        raw.factor.or (entries.findSome? Entry.factor?),
        raw.max.or (entries.findSome? Entry.max?),
        raw.jitter.or (entries.findSome? Entry.jitter?)⟩ := by
  induction entries generalizing raw with
  | nil => simp
  | cons e entries ih =>
    rw [List.foldl_cons, ih]
    cases e <;> simp only [List.findSome?_cons, RetryRaw.put, Entry.maxAttempts?, Entry.backoff?,
      Entry.delay?, Entry.base?, Entry.factor?, Entry.max?, Entry.jitter?, Option.or_assoc,
      Option.some_or]

theorem foldl_put_empty (entries : List Entry) :
    entries.foldl RetryRaw.put RetryRaw.empty = written entries := foldl_put RetryRaw.empty entries

end Reading

/-! ## Resolving them -/

namespace RetryRaw
variable {raw : RetryRaw} {spec : RetrySpec}

theorem attempts_ok_iff {n : UInt32} :
    raw.attempts = .ok n ↔ (∀ m ∈ raw.maxAttempts, 1 ≤ m) ∧ raw.maxAttempts.getD 3 = n := by
  unfold attempts
  cases raw.maxAttempts with
  | none => simp [defaultMaxAttempts]
  | some m =>
    have hpos : m ≠ 0 ↔ 1 ≤ m := by
      rw [← UInt32.pos_iff_ne_zero, UInt32.lt_iff_toNat_lt, UInt32.le_iff_toNat_le]
      rfl
    by_cases hm : m = 0
    · simp [hm]
    · simp [hm, hpos.mp hm]

theorem reject_ok_iff {α : Type} {slot : Option α} {key kind : String} {u : Unit} :
    reject slot key kind = .ok u ↔ slot = none := by
  cases slot <;> simp [reject]

theorem rejectExponential_ok_iff {u : Unit} : raw.rejectExponential = .ok u ↔
    raw.base = none ∧ raw.factor = none ∧ raw.max = none ∧ raw.jitter = none := by
  simp only [rejectExponential, bind_ok_iff, reject_ok_iff]
  simp

theorem expFactor_ok_iff {x : F64} : raw.expFactor = .ok x ↔
    (∀ y ∈ raw.factor, y.isFinite ∧ F64.lt (.finite 0) y) ∧ raw.factor.getD (.finite 2) = x := by
  unfold expFactor
  cases raw.factor with
  | none => simp [defaultExpFactor]
  | some y =>
    cases y with
    | finite q =>
      by_cases hq : q ≤ 0
      · simp [F64.le, F64.lt, F64.isFinite, hq]
      · simp [F64.le, F64.lt, F64.isFinite, hq, not_le.mp hq]
    | _ => simp [F64.isFinite]

theorem exponential_ok_iff {backoff : BackoffSpec} : raw.exponential = .ok backoff ↔
    raw.delay = none ∧ (∀ x ∈ raw.factor, x.isFinite ∧ F64.lt (.finite 0) x) ∧
      raw.base.getD 1000 ≤ raw.max.getD 300000 ∧
      .exponential (raw.base.getD 1000) (raw.factor.getD (.finite 2)) (raw.max.getD 300000)
        (raw.jitter.getD true) = backoff := by
  have hbase : defaultExpBaseMs = 1000 := rfl
  have hmax : defaultExpMaxMs = 300000 := rfl
  have hjitter : defaultExpJitter = true := rfl
  simp only [exponential, bind_ok_iff, reject_ok_iff, expFactor_ok_iff, hbase, hmax, hjitter]
  by_cases hle : raw.base.getD 1000 ≤ raw.max.getD 300000
  · simp [hle, UInt64.not_lt.mpr hle, pure, Except.pure]
  · simp [hle, UInt64.not_le.mp hle, throw, throwThe, MonadExceptOf.throw, bind, Except.bind]

theorem resolve_ok_iff {kind : String} {backoff : BackoffSpec} :
    raw.resolve kind = .ok backoff ↔
      (kind = "none" ∧ raw.delay = none ∧ raw.rejectExponential = .ok () ∧ .none = backoff) ∨
      (kind = "fixed" ∧ raw.rejectExponential = .ok () ∧
        ∃ delayMs, raw.delay = some delayMs ∧ .fixed delayMs = backoff) ∨
      (kind = "exponential" ∧ raw.exponential = .ok backoff) := by
  unfold resolve
  split_ifs with hnone hfixed hexp
  · subst hnone
    simp [bind_ok_iff, reject_ok_iff, Unique.exists_iff, pure, Except.pure]
  · subst hfixed
    simp only [bind_ok_iff]
    cases raw.delay with
    | none => simp [throw, throwThe, MonadExceptOf.throw]
    | some delayMs => simp [Unique.exists_iff, pure, Except.pure]
  · subst hexp
    simp
  · simp [hnone, hfixed, hexp]

/-- A kind that is not exponential has none of the keys of the curve. -/
theorem rejectExponential_iff : raw.rejectExponential = .ok () ↔
    ¬(raw.base.isSome ∨ raw.factor.isSome ∨ raw.max.isSome ∨ raw.jitter.isSome) := by
  rw [rejectExponential_ok_iff]
  simp

theorem allowed_of_finish (h : raw.finish = .ok spec) : raw.Allowed ∧
    spec.toTokens = raw.policy := by
  unfold finish at h
  obtain ⟨n, hn, h⟩ := bind_ok h
  obtain ⟨backoff, hbackoff, h⟩ := bind_ok h
  obtain rfl := Except.ok.inj h
  obtain ⟨hattempts, rfl⟩ := attempts_ok_iff.mp hn
  rcases resolve_ok_iff.mp hbackoff with ⟨hkind, hdelay, hcurve, rfl⟩ |
      ⟨hkind, hcurve, delayMs, hdelay, rfl⟩ | ⟨hkind, hexp⟩
  · have hcurve := rejectExponential_iff.mp hcurve
    have hfactor : raw.factor = none := by simpa using fun h => hcurve (.inr (.inl h))
    have hkind : raw.kind = "none" := hkind
    refine ⟨⟨hattempts, .inl hkind, by simp [hdelay, hkind], fun h => absurd h hcurve,
      by simp [hfactor], by simp [hkind]⟩, ?_⟩
    simp [policy, hkind, RetrySpec.toTokens, BackoffSpec.toTokens]
  · have hcurve := rejectExponential_iff.mp hcurve
    have hfactor : raw.factor = none := by simpa using fun h => hcurve (.inr (.inl h))
    have hkind : raw.kind = "fixed" := hkind
    refine ⟨⟨hattempts, .inr (.inl hkind), by simp [hdelay, hkind], fun h => absurd h hcurve,
      by simp [hfactor], by simp [hkind]⟩, ?_⟩
    simp [policy, hkind, hdelay, RetrySpec.toTokens, BackoffSpec.toTokens]
  · obtain ⟨hdelay, hfactor, hle, rfl⟩ := exponential_ok_iff.mp hexp
    have hkind : raw.kind = "exponential" := hkind
    refine ⟨⟨hattempts, .inr (.inr hkind), by simp [hdelay, hkind], fun _ => hkind, hfactor,
      fun _ => hle⟩, ?_⟩
    have hbase : (raw.base.map Duration.fromMillis).getD (.fromSecs 1) =
        .fromMillis (raw.base.getD 1000) := by cases raw.base <;> rfl
    have hmax : (raw.max.map Duration.fromMillis).getD (.fromSecs 300) =
        .fromMillis (raw.max.getD 300000) := by cases raw.max <;> rfl
    simp [policy, hkind, hbase, hmax, RetrySpec.toTokens, BackoffSpec.toTokens]

theorem finish_of_allowed (h : raw.Allowed) : ∃ spec, raw.finish = .ok spec := by
  have hresolve : ∃ backoff, raw.resolve raw.kind = .ok backoff := by
    simp only [resolve_ok_iff]
    rcases h.kind with hkind | hkind | hkind
    · have hdelay : raw.delay = none := by simpa [hkind] using h.delay
      have hcurve : raw.rejectExponential = .ok () :=
        rejectExponential_iff.mpr fun hc => by simpa [hkind] using h.curve hc
      exact ⟨.none, .inl ⟨hkind, hdelay, hcurve, rfl⟩⟩
    · obtain ⟨delayMs, hdelay⟩ := Option.isSome_iff_exists.mp (h.delay.mpr hkind)
      have hcurve : raw.rejectExponential = .ok () :=
        rejectExponential_iff.mpr fun hc => by simpa [hkind] using h.curve hc
      exact ⟨.fixed delayMs, .inr (.inl ⟨hkind, hcurve, delayMs, hdelay, rfl⟩)⟩
    · have hdelay : raw.delay = none := by simpa [hkind] using h.delay
      have hexp := exponential_ok_iff.mpr ⟨hdelay, h.factor, h.ordered hkind, rfl⟩
      exact ⟨_, .inr (.inr ⟨hkind, hexp⟩)⟩
  obtain ⟨backoff, hbackoff⟩ := hresolve
  exact ⟨_, bind_ok_iff.mpr ⟨_, attempts_ok_iff.mpr ⟨h.attempts, rfl⟩,
    bind_ok_iff.mpr ⟨backoff, hbackoff, rfl⟩⟩⟩

end RetryRaw

/-! ## The grammar -/

section Grammar
variable {items : List (String × Value)} {entries : List Entry} {spec : RetrySpec}

/-- The list reads as entries of its keys, and they are what the grammar allows. -/
structure Grammatical (items : List (String × Value)) (entries : List Entry) : Prop where
  reads : List.Forall₂ Reads items entries
  once : (entries.map Entry.key).Nodup
  positive : ∀ e ∈ entries, e.Positive
  allowed : (written entries).Allowed

theorem grammatical_of_parseRetry (h : parseRetry items = .ok spec) :
    ∃ entries, Grammatical items entries := by
  unfold parseRetry at h
  obtain ⟨raw, hraw, h⟩ := bind_ok h
  obtain ⟨entries, hreads, hpositive, honce, -, rfl⟩ := foldlM_ok_iff.mp hraw
  rw [foldl_put_empty] at h
  exact ⟨entries, hreads, honce, hpositive, (RetryRaw.allowed_of_finish h).1⟩

theorem parseRetry_of_grammatical (h : Grammatical items entries) :
    ∃ spec, parseRetry items = .ok spec ∧ spec.toTokens = (written entries).policy := by
  obtain ⟨spec, hspec⟩ := RetryRaw.finish_of_allowed h.allowed
  have hfree : ∀ e ∈ entries, RetryRaw.empty.taken e = false := by
    intro e _
    cases e <;> rfl
  have hread := foldlM_ok_iff.mpr
    ⟨entries, h.reads, h.positive, h.once, hfree, (foldl_put_empty entries).symm⟩
  exact ⟨spec, bind_ok_iff.mpr ⟨written entries, hread, hspec⟩,
    (RetryRaw.allowed_of_finish hspec).2⟩

/-- Without repetition, what a key was given is found again. -/
theorem findSome_of_mem {α : Type} {get : Entry → Option α} {entry : Entry} {v : α}
    (honce : (entries.map Entry.key).Nodup) (hmem : entry ∈ entries) (hget : get entry = some v)
    (hkey : ∀ e w, get e = some w → e.key = entry.key) : entries.findSome? get = some v := by
  induction entries with
  | nil => cases hmem
  | cons e entries ih =>
    obtain ⟨hnotMem, honce⟩ := List.nodup_cons.mp honce
    rw [List.findSome?_cons]
    rcases List.mem_cons.mp hmem with rfl | hmem
    · rw [hget]
    · cases hhead : get e with
      | none => exact ih honce hmem
      | some w =>
        have hsame : entry.key ∈ entries.map Entry.key := List.mem_map_of_mem hmem
        rw [← hkey e w hhead] at hsame
        exact absurd hsame hnotMem

theorem policy_exponential {keys : RetryRaw} (h : keys.kind = "exponential") :
    keys.policy.backoff = .exponential ((keys.base.map .fromMillis).getD (.fromSecs 1))
      (keys.factor.getD (.finite 2)) ((keys.max.map .fromMillis).getD (.fromSecs 300))
      (keys.jitter.getD true) := by simp [RetryRaw.policy, h]

/-- No key that was written is left out of the policy. -/
theorem shownIn_policy {entry : Entry} (h : Grammatical items entries) (hmem : entry ∈ entries) :
    entry.ShownIn (written entries).policy := by
  have hcurve := h.allowed.curve
  cases entry with
  | maxAttempts n =>
    have hget : (written entries).maxAttempts = some n :=
      findSome_of_mem h.once hmem rfl fun e w he => by cases e <;> cases he; rfl
    simp [Entry.ShownIn, RetryRaw.policy, hget]
  | backoff kind =>
    have hget : (written entries).backoff = some kind :=
      findSome_of_mem h.once hmem rfl fun e w he => by cases e <;> cases he; rfl
    have hkind : (written entries).kind = kind := by simp [RetryRaw.kind, hget]
    rcases hkind ▸ h.allowed.kind with rfl | rfl | rfl <;>
      simp [Entry.ShownIn, RetryRaw.policy, hkind]
  | delay millis =>
    have hget : (written entries).delay = some millis :=
      findSome_of_mem h.once hmem rfl fun e w he => by cases e <;> cases he; rfl
    have hkind : (written entries).kind = "fixed" := h.allowed.delay.mp (by simp [hget])
    simp [Entry.ShownIn, RetryRaw.policy, hkind, hget]
  | base millis =>
    have hget : (written entries).base = some millis :=
      findSome_of_mem h.once hmem rfl fun e w he => by cases e <;> cases he; rfl
    rw [Entry.ShownIn, policy_exponential (hcurve (.inl (by simp [hget]))), hget]
    exact ⟨_, _, _, rfl⟩
  | factor x =>
    have hget : (written entries).factor = some x :=
      findSome_of_mem h.once hmem rfl fun e w he => by cases e <;> cases he; rfl
    rw [Entry.ShownIn, policy_exponential (hcurve (.inr (.inl (by simp [hget])))), hget]
    exact ⟨_, _, _, rfl⟩
  | max millis =>
    have hget : (written entries).max = some millis :=
      findSome_of_mem h.once hmem rfl fun e w he => by cases e <;> cases he; rfl
    rw [Entry.ShownIn, policy_exponential (hcurve (.inr (.inr (.inl (by simp [hget]))))), hget]
    exact ⟨_, _, _, rfl⟩
  | jitter b =>
    have hget : (written entries).jitter = some b :=
      findSome_of_mem h.once hmem rfl fun e w he => by cases e <;> cases he; rfl
    rw [Entry.ShownIn, policy_exponential (hcurve (.inr (.inr (.inr (by simp [hget]))))), hget]
    exact ⟨_, _, _, rfl⟩

/-- A list is accepted exactly when it reads as what the grammar allows, and then the policy
has the values that are written, each of them, with the documented defaults for the rest. -/
theorem retry_grammar (items : List (String × Value)) :
    ((∃ spec, parseRetry items = .ok spec) ↔ ∃ entries, Grammatical items entries) ∧
    ∀ entries, Grammatical items entries → ∃ spec, parseRetry items = .ok spec ∧
      spec.toTokens = (written entries).policy ∧ ∀ e ∈ entries, e.ShownIn spec.toTokens := by
  constructor
  · constructor
    · rintro ⟨spec, hspec⟩
      exact grammatical_of_parseRetry hspec
    · rintro ⟨entries, hentries⟩
      obtain ⟨spec, hspec, -⟩ := parseRetry_of_grammatical hentries
      exact ⟨spec, hspec⟩
  · intro entries hentries
    obtain ⟨spec, hspec, hpolicy⟩ := parseRetry_of_grammatical hentries
    refine ⟨spec, hspec, hpolicy, fun e he => ?_⟩
    rw [hpolicy]
    exact shownIn_policy hentries he

theorem retry_grammar_fixed :
    ∃ spec, parseRetry [("backoff", .lit (.str "fixed")), ("delay", .lit (.str "30s"))] = .ok spec ∧
      spec.toTokens = (written [.backoff "fixed", .delay 30000]).policy ∧
      ∀ e ∈ [Entry.backoff "fixed", .delay 30000], e.ShownIn spec.toTokens := by
  apply (retry_grammar _).2
  constructor
  · have hdelay : parseMillis "30s" = .ok 30000 := by decide
    exact .cons (.backoff rfl) (.cons (.delay rfl hdelay) .nil)
  · decide
  · simp [Entry.Positive]
  · have hkeys : written [.backoff "fixed", .delay 30000] =
        ⟨none, some "fixed", some 30000, none, none, none, none⟩ := rfl
    rw [hkeys]
    exact ⟨by simp, .inr (.inl rfl), by simp [RetryRaw.kind], by simp, by simp,
      by simp [RetryRaw.kind]⟩

end Grammar

end Queuey.Macros
