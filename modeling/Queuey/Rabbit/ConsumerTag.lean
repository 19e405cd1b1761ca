import Queuey.Library.NumberedName
import Queuey.Library.Transition
import Queuey.Rabbit.Truncation

/-!
# Consumer tags

A tag is the cut queue name, the clock and the next number of the process. It fits an AMQP
short string whatever these are, and the number alone tells the tags of a process apart as long
as it has not wrapped.
-/
namespace Queuey.Rabbit.ConsumerTags
open Codec NumberedName Transition

/-- `{:x}`. -/
def lowerHex (n : ℕ) : String := String.ofList (Nat.toDigits 16 n)

/-- What the clock reads since the epoch, zero while it stands before it. -/
def sinceEpoch (clock : Option Duration) : ℕ := (clock.map Duration.nanos).getD 0

/-- The end of `consumer_tag`, from the number that was drawn; `none` is a panic. -/
def consumerTag (queue : String) (clock : Option Duration) (sequence : UInt64) : Option String := do
  let queue ← truncateAtBoundary? queue 160
  return "queuey." ++ queue ++ "." ++ lowerHex (sinceEpoch clock) ++ "." ++
    toString sequence.toNat

variable {queue tag tag' queue' : String} {clock clock' : Option Duration} {m n : UInt64}

theorem consumerTag_eq (queue : String) (clock : Option Duration) (sequence : UInt64) :
    consumerTag queue clock sequence = some (numbered ("queuey." ++ truncateAtBoundary queue 160 ++
      "." ++ lowerHex (sinceEpoch clock)) sequence.toNat) := by
  rw [consumerTag, truncateAtBoundary?_eq]
  rfl

/-! ## Length -/

theorem lowerHex_size (n : ℕ) : (lowerHex n).utf8ByteSize = (Nat.toDigits 16 n).length := by
  rw [lowerHex, Utf8.utf8ByteSize_ofList]
  exact size_toDigits (by decide) (by decide) n

/-- A clock reading has at most 24 hexadecimal digits. -/
theorem sinceEpoch_size (clock : Option Duration) :
    (lowerHex (sinceEpoch clock)).utf8ByteSize ≤ 24 := by
  have hbound : sinceEpoch clock < 16 ^ 24 := by
    cases clock with
    | none => decide
    | some since =>
      have := since.bounded
      have hmax : 2 ^ 64 * nanosPerSec < 16 ^ 24 := by decide
      exact this.trans hmax
  rw [lowerHex_size]
  exact (Nat.length_toDigits_le_iff (by decide) (by decide)).mpr hbound

/-- A sequence number has at most 20 digits. -/
theorem sequence_size (sequence : UInt64) : (toString sequence.toNat).utf8ByteSize ≤ 20 := by
  have hbound : sequence.toNat < 10 ^ 20 := sequence.toNat_lt.trans (by decide)
  rw [Nat.toString_eq_repr, utf8ByteSize_repr]
  exact (Nat.length_repr_le_iff (by decide)).mpr hbound

theorem consumerTag_short (h : consumerTag queue clock n = some tag) :
    tag.utf8ByteSize ≤ maxShortStringLength := by
  rw [consumerTag_eq, Option.some.injEq] at h
  have hqueue := truncateAtBoundary_short queue 160
  have hclock := sinceEpoch_size clock
  have hsequence := sequence_size n
  have hprefix : "queuey.".utf8ByteSize = 7 := by decide
  have hdot : ".".utf8ByteSize = 1 := by decide
  rw [← h, numbered]
  simp only [String.utf8ByteSize_append, hprefix, hdot, maxShortStringLength]
  omega

/-- The number behind the last dot is the one that was drawn. -/
theorem consumerTag_inj (h : consumerTag queue clock m = some tag)
    (k : consumerTag queue' clock' n = some tag) : m = n := by
  rw [consumerTag_eq, Option.some.injEq] at h k
  exact UInt64.toNat_inj.mp (numbered_inj (h.trans k.symm)).2

/-! ## All calls of a process -/

inductive Call where
  | idle
  | drawn (queue : String) (sequence : UInt64)
  | returned (sequence : UInt64) (tag : String)
  | panicked

def Call.sequence : Call → Option UInt64
  | drawn _ n | returned n _ => some n
  | idle | panicked => none

/-- `next` is the static counter, `draws` how often it has been incremented. -/
structure State where
  next : UInt64
  draws : ℕ
  calls : ℕ → Call

def State.setCall (s : State) (k : ℕ) (call : Call) : State :=
  { s with calls := Function.update s.calls k call }

/-- What the threads do: draw the next number for a queue, then read the clock and return. -/
inductive Action where
  | fetchAdd (k : ℕ) (queue : String)
  | finish (k : ℕ) (clock : Option Duration)

def stepFetchAdd (s : State) (k : ℕ) (queue : String) : Option State :=
  match s.calls k with
  | .idle => some { s.setCall k (.drawn queue s.next) with
      next := s.next + 1, draws := s.draws + 1 }
  | _ => none

def stepFinish (s : State) (k : ℕ) (clock : Option Duration) : Option State :=
  match s.calls k with
  | .drawn queue sequence =>
    match consumerTag queue clock sequence with
    | some tag => some (s.setCall k (.returned sequence tag))
    | none => some (s.setCall k .panicked)
  | _ => none

def step (s : State) : Action → Option State
  | .fetchAdd k queue => stepFetchAdd s k queue
  | .finish k clock => stepFinish s k clock

def initial : State := ⟨0, 0, fun _ => .idle⟩

def system : System State Action where
  start s := s = initial
  step := step

variable {s t : State} {j k : ℕ} {a : Action}

theorem fetchAdd_cases (hs : stepFetchAdd s k queue = some t) : s.calls k = .idle ∧
    t = { s.setCall k (.drawn queue s.next) with next := s.next + 1, draws := s.draws + 1 } := by
  grind [stepFetchAdd]

theorem finish_cases (hs : stepFinish s k clock = some t) : ∃ queue sequence tag,
    s.calls k = .drawn queue sequence ∧ consumerTag queue clock sequence = some tag ∧
      t = s.setCall k (.returned sequence tag) := by
  unfold stepFinish at hs
  split at hs
  · next queue sequence hk =>
    rw [consumerTag_eq] at hs
    exact ⟨queue, sequence, _, hk, consumerTag_eq queue clock sequence, (Option.some.inj hs).symm⟩
  · cases hs

/-- The counter follows the draws, and while it has not wrapped nobody shares a number. -/
structure Numbered (s : State) : Prop where
  next : s.next = UInt64.ofNat s.draws
  below : s.draws ≤ 2 ^ 64 → ∀ k n, (s.calls k).sequence = some n → n.toNat < s.draws
  apart : s.draws ≤ 2 ^ 64 → ∀ j k n,
    (s.calls j).sequence = some n → (s.calls k).sequence = some n → j = k
  tags : ∀ k n tag, s.calls k = .returned n tag →
    ∃ queue clock, consumerTag queue clock n = some tag
  calm : ∀ k, s.calls k ≠ .panicked

theorem numbered_initial : Numbered initial where
  next := rfl
  below _ _ _ h := by cases h
  apart _ _ _ _ h := by cases h
  tags _ _ _ h := by cases h
  calm _ h := by cases h

/-- The number drawn is the count of the draws before, which is above all others. -/
theorem Numbered.fetchAdd (h : Numbered s) (hs : stepFetchAdd s k queue = some t) :
    Numbered t := by
  obtain ⟨hk, rfl⟩ := fetchAdd_cases hs
  have calls : ∀ j, Function.update s.calls k (.drawn queue s.next) j =
      if j = k then .drawn queue s.next else s.calls j := fun j => Function.update_apply ..
  have fresh (hdraws : s.draws + 1 ≤ 2 ^ 64) : s.next.toNat = s.draws := by
    rw [h.next]
    apply UInt64.toNat_ofNat_of_lt'
    unfold UInt64.size
    omega
  constructor
  · rw [h.next, UInt64.ofNat_add]
    rfl
  · intro hdraws j n hj
    simp only [State.setCall, calls] at hj
    dsimp only at hdraws ⊢
    split_ifs at hj
    · obtain rfl := Option.some.inj hj
      rw [fresh hdraws]
      omega
    · have := h.below (by omega) j n hj
      omega
  · intro hdraws i j n hi hj
    simp only [State.setCall, calls] at hi hj
    dsimp only at hdraws
    have other : ∀ l, (s.calls l).sequence = some s.next → False := by
      intro l hl
      have := h.below (by omega) l s.next hl
      rw [fresh hdraws] at this
      omega
    split_ifs at hi hj with hik hjk hjk
    · rw [hik, hjk]
    · obtain rfl := Option.some.inj hi
      exact (other j hj).elim
    · obtain rfl := Option.some.inj hj
      exact (other i hi).elim
    · exact h.apart (by omega) i j n hi hj
  · intro j n tag hj
    simp only [State.setCall, calls] at hj
    split_ifs at hj
    exact h.tags j n tag hj
  · intro j hj
    simp only [State.setCall, calls] at hj
    split_ifs at hj
    exact h.calm j hj

/-- A call that returns keeps its number. -/
theorem Numbered.finish (h : Numbered s) (hs : stepFinish s k clock = some t) : Numbered t := by
  obtain ⟨queue, sequence, tag, hk, htag, rfl⟩ := finish_cases hs
  have calls : ∀ j, Function.update s.calls k (.returned sequence tag) j =
      if j = k then .returned sequence tag else s.calls j := fun j => Function.update_apply ..
  have same : ∀ j, ((s.setCall k (.returned sequence tag)).calls j).sequence =
      (s.calls j).sequence := by
    intro j
    simp only [State.setCall, calls]
    split_ifs with hj
    · rw [hj, hk]
      rfl
    · rfl
  constructor
  · exact h.next
  · intro hdraws j n hj
    exact h.below hdraws j n (same j ▸ hj)
  · intro hdraws i j n hi hj
    exact h.apart hdraws i j n (same i ▸ hi) (same j ▸ hj)
  · intro j n tag' hj
    simp only [State.setCall, calls] at hj
    split_ifs at hj
    · obtain ⟨rfl, rfl⟩ := Call.returned.inj hj
      exact ⟨queue, clock, htag⟩
    · exact h.tags j n tag' hj
  · intro j hj
    simp only [State.setCall, calls] at hj
    split_ifs at hj
    exact h.calm j hj

theorem reachable_numbered (h : Reachable system s) : Numbered s := by
  refine h.invariant (fun s hs => ?_) fun s a t hnumbered _ hs => ?_
  · obtain rfl := hs
    exact numbered_initial
  · cases a with
    | fetchAdd k queue => exact hnumbered.fetchAdd hs
    | finish k clock => exact hnumbered.finish hs

/-- While the sequence has not wrapped, one tag is the tag of one call. -/
theorem tag_determines_call (h : Reachable system s) (hdraws : s.draws ≤ 2 ^ 64)
    (hj : s.calls j = .returned m tag) (hk : s.calls k = .returned n tag) : j = k := by
  have numbered := reachable_numbered h
  obtain ⟨queue, clock, htag⟩ := numbered.tags j m tag hj
  obtain ⟨queue', clock', htag'⟩ := numbered.tags k n tag hk
  obtain rfl := consumerTag_inj htag htag'
  exact numbered.apart hdraws j k m (by rw [hj]; rfl) (by rw [hk]; rfl)

/-- Two calls for one queue, and the clock set back between them. -/
example : (system.run initial [.fetchAdd 0 "mail", .fetchAdd 1 "mail", .finish 1 none,
    .finish 0 (some ⟨255, by decide⟩)]).map (fun s => (s.calls 0, s.calls 1)) =
      some (.returned 0 "queuey.mail.ff.0", .returned 1 "queuey.mail.0.1") := rfl

/-- Every string of a user that goes into an AMQP short string has been made to fit. -/
structure UserStringsFit (V : Type) : Prop where
  returns : ∀ value max, ∃ kept, truncateAtBoundary? value max = some kept
  longest : ∀ value max kept,
    truncateAtBoundary? value max = some kept ↔ Utf8.LongestPrefix value max kept
  whole : ∀ value max, value.utf8ByteSize ≤ max → truncateAtBoundary? value max = some value
  /-- The job id is never cut, and of the job type is kept what fits. -/
  properties : ∀ e : Envelope V, ∃ props kind, propsFor? e = some props ∧
    (∀ text ∈ props.shortStrings, text.utf8ByteSize ≤ maxShortStringLength) ∧
    props.messageId.map ShortString.value = some e.jobId.display ∧
    props.kind = some kind ∧ Utf8.LongestPrefix e.jobType maxShortStringLength kind.value
  accepted : ∀ queue clock sequence, ∃ tag key, consumerTag queue clock sequence = some tag ∧
    shortString tag = .ok key ∧ key.value = tag
  calm : ∀ s, Reachable system s → ∀ k, s.calls k ≠ .panicked
  distinct : ∀ s, Reachable system s → s.draws ≤ 2 ^ 64 → ∀ j k m n tag,
    s.calls j = .returned m tag → s.calls k = .returned n tag → j = k

theorem userStrings_fit (V : Type) : UserStringsFit V where
  returns value max := ⟨_, truncateAtBoundary?_eq value max⟩
  longest _ _ _ := truncateAtBoundary?_iff
  whole value max h := by rw [truncateAtBoundary?_eq, truncateAtBoundary_of_fits h]
  properties e := by
    refine ⟨propsFor e, clamped e.jobType, propsFor?_eq e, propsFor_short e, ?_, rfl, ?_⟩
    · exact congrArg some (clamped_display e.jobId)
    · exact truncateAtBoundary_longest e.jobType maxShortStringLength
  accepted queue clock sequence := by
    have htag := consumerTag_eq queue clock sequence
    exact ⟨_, ⟨_, consumerTag_short htag⟩, htag, dif_pos (consumerTag_short htag), rfl⟩
  calm _ h := (reachable_numbered h).calm
  distinct _ h hdraws _ _ _ _ _ hj hk := tag_determines_call h hdraws hj hk

end Queuey.Rabbit.ConsumerTags
