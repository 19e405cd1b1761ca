import Queuey.Library.Transition

/-!
# Sleeping out a backoff against a close

Calls of `sleep_unless_closing` and of `mark_closing` in any interleaving: a sleeper is
armed, checks the flag and waits; a closer swaps the flag and, if it was the first, notifies.
A notification wakes exactly the sleepers that are armed when it is sent.
-/
namespace Queuey.Rabbit.ClosingSleep
open Transition

inductive SleepResult where
  | ok
  | closed
  | cancelled
deriving DecidableEq

/-- Where a call of `sleep_unless_closing` is. -/
inductive Sleeper where
  | idle
  | called
  /-- The waiter is enabled, the flag not yet checked. -/
  | armed
  | waiting
  /-- The timer ran out; the flag is checked once more. -/
  | elapsed
  | done (result : SleepResult)
deriving DecidableEq

/-- Where a call of `mark_closing` is. -/
inductive Closer where
  | idle
  /-- It has set the flag and is about to notify. -/
  | notifying
  | returned (setFlag : Bool)
deriving DecidableEq

/-- The sleepers a notification wakes. -/
def Sleeper.enabled : Sleeper → Bool
  | armed | waiting => true
  | _ => false

structure State where
  closing : Bool
  sleeper : ℕ → Sleeper
  woken : ℕ → Bool
  /-- The call started after the flag was set. -/
  late : ℕ → Bool
  closer : ℕ → Closer

inductive Action where
  | call (i : ℕ)
  | arm (i : ℕ)
  | check (i : ℕ)
  | wake (i : ℕ)
  | elapse (i : ℕ)
  | recheck (i : ℕ)
  | cancel (i : ℕ)
  | swap (j : ℕ)
  | notify (j : ℕ)

variable {s t : State} {i j : ℕ}

def State.setSleeper (s : State) (i : ℕ) (p : Sleeper) : State :=
  { s with sleeper := Function.update s.sleeper i p }

def State.setCloser (s : State) (j : ℕ) (p : Closer) : State :=
  { s with closer := Function.update s.closer j p }

/-- `check_open`, as the result of a sleep. -/
def State.checkOpen (s : State) : SleepResult := if s.closing then .closed else .ok

/-- `notify_waiters`. -/
def State.notifyWaiters (s : State) : State :=
  { s with woken := fun i => s.woken i || (s.sleeper i).enabled }

def step (s : State) : Action → Option State
  | .call i =>
    match s.sleeper i with
    | .idle => some { s.setSleeper i .called with late := Function.update s.late i s.closing }
    | _ => none
  | .arm i =>
    match s.sleeper i with
    | .called => some { s.setSleeper i .armed with woken := Function.update s.woken i false }
    | _ => none
  | .check i =>
    match s.sleeper i with
    | .armed => some (s.setSleeper i (if s.closing then .done .closed else .waiting))
    | _ => none
  | .wake i =>
    match s.sleeper i with
    | .waiting => if s.woken i then some (s.setSleeper i (.done .closed)) else none
    | _ => none
  | .elapse i =>
    match s.sleeper i with
    -- `biased`: a notification is looked at before the timer
    | .waiting => if s.woken i then none else some (s.setSleeper i .elapsed)
    | _ => none
  | .recheck i =>
    match s.sleeper i with
    | .elapsed => some (s.setSleeper i (.done s.checkOpen))
    | _ => none
  | .cancel i =>
    match s.sleeper i with
    | .called | .armed | .waiting | .elapsed => some (s.setSleeper i (.done .cancelled))
    | _ => none
  | .swap j =>
    match s.closer j with
    | .idle =>
      if s.closing then some (s.setCloser j (.returned false))
      else some { s.setCloser j .notifying with closing := true }
    | _ => none
  | .notify j =>
    match s.closer j with
    | .notifying => some (s.notifyWaiters.setCloser j (.returned true))
    | _ => none

def opened : State where
  closing := false
  sleeper := fun _ => .idle
  woken := fun _ => false
  late := fun _ => false
  closer := fun _ => .idle

def system : System State Action where
  start s := s = opened
  step := step

/-! ## What each step needs and does -/

section Steps
attribute [local grind] step

theorem call_cases (hs : step s (.call i) = some t) : s.sleeper i = .idle ∧
    t = { s.setSleeper i .called with late := Function.update s.late i s.closing } := by
  grind

theorem arm_cases (hs : step s (.arm i) = some t) : s.sleeper i = .called ∧
    t = { s.setSleeper i .armed with woken := Function.update s.woken i false } := by
  grind

theorem check_cases (hs : step s (.check i) = some t) : s.sleeper i = .armed ∧
    (s.closing = true ∧ t = s.setSleeper i (.done .closed) ∨
      s.closing = false ∧ t = s.setSleeper i .waiting) := by
  grind

theorem wake_cases (hs : step s (.wake i) = some t) : s.sleeper i = .waiting ∧
    s.woken i = true ∧ t = s.setSleeper i (.done .closed) := by
  grind

theorem elapse_cases (hs : step s (.elapse i) = some t) : s.sleeper i = .waiting ∧
    s.woken i = false ∧ t = s.setSleeper i .elapsed := by
  grind

theorem recheck_cases (hs : step s (.recheck i) = some t) : s.sleeper i = .elapsed ∧
    t = s.setSleeper i (.done s.checkOpen) := by
  grind

theorem cancel_cases (hs : step s (.cancel i) = some t) :
    t = s.setSleeper i (.done .cancelled) := by
  grind

theorem swap_cases (hs : step s (.swap j) = some t) : s.closer j = .idle ∧
    (s.closing = true ∧ t = s.setCloser j (.returned false) ∨
      s.closing = false ∧ t = { s.setCloser j .notifying with closing := true }) := by
  grind

theorem notify_cases (hs : step s (.notify j) = some t) : s.closer j = .notifying ∧
    t = s.notifyWaiters.setCloser j (.returned true) := by
  grind

end Steps

/-! ## Nobody waits on the timer alone -/

/-- A call that started after the flag was set. -/
def Sleeper.LateOk (p : Sleeper) : Prop :=
  p = .called ∨ p = .armed ∨ p = .done .closed ∨ p = .done .cancelled

/-- The flag is set before it is announced, and whoever waits once it has been is awake. -/
structure Announced (s : State) : Prop where
  flag : ∀ j, s.closer j = .notifying ∨ s.closer j = .returned true → s.closing = true
  awake : (∃ j, s.closer j = .returned true) → ∀ i, s.sleeper i = .waiting → s.woken i = true
  late : ∀ i, s.late i = true → s.closing = true ∧ (s.sleeper i).LateOk

/-- A sleeper begins to wait only while the flag is down. -/
theorem Announced.setSleeper {p : Sleeper} (h : Announced s)
    (hwait : p = .waiting → s.closing = false) (hlate : s.late i = true → p.LateOk) :
    Announced (s.setSleeper i p) where
  flag := h.flag
  awake := by
    rintro ⟨j, hj⟩ k hk
    by_cases hki : k = i
    · subst hki
      have hp : p = .waiting := by simpa [State.setSleeper] using hk
      have hflag := h.flag j (.inr hj)
      rw [hwait hp] at hflag
      cases hflag
    · have hk : s.sleeper k = .waiting := by simpa [State.setSleeper, hki] using hk
      exact h.awake ⟨j, hj⟩ k hk
  late k hk := by
    refine ⟨(h.late k hk).1, ?_⟩
    by_cases hki : k = i
    · subst hki
      simpa [State.setSleeper] using hlate hk
    · simpa [State.setSleeper, hki] using (h.late k hk).2

theorem Announced.call (h : Announced s) (i : ℕ) :
    Announced { s.setSleeper i .called with late := Function.update s.late i s.closing } where
  flag := h.flag
  awake := by
    rintro hset k hk
    by_cases hki : k = i
    · subst hki
      simp [State.setSleeper] at hk
    · have hk : s.sleeper k = .waiting := by simpa [State.setSleeper, hki] using hk
      exact h.awake hset k hk
  late k hk := by
    by_cases hki : k = i
    · subst hki
      have hflag : s.closing = true := by simpa using hk
      exact ⟨hflag, by simp [State.setSleeper, Sleeper.LateOk]⟩
    · have hk : s.late k = true := by simpa [hki] using hk
      simpa [State.setSleeper, hki] using h.late k hk

theorem Announced.arm (h : Announced s) (hi : s.sleeper i = .called) :
    Announced { s.setSleeper i .armed with woken := Function.update s.woken i false } := by
  have harmed : Announced (s.setSleeper i .armed) := by
    apply h.setSleeper
    · simp
    · intro _
      exact .inr (.inl rfl)
  refine ⟨harmed.flag, ?_, harmed.late⟩
  intro hset k hk
  have hki : k ≠ i := by
    rintro rfl
    simp [State.setSleeper] at hk
  have hwoken : s.woken k = true := harmed.awake hset k hk
  simpa [hki] using hwoken

/-- Whether the flag was up before or not, it is up now, and nobody new has announced it. -/
theorem Announced.swap {closer : Closer} (h : Announced s) (j : ℕ) (hj : closer ≠ .returned true) :
    Announced { s.setCloser j closer with closing := true } where
  flag _ _ := rfl
  awake := by
    rintro ⟨k, hk⟩
    apply h.awake
    by_cases hkj : k = j
    · subst hkj
      exact absurd (by simpa [State.setCloser] using hk) hj
    · exact ⟨k, by simpa [State.setCloser, hkj] using hk⟩
  late i hi := ⟨rfl, (h.late i hi).2⟩

theorem Announced.notify (h : Announced s) (hj : s.closer j = .notifying) :
    Announced (s.notifyWaiters.setCloser j (.returned true)) where
  flag k hk := by
    by_cases hkj : k = j
    · exact h.flag j (.inl hj)
    · exact h.flag k (by simpa [State.setCloser, State.notifyWaiters, hkj] using hk)
  awake := by
    intro _ k hk
    -- whoever waits is armed, so this notification reaches it
    have hk : s.sleeper k = .waiting := hk
    simp [State.setCloser, State.notifyWaiters, hk, Sleeper.enabled]
  late := h.late

theorem Announced.step {a : Action} (h : Announced s) (hs : step s a = some t) : Announced t := by
  cases a with
  | call i =>
    obtain ⟨-, rfl⟩ := call_cases hs
    exact h.call i
  | arm i =>
    obtain ⟨hi, rfl⟩ := arm_cases hs
    exact h.arm hi
  | check i =>
    obtain ⟨-, ⟨-, rfl⟩ | ⟨hopen, rfl⟩⟩ := check_cases hs
    · exact h.setSleeper (by simp) fun _ => .inr (.inr (.inl rfl))
    · apply h.setSleeper
      · exact fun _ => hopen
      · intro hlate
        have hflag := (h.late i hlate).1
        rw [hopen] at hflag
        cases hflag
  | wake i =>
    obtain ⟨-, -, rfl⟩ := wake_cases hs
    exact h.setSleeper (by simp) fun _ => .inr (.inr (.inl rfl))
  | elapse i =>
    obtain ⟨hi, -, rfl⟩ := elapse_cases hs
    apply h.setSleeper
    · simp
    · intro hlate
      have hok := (h.late i hlate).2
      simp [hi, Sleeper.LateOk] at hok
  | recheck i =>
    obtain ⟨hi, rfl⟩ := recheck_cases hs
    apply h.setSleeper
    · simp
    · intro hlate
      have hok := (h.late i hlate).2
      simp [hi, Sleeper.LateOk] at hok
  | cancel i =>
    obtain rfl := cancel_cases hs
    exact h.setSleeper (by simp) fun _ => .inr (.inr (.inr rfl))
  | swap j =>
    obtain ⟨-, ⟨hclosing, rfl⟩ | ⟨-, rfl⟩⟩ := swap_cases hs
    · have raised : Announced { s.setCloser j (.returned false) with closing := true } :=
        h.swap j (by simp)
      rwa [← hclosing] at raised
    · exact h.swap j (by simp)
  | notify j =>
    obtain ⟨hj, rfl⟩ := notify_cases hs
    exact h.notify hj

theorem reachable_announced (h : Reachable system s) : Announced s := by
  refine h.invariant ?_ fun _ _ _ hinv _ hs => hinv.step hs
  rintro _ rfl
  exact ⟨by simp [opened], by simp [opened], by simp [opened]⟩

/-- Once the `mark_closing` call that set the flag has returned, whoever waits has been woken:
its timer is not what it waits for, and it returns closed. A call that starts after the flag
was set never sleeps: it goes on to its check, which sends it back closed. -/
theorem no_sleep_outlives_close (h : Reachable system s) :
    ((∃ j, s.closer j = .returned true) → ∀ i, s.sleeper i = .waiting →
      s.woken i = true ∧ step s (.elapse i) = none ∧
      ∃ t, step s (.wake i) = some t ∧ t.sleeper i = .done .closed) ∧
    (∀ i, s.late i = true → (s.sleeper i).LateOk ∧
      (s.sleeper i = .called → (step s (.arm i)).isSome) ∧
      (s.sleeper i = .armed → ∃ t, step s (.check i) = some t ∧
        t.sleeper i = .done .closed)) := by
  have hinv := reachable_announced h
  constructor
  · intro hset i hi
    have hwoken := hinv.awake hset i hi
    refine ⟨hwoken, by simp [step, hi, hwoken], s.setSleeper i (.done .closed), ?_, ?_⟩
    · simp [step, hi, hwoken]
    · simp [State.setSleeper]
  · intro i hlate
    obtain ⟨hclosing, hok⟩ := hinv.late i hlate
    refine ⟨hok, fun hi => by simp [step, hi], fun hi => ?_⟩
    refine ⟨s.setSleeper i (.done .closed), ?_, by simp [State.setSleeper]⟩
    simp [step, hi, hclosing]

/-- A sleeper that is armed before the flag goes up, and checks and waits before it is told. -/
theorem no_sleep_outlives_close_armed : ∃ s, Reachable system s ∧ s.sleeper 0 = .waiting ∧
    s.closer 1 = .returned true ∧ s.woken 0 = true := by
  have start : Reachable system opened := .start rfl
  have reached := start.run [.call 0, .arm 0, .check 0, .swap 1, .swap 2, .notify 1] rfl
  exact ⟨_, reached, rfl, rfl, ((no_sleep_outlives_close reached).1 ⟨1, rfl⟩ 0 rfl).1⟩

end Queuey.Rabbit.ClosingSleep
