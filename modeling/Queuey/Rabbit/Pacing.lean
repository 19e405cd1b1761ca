import Queuey.Rabbit.Recovery

/-!
# What the policy governs

The loop of `ensure_connected` asks before each attempt, so every reconnect is governed by
the policy for as long as its count of failures does not wrap. `recover` asks after a failed
attempt, so a consumer's rebuild skips the first question and is governed from there on.
-/
namespace Queuey.Rabbit.Recovery
open Transition ConnectionHandle

/-- The reconnect loop of a call in this phase, by the monitor. -/
def Paced (now due : ℕ) (trace : List Event) : ConnectionHandle.Phase → Prop
  | .idle | .checking _ | .peeking _ | .judging _ _ | .queued => trace = []
  | .pacing failures last =>
    failures = UInt32.ofNat (asks trace) ∧ (last = none → asks trace = 0) ∧
      Stands .connection (.question 0 none) 0 trace (.question (asks trace) (last.map .inl))
  | .sleeping failures _ => ∃ n, asks trace = n + 1 ∧ failures = UInt32.ofNat n ∧
      Stands .connection (.question 0 none) 0 trace (.attempt n due)
  | .opening failures _ => ∃ n notBefore, asks trace = n + 1 ∧ failures = UInt32.ofNat n ∧
      notBefore ≤ now ∧ Stands .connection (.question 0 none) 0 trace (.attempt n notBefore)
  | .dialling failures => ∃ n, asks trace = n + 1 ∧ failures = UInt32.ofNat n ∧
      Stands .connection (.question 0 none) 0 trace (.outcome n)
  | _ => ∃ next, Stands .connection (.question 0 none) 0 trace next

variable {s t : State} {k i now later due : ℕ} {trace : List Event} {p : ConnectionHandle.Phase}

theorem Paced.stands (h : Paced now due trace p) :
    ∃ next, Stands .connection (.question 0 none) 0 trace next := by
  cases p with
  | idle | checking | peeking | judging | queued =>
    obtain rfl : trace = [] := h
    exact ⟨.question 0 none, rfl⟩
  | pacing => exact ⟨_, h.2.2⟩
  | sleeping | dialling => obtain ⟨n, -, -, hstands⟩ := h; exact ⟨_, hstands⟩
  | opening => obtain ⟨n, notBefore, -, -, -, hstands⟩ := h; exact ⟨_, hstands⟩
  | _ => exact h

theorem Paced.wait (h : Paced now due trace p) (hle : now ≤ later) : Paced later due trace p := by
  cases p with
  | opening =>
    obtain ⟨n, notBefore, hasks, hfailures, hdue, hstands⟩ := h
    exact ⟨n, notBefore, hasks, hfailures, hdue.trans hle, hstands⟩
  | _ => exact h

/-- The loops of all calls, for a handle that is this far. -/
def AllPaced (now : ℕ) (due : ℕ → ℕ) (pace : ℕ → List Event) (handle : ConnectionHandle.State) :
    Prop :=
  ∀ k, Paced now (due k) (pace k) (handle.phase k)

section Handle
variable {u v : ConnectionHandle.State} {dues : ℕ → ℕ} {pace : ℕ → List Event}

theorem AllPaced.move (h : AllPaced now dues pace u) (hp : Paced now (dues k) (pace k) p)
    (phase : v.phase = Function.update u.phase k p) : AllPaced now dues pace v := by
  intro j
  rw [phase, Function.update_apply]
  split_ifs with hj
  · exact hj ▸ hp
  · exact h j

theorem AllPaced.frame (h : AllPaced now dues pace u) (phase : v.phase = u.phase) :
    AllPaced now dues pace v := by
  intro j
  rw [phase]
  exact h j

/-- One of the steps in which the loop meets the policy, the clock or the broker. -/
def paces : ConnectionHandle.Action → Bool
  | .pace _ _ | .wake _ | .open _ | .dial _ _ => true
  | _ => false

theorem AllPaced.silent {a : ConnectionHandle.Action} (h : AllPaced now dues pace u)
    (hs : ConnectionHandle.step u a = some v) (silent : paces a = false) :
    AllPaced now dues pace v := by
  cases a with
  | pace | wake | dial | «open» => cases silent
  | call k =>
    obtain ⟨hk, rfl⟩ := call_cases hs
    have before : pace k = [] := by simpa only [hk, Paced] using h k
    exact h.move (p := .checking false) before rfl
  | check k =>
    obtain ⟨locked, hk, ⟨-, rfl⟩ | ⟨-, rfl⟩⟩ := check_cases hs
    · exact h.move (p := .done closed) (h k).stands rfl
    · have before : pace k = [] := by simpa only [hk, Paced] using h k
      exact h.move (p := .peeking locked) before rfl
  | peek k =>
    obtain ⟨locked, hk, rfl⟩ := peek_cases hs
    have before : pace k = [] := by simpa only [hk, Paced] using h k
    exact h.move (p := .judging locked u.current) before rfl
  | judge k =>
    obtain ⟨locked, c, hk, hjudged⟩ := judge_cases hs
    have before : pace k = [] := by simpa only [hk, Paced] using h k
    obtain ⟨-, rfl⟩ | ⟨-, ⟨-, rfl⟩ | ⟨-, rfl⟩ | rfl⟩ := hjudged
    · exact h.move (p := .done (.ok c)) (h k).stands rfl
    · exact h.move (p := .queued) before rfl
    · refine h.move (p := .pacing 0 none) ?_ rfl
      rw [before]
      exact ⟨rfl, fun _ => rfl, rfl⟩
    · exact h.move (p := .done _) (h k).stands rfl
  | lock k =>
    obtain ⟨hk, -, rfl⟩ := lock_cases hs
    have before : pace k = [] := by simpa only [hk, Paced] using h k
    exact h.move (p := .checking true) before rfl
  | recheck k =>
    obtain ⟨c, -, ⟨-, rfl⟩ | ⟨-, rfl⟩⟩ := recheck_cases hs
    · exact h.move (p := .closingQuietly c) (h k).stands rfl
    · exact h.move (p := .installing c) (h k).stands rfl
  | closeQuietly k =>
    obtain ⟨c, -, rfl⟩ := closeQuietly_cases hs
    exact h.move (p := .done closed) (h k).stands rfl
  | install k =>
    obtain ⟨c, -, rfl⟩ := install_cases hs
    exact h.move (p := .bumping c) (h k).stands rfl
  | bump k =>
    obtain ⟨c, -, rfl⟩ := bump_cases hs
    exact h.move (p := .reading c) (h k).stands rfl
  | read k order =>
    obtain ⟨c, -, -, ⟨-, rfl⟩ | rfl⟩ := read_cases hs
    · exact h.move (p := .done (.ok c)) (h k).stands rfl
    · exact h.move (p := .openingChannel c) (h k).stands rfl
  | openChannel k opened =>
    obtain ⟨c, -, rfl | rfl⟩ := openChannel_cases hs
    · exact h.move (p := .redeclaring c _) (h k).stands rfl
    · exact h.move (p := .done (.ok c)) (h k).stands rfl
  | redeclare k accepted =>
    obtain ⟨c, config, rest, -, ⟨-, rfl⟩ | ⟨-, rfl⟩⟩ := redeclare_cases hs
    · exact h.move (p := .redeclaring c rest) (h k).stands rfl
    · exact h.move (p := .closingChannel c) (h k).stands rfl
  | closeChannel k =>
    obtain ⟨c, -, rfl⟩ := closeChannel_cases hs
    exact h.move (p := .done (.ok c)) (h k).stands rfl
  | cancel k =>
    obtain ⟨-, -, rfl⟩ | ⟨c, -, rfl⟩ | ⟨c, -, -, rfl⟩ := cancel_cases hs <;>
      exact h.move (p := .cancelled) (h k).stands rfl
  | subscribe k =>
    obtain ⟨c, -, -, rfl⟩ := ConnectionHandle.subscribe_cases hs
    exact h.frame rfl
  | mark j | markAgain j =>
    obtain ⟨w, hw, rfl⟩ := Option.map_eq_some_iff.mp hs
    obtain ⟨-, rfl⟩ := closer_cases hw
    exact h.frame rfl
  | drain j | peekCurrent j =>
    obtain ⟨-, rfl⟩ := closer_cases hs
    exact h.frame rfl
  | closeCurrent j =>
    obtain ⟨c, -, rfl⟩ := closeCurrent_cases hs
    exact h.frame rfl
  | remember config | drop c =>
    obtain rfl := Option.some.inj hs
    exact h.frame rfl

end Handle

def State.Paced (s : State) : Prop := AllPaced s.now s.due s.pace s.handle

/-- The loop of one call moves on. -/
theorem State.Paced.move {d : ℕ} {w : List Event} (h : s.Paced) (hp : Recovery.Paced s.now d w p)
    (now : t.now = s.now) (phase : t.handle.phase = Function.update s.handle.phase k p)
    (dues : t.due = Function.update s.due k d) (pace : t.pace = Function.update s.pace k w) :
    t.Paced := by
  intro j
  rw [now, phase, dues, pace]
  by_cases hj : j = k
  · subst j
    simpa using hp
  · simpa [hj] using h j

@[simp] theorem connectionAttempt_error (failures : UInt32) (last : Option LapinError) :
    (connectionAttempt failures last).error = last.map .inl := by
  cases last <;> rfl

@[simp] theorem connectionAttempt_rebuilding (failures : UInt32) (last : Option LapinError) :
    (connectionAttempt failures last).rebuilding = .connection := by
  cases last <;> rfl

theorem connectionAttempt_failures {failures : UInt32} {last : Option LapinError}
    (first : last = none → failures = 0) :
    (connectionAttempt failures last).failures = failures := by
  cases last with
  | none => exact (first rfl).symm
  | some error => rfl

/-- `ensure_connected` asks with the failures so far and the last error. -/
theorem Paced.asked {failures : UInt32} {last : Option LapinError}
    (h : Paced now due trace (.pacing failures last)) (answer : Option Duration) :
    ∃ n, asks (trace ++ [Event.asked (connectionAttempt failures last) answer now]) = n + 1 ∧
      failures = UInt32.ofNat n ∧ Stands .connection (.question 0 none) 0
        (trace ++ [Event.asked (connectionAttempt failures last) answer now])
        (answer.elim (.nothing n) fun delay => .attempt n (now + delay.nanos)) := by
  obtain ⟨hfailures, hfirst, hstands⟩ := h
  refine ⟨asks trace, by rw [asks_append]; rfl, hfailures, ?_⟩
  refine hstands.asked answer now rfl ?_ (connectionAttempt_error _ _)
    (connectionAttempt_rebuilding _ _)
  rw [connectionAttempt_failures, hfailures]
  intro hlast
  rw [hfailures, hfirst hlast]
  rfl

section Traced
attribute [local simp] State.record State.emits

theorem State.Paced.pace {answer : Option Duration} (h : s.Paced)
    (hs : stepHandle s (.pace k answer) = some t) : t.Paced := by
  obtain ⟨-, handle, hstep, rfl⟩ := handle_cases hs
  obtain ⟨failures, last, hk, hpaced⟩ := ConnectionHandle.pace_cases hstep
  have before : Recovery.Paced s.now (s.due k) (s.pace k) (.pacing failures last) := hk ▸ h k
  obtain ⟨n, hasks, hfailures, hstands⟩ := before.asked answer
  obtain ⟨rfl, rfl⟩ | ⟨d, rfl, hzero, rfl⟩ | ⟨d, rfl, rfl⟩ := hpaced
  · refine h.move (k := k) (p := .done _) (d := s.due k) ⟨_, hstands⟩ rfl rfl ?_ ?_
    · exact (Function.update_eq_self k s.due).symm
    · simp [hk]
  · refine h.move (k := k) (p := .opening failures last)
      ⟨n, _, hasks, hfailures, ?_, hstands⟩ rfl rfl rfl ?_
    · have hnanos : d.nanos = 0 := by simpa [Duration.isZero] using hzero
      simp [hnanos]
    · simp [hk]
  · refine h.move (k := k) (p := .sleeping failures last)
      ⟨n, hasks, hfailures, hstands⟩ rfl rfl rfl ?_
    simp [hk]

theorem State.Paced.wake (h : s.Paced) (hs : stepHandle s (.wake k) = some t) : t.Paced := by
  obtain ⟨hawake, handle, hstep, rfl⟩ := handle_cases hs
  obtain ⟨failures, last, hk, hwoken⟩ := ConnectionHandle.wake_cases hstep
  have before : Recovery.Paced s.now (s.due k) (s.pace k) (.sleeping failures last) := hk ▸ h k
  obtain ⟨-, rfl⟩ | ⟨hopen, rfl⟩ := hwoken
  · exact AllPaced.move h (p := .done closed) (h k).stands rfl
  · obtain ⟨n, hasks, hfailures, hstands⟩ := before
    have hdue : s.due k ≤ s.now := by simpa [State.awake, hopen] using hawake
    exact AllPaced.move h (p := .opening failures last)
      ⟨n, _, hasks, hfailures, hdue, hstands⟩ rfl

theorem State.Paced.open (h : s.Paced) (hs : stepHandle s (.open k) = some t) : t.Paced := by
  obtain ⟨-, handle, hstep, rfl⟩ := handle_cases hs
  obtain ⟨failures, last, hk, hopened⟩ := ConnectionHandle.open_cases hstep
  have before : Recovery.Paced s.now (s.due k) (s.pace k) (.opening failures last) := hk ▸ h k
  obtain ⟨hclosing, rfl⟩ | ⟨hopen, rfl⟩ := hopened
  · have same : s.record (s.emits (.open k)) = s.pace := by
      simp [hclosing]
    rw [same]
    exact AllPaced.move h (p := .done closed) (h k).stands rfl
  · obtain ⟨n, notBefore, hasks, hfailures, hdue, hstands⟩ := before
    refine h.move (k := k) (p := .dialling failures) (d := s.due k)
      (w := s.pace k ++ [Event.tried s.now]) ⟨n, ?_, hfailures, hstands.tried hdue⟩ rfl rfl ?_ ?_
    · rw [asks_append]
      exact hasks
    · exact (Function.update_eq_self k s.due).symm
    · simp [hopen]

theorem State.Paced.dial {failed : Option LapinError} (h : s.Paced)
    (hs : stepHandle s (.dial k failed) = some t) : t.Paced := by
  obtain ⟨-, handle, hstep, rfl⟩ := handle_cases hs
  obtain ⟨failures, hk, hdialled⟩ := ConnectionHandle.dial_cases hstep
  have before : Recovery.Paced s.now (s.due k) (s.pace k) (.dialling failures) := hk ▸ h k
  obtain ⟨e, rfl, rfl⟩ | ⟨rfl, rfl⟩ := hdialled
  · obtain ⟨n, hasks, hfailures, hstands⟩ := before
    have hcount : asks (s.pace k ++ [Event.failed (.inl e)]) = n + 1 := by
      rw [asks_append]
      exact hasks
    refine h.move (k := k) (p := .pacing (failures + 1) (some e)) (d := s.due k)
      (w := s.pace k ++ [Event.failed (.inl e)]) ⟨?_, nofun, ?_⟩ rfl rfl ?_ rfl
    · rw [hcount, hfailures]
      simp
    · rw [hcount]
      exact hstands.failed
    · exact (Function.update_eq_self k s.due).symm
  · exact AllPaced.move h (p := .dialled s.handle.next) (h k).stands rfl

end Traced

/-- The loops of all calls are where the monitor is. -/
theorem State.Paced.handle {a : ConnectionHandle.Action} (h : s.Paced)
    (hs : stepHandle s a = some t) : t.Paced := by
  cases a with
  | pace k answer => exact h.pace hs
  | wake k => exact h.wake hs
  | «open» k => exact h.open hs
  | dial k failed => exact h.dial hs
  | _ =>
    obtain ⟨-, handle, hstep, rfl⟩ := handle_cases hs
    exact AllPaced.silent h hstep rfl

theorem State.Paced.step {a : Action} (h : s.Paced) (hs : step s a = some t) : t.Paced := by
  obtain ⟨elapsed, rfl⟩ | ⟨b, hb⟩ | ⟨i, k, x, handle, hstep, rfl⟩ | ⟨i, x, rfl⟩ := step_shape hs
  · exact fun k => (h k).wait (Nat.le_add_right _ _)
  · exact h.handle hb
  · exact AllPaced.silent h hstep rfl
  · exact h

theorem reachable_paced {G : State → Action → Prop} (h : Reach system G s) : s.Paced := by
  refine h.invariant ?_ fun _ _ _ hpaced _ hs => hpaced.step hs
  intro s ⟨reconnects, hs⟩ k
  rw [hs]
  rfl

/-! ## The consumer's loop -/

/-- `recover` by the monitor, from the first attempt on. -/
def Retried (now : ℕ) (trace : List Event) : Phase → Prop
  | .leaving => trace = []
  | .starting failures | .connecting _ failures =>
    failures = UInt32.ofNat (asks trace) ∧ ∃ notBefore, notBefore ≤ now ∧
      Stands .consumer (.attempt 0 0) 1 trace (.attempt (asks trace) notBefore)
  | .subscribing _ failures => failures = UInt32.ofNat (asks trace) ∧
      Stands .consumer (.attempt 0 0) 1 trace (.outcome (asks trace))
  | .pacing failures error => failures = UInt32.ofNat (asks trace + 1) ∧
      Stands .consumer (.attempt 0 0) 1 trace (.question (asks trace + 1) (some (.inr error)))
  | .sleeping failures due => failures = UInt32.ofNat (asks trace) ∧
      Stands .consumer (.attempt 0 0) 1 trace (.attempt (asks trace) due)
  | _ => ∃ next, Stands .consumer (.attempt 0 0) 1 trace next

/-- An attempt comes first, before any question. -/
def Begins (trace : List Event) : Prop :=
  trace = [] ∨ ∃ time rest, trace = .tried time :: rest

structure Stream.Retried (now : ℕ) (x : Stream) : Prop where
  begins : Begins x.trace
  stands : Recovery.Retried now x.trace x.phase

theorem Begins.append (h : Begins trace) (hne : trace ≠ []) (event : Event) :
    Begins (trace ++ [event]) := by
  obtain hnil | ⟨time, rest, rfl⟩ := h
  · exact absurd hnil hne
  · exact .inr ⟨time, rest ++ [event], rfl⟩

theorem Begins.tried (h : Begins trace) (time : ℕ) : Begins (trace ++ [Event.tried time]) := by
  obtain rfl | ⟨first, rest, rfl⟩ := h
  · exact .inr ⟨time, [], rfl⟩
  · exact .inr ⟨first, rest ++ [Event.tried time], rfl⟩

theorem Begins.governed_iff (h : Begins trace) : Governed .consumer trace ↔ tries trace = 0 := by
  obtain rfl | ⟨time, rest, rfl⟩ := h
  · exact iff_of_true rfl rfl
  · refine iff_of_false nofun ?_
    simp [tries, Event.isTried]

theorem Retried.stands {q : Phase} (h : Retried now trace q) :
    ∃ next, Stands .consumer (.attempt 0 0) 1 trace next := by
  cases q with
  | leaving =>
    obtain rfl : trace = [] := h
    exact ⟨.attempt 0 0, rfl⟩
  | starting | connecting => obtain ⟨-, notBefore, -, hstands⟩ := h; exact ⟨_, hstands⟩
  | subscribing | pacing | sleeping => exact ⟨_, h.2⟩
  | _ => exact h

theorem Retried.wait {q : Phase} (h : Retried now trace q) (hle : now ≤ later) :
    Retried later trace q := by
  cases q with
  | starting | connecting =>
    obtain ⟨hfailures, notBefore, hdue, hstands⟩ := h
    exact ⟨hfailures, notBefore, hdue.trans hle, hstands⟩
  | _ => exact h

theorem Stream.Retried.set {x : Stream} (h : ∀ j, (s.streams j).Retried now) (hx : x.Retried now)
    (j : ℕ) : ((s.setStream i x).streams j).Retried now := by
  simp only [State.setStream, Function.update_apply]
  split_ifs
  · exact hx
  · exact h j

theorem Stream.Retried.connected (h : ∀ j, (s.streams j).Retried s.now)
    (hs : stepConnected s i = some t) (j : ℕ) : (t.streams j).Retried t.now := by
  obtain ⟨k, failures, hphase, ⟨c, -, rfl⟩ | ⟨error, rfl⟩⟩ := connected_cases hs
  · have before : Recovery.Retried s.now (s.streams i).trace (.connecting k failures) :=
      hphase ▸ (h i).stands
    obtain ⟨hfailures, notBefore, hdue, hstands⟩ := before
    refine set h ?_ j
    refine ⟨(h i).begins.tried _, ?_⟩
    have hasks : asks ((s.streams i).trace ++ [Event.tried s.now]) = asks (s.streams i).trace :=
      asks_append _ _
    refine ⟨?_, ?_⟩
    · rw [hasks]
      exact hfailures
    · rw [hasks]
      exact hstands.tried hdue
  · refine set h ?_ j
    exact ⟨(h i).begins, (h i).stands.stands⟩

theorem Stream.Retried.subscribe {failed : Option Failure} (h : ∀ j, (s.streams j).Retried s.now)
    (hs : stepSubscribe s i failed = some t) (j : ℕ) : (t.streams j).Retried t.now := by
  obtain ⟨c, failures, hphase, ⟨error, -, rfl⟩ | rfl⟩ := subscribe_cases hs
  · have before : Recovery.Retried s.now (s.streams i).trace (.subscribing c failures) :=
      hphase ▸ (h i).stands
    obtain ⟨hfailures, hstands⟩ := before
    refine set h ?_ j
    refine ⟨(h i).begins.append (hstands.ne_nil le_rfl nofun) _, ?_⟩
    have hasks : asks ((s.streams i).trace ++ [Event.failed (.inr error)]) =
        asks (s.streams i).trace := asks_append _ _
    refine ⟨?_, ?_⟩
    · rw [hasks, hfailures]
      simp
    · rw [hasks]
      exact hstands.failed
  · refine set h ?_ j
    exact ⟨(h i).begins, (h i).stands.stands⟩

theorem Stream.Retried.pace {answer : Option Duration} (h : ∀ j, (s.streams j).Retried s.now)
    (hs : stepPace s i answer = some t) (j : ℕ) : (t.streams j).Retried t.now := by
  obtain ⟨failures, error, hphase, hpaced⟩ := pace_cases hs
  have before : Recovery.Retried s.now (s.streams i).trace (.pacing failures error) :=
    hphase ▸ (h i).stands
  obtain ⟨hfailures, hstands⟩ := before
  have hbegins := (h i).begins.append (hstands.ne_nil le_rfl nofun)
    (.asked (.after .consumer failures (.inr error)) answer s.now)
  have hasked := hstands.asked (a := .after .consumer failures (.inr error)) answer s.now rfl
    hfailures rfl rfl
  obtain ⟨rfl, rfl⟩ | ⟨delay, rfl, rfl⟩ := hpaced
  · refine set h ?_ j
    exact ⟨hbegins, _, hasked⟩
  · refine set h ?_ j
    refine ⟨hbegins, ?_⟩
    have hasks : asks ((s.streams i).trace ++ [Event.asked (.after .consumer failures (.inr error))
        (some delay) s.now]) = asks (s.streams i).trace + 1 := asks_append _ _
    refine ⟨?_, ?_⟩
    · rw [hasks]
      exact hfailures
    · rw [hasks]
      exact hasked

theorem Stream.Retried.step {a : Action} (h : ∀ j, (s.streams j).Retried s.now)
    (hs : step s a = some t) (j : ℕ) : (t.streams j).Retried t.now := by
  cases a with
  | tick elapsed =>
    obtain rfl := Option.some.inj hs
    exact ⟨(h j).begins, (h j).stands.wait (Nat.le_add_right _ _)⟩
  | handle a =>
    obtain ⟨-, handle, -, rfl⟩ := handle_cases hs
    exact h j
  | consume i | poll i | discard i | stop i =>
    simp only [Recovery.step] at hs
    obtain ⟨-, rfl⟩ := move_cases hs
    refine set h ?_ j
    exact ⟨(h i).begins, (h i).stands.stands⟩
  | deliver i decodes =>
    obtain ⟨-, -, rfl | rfl⟩ := deliver_cases hs <;>
    · refine set h ?_ j
      exact ⟨(h i).begins, (h i).stands.stands⟩
  | enter i =>
    obtain ⟨-, rfl | ⟨-, rfl⟩⟩ := enter_cases hs
    · refine set h ?_ j
      exact ⟨(h i).begins, (h i).stands.stands⟩
    · refine set h ?_ j
      exact ⟨.inl rfl, rfl⟩
  | leave i =>
    simp only [Recovery.step] at hs
    obtain ⟨hphase, rfl⟩ := move_cases hs
    have hleaving : (s.streams i).phase = .leaving := by
      cases hp : (s.streams i).phase <;> simp [hp] at hphase ⊢
    have before : Recovery.Retried s.now (s.streams i).trace .leaving := hleaving ▸ (h i).stands
    have hnil : (s.streams i).trace = [] := before
    refine set h ?_ j
    refine ⟨(h i).begins, ?_⟩
    rw [hnil]
    exact ⟨rfl, 0, Nat.zero_le _, rfl⟩
  | connect i k =>
    obtain ⟨failures, handle, hphase, -, rfl⟩ := connect_cases hs
    have before : Recovery.Retried s.now (s.streams i).trace (.starting failures) :=
      hphase ▸ (h i).stands
    refine set h ?_ j
    exact ⟨(h i).begins, before⟩
  | connected i => exact connected h hs j
  | subscribe i failed => exact subscribe h hs j
  | pace i answer => exact pace h hs j
  | wake i =>
    obtain ⟨failures, due, hphase, ⟨-, rfl⟩ | ⟨-, hdue, rfl⟩⟩ := wake_cases hs
    · refine set h ?_ j
      exact ⟨(h i).begins, (h i).stands.stands⟩
    · have before : Recovery.Retried s.now (s.streams i).trace (.sleeping failures due) :=
        hphase ▸ (h i).stands
      refine set h ?_ j
      exact ⟨(h i).begins, before.1, due, hdue, before.2⟩

theorem reachable_retried {G : State → Action → Prop} (h : Reach system G s) :
    ∀ i, (s.streams i).Retried s.now := by
  have base : ∀ s, system.start s → ∀ i, (s.streams i).Retried s.now := by
    intro s ⟨reconnects, hs⟩ i
    rw [hs]
    exact ⟨.inl rfl, _, rfl⟩
  have held := h.invariant base fun _ _ _ hretried _ hs => Stream.Retried.step hretried hs
  exact held

/-! ## The attempts under `max_attempts` -/

/-- A trace starts anew or takes one more event, a question only when the loop is to ask. -/
def Grows (before after : List Event) (asking : Prop) : Prop :=
  after = before ∨ after = [] ∨
    ∃ event, after = before ++ [event] ∧ (event.isAsked = true → asking)

theorem Grows.counted {before after : List Event} {asking : Prop} {policy : BackoffPolicy}
    {skipped : ℕ} (h : Grows before after asking) (hskipped : skipped ≤ 1)
    (counted : Follows policy before → asks before + skipped ≤ 2 ^ 32)
    (below : asking → Follows policy before → asks before + skipped ≤ 2 ^ 32 →
      asks before + skipped < 2 ^ 32) (follows : Follows policy after) :
    asks after + skipped ≤ 2 ^ 32 := by
  obtain rfl | rfl | ⟨event, rfl, hasked⟩ := h
  · exact counted follows
  · have hnone : asks [] = 0 := rfl
    omega
  · have hbefore := counted follows.before
    rw [asks_append]
    split_ifs with hevent
    · have hlt := below (hasked hevent) follows.before hbefore
      omega
    · exact hbefore

theorem emits_asked {a : ConnectionHandle.Action} {event : Event}
    (h : s.emits a = some (k, event)) (hasked : event.isAsked = true) :
    ∃ failures last, s.handle.phase k = .pacing failures last := by
  unfold State.emits at h
  split at h
  · next j answer =>
    split at h
    · next failures last hphase =>
      obtain ⟨rfl, -⟩ := Prod.mk.inj (Option.some.inj h)
      exact ⟨failures, last, hphase⟩
    · cases h
  · split_ifs at h
    obtain ⟨-, rfl⟩ := Prod.mk.inj (Option.some.inj h)
    cases hasked
  · obtain ⟨-, rfl⟩ := Prod.mk.inj (Option.some.inj h)
    cases hasked
  · cases h

theorem pace_grows {a : Action} (hs : step s a = some t) (k : ℕ) :
    Grows (s.pace k) (t.pace k) (∃ failures last, s.handle.phase k = .pacing failures last) := by
  obtain ⟨elapsed, rfl⟩ | ⟨b, hb⟩ | ⟨i, k, x, handle, -, rfl⟩ | ⟨i, x, rfl⟩ := step_shape hs
  · exact .inl rfl
  · obtain ⟨-, handle, -, rfl⟩ := handle_cases hb
    cases hemits : s.emits b with
    | none => exact .inl rfl
    | some emitted =>
      obtain ⟨j, event⟩ := emitted
      by_cases hj : j = k
      · subst j
        refine .inr (.inr ⟨event, ?_, emits_asked hemits⟩)
        simp [State.record]
      · have hne : k ≠ j := fun heq => hj heq.symm
        exact .inl (by simp [State.record, hne])
  · exact .inl rfl
  · exact .inl rfl

/-- Under a policy with a limit the connection's count of failures does not wrap. -/
theorem reachable_counted {G : State → Action → Prop} {policy : BackoffPolicy} {limit : UInt32}
    (hlimit : policy.maxAttempts = some limit) (h : Reach system G s) :
    ∀ k, Follows policy (s.pace k) → asks (s.pace k) + 0 ≤ 2 ^ 32 := by
  have base : ∀ s, system.start s →
      ∀ k, Follows policy (s.pace k) → asks (s.pace k) + 0 ≤ 2 ^ 32 := by
    intro s ⟨reconnects, hs⟩ k _
    rw [hs]
    exact Nat.zero_le _
  have keep : ∀ s a t, s.Paced → t.Paced →
      (∀ k, Follows policy (s.pace k) → asks (s.pace k) + 0 ≤ 2 ^ 32) → G s a →
      system.step s a = some t →
      ∀ k, Follows policy (t.pace k) → asks (t.pace k) + 0 ≤ 2 ^ 32 := by
    intro s a t hpaced _ counted _ hs k
    refine (pace_grows hs k).counted (Nat.zero_le 1) (counted k) ?_
    intro ⟨failures, last, hphase⟩ follows hle
    have before : Recovery.Paced s.now (s.due k) (s.pace k) (.pacing failures last) :=
      hphase ▸ hpaced k
    exact before.2.2.asks_lt rfl hle (follows.declines hlimit 0) (Nat.zero_le 1)
      ⟨le_rfl, Nat.zero_le _⟩ (by have := limit.toNat_lt; omega)
  have held := h.strengthen (fun s hs => reachable_paced hs) base keep
  exact held

/-- The stream is about to ask. -/
def Stream.asking (x : Stream) : Prop := ∃ failures error, x.phase = .pacing failures error

theorem Grows.set {x : Stream}
    (h : Grows (s.streams i).trace x.trace (s.streams i).asking) (j : ℕ) :
    Grows (s.streams j).trace ((s.setStream i x).streams j).trace (s.streams j).asking := by
  simp only [State.setStream, Function.update_apply]
  split_ifs with hj
  · exact hj ▸ h
  · exact .inl rfl

theorem trace_grows {a : Action} (hs : step s a = some t) (j : ℕ) :
    Grows (s.streams j).trace (t.streams j).trace (s.streams j).asking := by
  cases a with
  | tick elapsed =>
    obtain rfl := Option.some.inj hs
    exact .inl rfl
  | handle a =>
    obtain ⟨-, handle, -, rfl⟩ := handle_cases hs
    exact .inl rfl
  | consume i | poll i | discard i | stop i | leave i =>
    simp only [step] at hs
    obtain ⟨-, rfl⟩ := move_cases hs
    refine Grows.set ?_ j
    exact .inl rfl
  | deliver i decodes =>
    obtain ⟨-, -, rfl | rfl⟩ := deliver_cases hs <;>
    · refine Grows.set ?_ j
      exact .inl rfl
  | enter i =>
    obtain ⟨-, rfl | ⟨-, rfl⟩⟩ := enter_cases hs
    · refine Grows.set ?_ j
      exact .inl rfl
    · refine Grows.set ?_ j
      exact .inr (.inl rfl)
  | connect i k =>
    obtain ⟨failures, handle, -, -, rfl⟩ := connect_cases hs
    refine Grows.set ?_ j
    exact .inl rfl
  | connected i =>
    obtain ⟨k, failures, -, ⟨c, -, rfl⟩ | ⟨error, rfl⟩⟩ := connected_cases hs
    · refine Grows.set ?_ j
      exact .inr (.inr ⟨_, rfl, fun h => by cases h⟩)
    · refine Grows.set ?_ j
      exact .inl rfl
  | subscribe i failed =>
    obtain ⟨c, failures, -, ⟨error, -, rfl⟩ | rfl⟩ := subscribe_cases hs
    · refine Grows.set ?_ j
      exact .inr (.inr ⟨_, rfl, fun h => by cases h⟩)
    · refine Grows.set ?_ j
      exact .inl rfl
  | pace i answer =>
    obtain ⟨failures, error, hphase, ⟨-, rfl⟩ | ⟨delay, -, rfl⟩⟩ := pace_cases hs <;>
    · refine Grows.set ?_ j
      exact .inr (.inr ⟨_, rfl, fun _ => ⟨failures, error, hphase⟩⟩)
  | wake i =>
    obtain ⟨failures, due, -, ⟨-, rfl⟩ | ⟨-, -, rfl⟩⟩ := wake_cases hs <;>
    · refine Grows.set ?_ j
      exact .inl rfl

/-- Under a policy with a limit the consumer's count of failures does not wrap. -/
theorem reachable_recounted {G : State → Action → Prop} {policy : BackoffPolicy} {limit : UInt32}
    (hlimit : policy.maxAttempts = some limit) (h : Reach system G s) :
    ∀ i, Follows policy (s.streams i).trace → asks (s.streams i).trace + 1 ≤ 2 ^ 32 := by
  have base : ∀ s, system.start s →
      ∀ i, Follows policy (s.streams i).trace → asks (s.streams i).trace + 1 ≤ 2 ^ 32 := by
    intro s ⟨reconnects, hs⟩ i _
    rw [hs]
    exact Nat.one_le_two_pow
  have keep : ∀ s a t, (∀ i, (s.streams i).Retried s.now) → (∀ i, (t.streams i).Retried t.now) →
      (∀ i, Follows policy (s.streams i).trace → asks (s.streams i).trace + 1 ≤ 2 ^ 32) →
      G s a → system.step s a = some t →
      ∀ i, Follows policy (t.streams i).trace → asks (t.streams i).trace + 1 ≤ 2 ^ 32 := by
    intro s a t hretried _ counted _ hs i
    refine (trace_grows hs i).counted le_rfl (counted i) ?_
    intro ⟨failures, error, hphase⟩ follows hle
    have before : Recovery.Retried s.now (s.streams i).trace (.pacing failures error) :=
      hphase ▸ (hretried i).stands
    exact before.2.asks_lt rfl hle (follows.declines hlimit 1) le_rfl
      (Nat.lt_of_lt_of_le Nat.zero_lt_one (Nat.le_max_right _ _))
      (by have := limit.toNat_lt; omega)
  have held := h.strengthen (fun s hs => reachable_retried hs) base keep
  exact held

/-- In every state the policy has governed the reconnect loop of a call exactly if the call
has not consulted it more than `2 ^ 32` times, and the loop of a consumer exactly if that has
made no attempt. Under `max_attempts(Some(limit))` a call that the policy has ended has made
`limit` attempts; a consumer has made as many, but at least one. -/
theorem policy_governs (h : Reachable system s) :
    (∀ k, Governed .connection (s.pace k) ↔ asks (s.pace k) ≤ 2 ^ 32) ∧
      (∀ i, Governed .consumer (s.streams i).trace ↔ tries (s.streams i).trace = 0) ∧
      ∀ (policy : BackoffPolicy) (limit : UInt32), policy.maxAttempts = some limit →
        (∀ k attempt time before, s.pace k = before ++ [.asked attempt none time] →
          Follows policy (s.pace k) → tries (s.pace k) = limit.toNat) ∧
        ∀ i attempt time before, (s.streams i).trace = before ++ [.asked attempt none time] →
          Follows policy (s.streams i).trace → tries (s.streams i).trace = max limit.toNat 1 := by
  refine ⟨fun k => ?_, fun i => (reachable_retried h i).begins.governed_iff,
    fun policy limit hlimit => ⟨fun k attempt time before htrace follows => ?_,
      fun i attempt time before htrace follows => ?_⟩⟩
  · obtain ⟨next, hstands⟩ := (reachable_paced h k).stands
    exact hstands.isSome_iff
  · obtain ⟨next, hstands⟩ := (reachable_paced h k).stands
    have hle := reachable_counted hlimit h k follows
    unfold Stands at hstands
    rw [if_pos hle] at hstands
    have declines : Declines 0 limit.toNat (s.pace k) := by
      simpa only [Nat.max_zero] using follows.declines hlimit 0
    have within : (Next.question 0 none).Within 0 limit.toNat := ⟨le_rfl, Nat.zero_le _⟩
    exact tries_of_declined declines (Nat.zero_le 1) within rfl hstands htrace
  · obtain ⟨next, hstands⟩ := (reachable_retried h i).stands.stands
    have hle := reachable_recounted hlimit h i follows
    unfold Stands at hstands
    rw [if_pos hle] at hstands
    exact tries_of_declined (follows.declines hlimit 1) le_rfl
      (Nat.lt_of_lt_of_le Nat.zero_lt_one (Nat.le_max_right _ _)) rfl hstands htrace

def allowing (limit : UInt32) : BackoffPolicy := ⟨some limit, .none⟩

/-- The policy of one attempt lets the call dial once. -/
theorem reconnect_governed : ∃ s, Reachable system s ∧ Follows (allowing 1) (s.pace 0) ∧
    Governed .connection (s.pace 0) ∧ tries (s.pace 0) = 1 := by
  have start : Reachable system (initial true) := .start ⟨true, rfl⟩
  have reached := start.run [.handle (.drop 0), .handle (.call 0), .handle (.check 0),
    .handle (.peek 0), .handle (.judge 0), .handle (.lock 0), .handle (.check 0), .handle (.peek 0),
    .handle (.judge 0), .handle (.pace 0 (some .zero)), .handle (.open 0),
    .handle (.dial 0 (some (.other "refused"))), .handle (.pace 0 none)] rfl
  have governed := policy_governs reached
  have follows : Follows (allowing 1) [.asked (.first .connection) (some .zero) 0, .tried 0,
      .failed (.inl (.other "refused")),
      .asked (.after .connection 1 (.inl (.other "refused"))) none 0] := by
    intro attempt answer time hin
    simp only [List.mem_cons, Event.asked.injEq, reduceCtorEq, List.not_mem_nil, or_false,
      false_or] at hin
    obtain ⟨fl⟩ : Nonempty Floats := inferInstance
    obtain ⟨rfl, rfl, rfl⟩ | ⟨rfl, rfl, rfl⟩ := hin <;> exact ⟨fl, id, rfl⟩
  exact ⟨_, reached, follows, (governed.1 0).mpr (by decide),
    (governed.2.2 (allowing 1) 1 rfl).1 0 _ _ [_, _, _] rfl follows⟩

/-- Under a policy of no attempts a consumer whose subscription has ended makes one, without
having asked. -/
theorem consumer_unasked : ∃ s, Reachable system s ∧ Follows (allowing 0) (s.streams 0).trace ∧
    tries (s.streams 0).trace = 1 ∧ ¬ Governed .consumer (s.streams 0).trace := by
  have start : Reachable system (initial true) := .start ⟨true, rfl⟩
  have reached := start.run [.consume 0, .poll 0, .stop 0, .enter 0, .leave 0, .connect 0 0,
    .handle (.check 0), .handle (.peek 0), .handle (.judge 0), .connected 0,
    .subscribe 0 (some (amqp (.other "no queue"))), .pace 0 none] rfl
  refine ⟨_, reached, fun attempt answer time hin => ?_, rfl, nofun⟩
  have hin : Event.asked attempt answer time ∈ [.tried 0, .failed (.inr (amqp (.other "no queue"))),
    .asked (.after .consumer 1 (.inr (amqp (.other "no queue")))) none 0] := hin
  simp only [List.mem_cons, Event.asked.injEq, reduceCtorEq, List.not_mem_nil, or_false,
    false_or] at hin
  obtain ⟨fl⟩ : Nonempty Floats := inferInstance
  obtain ⟨rfl, rfl, rfl⟩ := hin
  exact ⟨fl, id, rfl⟩

end Queuey.Rabbit.Recovery
