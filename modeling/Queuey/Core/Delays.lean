import Queuey.Core.MemoryFlow
import Queuey.Core.RacingClose

/-!
# Delays on the in-memory backend

A delay is added to the clock once, when its operation schedules. As long as the sum can be
represented nobody panics, and what an operation answered `Ok` for sleeps until its delay,
counted from the call, is over. A message that is awake is due.
-/
namespace Queuey.MemoryBackend
open Transition

variable {V : Type} {s t : State V} {a : Action V} {k c n : ℕ} {r : Request V} {m : Message V}

/-- The clock can represent the end of every delay that is scheduled, and no close falls
between the check of an operation without a delay and its scheduling. -/
def Bearable (s : State V) : Action V → Prop
  | .schedule k => ∀ r, s.calls k = .scheduling r → r.delay.isZero = false →
      s.now + r.delay.nanos ≤ s.horizon
  | a => Unraced s a

theorem Bearable.unraced (h : Bearable s a) : Unraced s a := by
  cases a with
  | schedule k => trivial
  | _ => exact h

/-- When each call was made, after a step. -/
def Action.stamp (now : ℕ) (called : ℕ → ℕ) : Action V → ℕ → ℕ
  | publish k _ _ | defer k _ _ | settle k _ _ _ => Function.update called k now
  | _ => called

/-- What a call made at `since` has taken for the end of its delay is no earlier than that. -/
def Call.Waits (since : ℕ) (did : List (Effect V)) : Call V → Prop
  | counting r deadline | guarding r deadline => since + r.delay.nanos ≤ deadline
  | recording r | returned (some r) _ =>
    ∀ m, .inserted m ∈ did ∨ .slept m ∈ did → since + r.delay.nanos ≤ m.due
  | panicked _ => False
  | _ => True

structure Timed (s : State V) (called : ℕ → ℕ) : Prop where
  past : ∀ k, called k ≤ s.now
  waits : ∀ k, (s.calls k).Waits (called k) (s.did k)

variable {called called' : ℕ → ℕ}

theorem Timed.aside (h : Timed s called) (aside : Aside s t) (now : s.now ≤ t.now) :
    Timed t called := by
  refine ⟨fun k => (h.past k).trans now, fun k => ?_⟩
  rw [aside.calls, aside.did]
  exact h.waits k

/-- Call `k` moves on, or is made. -/
theorem Timed.move {call : Call V} (h : Timed s called) (now : s.now ≤ t.now)
    (calls : t.calls = s.calls) (did : ∀ j, j ≠ k → t.did j = s.did j)
    (others : ∀ j, j ≠ k → called' j = called j) (since : called' k ≤ s.now)
    (hk : call.Waits (called' k) (t.did k)) : Timed (t.setCall k call) called' := by
  refine ⟨fun j => ?_, fun j => ?_⟩
  · by_cases hj : j = k
    · exact hj ▸ since.trans now
    · rw [others j hj]
      exact (h.past j).trans now
  · by_cases hj : j = k
    · subst hj
      simpa [State.setCall] using hk
    · simp only [State.setCall, Function.update_of_ne hj, calls, did j hj, others j hj]
      exact h.waits j

theorem Timed.go {call : Call V} (h : Timed s called) (now : s.now ≤ t.now)
    (calls : t.calls = s.calls) (did : ∀ j, j ≠ k → t.did j = s.did j)
    (hk : call.Waits (called k) (t.did k)) : Timed (t.setCall k call) called :=
  h.move now calls did (fun _ _ => rfl) (h.past k) hk

theorem Timed.scheduled (h : Timed s called) (now : s.now ≤ t.now) (calls : t.calls = s.calls)
    (did : ∀ j, j ≠ k → t.did j = s.did j)
    (due : ∀ m, .inserted m ∈ t.did k ∨ .slept m ∈ t.did k → called k + r.delay.nanos ≤ m.due) :
    Timed (t.scheduled k r) called := by
  apply h.go now calls did
  split_ifs
  · exact due
  · exact due

theorem Timed.schedule (h : Timed s called) (logged : Logged s) (bearable : Bearable s (.schedule k))
    (hs : stepSchedule s k = some t) : Timed t called := by
  obtain ⟨r, hk, hcases⟩ := schedule_cases hs
  have hempty : s.did k = [] := by simpa [hk, Call.Logs] using logged k
  have hpast := h.past k
  have due : called k + r.delay.nanos ≤ (s.message r).due := by
    simp only [State.message]
    omega
  obtain ⟨-, -, rfl⟩ | ⟨-, -, rfl⟩ | ⟨-, -, -, rfl⟩ | ⟨-, -, -, rfl⟩ | ⟨hzero, hgt, rfl⟩ := hcases
  · refine h.scheduled le_rfl rfl (fun _ _ => rfl) fun m hm => ?_
    simp [hempty] at hm
  · refine h.scheduled le_rfl rfl (fun j hj => did_note_ne hj _) fun m hm => ?_
    obtain rfl : m = s.message r := by
      simpa [State.note, State.insert, State.setQueue, hempty] using hm
    exact due
  · exact h.go le_rfl rfl (fun _ _ => rfl) due
  · refine h.scheduled le_rfl rfl (fun j hj => did_note_ne hj _) fun m hm => ?_
    obtain rfl : m = s.message r := by
      simpa [State.spawnTimer, State.note, State.setTimer, hempty] using hm
    exact due
  · exact absurd (bearable r hk hzero) hgt

/-- The backend with the instant at which each call was made. -/
structure Clocked (V : Type) where
  state : State V
  called : ℕ → ℕ

namespace Clocked

def step (w : Clocked V) (a : Action V) : Option (Clocked V) :=
  (MemoryBackend.step w.state a).map fun t => ⟨t, a.stamp w.state.now w.called⟩

def system (V : Type) : System (Clocked V) (Action V) where
  start w := (MemoryBackend.system V).start w.state ∧ w.called = fun _ => 0
  step := step

def Bearable (w : Clocked V) (a : Action V) : Prop := MemoryBackend.Bearable w.state a

variable {w w' : Clocked V}

theorem step_cases (hs : step w a = some w') : MemoryBackend.step w.state a = some w'.state ∧
    w'.called = a.stamp w.state.now w.called := by
  obtain ⟨t, ht, rfl⟩ := Option.map_eq_some_iff.mp hs
  exact ⟨ht, rfl⟩

end Clocked

end Queuey.MemoryBackend
