import Queuey.Rabbit.Connection

/-!
# One reconnect at a time

The reconnect mutex is held by the one call that is past it, in every reachable state.
-/
namespace Queuey.Rabbit.ConnectionHandle
open Transition

variable {s t : State} {k : ℕ} {p : Phase}

/-- The mutex is held by the one call that is past it. -/
def Locked (s : State) : Prop :=
  ∀ k, (s.phase k).locks = true ↔ s.lock = some k

theorem Locked.setPhase (h : Locked s) (hp : p.locks = (s.phase k).locks) :
    Locked (s.setPhase k p) := by
  intro j
  by_cases hj : j = k
  · subst j
    simpa [State.setPhase, hp] using h k
  · simpa [State.setPhase, hj] using h j

theorem Locked.finish (h : Locked s) (hp : p.locks = false) : Locked (s.finish k p) := by
  intro j
  have hk := h k
  have hj := h j
  by_cases hjk : j = k
  · subst j
    by_cases hl : s.lock = some k <;> simp [State.finish, State.setPhase, hp, hl]
  · by_cases hl : s.lock = some k
    · have : some k ≠ some j := fun he => hjk (Option.some.inj he).symm
      simpa [State.finish, State.setPhase, hjk, hl, this] using hj
    · simpa [State.finish, State.setPhase, hjk, hl] using hj

theorem Locked.take (h : Locked s) (hfree : s.lock = none) (hp : p.locks = true)
    (phase : t.phase = Function.update s.phase k p) (lock : t.lock = some k) : Locked t := by
  intro j
  by_cases hj : j = k
  · subst j
    simp [phase, lock, hp]
  · have held := h j
    rw [hfree] at held
    have : k ≠ j := fun he => hj he.symm
    simpa [phase, lock, hj, this] using held

theorem Locked.frame (h : Locked s) (phase : t.phase = s.phase) (lock : t.lock = s.lock) :
    Locked t := by
  intro j
  rw [phase, lock]
  exact h j

theorem Locked.unique {j : ℕ} (h : Locked s) (hj : (s.phase j).locks = true)
    (hk : (s.phase k).locks = true) : j = k :=
  Option.some.inj (((h j).mp hj).symm.trans ((h k).mp hk))

theorem Locked.step {a : Action} (h : Locked s) (hs : ConnectionHandle.step s a = some t) :
    Locked t := by
  -- Each step of a call stays on its side of the mutex or lets go of it, but for `lock`.
  cases a with
  | call k =>
    obtain ⟨hk, rfl⟩ := call_cases hs
    exact (h.setPhase (p := .checking false) (by rw [hk]; rfl)).frame rfl rfl
  | check k =>
    obtain ⟨locked, hk, ⟨-, rfl⟩ | ⟨-, rfl⟩⟩ := check_cases hs
    · exact h.finish rfl
    · exact h.setPhase (by rw [hk]; rfl)
  | peek k =>
    obtain ⟨locked, hk, rfl⟩ := peek_cases hs
    exact h.setPhase (by rw [hk]; rfl)
  | judge k =>
    obtain ⟨locked, c, hk, ⟨-, rfl⟩ | ⟨-, ⟨rfl, rfl⟩ | ⟨rfl, rfl⟩ | rfl⟩⟩ := judge_cases hs
    · exact (h.finish (p := .done (.ok c)) rfl).frame rfl rfl
    · exact h.setPhase (by rw [hk]; rfl)
    · exact h.setPhase (by rw [hk]; rfl)
    · exact h.finish rfl
  | lock k =>
    obtain ⟨-, hfree, rfl⟩ := lock_cases hs
    exact h.take hfree (p := .checking true) rfl rfl rfl
  | pace k delay =>
    obtain ⟨failures, last, hk, ⟨-, rfl⟩ | ⟨d, -, -, rfl⟩ | ⟨d, -, rfl⟩⟩ := pace_cases hs
    · exact h.finish rfl
    · exact h.setPhase (by rw [hk]; rfl)
    · exact h.setPhase (by rw [hk]; rfl)
  | wake k =>
    obtain ⟨failures, last, hk, ⟨-, rfl⟩ | ⟨-, rfl⟩⟩ := wake_cases hs
    · exact h.finish rfl
    · exact h.setPhase (by rw [hk]; rfl)
  | «open» k =>
    obtain ⟨failures, last, hk, ⟨-, rfl⟩ | ⟨-, rfl⟩⟩ := open_cases hs
    · exact h.finish rfl
    · exact (h.setPhase (p := .dialling failures) (by rw [hk]; rfl)).frame rfl rfl
  | dial k failed =>
    obtain ⟨failures, hk, ⟨e, -, rfl⟩ | ⟨-, rfl⟩⟩ := dial_cases hs
    · exact h.setPhase (by rw [hk]; rfl)
    · exact (h.setPhase (p := .dialled s.next) (by rw [hk]; rfl)).frame rfl rfl
  | recheck k =>
    obtain ⟨c, hk, ⟨-, rfl⟩ | ⟨-, rfl⟩⟩ := recheck_cases hs
    · exact h.setPhase (by rw [hk]; rfl)
    · exact h.setPhase (by rw [hk]; rfl)
  | closeQuietly k =>
    obtain ⟨c, -, rfl⟩ := closeQuietly_cases hs
    exact (h.finish (p := .done closed) rfl).frame rfl rfl
  | install k =>
    obtain ⟨c, hk, rfl⟩ := install_cases hs
    exact (h.setPhase (p := .bumping c) (by rw [hk]; rfl)).frame rfl rfl
  | bump k =>
    obtain ⟨c, hk, rfl⟩ := bump_cases hs
    exact (h.setPhase (p := .reading c) (by rw [hk]; rfl)).frame rfl rfl
  | read k order =>
    obtain ⟨c, hk, -, ⟨-, rfl⟩ | rfl⟩ := read_cases hs
    · exact (h.finish (p := .done (.ok c)) rfl).frame rfl rfl
    · exact (h.setPhase (p := .openingChannel c) (by rw [hk]; rfl)).frame rfl rfl
  | openChannel k opened =>
    obtain ⟨c, hk, rfl | rfl⟩ := openChannel_cases hs
    · exact h.setPhase (by rw [hk]; rfl)
    · exact (h.finish (p := .done (.ok c)) rfl).frame rfl rfl
  | redeclare k accepted =>
    obtain ⟨c, config, rest, hk, ⟨-, rfl⟩ | ⟨-, rfl⟩⟩ := redeclare_cases hs
    · exact (h.setPhase (p := .redeclaring c rest) (by rw [hk]; rfl)).frame rfl rfl
    · exact (h.setPhase (p := .closingChannel c) (by rw [hk]; rfl)).frame rfl rfl
  | closeChannel k =>
    obtain ⟨c, -, rfl⟩ := closeChannel_cases hs
    exact h.finish rfl
  | cancel k =>
    obtain ⟨-, -, rfl⟩ | ⟨c, -, rfl⟩ | ⟨c, -, -, rfl⟩ := cancel_cases hs
    · exact h.finish rfl
    · exact (h.finish (p := .cancelled) rfl).frame rfl rfl
    · exact (h.finish (p := .cancelled) rfl).frame rfl rfl
  | subscribe k =>
    obtain ⟨c, -, -, rfl⟩ := subscribe_cases hs
    exact h.frame rfl rfl
  | mark j | markAgain j =>
    obtain ⟨u, hu, rfl⟩ := Option.map_eq_some_iff.mp hs
    obtain ⟨-, rfl⟩ := closer_cases hu
    exact h.frame rfl rfl
  | drain j | peekCurrent j =>
    obtain ⟨-, rfl⟩ := closer_cases hs
    exact h.frame rfl rfl
  | closeCurrent j =>
    obtain ⟨c, -, rfl⟩ := closeCurrent_cases hs
    exact h.frame rfl rfl
  | remember config | drop c =>
    obtain rfl := Option.some.inj hs
    exact h.frame rfl rfl

theorem reachable_locked (h : Reachable system s) : Locked s := by
  refine h.invariant ?_ fun _ _ _ hl _ hs => hl.step hs
  rintro _ ⟨reconnects, rfl⟩ k
  simp [connected, Phase.locks]

end Queuey.Rabbit.ConnectionHandle
