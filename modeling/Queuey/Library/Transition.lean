import Mathlib.Logic.Function.Basic
import Mathlib.Data.List.Basic

/-!
# Transition systems with guarded runs

A system is a set of start states and one executable partial step for each action.
A guard restricts the actions a run may take; the unrestricted runs are those of the
guard that is always true. The invariant rules below are the only inductions over
runs that the developments on top of this file need.
-/
namespace Queuey.Transition

/-- A transition system. An action that is not enabled in a state has no successor. -/
structure System (σ α : Type*) where
  start : σ → Prop
  step : σ → α → Option σ

variable {σ α : Type*} {T : System σ α} {G H : σ → α → Prop} {s t u : σ} {a : α}

/-- The states reached by runs whose every step meets the guard. -/
inductive Reach (T : System σ α) (G : σ → α → Prop) : σ → Prop where
  | start {s : σ} : T.start s → Reach T G s
  | next {s t : σ} {a : α} : Reach T G s → G s a → T.step s a = some t → Reach T G t

/-- The guard that every action of every state meets. -/
def anyway : σ → α → Prop := fun _ _ => True

/-- The states of all runs. -/
abbrev Reachable (T : System σ α) : σ → Prop := Reach T anyway

/-- Successive actions from one state. -/
def System.run (T : System σ α) : σ → List α → Option σ
  | s, [] => some s
  | s, a :: rest => (T.step s a).bind fun t => T.run t rest

/-- Every action of the list meets the guard where the run takes it. -/
def System.Guarded (T : System σ α) (G : σ → α → Prop) : σ → List α → Prop
  | _, [] => True
  | s, a :: rest => G s a ∧ ∀ t, T.step s a = some t → T.Guarded G t rest

@[simp] theorem run_nil : T.run s [] = some s := rfl

@[simp] theorem run_cons (rest : List α) :
    T.run s (a :: rest) = (T.step s a).bind fun t => T.run t rest := rfl

theorem Reach.mono (weaker : ∀ s a, G s a → H s a) (h : Reach T G s) : Reach T H s := by
  induction h with
  | start hs => exact .start hs
  | next _ hg hstep ih => exact .next ih (weaker _ _ hg) hstep

theorem Reach.reachable (h : Reach T G s) : Reachable T s := h.mono fun _ _ _ => trivial

theorem Reach.guardedRun (h : Reach T G s) (actions : List α) (hg : T.Guarded G s actions)
    (hrun : T.run s actions = some t) : Reach T G t := by
  induction actions generalizing s with
  | nil =>
    obtain rfl : s = t := by simpa using hrun
    exact h
  | cons a rest ih =>
    obtain ⟨u, hu, hrest⟩ : ∃ u, T.step s a = some u ∧ T.run u rest = some t := by
      simpa [Option.bind_eq_some_iff] using hrun
    exact ih (h.next hg.1 hu) (hg.2 u hu) hrest

/-- Successive actions, each checked where the run takes it. -/
def System.checked (T : System σ α) (g : σ → α → Bool) : σ → List α → Option σ
  | s, [] => some s
  | s, a :: rest => if g s a then (T.step s a).bind fun t => T.checked g t rest else none

theorem Reach.checkedRun {g : σ → α → Bool} (sound : ∀ s a, g s a = true → G s a)
    (h : Reach T G s) (actions : List α) (hrun : T.checked g s actions = some t) : Reach T G t := by
  induction actions generalizing s with
  | nil =>
    obtain rfl : s = t := by simpa [System.checked] using hrun
    exact h
  | cons a rest ih =>
    unfold System.checked at hrun
    split_ifs at hrun with hg
    obtain ⟨u, hu, hrest⟩ := Option.bind_eq_some_iff.mp hrun
    exact ih (h.next (sound s a hg) hu) hrest

/-- Actions that meet the guard in every state meet it wherever a run takes them. -/
theorem guarded_of_forall {actions : List α} (h : ∀ a ∈ actions, ∀ s, G s a) (s : σ) :
    T.Guarded G s actions := by
  induction actions generalizing s with
  | nil => trivial
  | cons a rest ih =>
    exact ⟨h a List.mem_cons_self s, fun t _ => ih (fun b hb => h b (List.mem_cons_of_mem a hb)) t⟩

theorem Reach.run (h : Reachable T s) (actions : List α)
    (hrun : T.run s actions = some t) : Reachable T t :=
  h.guardedRun actions (guarded_of_forall (fun _ _ _ => trivial) s) hrun

/-- What holds at the start and is kept by every guarded step holds in every state. -/
theorem Reach.invariant {Inv : σ → Prop} (base : ∀ s, T.start s → Inv s)
    (keep : ∀ s a t, Inv s → G s a → T.step s a = some t → Inv t)
    (h : Reach T G s) : Inv s := by
  induction h with
  | start hs => exact base _ hs
  | next _ hg hstep ih => exact keep _ _ _ ih hg hstep

/-- The invariant rule when a second invariant is already known. -/
theorem Reach.strengthen {K Inv : σ → Prop} (known : ∀ s, Reach T G s → K s)
    (base : ∀ s, T.start s → Inv s)
    (keep : ∀ s a t, K s → K t → Inv s → G s a → T.step s a = some t → Inv t)
    (h : Reach T G s) : Inv s := by
  induction h with
  | start hs => exact base _ hs
  | next hr hg hstep ih =>
    exact keep _ _ _ (known _ hr) (known _ (.next hr hg hstep)) ih hg hstep

/-- One step, and then a run. -/
theorem run_step {rest : List α} (hs : T.step s a = some u) (hrun : T.run u rest = some t) :
    T.run s (a :: rest) = some t := by
  rw [run_cons, hs]
  exact hrun

/-- An invariant kept by every step of `T` survives any run from a state that has it. -/
theorem run_preserves {Inv : σ → Prop}
    (keep : ∀ s a t, Inv s → T.step s a = some t → Inv t) {actions : List α}
    (hs : Inv s) (hrun : T.run s actions = some t) : Inv t := by
  induction actions generalizing s with
  | nil =>
    obtain rfl : s = t := by simpa using hrun
    exact hs
  | cons a rest ih =>
    obtain ⟨u, hu, hrest⟩ : ∃ u, T.step s a = some u ∧ T.run u rest = some t := by
      simpa [Option.bind_eq_some_iff] using hrun
    exact ih (keep _ _ _ hs hu) hrest

/-- A preorder that every step ascends in, runs ascend in. -/
theorem run_ascends {R : σ → σ → Prop} (refl : ∀ s, R s s)
    (trans : ∀ s u t, R s u → R u t → R s t) (step : ∀ s a t, T.step s a = some t → R s t)
    {actions : List α} (hrun : T.run s actions = some t) : R s t := by
  have keep : ∀ u a v, R s u → T.step u a = some v → R s v := fun u a v hu hs =>
    trans s u v hu (step u a v hs)
  exact run_preserves keep (refl s) hrun

/-- A layer each step of which is the same step of the system below has its runs. -/
theorem run_map {τ : Type*} {B : System τ α} {below : σ → τ} {Inv : σ → Prop}
    (keep : ∀ s a t, Inv s → T.step s a = some t → Inv t)
    (same : ∀ s a, Inv s → (T.step s a).map below = B.step (below s) a) (hs : Inv s)
    (actions : List α) : (T.run s actions).map below = B.run (below s) actions := by
  induction actions generalizing s with
  | nil => rfl
  | cons a rest ih =>
    rw [run_cons, run_cons, ← same s a hs]
    cases hstep : T.step s a with
    | none => rfl
    | some t => exact ih (keep s a t hs hstep)

/-- A layer whose steps take at most one step of the system below goes through states of
that system only. -/
theorem Reach.project {τ β : Type*} {B : System τ β} {below : σ → τ}
    (start : ∀ s, T.start s → B.start (below s))
    (step : ∀ s a t, T.step s a = some t →
      below t = below s ∨ ∃ b, B.step (below s) b = some (below t))
    (h : Reach T G s) : Reachable B (below s) := by
  induction h with
  | start hs => exact .start (start _ hs)
  | next _ _ hstep ih =>
    obtain hsame | ⟨b, hb⟩ := step _ _ _ hstep
    · exact hsame ▸ ih
    · exact ih.next trivial hb

end Queuey.Transition
