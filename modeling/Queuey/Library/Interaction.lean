import Mathlib.Data.List.Basic
import Mathlib.Order.Basic

/-!
# Programs that interact with an environment

A program either returns or performs one operation and continues with the answer. The
environment is a function of the moment and the operation, so it ranges over every
sequence of answers. `Ensures p Q` says that `Q` holds of the events and the result of
every run of `p`; it composes along `bind` without unfolding the parts.
-/
namespace Queuey.Interaction

inductive Prog (Op : Type) (Ans : Op → Type) (α : Type) where
  | ret (result : α)
  | call (op : Op) (next : Ans op → Prog Op Ans α)

/-- One performed operation with the answer it got. -/
abbrev Event (Op : Type) (Ans : Op → Type) := Sigma Ans

/-- What answers the operations: the `n`-th operation of a run gets `env n op`. -/
abbrev Env (Op : Type) (Ans : Op → Type) := ℕ → (op : Op) → Ans op

variable {Op : Type} {Ans : Op → Type} {α β ε : Type}

namespace Prog

def bind : Prog Op Ans α → (α → Prog Op Ans β) → Prog Op Ans β
  | ret a, f => f a
  | call op next, f => call op fun x => (next x).bind f

instance : Monad (Prog Op Ans) where
  pure := ret
  bind := bind

/-- Perform one operation and return its answer. -/
def perform (op : Op) : Prog Op Ans (Ans op) := call op ret

/-- The events and the result of a run whose first operation is number `n`. -/
def exec (env : Env Op Ans) : ℕ → Prog Op Ans α → List (Event Op Ans) × α
  | _, ret a => ([], a)
  | n, call op next =>
    let rest := (next (env n op)).exec env (n + 1)
    (⟨op, env n op⟩ :: rest.1, rest.2)

/-- `Q` holds of the events and the result, whatever the answers are. -/
def Ensures : Prog Op Ans α → (List (Event Op Ans) → α → Prop) → Prop
  | ret a, Q => Q [] a
  | call op next, Q => ∀ x, (next x).Ensures fun events => Q (⟨op, x⟩ :: events)

variable {p : Prog Op Ans α} {Q R : List (Event Op Ans) → α → Prop}

@[simp] theorem ensures_ret {a : α} : (ret a : Prog Op Ans α).Ensures Q ↔ Q [] a := Iff.rfl

@[simp] theorem ensures_pure {a : α} : (pure a : Prog Op Ans α).Ensures Q ↔ Q [] a := Iff.rfl

@[simp] theorem ensures_call {op : Op} {next : Ans op → Prog Op Ans α} :
    (call op next).Ensures Q ↔ ∀ x, (next x).Ensures fun events => Q (⟨op, x⟩ :: events) :=
  Iff.rfl

@[simp] theorem ensures_perform {op : Op} {Q : List (Event Op Ans) → Ans op → Prop} :
    (perform op : Prog Op Ans (Ans op)).Ensures Q ↔ ∀ x, Q [⟨op, x⟩] x := Iff.rfl

/-- A sequence ensures what its second part ensures after the events of the first. -/
@[simp] theorem ensures_bind {f : α → Prog Op Ans β} {Q : List (Event Op Ans) → β → Prop} :
    (p >>= f).Ensures Q ↔
      p.Ensures fun before a => (f a).Ensures fun after => Q (before ++ after) := by
  show (p.bind f).Ensures Q ↔ _
  induction p generalizing Q with
  | ret a => simp [bind]
  | call op next ih => simp [bind, ih]

@[simp] theorem ensures_map {f : α → β} {Q : List (Event Op Ans) → β → Prop} :
    (f <$> p).Ensures Q ↔ p.Ensures fun events a => Q events (f a) := by
  show (p >>= fun a => pure (f a)).Ensures Q ↔ _
  rw [ensures_bind]
  simp only [ensures_pure, List.append_nil]

theorem Ensures.mono (h : p.Ensures Q) (weaker : ∀ events a, Q events a → R events a) :
    p.Ensures R := by
  induction p generalizing Q R with
  | ret a => exact weaker _ _ h
  | call op next ih => exact fun x => ih x (h x) fun events a => weaker _ a

theorem Ensures.trivial (p : Prog Op Ans α) : p.Ensures fun _ _ => True := by
  induction p with
  | ret a => exact True.intro
  | call op next ih => exact fun x => ih x

/-- What a program ensures is seen in every run of it. -/
theorem Ensures.exec (h : p.Ensures Q) (env : Env Op Ans) (n : ℕ) :
    Q (p.exec env n).1 (p.exec env n).2 := by
  induction p generalizing Q n with
  | ret a => exact h
  | call op next ih => exact ih (env n op) (h (env n op)) (n + 1)

/-- Sequencing with an early exit: the second part runs only after a success. -/
@[simp] theorem ensures_run_bind {x : ExceptT ε (Prog Op Ans) α}
    {f : α → ExceptT ε (Prog Op Ans) β} {Q : List (Event Op Ans) → Except ε β → Prop} :
    (ExceptT.run (x >>= f)).Ensures Q ↔
      x.run.Ensures fun before r => match r with
        | .ok a => (f a).run.Ensures fun after b => Q (before ++ after) b
        | .error e => Q before (.error e) := by
  show (Prog.bind x.run _).Ensures Q ↔ _
  rw [show ∀ (p : Prog Op Ans (Except ε α)) g, p.bind g = p >>= g from fun _ _ => rfl,
    ensures_bind]
  have stop (events : List (Event Op Ans)) (e : ε) :
      (ExceptT.bindCont f (.error e)).Ensures (fun after b => Q (events ++ after) b) ↔
        Q events (.error e) := by
    show Q (events ++ []) (.error e) ↔ _
    rw [List.append_nil]
  constructor <;> intro h <;> refine h.mono fun events r hr => ?_
  · cases r with
    | ok a => exact hr
    | error e => exact (stop events e).mp hr
  · cases r with
    | ok a => exact hr
    | error e => exact (stop events e).mpr hr

/-- The sequencing rule: a failure of the first part ends the run. -/
theorem Ensures.seq {x : ExceptT ε (Prog Op Ans) α} {f : α → ExceptT ε (Prog Op Ans) β}
    {R : List (Event Op Ans) → Except ε α → Prop} {Q : List (Event Op Ans) → Except ε β → Prop}
    (first : x.run.Ensures R) (stop : ∀ before e, R before (.error e) → Q before (.error e))
    (next : ∀ before a, R before (.ok a) →
      (f a).run.Ensures fun after b => Q (before ++ after) b) :
    (ExceptT.run (x >>= f)).Ensures Q := by
  refine ensures_run_bind.mpr (first.mono fun before r hr => ?_)
  cases r with
  | ok a => exact next before a hr
  | error e => exact stop before e hr

@[simp] theorem ensures_run_pure {a : α} {Q : List (Event Op Ans) → Except ε α → Prop} :
    (ExceptT.run (pure a : ExceptT ε (Prog Op Ans) α)).Ensures Q ↔ Q [] (.ok a) := Iff.rfl

@[simp] theorem ensures_run_throw {e : ε} {Q : List (Event Op Ans) → Except ε α → Prop} :
    (ExceptT.run (throw e : ExceptT ε (Prog Op Ans) α)).Ensures Q ↔ Q [] (.error e) := Iff.rfl

@[simp] theorem ensures_run_lift {p : Prog Op Ans α} {Q : List (Event Op Ans) → Except ε α → Prop} :
    (ExceptT.run (liftM p : ExceptT ε (Prog Op Ans) α)).Ensures Q ↔
      p.Ensures fun events a => Q events (.ok a) := by
  show (Except.ok <$> p).Ensures Q ↔ _
  rw [ensures_map]

/-- Every answer of a run is the environment's. -/
theorem exec_answered (p : Prog Op Ans α) (env : Env Op Ans) (n : ℕ) :
    ∀ e ∈ (p.exec env n).1, ∃ k, e = ⟨e.1, env k e.1⟩ := by
  induction p generalizing n with
  | ret a => simp [Prog.exec]
  | call op next ih =>
    intro e he
    rcases List.mem_cons.mp he with rfl | he
    · exact ⟨n, rfl⟩
    · exact ih _ _ e he

/-- The operations of a run in which an operation has one answer whenever it is performed. -/
def trace (answer : (op : Op) → Ans op) : Prog Op Ans α → List Op
  | ret _ => []
  | call op next => op :: (next (answer op)).trace answer

/-- The result of that run. -/
def value (answer : (op : Op) → Ans op) : Prog Op Ans α → α
  | ret a => a
  | call op next => (next (answer op)).value answer

variable {answer : (op : Op) → Ans op}

/-- With these answers the program performs exactly `ops` and ends with `a`. -/
def Does (answer : (op : Op) → Ans op) (p : Prog Op Ans α) (ops : List Op) (a : α) : Prop :=
  p.trace answer = ops ∧ p.value answer = a

theorem Does.bind {f : α → Prog Op Ans β} {ops l : List Op} {a : α} {b : β}
    (h : p.Does answer ops a) (k : (f a).Does answer l b) :
    (p >>= f).Does answer (ops ++ l) b := by
  obtain ⟨rfl, rfl⟩ := h
  obtain ⟨rfl, rfl⟩ := k
  show (p.bind f).trace answer = _ ∧ (p.bind f).value answer = _
  induction p with
  | ret a => exact ⟨rfl, rfl⟩
  | call op next ih => simpa [Prog.bind, trace, value] using ih (answer op)

theorem does_run_pure {a : α} :
    (ExceptT.run (pure a : ExceptT ε (Prog Op Ans) α)).Does answer [] (.ok a) := ⟨rfl, rfl⟩

theorem does_run_throw {e : ε} :
    (ExceptT.run (throw e : ExceptT ε (Prog Op Ans) α)).Does answer [] (.error e) := ⟨rfl, rfl⟩

theorem does_run_perform {op : Op} :
    (ExceptT.run (liftM (perform op : Prog Op Ans (Ans op)) : ExceptT ε (Prog Op Ans) _)).Does
      answer [op] (.ok (answer op)) := ⟨rfl, rfl⟩

/-- A success is followed by what comes next. -/
theorem Does.seq {x : ExceptT ε (Prog Op Ans) α} {f : α → ExceptT ε (Prog Op Ans) β}
    {ops l : List Op} {a : α} {r : Except ε β} (h : x.run.Does answer ops (.ok a))
    (k : (f a).run.Does answer l r) : (ExceptT.run (x >>= f)).Does answer (ops ++ l) r :=
  Does.bind h k

/-- A failure ends the run. -/
theorem Does.stop {x : ExceptT ε (Prog Op Ans) α} {f : α → ExceptT ε (Prog Op Ans) β}
    {ops : List Op} {e : ε} (h : x.run.Does answer ops (.error e)) :
    (ExceptT.run (x >>= f)).Does answer ops (.error e) := by
  have ended : (ExceptT.run (x >>= f)).Does answer (ops ++ []) (.error e) :=
    Does.bind (f := ExceptT.bindCont f) h ⟨rfl, rfl⟩
  rwa [List.append_nil] at ended

/-- Nothing is performed after `x`. -/
theorem Does.returned {x : ExceptT ε (Prog Op Ans) α} {ops : List Op} {r : Except ε α}
    (h : x.run.Does answer ops r) (g : α → β) :
    (ExceptT.run (x >>= fun a => pure (g a))).Does answer ops (r.map g) := by
  cases r with
  | error e => exact h.stop
  | ok a =>
    have ended := h.seq (f := fun a => pure (g a)) (does_run_pure (a := g a))
    rwa [List.append_nil] at ended

/-- Every operation the program can perform satisfies `P`. -/
def Only (P : Op → Prop) : Prog Op Ans α → Prop
  | ret _ => True
  | call op next => P op ∧ ∀ x, (next x).Only P

@[simp] theorem only_pure {P : Op → Prop} {a : α} : (pure a : Prog Op Ans α).Only P ↔ True :=
  Iff.rfl

@[simp] theorem only_perform {P : Op → Prop} {op : Op} :
    (perform op : Prog Op Ans (Ans op)).Only P ↔ P op := by
  simp [perform, Only]

theorem Only.bind {P : Op → Prop} {f : α → Prog Op Ans β} (h : p.Only P) (k : ∀ a, (f a).Only P) :
    (p >>= f).Only P := by
  show (p.bind f).Only P
  induction p with
  | ret a => exact k a
  | call op next ih => exact ⟨h.1, fun x => ih x (h.2 x)⟩

theorem Only.ensures {P : Op → Prop} (h : p.Only P) :
    p.Ensures fun events _ => ∀ e ∈ events, P e.1 := by
  induction p with
  | ret a => simp
  | call op next ih =>
    intro x
    refine (ih x (h.2 x)).mono fun events a hall e he => ?_
    rcases List.mem_cons.mp he with rfl | he
    · exact h.1
    · exact hall e he

theorem Only.trace {P : Op → Prop} (h : p.Only P) (answer : (op : Op) → Ans op) :
    ∀ op ∈ p.trace answer, P op := by
  induction p with
  | ret a => simp [Prog.trace]
  | call op next ih =>
    intro o ho
    rcases List.mem_cons.mp ho with rfl | ho
    · exact h.1
    · exact ih _ (h.2 _) o ho

theorem Only.mono {P R : Op → Prop} (h : p.Only P) (weaker : ∀ op, P op → R op) : p.Only R := by
  induction p with
  | ret a => trivial
  | call op next ih => exact ⟨weaker op h.1, fun x => ih x (h.2 x)⟩

theorem Only.run_bind {P : Op → Prop} {x : ExceptT ε (Prog Op Ans) α}
    {f : α → ExceptT ε (Prog Op Ans) β} (h : x.run.Only P) (k : ∀ a, (f a).run.Only P) :
    (ExceptT.run (x >>= f)).Only P :=
  h.bind fun r => match r with
    | .ok a => k a
    | .error _ => trivial

/-- Run against a server that answers from a state of its own. -/
def serve {σ : Type} (server : σ → (op : Op) → Ans op × σ) : σ → Prog Op Ans α → α × σ
  | s, ret a => (a, s)
  | s, call op next =>
    let answered := server s op
    (next answered.1).serve server answered.2

section Serve
variable {σ : Type} {server : σ → (op : Op) → Ans op × σ}

@[simp] theorem serve_pure (s : σ) (a : α) :
    (pure a : Prog Op Ans α).serve server s = (a, s) := rfl

@[simp] theorem serve_perform (s : σ) (op : Op) :
    (perform op : Prog Op Ans (Ans op)).serve server s = server s op := rfl

@[simp] theorem serve_bind (s : σ) (p : Prog Op Ans α) (f : α → Prog Op Ans β) :
    (p >>= f).serve server s = (f (p.serve server s).1).serve server (p.serve server s).2 := by
  show (p.bind f).serve server s = _
  induction p generalizing s with
  | ret a => rfl
  | call op next ih => exact ih _ _

theorem serve_run_bind (s : σ) (x : ExceptT ε (Prog Op Ans) α)
    (f : α → ExceptT ε (Prog Op Ans) β) :
    (ExceptT.run (x >>= f)).serve server s =
      (ExceptT.bindCont f (x.run.serve server s).1).serve server (x.run.serve server s).2 := by
  show (x.run >>= ExceptT.bindCont f).serve server s = _
  rw [serve_bind]

/-- A success is followed by what comes next. -/
theorem serve_run_ok {s t : σ} {x : ExceptT ε (Prog Op Ans) α} {a : α}
    (h : x.run.serve server s = (.ok a, t)) (f : α → ExceptT ε (Prog Op Ans) β) :
    (ExceptT.run (x >>= f)).serve server s = (f a).run.serve server t := by
  rw [serve_run_bind, h]
  rfl

/-- A failure is followed by nothing. -/
theorem serve_run_error {s t : σ} {x : ExceptT ε (Prog Op Ans) α} {e : ε}
    (h : x.run.serve server s = (.error e, t)) (f : α → ExceptT ε (Prog Op Ans) β) :
    (ExceptT.run (x >>= f)).serve server s = (.error e, t) := by
  rw [serve_run_bind, h]
  rfl

@[simp] theorem serve_run_pure (s : σ) (a : α) :
    (ExceptT.run (pure a : ExceptT ε (Prog Op Ans) α)).serve server s = (.ok a, s) := rfl

@[simp] theorem serve_run_throw (s : σ) (e : ε) :
    (ExceptT.run (throw e : ExceptT ε (Prog Op Ans) α)).serve server s = (.error e, s) := rfl

end Serve

/-- Every run whose answers are all `good` succeeds, with a value of `Q`. -/
def Succeeds (good : (op : Op) → Ans op → Prop) (x : ExceptT ε (Prog Op Ans) α) (Q : α → Prop) :
    Prop :=
  x.run.Ensures fun events r => (∀ e ∈ events, good e.1 e.2) → ∃ a, r = .ok a ∧ Q a

section Succeeds
variable {good : (op : Op) → Ans op → Prop} {x : ExceptT ε (Prog Op Ans) α} {Q : α → Prop}

theorem succeeds_pure {a : α} (h : Q a) :
    Succeeds good (pure a : ExceptT ε (Prog Op Ans) α) Q := fun _ => ⟨a, rfl, h⟩

theorem succeeds_perform {op : Op} :
    Succeeds good (liftM (perform op : Prog Op Ans (Ans op)) : ExceptT ε (Prog Op Ans) _)
      (good op) := by
  unfold Succeeds
  rw [ensures_run_lift, ensures_perform]
  intro a hgood
  exact ⟨a, rfl, hgood _ (List.mem_singleton_self _)⟩

theorem Succeeds.bind {f : α → ExceptT ε (Prog Op Ans) β} {R : β → Prop}
    (h : Succeeds good x Q) (k : ∀ a, Q a → Succeeds good (f a) R) :
    Succeeds good (x >>= f) R := by
  refine Ensures.seq h ?_ ?_
  · intro events e hr hgood
    obtain ⟨a, ha, -⟩ := hr hgood
    cases ha
  · intro before a hr
    -- the first part has not succeeded at all if one of its answers was not good
    by_cases hbefore : ∀ e ∈ before, good e.1 e.2
    · obtain ⟨b, hb, hQ⟩ := hr hbefore
      obtain rfl := Except.ok.inj hb
      refine (k a hQ).mono fun after r hafter hgood => hafter fun e he => ?_
      exact hgood e (List.mem_append_right before he)
    · refine (Ensures.trivial _).mono fun after r _ hgood => absurd ?_ hbefore
      exact fun e he => hgood e (List.mem_append_left after he)

theorem Succeeds.mono {R : α → Prop} (h : Succeeds good x Q) (weaker : ∀ a, Q a → R a) :
    Succeeds good x R := by
  refine Ensures.mono h fun events r hr hgood => ?_
  obtain ⟨a, ha, hQ⟩ := hr hgood
  exact ⟨a, ha, weaker a hQ⟩

/-- What succeeds on good answers does so in every run that gets them. -/
theorem Succeeds.exec {env : Env Op Ans} (h : Succeeds good x Q) (henv : ∀ n op, good op (env n op))
    (n : ℕ) : ∃ a, (x.run.exec env n).2 = .ok a ∧ Q a := by
  apply Ensures.exec h env n
  intro e he
  obtain ⟨k, hk⟩ := exec_answered x.run env n e he
  rw [hk]
  exact henv k e.1

end Succeeds

end Prog

/-- A program part-way through a run: the events so far and what is left to do. -/
structure Client (Op : Type) (Ans : Op → Type) (α : Type) where
  done : List (Event Op Ans)
  rest : Prog Op Ans α

namespace Client
variable {c : Client Op Ans α} {Q : List (Event Op Ans) → α → Prop}

def start (p : Prog Op Ans α) : Client Op Ans α := ⟨[], p⟩

/-- What is left, after what happened so far, ensures `Q` of the whole run. -/
def Follows (c : Client Op Ans α) (Q : List (Event Op Ans) → α → Prop) : Prop :=
  c.rest.Ensures fun events => Q (c.done ++ events)

/-- The pending operation is answered. -/
def answer [DecidableEq Op] (c : Client Op Ans α) (event : Event Op Ans) :
    Option (Client Op Ans α) :=
  match c.rest with
  | .ret _ => none
  | .call op next =>
    if h : event.1 = op then some ⟨c.done ++ [event], next (h ▸ event.2)⟩ else none

/-- The result, once there is nothing left to do. -/
def result (c : Client Op Ans α) : Option α :=
  match c.rest with
  | .ret a => some a
  | .call _ _ => none

theorem follows_start {p : Prog Op Ans α} (h : p.Ensures Q) : (start p).Follows Q := h

theorem answer_eq_some [DecidableEq Op] {event : Event Op Ans} {d : Client Op Ans α}
    (h : c.answer event = some d) : ∃ next : Ans event.1 → Prog Op Ans α,
      c.rest = .call event.1 next ∧ d = ⟨c.done ++ [event], next event.2⟩ := by
  unfold answer at h
  split at h
  · cases h
  · rename_i op next hrest
    split at h
    · rename_i hop
      subst hop
      exact ⟨next, hrest, (Option.some.inj h).symm⟩
    · cases h

theorem Follows.answer [DecidableEq Op] {event : Event Op Ans} {d : Client Op Ans α}
    (h : c.Follows Q) (hd : c.answer event = some d) : d.Follows Q := by
  obtain ⟨next, hrest, rfl⟩ := answer_eq_some hd
  unfold Follows at h ⊢
  rw [hrest] at h
  simpa using h event.2

theorem Follows.result {a : α} (h : c.Follows Q) (hr : c.result = some a) : Q c.done a := by
  unfold Client.result at hr
  unfold Follows at h
  split at hr
  · rename_i b hrest
    obtain rfl := Option.some.inj hr
    rw [hrest] at h
    simpa using h
  · cases hr

theorem only_answer [DecidableEq Op] {P : Op → Prop} {event : Event Op Ans} {d : Client Op Ans α}
    (h : c.rest.Only P) (hd : c.answer event = some d) : P event.1 ∧ d.rest.Only P := by
  obtain ⟨next, hrest, rfl⟩ := answer_eq_some hd
  rw [hrest] at h
  exact ⟨h.1, h.2 event.2⟩

end Client
end Queuey.Interaction
