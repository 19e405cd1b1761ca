import Queuey.Library.Interaction

/-!
# Programs that keep to a protocol

A protocol says at each stage of a run which operations may come next, and where an answer
leads. A program keeps to it when every run of it does, whatever the answers, and ends in a
stage with the result that was asked for.
-/
namespace Queuey.Interaction

variable {Op : Type} {Ans : Op → Type} {σ α β ε : Type}

structure Protocol (Op : Type) (Ans : Op → Type) (σ : Type) where
  allows : σ → Op → Prop
  next : σ → (op : Op) → Ans op → σ

/-- The stage the events lead to. -/
def Protocol.after (P : Protocol Op Ans σ) : σ → List (Event Op Ans) → σ
  | s, [] => s
  | s, event :: events => P.after (P.next s event.1 event.2) events

theorem Protocol.after_append (P : Protocol Op Ans σ) (s : σ) (events : List (Event Op Ans))
    (op : Op) (x : Ans op) :
    P.after s (events ++ [⟨op, x⟩]) = P.next (P.after s events) op x := by
  induction events generalizing s with
  | nil => rfl
  | cons event events ih => exact ih _

namespace Prog

/-- From the stage on, the program asks only what is allowed and ends as `R` says. -/
def Keeps (P : Protocol Op Ans σ) (R : σ → α → Prop) : Prog Op Ans α → σ → Prop
  | ret a, s => R s a
  | call op next, s => P.allows s op ∧ ∀ x, (next x).Keeps P R (P.next s op x)

variable {P : Protocol Op Ans σ} {p : Prog Op Ans α} {R Q : σ → α → Prop} {s : σ}

@[simp] theorem keeps_ret {a : α} : (ret a : Prog Op Ans α).Keeps P R s ↔ R s a := Iff.rfl

@[simp] theorem keeps_pure {a : α} : (pure a : Prog Op Ans α).Keeps P R s ↔ R s a := Iff.rfl

@[simp] theorem keeps_perform {op : Op} {R : σ → Ans op → Prop} :
    (perform op : Prog Op Ans (Ans op)).Keeps P R s ↔
      P.allows s op ∧ ∀ x, R (P.next s op x) x := Iff.rfl

theorem Keeps.mono (h : p.Keeps P R s) (weaker : ∀ t a, R t a → Q t a) : p.Keeps P Q s := by
  induction p generalizing s with
  | ret a => exact weaker _ _ h
  | call op next ih => exact ⟨h.1, fun x => ih x (h.2 x)⟩

theorem Keeps.bind {f : α → Prog Op Ans β} {Q : σ → β → Prop} (h : p.Keeps P R s)
    (k : ∀ t a, R t a → (f a).Keeps P Q t) : (p >>= f).Keeps P Q s := by
  show (p.bind f).Keeps P Q s
  induction p generalizing s with
  | ret a => exact k _ _ h
  | call op next ih => exact ⟨h.1, fun x => ih x (h.2 x)⟩

/-- The sequencing rule: a failure of the first part ends the run. -/
theorem Keeps.seq {x : ExceptT ε (Prog Op Ans) α} {f : α → ExceptT ε (Prog Op Ans) β}
    {R : σ → Except ε α → Prop} {Q : σ → Except ε β → Prop} (first : x.run.Keeps P R s)
    (stop : ∀ t e, R t (.error e) → Q t (.error e))
    (next : ∀ t a, R t (.ok a) → (f a).run.Keeps P Q t) :
    (ExceptT.run (x >>= f)).Keeps P Q s := by
  refine Keeps.bind first ?_
  intro t r hr
  cases r with
  | ok a => exact next t a hr
  | error e => exact stop t e hr

@[simp] theorem keeps_run_pure {a : α} {R : σ → Except ε α → Prop} :
    (ExceptT.run (pure a : ExceptT ε (Prog Op Ans) α)).Keeps P R s ↔ R s (.ok a) := Iff.rfl

@[simp] theorem keeps_run_throw {e : ε} {R : σ → Except ε α → Prop} :
    (ExceptT.run (throw e : ExceptT ε (Prog Op Ans) α)).Keeps P R s ↔ R s (.error e) := Iff.rfl

/-- Operations that are always allowed and lead nowhere keep to the protocol. -/
theorem Only.keeps {P' : Op → Prop} (h : p.Only P')
    (idle : ∀ op, P' op → P.allows s op ∧ ∀ x, P.next s op x = s) :
    p.Keeps P (fun t _ => t = s) s := by
  induction p with
  | ret a => rfl
  | call op next ih =>
    obtain ⟨allowed, same⟩ := idle op h.1
    refine ⟨allowed, fun x => ?_⟩
    rw [same x]
    exact ih x (h.2 x)

/-- What is asked in a run was allowed at its moment. -/
theorem Keeps.allowed {env : Env Op Ans} {n : ℕ} {before after : List (Event Op Ans)}
    {event : Event Op Ans} (h : p.Keeps P R s)
    (hrun : (p.exec env n).1 = before ++ event :: after) :
    P.allows (P.after s before) event.1 := by
  induction p generalizing s n before with
  | ret a => simp [Prog.exec] at hrun
  | call op next ih =>
    cases before with
    | nil =>
      obtain ⟨rfl, -⟩ := List.cons.inj hrun
      exact h.1
    | cons first before =>
      obtain ⟨rfl, hrest⟩ := List.cons.inj hrun
      have hallowed := ih (env n op) (h.2 (env n op)) hrest
      exact hallowed

/-- A run ends as the program does. -/
theorem Keeps.ended (h : p.Keeps P R s) (env : Env Op Ans) (n : ℕ) :
    R (P.after s (p.exec env n).1) (p.exec env n).2 := by
  induction p generalizing s n with
  | ret a => exact h
  | call op next ih => exact ih _ (h.2 _) _

/-- An operation first, and then the rest from where its answer leads. -/
theorem Keeps.ask {op : Op} {f : Ans op → ExceptT ε (Prog Op Ans) β}
    {Q : σ → Except ε β → Prop} (allowed : P.allows s op)
    (next : ∀ x, (f x).run.Keeps P Q (P.next s op x)) :
    (ExceptT.run
      ((liftM (perform op : Prog Op Ans (Ans op)) : ExceptT ε (Prog Op Ans) _) >>= f)).Keeps P Q s :=
  ⟨allowed, next⟩

end Prog

/-- A run that keeps to the protocol still does after one more answer. -/
theorem Client.keeps_answered {P : Protocol Op Ans σ} {R : σ → α → Prop} {s : σ}
    {c : Client Op Ans α} {op : Op} {next : Ans op → Prog Op Ans α}
    (h : c.rest.Keeps P R (P.after s c.done)) (hrest : c.rest = .call op next) (x : Ans op) :
    P.allows (P.after s c.done) op ∧ (next x).Keeps P R (P.after s (c.done ++ [⟨op, x⟩])) := by
  rw [hrest] at h
  rw [Protocol.after_append]
  exact ⟨h.1, h.2 x⟩

end Queuey.Interaction
