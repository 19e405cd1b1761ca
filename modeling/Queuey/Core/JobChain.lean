import Queuey.Core.Lifecycle
import Mathlib.Data.List.Induction

/-!
# The chain of a job's runs

A job is the chain of messages that begins with one published anew, and a run follows on the
one that scheduled its message. What the envelope of the next message says is counted by the
runs so far.
-/
namespace Queuey.Lifecycle
open Dispatch MemoryBackend

variable {V J : Type} {worker : Worker} {m : Message V} {j n : ℕ} {r : Request V}

namespace Run

/-- The handler's run ended retryable. -/
def retryable (run : Run V) : Bool :=
  match run.judged with
  | some (.retryable _, _) => true
  | _ => false

def deferred (run : Run V) : Bool :=
  match run.judged with
  | some (.deferred _ _, _) => true
  | _ => false

end Run

variable {earlier runs : List (Run V)} {run run' : Run V} {root e : Envelope V} {N : UInt32}

/-- The message comes after these runs of job `j`: it is the first one or what the last run
asked to schedule. -/
def Next (j : ℕ) (earlier : List (Run V)) (m : Message V) : Prop :=
  match earlier.getLast? with
  | none => m.id = j ∧ m.replaces = none
  | some run => m.replaces = some run.message.id ∧
    ∃ r, run.request = some r ∧ m.envelope = r.envelope

/-- The runs of job `j` are a chain from its first message. -/
inductive Lived (j : ℕ) : List (Run V) → Prop where
  | fresh : Lived j []
  | run {earlier : List (Run V)} {run : Run V} : Lived j earlier → Next j earlier run.message →
      Lived j (earlier ++ [run])

theorem next_nil : Next j [] m ↔ m.id = j ∧ m.replaces = none := Iff.rfl

theorem next_concat : Next j (earlier ++ [run]) m ↔ m.replaces = some run.message.id ∧
    ∃ r, run.request = some r ∧ m.envelope = r.envelope := by
  simp [Next]

/-- A run is the last one, or a later one has the message it scheduled. -/
theorem Lived.last_or (h : Lived j runs) (hrun : run ∈ runs) :
    (∃ earlier, runs = earlier ++ [run]) ∨
      ∃ later ∈ runs, later.message.replaces = some run.message.id := by
  induction h with
  | fresh => cases hrun
  | @run earlier last _ next ih =>
    obtain hrun | hrun := List.mem_append.mp hrun
    · right
      obtain ⟨before, rfl⟩ | ⟨later, hin, hrep⟩ := ih hrun
      · exact ⟨last, List.mem_append_right _ (List.mem_singleton_self _), (next_concat.mp next).1⟩
      · exact ⟨later, List.mem_append_left _ hin, hrep⟩
    · exact .inl ⟨earlier, by rw [List.mem_singleton.mp hrun]⟩

/-- The first run is of the job's first message. -/
theorem Lived.first (h : Lived j runs) (hne : runs ≠ []) : ∃ run ∈ runs, run.message.id = j := by
  induction h with
  | fresh => exact absurd rfl hne
  | @run earlier last _ next ih =>
    cases earlier with
    | nil => exact ⟨last, List.mem_singleton_self _, next.1⟩
    | cons first rest =>
      obtain ⟨run, hrun, hid⟩ := ih (List.cons_ne_nil _ _)
      exact ⟨run, List.mem_append_left _ hrun, hid⟩

/-! ## What the envelope says -/

/-- What the envelope of a job has to say after these runs, `root` having been its first. -/
structure Bears (worker : Worker) (root : Envelope V) (earlier : List (Run V)) (e : Envelope V) :
    Prop where
  same : root.SameJob e
  attempt : e.attempt.toNat = 1 + earlier.countP Run.retryable
  deferrals : e.deferrals.toNat = earlier.countP Run.deferred
  priority : e.priority = match earlier.getLast? with
    | some run => if run.deferred then topLevel worker e.jobType else 0
    | none => 0

/-- A job that is scheduled again has failed below the limit, or has been deferred. -/
theorem Handled.rescheduled (handled : Handled worker run.message.envelope run.judged run.op)
    (fits : run.deferred = true → run.message.envelope.deferrals.toNat < u32Max)
    (hr : run.request = some r) :
    (∃ text policy, run.judged = some (.retryable text, policy) ∧
        run.message.envelope.attempt < policy.maxAttempts ∧
        r.envelope = { run.message.envelope with
          attempt := run.message.envelope.attempt + 1, priority := 0 }) ∨
      ∃ delay reason policy, run.judged = some (.deferred delay reason, policy) ∧
        run.message.envelope.deferrals.toNat < u32Max ∧
        r.envelope = { run.message.envelope with
          deferrals := run.message.envelope.deferrals + 1,
          priority := topLevel worker run.message.envelope.jobType } := by
  have notAck : run.op ≠ .ack := by
    intro hop
    simp [Entry.request, hop] at hr
  have notDead : ∀ reason, run.op ≠ .deadLetter reason := by
    intro reason hop
    simp [Entry.request, hop] at hr
  cases hj : run.judged with
  | none =>
    rw [hj] at handled
    obtain ⟨reason, hop⟩ := handled
    exact absurd hop (notDead reason)
  | some result =>
    obtain ⟨outcome, policy⟩ := result
    rw [hj] at handled
    cases outcome with
    | success => exact absurd handled notAck
    | decode text | fatal text =>
      obtain ⟨reason, hop⟩ := handled
      exact absurd hop (notDead reason)
    | retryable text =>
      simp only [Handled] at handled
      split_ifs at handled with hlt
      · obtain ⟨delay, hop⟩ := handled
        simp only [Entry.request, hop, Option.some.injEq] at hr
        exact .inl ⟨text, policy, rfl, hlt, by rw [← hr]⟩
      · obtain ⟨reason, hop⟩ := handled
        exact absurd hop (notDead reason)
    | deferred delay reason =>
      have hfits := fits (by simp [Run.deferred, hj])
      have hop := handled hfits
      simp only [Entry.request, hop, Option.some.injEq] at hr
      exact .inr ⟨delay, reason, policy, rfl, hfits, by rw [← hr]⟩

/-- A deferral that is among fewer than 2^32 can be counted. -/
theorem Bears.fits (h : Bears worker root earlier run.message.envelope)
    (short : (earlier ++ [run]).countP Run.deferred < 2 ^ 32) (hdeferred : run.deferred = true) :
    run.message.envelope.deferrals.toNat < u32Max := by
  rw [List.countP_append, List.countP_singleton, if_pos hdeferred, ← h.deferrals] at short
  unfold u32Max
  omega

/-- What the next envelope says, by what the one before it said and what came of its run. -/
theorem Bears.next (h : Bears worker root earlier run.message.envelope)
    (handled : Handled worker run.message.envelope run.judged run.op)
    (short : (earlier ++ [run]).countP Run.deferred < 2 ^ 32) (hr : run.request = some r) :
    Bears worker root (earlier ++ [run]) r.envelope := by
  have counted : ∀ p : Run V → Bool,
      (earlier ++ [run]).countP p = earlier.countP p + if p run then 1 else 0 := by
    intro p
    rw [List.countP_append, List.countP_singleton]
  obtain ⟨text, policy, hj, hlt, he⟩ | ⟨delay, reason, policy, hj, hlt, he⟩ :=
    handled.rescheduled (h.fits short) hr
  · have hretryable : run.retryable = true := by simp [Run.retryable, hj]
    have hdeferred : run.deferred = false := by simp [Run.deferred, hj]
    refine ⟨?_, ?_, ?_, ?_⟩
    · rw [he]
      exact h.same.trans ⟨rfl, rfl, rfl, rfl, rfl, rfl⟩
    · rw [he, counted, hretryable, if_pos rfl]
      show (run.message.envelope.attempt + 1).toNat = _
      rw [increment_toNat (nextAttempt_below hlt), h.attempt]
      omega
    · rw [he, counted, hdeferred, ← h.deferrals]
      rfl
    · rw [he, List.getLast?_concat]
      simp [hdeferred]
  · have hretryable : run.retryable = false := by simp [Run.retryable, hj]
    have hdeferred : run.deferred = true := by simp [Run.deferred, hj]
    refine ⟨?_, ?_, ?_, ?_⟩
    · rw [he]
      exact h.same.trans ⟨rfl, rfl, rfl, rfl, rfl, rfl⟩
    · rw [he, counted, hretryable, ← Nat.add_assoc, ← h.attempt]
      rfl
    · rw [he, counted, hdeferred, if_pos rfl, ← h.deferrals]
      exact increment_toNat hlt
    · rw [he, List.getLast?_concat]
      simp [hdeferred]

theorem Lived.init (h : Lived j (earlier ++ [run])) :
    Lived j earlier ∧ Next j earlier run.message := by
  generalize he : earlier ++ [run] = runs at h
  cases h with
  | fresh => simp at he
  | run lived next =>
    obtain ⟨rfl, hlast⟩ := List.append_inj' he rfl
    cases hlast
    exact ⟨lived, next⟩

/-- The runs of a job that began with `root`, by a worker that gives it `N` attempts, with
fewer deferrals than can be counted. -/
structure Worked (worker : Worker) (root : Envelope V) (j : ℕ) (N : UInt32)
    (runs : List (Run V)) : Prop where
  lived : Lived j runs
  handled : ∀ run ∈ runs, Handled worker run.message.envelope run.judged run.op
  first : ∀ run ∈ runs, run.message.id = j → run.message.envelope = root
  limit : ∀ run ∈ runs, ∀ outcome policy, run.judged = some (outcome, policy) →
    policy.maxAttempts = N
  short : runs.countP Run.deferred < 2 ^ 32

theorem Worked.init (h : Worked worker root j N (earlier ++ [run])) :
    Worked worker root j N earlier := by
  have shorter : earlier.countP Run.deferred ≤ (earlier ++ [run]).countP Run.deferred := by
    rw [List.countP_append]
    exact Nat.le_add_right _ _
  exact ⟨h.lived.init.1, fun o ho => h.handled o (List.mem_append_left _ ho),
    fun o ho => h.first o (List.mem_append_left _ ho),
    fun o ho => h.limit o (List.mem_append_left _ ho), shorter.trans_lt h.short⟩

/-- The envelope of the job's next message says what has become of it so far. -/
theorem Worked.bears (h : Worked worker root j N runs) (fresh : Bears worker root [] root)
    (next : Next j runs m) (hm : m.id = j → m.envelope = root) :
    Bears worker root runs m.envelope := by
  induction runs using List.reverseRecOn generalizing m with
  | nil =>
    rw [hm (next_nil.mp next).1]
    exact fresh
  | append_singleton earlier run ih =>
    obtain ⟨-, r, hr, he⟩ := next_concat.mp next
    have hin : run ∈ earlier ++ [run] := List.mem_append_right _ (List.mem_singleton_self _)
    have before := ih h.init h.lived.init.2 (h.first run hin)
    rw [he]
    exact before.next (h.handled run hin) h.short hr

/-- Every run of the job but a last one has scheduled another. -/
theorem Worked.requests (h : Worked worker root j N runs) (next : Next j runs m) :
    ∀ run ∈ runs, run.request.isSome = true := by
  induction runs using List.reverseRecOn generalizing m with
  | nil => exact fun run hrun => absurd hrun List.not_mem_nil
  | append_singleton earlier last ih =>
    intro run hrun
    obtain hrun | hrun := List.mem_append.mp hrun
    · exact ih h.init h.lived.init.2 run hrun
    · obtain ⟨-, r, hr, -⟩ := next_concat.mp next
      rw [List.mem_singleton.mp hrun, hr]
      rfl

/-- Retries are granted below the limit. -/
theorem Worked.retries (h : Worked worker root j N runs) (fresh : Bears worker root [] root)
    (next : Next j runs m) :
    runs.countP Run.retryable = 0 ∨ runs.countP Run.retryable < N.toNat := by
  induction runs using List.reverseRecOn generalizing m with
  | nil => exact .inl rfl
  | append_singleton earlier run ih =>
    obtain ⟨-, r, hr, -⟩ := next_concat.mp next
    have hin : run ∈ earlier ++ [run] := List.mem_append_right _ (List.mem_singleton_self _)
    have before := h.init.bears fresh h.lived.init.2 (h.first run hin)
    rw [List.countP_append, List.countP_singleton]
    obtain ⟨text, policy, hj, hlt, -⟩ | ⟨delay, reason, policy, hj, -⟩ :=
      (h.handled run hin).rescheduled (before.fits h.short) hr
    · have hretryable : run.retryable = true := by simp [Run.retryable, hj]
      have hbelow := UInt32.lt_iff_toNat_lt.mp hlt
      rw [h.limit run hin _ _ hj, before.attempt] at hbelow
      rw [if_pos hretryable]
      omega
    · have hretryable : run.retryable = false := by simp [Run.retryable, hj]
      rw [hretryable]
      exact ih h.init h.lived.init.2

/-- At most as many runs end retryable as the policy has attempts, and one if it has none. -/
theorem Worked.retryable_le (h : Worked worker root j N runs) (fresh : Bears worker root [] root) :
    runs.countP Run.retryable ≤ max N.toNat 1 := by
  cases runs using List.reverseRecOn with
  | nil => exact Nat.zero_le _
  | append_singleton earlier run =>
    have before := h.init.retries fresh h.lived.init.2
    rw [List.countP_append, List.countP_singleton]
    split_ifs <;> omega

/-- One run at most settles the job for good. -/
theorem Worked.terminal_le (h : Worked worker root j N runs) :
    (runs.countP fun run => run.request.isNone) ≤ 1 := by
  cases runs using List.reverseRecOn with
  | nil => exact Nat.zero_le _
  | append_singleton earlier run =>
    have hnone : (earlier.countP fun run => run.request.isNone) = 0 := by
      rw [List.countP_eq_zero]
      intro run hrun
      have := h.init.requests h.lived.init.2 run hrun
      simp only [Option.isNone_iff_eq_none]
      rintro hr
      simp [hr] at this
    rw [List.countP_append, List.countP_singleton, hnone]
    split_ifs <;> omega

/-- The runs before a run of the job, and how it follows them. -/
theorem Worked.take (h : Worked worker root j N runs) (hn : runs[n]? = some run) :
    Worked worker root j N (runs.take n) ∧ Next j (runs.take n) run.message := by
  induction runs using List.reverseRecOn with
  | nil => cases hn
  | append_singleton earlier last ih =>
    by_cases hlt : n < earlier.length
    · rw [List.getElem?_append_left hlt] at hn
      rw [List.take_append_of_le_length hlt.le]
      exact ih h.init hn
    · obtain ⟨hlast, -⟩ := List.getElem?_eq_some_iff.mp hn
      have hlen : n = earlier.length := by
        rw [List.length_append, List.length_singleton] at hlast
        omega
      subst hlen
      have hrun : last = run := by simpa using hn
      rw [List.take_left]
      exact hrun ▸ ⟨h.init, h.lived.init.2⟩

/-- The envelope of a run says what came of the runs before it. -/
theorem Worked.bears_run (h : Worked worker root j N runs) (fresh : Bears worker root [] root)
    (hn : runs[n]? = some run) : Bears worker root (runs.take n) run.message.envelope := by
  obtain ⟨worked, next⟩ := h.take hn
  exact worked.bears fresh next (h.first run (List.mem_of_getElem? hn))

theorem Worked.fits (h : Worked worker root j N runs) (fresh : Bears worker root [] root)
    (hrun : run ∈ runs) (hdeferred : run.deferred = true) :
    run.message.envelope.deferrals.toNat < u32Max := by
  obtain ⟨n, hn⟩ := List.mem_iff_getElem?.mp hrun
  have shorter : (runs.take n ++ [run]).countP Run.deferred ≤ runs.countP Run.deferred := by
    have htake : runs.take n ++ [run] = runs.take (n + 1) := by
      rw [List.take_add_one, hn]
      rfl
    rw [htake]
    exact (List.take_sublist _ _).countP_le
  exact (h.bears_run fresh hn).fits (shorter.trans_lt h.short) hdeferred

/-- A job is retried for a retryable outcome, and deferred for a deferral. -/
theorem Handled.request_iff (handled : Handled worker run.message.envelope run.judged run.op)
    (fits : run.deferred = true → run.message.envelope.deferrals.toNat < u32Max) :
    ((∃ next delay, run.op = .retry next delay) ↔
        run.retryable = true ∧ run.request.isSome = true) ∧
      ((∃ next delay, run.op = .defer next delay) ↔ run.deferred = true) := by
  cases hj : run.judged with
  | none =>
    rw [hj] at handled
    obtain ⟨reason, hop⟩ := handled
    simp [Run.retryable, Run.deferred, hj, hop]
  | some result =>
    obtain ⟨outcome, policy⟩ := result
    rw [hj] at handled
    cases outcome with
    | success =>
      have hop : run.op = .ack := handled
      simp [Run.retryable, Run.deferred, hj, hop]
    | decode text | fatal text =>
      obtain ⟨reason, hop⟩ := handled
      simp [Run.retryable, Run.deferred, hj, hop]
    | retryable text =>
      simp only [Handled] at handled
      split_ifs at handled with hlt
      · obtain ⟨delay, hop⟩ := handled
        simp [Run.retryable, Run.deferred, hj, hop, Entry.request]
      · obtain ⟨reason, hop⟩ := handled
        simp [Run.retryable, Run.deferred, hj, hop, Entry.request]
    | deferred delay reason =>
      have hop := handled (fits (by simp [Run.deferred, hj]))
      simp [Run.retryable, Run.deferred, hj, hop]

end Queuey.Lifecycle
