import Queuey.Core.ShutdownEnds

/-!
# What `run` returns

A consumer that stops by itself says so, and what has gone wrong first is what `run` returns:
`Ok` means that a shutdown was asked for, or that there was nothing to consume.
-/
namespace Queuey.WorkerRun
open Transition

variable {B : Type} {s t : State B} {a : Action B} {d q : ℕ}

/-- The consumer of a queue has ended, and the loop has not been told yet. -/
def State.tells (s : State B) : Prop :=
  ∃ queue, .ended queue ∈ s.channel ∨ s.phase = .handling (.ended queue)

/-- `run` has left its dispatch loop. -/
def Phase.leaving (p : Phase B) : Prop := p = .stopping ∨ p.draining = true

/-- Up to the end of the dispatch loop nothing has gone wrong without a word. -/
structure Frank (s : State B) : Prop where
  stop : s.phase.draining = false → s.stop = false
  fine : s.phase.draining = false → s.phase ≠ .stopping → s.phase ≠ .checking →
    s.outcome = .ok ()
  starting : ∀ i, s.phase = .starting i → ∀ q < i, s.consumers q ≠ .unborn
  born : ¬s.phase.leaving → (∀ i, s.phase ≠ .starting i) → s.outcome = .ok () →
    ∀ q < s.queues.length, s.consumers q ≠ .unborn
  tells : ¬s.phase.leaving → s.outcome = .ok () → ∀ q, s.consumers q = .finished → s.tells
  told : s.phase.leaving → s.outcome = .ok () → 0 < s.signals ∨ s.queues = []

theorem Phase.not_leaving {p : Phase B} (h : ¬p.leaving) : p.draining = false := by
  by_contra hne
  exact h (.inr (by simpa using hne))

/-- Steps past the dispatch loop. -/
theorem Frank.drained (h : Frank s) (hs : s.phase.leaving) (ht : t.phase.draining = true)
    (outcome : t.outcome = .ok () → s.outcome = .ok ()) (signals : s.signals ≤ t.signals)
    (queues : t.queues = s.queues) : Frank t := by
  have hleaving : t.phase.leaving := .inr ht
  refine ⟨fun hd => ?_, fun hd => ?_, fun i hi => ?_, fun hn => absurd hleaving hn,
    fun hn => absurd hleaving hn, fun _ hok => ?_⟩
  · rw [ht] at hd
    cases hd
  · rw [ht] at hd
    cases hd
  · rw [hi] at ht
    cases ht
  · rw [queues]
    exact (h.told hs (outcome hok)).imp_left fun h => h.trans_le signals

/-- The dispatch loop ends, and if nothing has gone wrong it was told to, or has no queue. -/
theorem Frank.stopping (h : Frank s) (hp : s.phase.draining = false) (ht : t.phase = .stopping)
    (stop : t.stop = s.stop) (told : t.outcome = .ok () → 0 < t.signals ∨ t.queues = []) :
    Frank t := by
  have hleaving : t.phase.leaving := .inl ht
  refine ⟨fun _ => stop.trans (h.stop hp), fun _ hne => absurd ht hne, fun i hi => ?_,
    fun hn => absurd hleaving hn, fun hn => absurd hleaving hn, fun _ => told⟩
  rw [ht] at hi
  cases hi

/-- Steps of the dispatch loop itself, which hears of every consumer that has ended. -/
theorem Frank.loop (h : Frank s) (hp : ¬s.phase.leaving) (ht : ¬t.phase.leaving)
    (stop : t.stop = s.stop) (consumers : t.consumers = s.consumers) (queues : t.queues = s.queues)
    (begun : ∀ i, t.phase ≠ .starting i) (fine : t.phase ≠ .checking → t.outcome = .ok ())
    (outcome : t.outcome = .ok () → s.outcome = .ok ())
    (born : t.outcome = .ok () → ∀ i, s.phase = .starting i → i = s.queues.length)
    (tells : t.outcome = .ok () → s.tells → t.tells) : Frank t := by
  refine ⟨fun _ => stop.trans (h.stop (Phase.not_leaving hp)), fun _ _ hne => fine hne,
    fun i hi => absurd hi (begun i), fun _ _ hok q hq => ?_, fun _ hok q hq => ?_,
    fun hl => absurd hl ht⟩
  · rw [consumers]
    rw [queues] at hq
    by_cases hstart : ∃ i, s.phase = .starting i
    · obtain ⟨i, hi⟩ := hstart
      exact h.starting i hi q (born hok i hi ▸ hq)
    · exact h.born hp (not_exists.mp hstart) (outcome hok) q hq
  · rw [consumers] at hq
    exact tells hok (h.tells hp (outcome hok) q hq)

/-- A consumer goes on; one that ends says so, or was told to. -/
theorem Frank.consumer {c : Consumer B} {channel : List (ConsumerEvent B)} {next : ℕ}
    (h : Frank s) (hc : c ≠ .unborn)
    (keeps : ∀ e ∈ s.channel, e ∈ channel)
    (reports : c = .finished → s.phase.draining = true ∨ ∃ queue, .ended queue ∈ channel) :
    Frank { s.setConsumer q c with channel := channel, next := next } := by
  have born : ∀ r, s.consumers r ≠ .unborn → Function.update s.consumers q c r ≠ .unborn := by
    intro r hr
    rw [Function.update_apply]
    split_ifs
    · exact hc
    · exact hr
  refine ⟨h.stop, h.fine, fun i hi r hr => born r (h.starting i hi r hr),
    fun hp hi hok r hr => born r (h.born hp hi hok r hr), fun hp hok r hr => ?_, h.told⟩
  have hr : Function.update s.consumers q c r = .finished := hr
  rw [Function.update_apply] at hr
  split_ifs at hr with hrq
  · obtain hd | ⟨queue, hin⟩ := reports hr
    · exact absurd (.inr hd) hp
    · exact ⟨queue, .inl hin⟩
  · obtain ⟨queue, hin | hp⟩ := h.tells hp hok r hr
    · exact ⟨queue, .inl (keeps _ hin)⟩
    · exact ⟨queue, .inr hp⟩

end Queuey.WorkerRun
