import Queuey.Rabbit.Recovery

/-!
# How a delivery stream ends

A stream that gave up ends when it is polled again only if `recover` then finds the handle
closing, and a close is an end without an error only if no `recover` has already looked.
In the runs where both are so, the items are deliveries and then the end, or one error and
then the end.
-/
namespace Queuey.Rabbit.Recovery
open Transition ConnectionHandle

/-- Deliveries, then the end, or one error and then the end. -/
def WellEnded (items : List Item) : Prop :=
  ∃ n rest, items = List.replicate n .delivery ++ rest ∧
    (rest = [] ∨ rest = [.ended] ∨
      ∃ error, rest = [.failed error] ∨ rest = [.failed error, .ended])

/-- In `recover`, where a close is only met by an error. -/
def Phase.committed : Phase → Bool
  | subscribing _ _ => false
  | phase => phase.recovering

/-- The consumer has stopped and has not been replaced. -/
def Phase.stopped : Phase → Bool
  | entering => true
  | phase => phase.recovering

/-- No stream enters `recover` again after an error unless the handle is closing, and a
close neither begins nor fails a subscription while a stream is inside `recover`. -/
def Final (s : State) : Action → Prop
  | .enter i => s.handle.closing = true ∨ ∀ item ∈ (s.streams i).items, item.isFailed = false
  | .handle (.mark _) | .handle (.markAgain _) =>
    s.handle.closing = true ∨ ∀ i, (s.streams i).phase.committed = false
  | .subscribe _ (some _) => s.handle.closing = false
  | _ => True

/-- Where a stream stands with its items, under a handle that is closing or not. -/
inductive Ending (closing : Bool) (x : Stream) : Prop where
  | running (n : ℕ) (items : x.items = List.replicate n .delivery)
    (going : x.phase.committed = true → closing = false)
    (dead : x.phase.stopped = true → x.alive = false) (phase : x.phase ≠ .finished)
  | failed (n : ℕ) (error : Failure)
    (items : x.items = List.replicate n .delivery ++ [.failed error])
    (dead : x.alive = false) (phase : x.phase = .idle ∨ x.phase = .next ∨ x.phase = .entering)
  | finished (items : WellEnded x.items) (phase : x.phase = .finished)

variable {s t : State} {i : ℕ} {x : Stream} {closing : Bool} {p : Phase}

theorem Ending.wellEnded (h : Ending closing x) : WellEnded x.items := by
  cases h with
  | running n items => exact ⟨n, [], by simpa using items, .inl rfl⟩
  | failed n error items => exact ⟨n, _, items, .inr (.inr ⟨error, .inl rfl⟩)⟩
  | finished items => exact items

/-- A stream whose `recover` is under way has yielded deliveries only. -/
theorem Ending.of_recovering (h : Ending closing x) (hx : x.phase.recovering = true) :
    ∃ n, x.items = List.replicate n .delivery ∧ x.alive = false ∧
      (x.phase.committed = true → closing = false) := by
  cases h with
  | running n items going dead =>
    refine ⟨n, items, dead ?_, going⟩
    cases hp : x.phase <;> rw [hp] at hx <;> first | exact hx | cases hx
  | failed n error items dead phase => rcases phase with hp | hp | hp <;> rw [hp] at hx <;> cases hx
  | finished items phase => rw [phase] at hx; cases hx

/-- Outside of `recover`, with deliveries only. -/
theorem Ending.calm (n : ℕ) (items : x.items = List.replicate n .delivery)
    (hx : x.phase = .idle ∨ x.phase = .next ∨ x.phase = .discarding ∨ x.phase = .unborn) :
    Ending closing x := by
  refine .running n items ?_ ?_ ?_ <;> intro h <;> rcases hx with hx | hx | hx | hx <;>
    rw [hx] at h <;> cases h

/-- `recover` moves on without an item. -/
theorem Ending.advance (h : Ending closing x) (hx : x.phase.recovering = true) {trace : List Event}
    (hp : p.recovering = true) (going : p.committed = true → closing = false) :
    Ending closing { x with phase := p, trace := trace } := by
  obtain ⟨n, items, dead, -⟩ := h.of_recovering hx
  refine .running n items going (fun _ => dead) ?_
  rintro rfl
  cases hp

/-- `recover` ends in an error. -/
theorem Ending.fail (h : Ending closing x) (hx : x.phase.recovering = true) (error : Failure)
    {trace : List Event} :
    Ending closing { x.yield (.failed error) .idle with trace := trace } := by
  obtain ⟨n, items, dead, -⟩ := h.of_recovering hx
  exact .failed n error (by rw [Stream.yield, items]) dead (.inl rfl)

/-- The close begins, and meets no `recover` past its look. -/
theorem Ending.close (h : Ending closing x) (hx : x.phase.committed = false) : Ending true x := by
  cases h with
  | running n items going dead phase =>
    exact .running n items (fun hc => by rw [hx] at hc; cases hc) dead phase
  | failed n error items dead phase => exact .failed n error items dead phase
  | finished items phase => exact .finished items phase

/-- The end of a stream that has stopped. -/
theorem Ending.finish (h : Ending closing x) (hx : x.phase = .entering) :
    Ending closing (x.yield .ended .finished) := by
  refine .finished ?_ rfl
  cases h with
  | running n items => exact ⟨n, _, by rw [Stream.yield, items], .inr (.inl rfl)⟩
  | failed n error items =>
    exact ⟨n, [.failed error, .ended], by simp [Stream.yield, items],
      .inr (.inr ⟨error, .inr rfl⟩)⟩
  | finished items phase => rw [hx] at phase; cases phase

theorem Ending.set (h : ∀ j, Ending closing (s.streams j)) (hx : Ending closing x) (j : ℕ) :
    Ending closing ((s.setStream i x).streams j) := by
  simp only [State.setStream, Function.update_apply]
  split_ifs
  · exact hx
  · exact h j

theorem Ending.deliver {decodes : Bool} (h : ∀ j, Ending s.handle.closing (s.streams j))
    (hs : stepDeliver s i decodes = some t) (j : ℕ) : Ending t.handle.closing (t.streams j) := by
  obtain ⟨hphase, halive, ht⟩ := deliver_cases hs
  cases h i with
  | running n items =>
    obtain rfl | rfl := ht
    · refine Ending.set h ?_ j
      refine .calm (n + 1) ?_ (.inl rfl)
      simp [Stream.yield, items, List.replicate_succ']
    · refine Ending.set h ?_ j
      exact .calm n items (.inr (.inr (.inl rfl)))
  | failed n error items dead => rw [halive] at dead; cases dead
  | finished items phase => rw [hphase] at phase; cases phase

theorem Ending.enter (h : ∀ j, Ending s.handle.closing (s.streams j))
    (hg : Final s (.enter i)) (hs : stepEnter s i = some t) (j : ℕ) :
    Ending t.handle.closing (t.streams j) := by
  obtain ⟨hphase, rfl | ⟨hopen, rfl⟩⟩ := enter_cases hs
  · refine Ending.set h ?_ j
    exact (h i).finish hphase
  · cases h i with
    | running n items going dead =>
      have hdead := dead (by rw [hphase]; rfl)
      refine Ending.set h ?_ j
      exact .running n items (fun _ => hopen) (fun _ => hdead) (by simp)
    | failed n error items =>
      -- an error has been yielded and the handle is not closing
      rcases hg with hclosing | hnone
      · rw [hopen] at hclosing; cases hclosing
      · have hfailed := hnone (.failed error) (by rw [items]; simp)
        cases hfailed
    | finished items phase => rw [hphase] at phase; cases phase

theorem Ending.handle {a : ConnectionHandle.Action}
    (h : ∀ j, Ending s.handle.closing (s.streams j)) (hg : Final s (.handle a))
    (hs : stepHandle s a = some t) (j : ℕ) : Ending t.handle.closing (t.streams j) := by
  obtain ⟨-, handle, hstep, rfl⟩ := handle_cases hs
  obtain hsame | ⟨hclosing, k, rfl | rfl⟩ := closing_step hstep
  · rw [hsame]
    exact h j
  all_goals
    rw [hclosing]
    rcases hg with hbefore | hnone
    · exact hbefore ▸ h j
    · exact (h j).close (hnone j)

theorem Ending.step {a : Action} (h : ∀ j, Ending s.handle.closing (s.streams j)) (hg : Final s a)
    (hs : step s a = some t) (j : ℕ) : Ending t.handle.closing (t.streams j) := by
  cases a with
  | tick elapsed =>
    obtain rfl := Option.some.inj hs
    exact h j
  | handle a => exact Ending.handle h hg hs j
  | consume i =>
    simp only [Recovery.step] at hs
    obtain ⟨hphase, rfl⟩ := move_cases hs
    cases h i with
    | running n items =>
      refine Ending.set h ?_ j
      exact .calm n items (.inl rfl)
    | failed n error items dead phase =>
      rcases phase with hp | hp | hp <;> rw [hp] at hphase <;> cases hphase
    | finished items phase => rw [phase] at hphase; cases hphase
  | poll i =>
    simp only [Recovery.step] at hs
    obtain ⟨hphase, rfl⟩ := move_cases hs
    cases h i with
    | running n items =>
      refine Ending.set h ?_ j
      exact .calm n items (.inr (.inl rfl))
    | failed n error items dead =>
      refine Ending.set h ?_ j
      exact .failed n error items dead (.inr (.inl rfl))
    | finished items phase => rw [phase] at hphase; cases hphase
  | deliver i decodes => exact Ending.deliver h hs j
  | discard i =>
    simp only [Recovery.step] at hs
    obtain ⟨hphase, rfl⟩ := move_cases hs
    cases h i with
    | running n items =>
      refine Ending.set h ?_ j
      exact .calm n items (.inr (.inl rfl))
    | failed n error items dead phase =>
      rcases phase with hp | hp | hp <;> rw [hp] at hphase <;> cases hphase
    | finished items phase => rw [phase] at hphase; cases hphase
  | stop i =>
    simp only [Recovery.step] at hs
    obtain ⟨hphase, rfl⟩ := move_cases hs
    cases h i with
    | running n items =>
      refine Ending.set h ?_ j
      exact .running n items (fun hc => by cases hc) (fun _ => rfl) (by simp)
    | failed n error items =>
      refine Ending.set h ?_ j
      exact .failed n error items rfl (.inr (.inr rfl))
    | finished items phase => rw [phase] at hphase; cases hphase
  | enter i => exact Ending.enter h hg hs j
  | leave i =>
    simp only [Recovery.step] at hs
    obtain ⟨hphase, rfl⟩ := move_cases hs
    have hleaving : (s.streams i).phase = .leaving := by
      cases hp : (s.streams i).phase <;> simp [hp] at hphase ⊢
    obtain ⟨n, -, -, hopen⟩ := (h i).of_recovering (by rw [hleaving]; rfl)
    refine Ending.set h ?_ j
    exact (h i).advance (by rw [hleaving]; rfl) rfl fun _ => hopen (by rw [hleaving]; rfl)
  | connect i k =>
    obtain ⟨failures, handle, hphase, hstep, rfl⟩ := connect_cases hs
    obtain ⟨-, rfl⟩ := call_cases hstep
    obtain ⟨n, -, -, hopen⟩ := (h i).of_recovering (by rw [hphase]; rfl)
    refine Ending.set h ?_ j
    exact (h i).advance (by rw [hphase]; rfl) rfl fun _ => hopen (by rw [hphase]; rfl)
  | connected i =>
    obtain ⟨k, failures, hphase, ⟨c, -, rfl⟩ | ⟨error, rfl⟩⟩ := connected_cases hs
    · refine Ending.set h ?_ j
      exact (h i).advance (by rw [hphase]; rfl) rfl fun hc => by cases hc
    · refine Ending.set h ?_ j
      exact (h i).fail (by rw [hphase]; rfl) error
  | subscribe i failed =>
    obtain ⟨c, failures, hphase, ⟨error, rfl, rfl⟩ | rfl⟩ := subscribe_cases hs
    · refine Ending.set h ?_ j
      exact (h i).advance (by rw [hphase]; rfl) rfl fun _ => hg
    · obtain ⟨n, items, -, -⟩ := (h i).of_recovering (by rw [hphase]; rfl)
      refine Ending.set h ?_ j
      exact .calm n items (.inr (.inl rfl))
  | pace i answer =>
    obtain ⟨failures, error, hphase, ⟨-, rfl⟩ | ⟨delay, -, rfl⟩⟩ := pace_cases hs
    · refine Ending.set h ?_ j
      exact (h i).fail (by rw [hphase]; rfl) error
    · obtain ⟨n, -, -, hopen⟩ := (h i).of_recovering (by rw [hphase]; rfl)
      refine Ending.set h ?_ j
      exact (h i).advance (by rw [hphase]; rfl) rfl fun _ => hopen (by rw [hphase]; rfl)
  | wake i =>
    obtain ⟨failures, due, hphase, hwoken⟩ := wake_cases hs
    obtain ⟨n, -, -, hopen⟩ := (h i).of_recovering (by rw [hphase]; rfl)
    obtain ⟨-, rfl⟩ | ⟨-, -, rfl⟩ := hwoken
    · refine Ending.set h ?_ j
      exact (h i).fail (by rw [hphase]; rfl) _
    · refine Ending.set h ?_ j
      exact (h i).advance (by rw [hphase]; rfl) rfl fun _ => hopen (by rw [hphase]; rfl)

theorem reachable_ending (h : Reach system Final s) :
    ∀ i, Ending s.handle.closing (s.streams i) := by
  have base : ∀ s, system.start s → ∀ i, Ending s.handle.closing (s.streams i) := by
    intro s ⟨reconnects, hs⟩ i
    subst hs
    exact .calm 0 rfl (.inr (.inr (.inr rfl)))
  have held := h.invariant base fun _ _ _ hending hg hs => Ending.step hending hg hs
  exact held

/-- A step yields at most one item, and an error only from inside `recover`. -/
def Yields (x y : Stream) : Prop :=
  y.items = x.items ∨ ∃ item, y.items = x.items ++ [item] ∧
    (item.isFailed = true → x.phase.committed = true)

theorem Yields.set (h : Yields (s.streams i) x) (j : ℕ) :
    Yields (s.streams j) ((s.setStream i x).streams j) := by
  simp only [State.setStream, Function.update_apply]
  split_ifs with hj
  · exact hj ▸ h
  · exact .inl rfl

theorem yields_step {a : Action} (hs : step s a = some t) (j : ℕ) :
    Yields (s.streams j) (t.streams j) := by
  cases a with
  | tick elapsed =>
    obtain rfl := Option.some.inj hs
    exact .inl rfl
  | handle a =>
    obtain ⟨-, handle, -, rfl⟩ := handle_cases hs
    exact .inl rfl
  | consume i | poll i | discard i | stop i | leave i =>
    simp only [step] at hs
    obtain ⟨-, rfl⟩ := move_cases hs
    refine Yields.set ?_ j
    exact .inl rfl
  | deliver i decodes =>
    obtain ⟨-, -, rfl | rfl⟩ := deliver_cases hs
    · refine Yields.set ?_ j
      exact .inr ⟨.delivery, rfl, fun h => by cases h⟩
    · refine Yields.set ?_ j
      exact .inl rfl
  | enter i =>
    obtain ⟨-, rfl | ⟨-, rfl⟩⟩ := enter_cases hs
    · refine Yields.set ?_ j
      exact .inr ⟨.ended, rfl, fun h => by cases h⟩
    · refine Yields.set ?_ j
      exact .inl rfl
  | connect i k =>
    obtain ⟨failures, handle, -, -, rfl⟩ := connect_cases hs
    refine Yields.set ?_ j
    exact .inl rfl
  | connected i =>
    obtain ⟨k, failures, hphase, ⟨c, -, rfl⟩ | ⟨error, rfl⟩⟩ := connected_cases hs
    · refine Yields.set ?_ j
      exact .inl rfl
    · refine Yields.set ?_ j
      exact .inr ⟨.failed error, rfl, fun _ => by rw [hphase]; rfl⟩
  | subscribe i failed =>
    obtain ⟨c, failures, -, ⟨error, -, rfl⟩ | rfl⟩ := subscribe_cases hs <;>
    · refine Yields.set ?_ j
      exact .inl rfl
  | pace i answer =>
    obtain ⟨failures, error, hphase, ⟨-, rfl⟩ | ⟨delay, -, rfl⟩⟩ := pace_cases hs
    · refine Yields.set ?_ j
      exact .inr ⟨.failed error, rfl, fun _ => by rw [hphase]; rfl⟩
    · refine Yields.set ?_ j
      exact .inl rfl
  | wake i =>
    obtain ⟨failures, due, hphase, ⟨-, rfl⟩ | ⟨-, -, rfl⟩⟩ := wake_cases hs
    · refine Yields.set ?_ j
      exact .inr ⟨_, rfl, fun _ => by rw [hphase]; rfl⟩
    · refine Yields.set ?_ j
      exact .inl rfl

theorem Ending.not_committed (h : Ending true x) : x.phase.committed = false := by
  cases h with
  | running n items going =>
    by_contra hc
    have hfalse := going (by simpa using hc)
    cases hfalse
  | failed n error items dead phase => rcases phase with hp | hp | hp <;> rw [hp] <;> rfl
  | finished items phase => rw [phase]; rfl

/-- Where no stream enters `recover` again after an error under an open handle, and no close
falls on a stream inside `recover`, the items are deliveries and then the end, or one error
and then the end; a stream that yielded an error neither dials nor subscribes; and under a
closing handle no stream yields an error and `recover` ends the stream. -/
theorem stream_ends (h : Reach system Final s) (i : ℕ) :
    WellEnded (s.streams i).items ∧
      (∀ item ∈ (s.streams i).items, item.isFailed = true →
        ∀ k failed, step s (.connect i k) = none ∧ step s (.subscribe i failed) = none) ∧
      (s.handle.closing = true →
        (∀ a t, step s a = some t → (t.streams i).items.countP Item.isFailed =
          (s.streams i).items.countP Item.isFailed) ∧
        ((s.streams i).phase = .entering → ∃ t, step s (.enter i) = some t ∧
          (t.streams i).items = (s.streams i).items ++ [.ended] ∧
          (t.streams i).phase = .finished)) := by
  have hending := reachable_ending h i
  refine ⟨hending.wellEnded, fun item hin hfailed k failed => ?_,
    fun hclosing => ⟨fun a t hs => ?_, fun hphase => ?_⟩⟩
  · have hstill : (s.streams i).phase.recovering = false := by
      by_contra hrec
      obtain ⟨n, items, -, -⟩ := hending.of_recovering (by simpa using hrec)
      rw [items] at hin
      obtain rfl := List.eq_of_mem_replicate hin
      cases hfailed
    cases hp : (s.streams i).phase <;> rw [hp] at hstill <;>
      first | cases hstill; done | simp [step, stepConnect, stepSubscribe, hp]
  · rw [hclosing] at hending
    obtain hsame | ⟨item, hitem, hwhen⟩ := yields_step hs i
    · rw [hsame]
    · cases item with
      | failed error =>
        have hcommitted := hwhen rfl
        rw [hending.not_committed] at hcommitted
        cases hcommitted
      | delivery | ended => rw [hitem, List.countP_append]; rfl
  · refine ⟨s.setStream i ((s.streams i).yield .ended .finished), ?_, ?_, ?_⟩
    · simp [step, stepEnter, hphase, hclosing]
    · simp [State.setStream, Stream.yield]
    · simp [State.setStream, Stream.yield]

/-- `recover` makes one attempt to reconnect, and the policy declines another. -/
def declinedRun : List Action :=
  [.enter 0, .leave 0, .connect 0 0, .handle (.check 0), .handle (.peek 0), .handle (.judge 0),
    .handle (.lock 0), .handle (.check 0), .handle (.peek 0), .handle (.judge 0),
    .handle (.pace 0 (some .zero)), .handle (.open 0), .handle (.dial 0 (some (.other "refused"))),
    .handle (.pace 0 none), .connected 0]

/-- One delivery, then the connection drops. -/
def stoppedRun : List Action :=
  [.consume 0, .poll 0, .deliver 0 true, .poll 0, .handle (.drop 0), .stop 0]

def exhausted : Failure :=
  (RabbitMqError.reconnectExhausted 1 (some (.other "refused"))).intoCore

/-- Polled again after the close, the stream that gave up ends. -/
theorem stream_ends_closed : ∃ s, Reach system Final s ∧ s.handle.closing = true ∧
    (s.streams 0).items = [.delivery, .failed exhausted, .ended] ∧
    WellEnded (s.streams 0).items := by
  have start : Reach system Final (initial true) := .start ⟨true, rfl⟩
  have stopped := start.guardedRun stoppedRun
    (guarded_of_forall (by simp [stoppedRun, Final]) _) rfl
  have entered := stopped.next (a := Action.enter 0) (.inr (by decide)) rfl
  have declined := entered.guardedRun declinedRun.tail
    (guarded_of_forall (by simp [declinedRun, Final]) _) rfl
  have marked := declined.next (a := Action.handle (.mark 0))
    (.inr fun i => by rcases i with _ | i <;> rfl) rfl
  have polled := marked.guardedRun [.poll 0, .stop 0]
    (guarded_of_forall (by simp [Final]) _) rfl
  have ended := polled.next (a := Action.enter 0) (.inl rfl) rfl
  exact ⟨_, ended, rfl, rfl, (stream_ends ended 0).1⟩

/-- Polled again under an open handle, a stream that gave up dials, subscribes and delivers.
A close that falls on `recover` is an error of the stream. -/
theorem stream_goes_on : (∃ s, Reachable system s ∧ ¬ WellEnded (s.streams 0).items ∧
      (s.streams 0).items = [.delivery, .failed exhausted, .delivery]) ∧
    ∃ s t, Reachable system s ∧ s.handle.closing = true ∧ step s (.connected 0) = some t ∧
      (t.streams 0).items = [.delivery, .failed RabbitMqError.closed.intoCore] := by
  have start : Reachable system (initial true) := .start ⟨true, rfl⟩
  constructor
  · have reached := start.run (stoppedRun ++ declinedRun ++
      [Action.poll 0, .stop 0, .enter 0, .leave 0, .connect 0 1, .handle (.check 1),
        .handle (.peek 1), .handle (.judge 1), .handle (.lock 1), .handle (.check 1),
        .handle (.peek 1), .handle (.judge 1), .handle (.pace 1 (some .zero)), .handle (.open 1),
        .handle (.dial 1 none), .handle (.recheck 1), .handle (.install 1), .handle (.bump 1),
        .handle (.read 1 []), .connected 0, .subscribe 0 none, .deliver 0 true]) rfl
    refine ⟨_, reached, ?_, rfl⟩
    rintro ⟨n, rest, items, hrest⟩
    have hitems : [Item.delivery, .failed exhausted, .delivery] =
        List.replicate n Item.delivery ++ rest := items
    rcases n with _ | _ | n
    · obtain rfl : rest = _ := hitems.symm
      simp at hrest
    · obtain rfl : rest = [Item.failed exhausted, .delivery] := by simpa using hitems.symm
      simp at hrest
    · simp [List.replicate_succ] at hitems
  · have marked := start.run (stoppedRun ++
      [Action.enter 0, .leave 0, .connect 0 0, .handle (.mark 0), .handle (.check 0)]) rfl
    exact ⟨_, _, marked, rfl, rfl, rfl⟩

end Queuey.Rabbit.Recovery
