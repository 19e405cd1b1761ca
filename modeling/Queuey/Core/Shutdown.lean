import Queuey.Core.WorkerRun
import Queuey.Library.Ledger

/-!
# Shutdown loses nothing in hand

A delivery taken off a stream is in a consumer's hand, in the channel, in the hand of the
dispatch loop or passed to `process`: the four places of a ledger. Each step moves at most
one delivery by one place, and the loops give way in an order that leaves the first three
places empty when `run` returns.
-/
namespace Queuey.WorkerRun
open Transition

variable {B : Type} {s t : State B} {failed : Option (Error B)} {item : Item B} {d q : ℕ}

/-! ## What each action does -/

theorem consume_cases (hs : stepConsume s failed = some t) :
    ∃ i, s.phase = .starting i ∧ i < s.queues.length ∧
      ((failed = none ∧ t = { s.setConsumer i .checking with phase := .starting (i + 1) }) ∨
        ∃ e, failed = some e ∧
          t = { s with outcome := .error e, phase := .checking, seen := s.signals }) := by
  grind [stepConsume]

theorem started_cases (hs : stepStarted s = some t) :
    s.phase = .starting s.queues.length ∧ t = { s with phase := .checking, seen := s.signals } := by
  grind [stepStarted]

theorem check_cases (hs : stepCheck s = some t) :
    s.phase = .checking ∧ ∃ p seen, (p = .stopping ∨ p = .acquiring) ∧
      t = { s with phase := p, seen := seen } := by
  unfold stepCheck at hs
  grind

theorem notice_cases (hs : stepNotice s = some t) :
    (s.phase = .acquiring ∨ s.phase = .receiving) ∧ ∃ permits,
      t = { s with phase := .stopping, seen := s.signals, permits := permits } := by
  unfold stepNotice at hs
  grind

theorem acquire_cases (hs : stepAcquire s = some t) :
    (s.phase = .acquiring ∧ t = { s with phase := .receiving, permits := s.permits - 1 }) ∨
      (s.phase = .drainAcquiring ∧
        t = { s with phase := .drainReceiving, permits := s.permits - 1 }) := by
  grind [stepAcquire]

theorem receive_cases (hs : stepReceive s = some t) :
    (s.phase = .receiving ∧ ∃ event rest, s.channel = event :: rest ∧
        t = { s with phase := .handling event, channel := rest }) ∨
      (s.phase = .drainReceiving ∧ ∃ event rest, s.channel = event :: rest ∧
        t = { s with phase := .drainHandling event, channel := rest }) ∨
      (s.phase = .receiving ∧ s.channel = [] ∧
        t = { s with phase := .stopping, permits := s.permits + 1 }) ∨
      (s.phase = .drainReceiving ∧ s.channel = [] ∧ s.senders = false ∧
        t = { s with phase := .joiningConsumers, permits := s.permits + 1 }) := by
  unfold stepReceive at hs
  grind

theorem fail_eq (s : State B) (e : Error B) : ∃ outcome, s.fail e = { s with outcome := outcome } := by
  unfold State.fail
  split <;> exact ⟨_, rfl⟩

/-- The loop spawns a delivery's task; from any other event it keeps no delivery. -/
theorem handle_cases (hs : stepHandle s = some t) :
    ∃ event p, (s.phase = .handling event ∧ p = .checking ∨
        s.phase = .drainHandling event ∧ p = .drainAcquiring) ∧
      ((∃ d, event = .delivery d ∧ t = { s.spawn d with phase := p }) ∨
        (event.delivery? = none ∧ ∃ outcome permits,
          t = { s with phase := p, outcome := outcome, permits := permits })) := by
  unfold stepHandle at hs
  split at hs
  · next d hp => exact ⟨_, _, .inl ⟨hp, rfl⟩, .inl ⟨d, rfl, (Option.some.inj hs).symm⟩⟩
  · next e hp => exact ⟨_, _, .inl ⟨hp, rfl⟩, .inr ⟨rfl, _, _, (Option.some.inj hs).symm⟩⟩
  · next queue hp => exact ⟨_, _, .inl ⟨hp, rfl⟩, .inr ⟨rfl, _, _, (Option.some.inj hs).symm⟩⟩
  · next d hp => exact ⟨_, _, .inr ⟨hp, rfl⟩, .inl ⟨d, rfl, (Option.some.inj hs).symm⟩⟩
  · next e hp =>
    obtain ⟨outcome, he⟩ := fail_eq s e
    rw [he] at hs
    exact ⟨_, _, .inr ⟨hp, rfl⟩, .inr ⟨rfl, outcome, _, (Option.some.inj hs).symm⟩⟩
  · next queue hp => exact ⟨_, _, .inr ⟨hp, rfl⟩, .inr ⟨rfl, _, _, (Option.some.inj hs).symm⟩⟩
  · cases hs

theorem stopConsumers_cases (hs : stepStopConsumers s = some t) :
    s.phase = .stopping ∧ t = { s with phase := .drainAcquiring, stop := true } := by
  grind [stepStopConsumers]

theorem joinConsumers_cases (hs : stepJoinConsumers s = some t) :
    s.phase = .joiningConsumers ∧ t = { s with phase := .joiningTasks } := by
  grind [stepJoinConsumers]

theorem joinTasks_cases (hs : stepJoinTasks s = some t) :
    s.phase = .joiningTasks ∧ (∀ d ∈ s.inFlight, s.tasks d = .finished) ∧
      t = { s with phase := .closing, inFlight := [] } := by
  grind [stepJoinTasks]

theorem close_cases (hs : stepClose s failed = some t) :
    s.phase = .closing ∧ ∃ outcome, t = { s with phase := .returned, outcome := outcome } := by
  unfold stepClose at hs
  grind [State.fail]

theorem finish_cases (hs : stepFinish s d = some t) :
    s.tasks d = .running ∧
      t = { s with tasks := Function.update s.tasks d .finished, permits := s.permits + 1 } := by
  grind [stepFinish]

theorem checkStop_cases (hs : stepCheckStop s q = some t) :
    s.consumers q = .checking ∧ ∃ c, (c = .finished ∨ c = .selecting) ∧ t = s.setConsumer q c := by
  unfold stepCheckStop at hs
  grind

theorem noticeStop_cases (hs : stepNoticeStop s q = some t) :
    s.consumers q = .selecting ∧ t = s.setConsumer q .finished := by
  grind [stepNoticeStop]

theorem pull_cases (hs : stepPull s q item = some t) :
    s.consumers q = .selecting ∧
      (t = { s.setConsumer q (.sending (.delivery s.next)) with next := s.next + 1 } ∨
        (∃ e, t = s.setConsumer q (.sending (.failed e))) ∨ t = s.setConsumer q .sendingEnded) := by
  unfold stepPull at hs
  grind

theorem send_cases (hs : stepSend s q = some t) :
    ∃ event, s.consumers q = .sending event ∧
      ((s.phase = .returned ∧ t = s.setConsumer q .finished) ∨
        t = { s.setConsumer q .checking with channel := s.channel ++ [event] }) := by
  unfold stepSend at hs
  grind

theorem sendEnded_cases (hs : stepSendEnded s q = some t) :
    s.consumers q = .sendingEnded ∧
      (t = s.setConsumer q .finished ∨ ∃ queue,
        t = { s.setConsumer q .finished with channel := s.channel ++ [.ended queue] }) := by
  unfold stepSendEnded at hs
  grind

/-! ## The consumers -/

/-- `run` has seen the last consumer go. -/
def Phase.past : Phase B → Bool
  | .joiningConsumers | .joiningTasks | .closing | .returned => true
  | _ => false

/-- Only the queues started so far have consumers, and past the draining loop none is left. -/
structure Staffed (s : State B) : Prop where
  known : ∀ q, s.consumers q ≠ .unborn → q < s.queues.length
  fresh : ∀ i q, s.phase = .starting i → s.consumers q ≠ .unborn → q < i
  gone : s.phase.past = true → s.channel = [] ∧ ∀ q, (s.consumers q).alive = false

theorem staffed_start (h : (system B).start s) : Staffed s := by
  obtain ⟨queues, concurrency, closeBackend, signals, -, rfl⟩ := h
  exact ⟨fun q hq => absurd rfl hq, fun i q _ hq => absurd rfl hq, nofun⟩

/-- Steps of `run` that start no consumer. -/
theorem Staffed.frame (h : Staffed s) (queues : t.queues = s.queues)
    (consumers : t.consumers = s.consumers) (fresh : ∀ i, t.phase ≠ .starting i)
    (gone : t.phase.past = true → t.channel = [] ∧ ∀ q, (s.consumers q).alive = false) :
    Staffed t where
  known q := by
    rw [queues, consumers]
    exact h.known q
  fresh i q hi := absurd hi (fresh i)
  gone hp := by
    rw [consumers]
    exact gone hp

/-- A task that is alive moves on; `run` is before the end of its draining loop. -/
theorem Staffed.setConsumer {c : Consumer B} {channel : List (ConsumerEvent B)} {next : ℕ}
    (h : Staffed s) (alive : (s.consumers q).alive = true) :
    Staffed { s.setConsumer q c with channel := channel, next := next } := by
  have born : ∀ r, Function.update s.consumers q c r ≠ .unborn → s.consumers r ≠ .unborn := by
    intro r hr
    rw [Function.update_apply] at hr
    split_ifs at hr with hrq
    · intro hu
      rw [← hrq, hu] at alive
      cases alive
    · exact hr
  exact ⟨fun r hr => h.known r (born r hr), fun i r hi hr => h.fresh i r hi (born r hr), fun hp =>
    absurd ((h.gone hp).2 q) (by rw [alive]; decide)⟩

/-- No sender is left once no consumer of a queue has one. -/
theorem Staffed.of_senders (h : Staffed s) (hs : s.senders = false) (q : ℕ) :
    (s.consumers q).alive = false := by
  by_cases hq : s.consumers q = .unborn
  · rw [hq]
    rfl
  · have := List.any_eq_false.mp hs q (List.mem_range.mpr (h.known q hq))
    simpa using this

theorem staffed_consume (h : Staffed s) (hs : stepConsume s failed = some t) : Staffed t := by
  obtain ⟨i, hp, hi, ⟨-, rfl⟩ | ⟨e, -, rfl⟩⟩ := consume_cases hs
  · refine ⟨fun q hq => ?_, fun j q hj hq => ?_, nofun⟩
    · by_cases hqi : q = i
      · exact hqi ▸ hi
      · exact h.known q (by simpa [State.setConsumer, hqi] using hq)
    · obtain rfl : i + 1 = j := by simpa using hj
      by_cases hqi : q = i
      · omega
      · have := h.fresh i q hp (by simpa [State.setConsumer, hqi] using hq)
        omega
  · exact h.frame rfl rfl nofun nofun

theorem staffed_step {a : Action B} (h : Staffed s) (hs : step s a = some t) : Staffed t := by
  cases a with
  | shutdown =>
    obtain rfl := Option.some.inj hs
    exact ⟨h.known, h.fresh, h.gone⟩
  | consume failed => exact staffed_consume h hs
  | started =>
    obtain ⟨-, rfl⟩ := started_cases hs
    exact h.frame rfl rfl nofun nofun
  | check =>
    obtain ⟨-, p, seen, rfl | rfl, rfl⟩ := check_cases hs <;> exact h.frame rfl rfl nofun nofun
  | notice =>
    obtain ⟨-, permits, rfl⟩ := notice_cases hs
    exact h.frame rfl rfl nofun nofun
  | acquire =>
    obtain ⟨-, rfl⟩ | ⟨-, rfl⟩ := acquire_cases hs <;> exact h.frame rfl rfl nofun nofun
  | receive =>
    obtain ⟨-, event, rest, -, rfl⟩ | ⟨-, event, rest, -, rfl⟩ | ⟨-, -, rfl⟩ | ⟨-, hc, hno, rfl⟩ :=
      receive_cases hs
    · exact h.frame rfl rfl nofun nofun
    · exact h.frame rfl rfl nofun nofun
    · exact h.frame rfl rfl nofun nofun
    · exact h.frame rfl rfl nofun fun _ => ⟨hc, h.of_senders hno⟩
  | handle =>
    obtain ⟨event, p, ⟨-, rfl⟩ | ⟨-, rfl⟩, ⟨d, -, rfl⟩ | ⟨-, outcome, permits, rfl⟩⟩ :=
      handle_cases hs <;> exact h.frame rfl rfl nofun nofun
  | stopConsumers =>
    obtain ⟨-, rfl⟩ := stopConsumers_cases hs
    exact h.frame rfl rfl nofun nofun
  | joinConsumers =>
    obtain ⟨hp, rfl⟩ := joinConsumers_cases hs
    exact h.frame rfl rfl nofun fun _ => h.gone (by rw [hp]; rfl)
  | joinTasks =>
    obtain ⟨hp, -, rfl⟩ := joinTasks_cases hs
    exact h.frame rfl rfl nofun fun _ => h.gone (by rw [hp]; rfl)
  | close failed =>
    obtain ⟨hp, outcome, rfl⟩ := close_cases hs
    exact h.frame rfl rfl nofun fun _ => h.gone (by rw [hp]; rfl)
  | finish d =>
    obtain ⟨-, rfl⟩ := finish_cases hs
    exact ⟨h.known, h.fresh, h.gone⟩
  | checkStop q =>
    obtain ⟨hq, c, -, rfl⟩ := checkStop_cases hs
    exact h.setConsumer (by rw [hq]; rfl)
  | noticeStop q =>
    obtain ⟨hq, rfl⟩ := noticeStop_cases hs
    exact h.setConsumer (by rw [hq]; rfl)
  | pull q item =>
    obtain ⟨hq, rfl | ⟨e, rfl⟩ | rfl⟩ := pull_cases hs <;> exact h.setConsumer (by rw [hq]; rfl)
  | send q =>
    obtain ⟨event, hq, ⟨-, rfl⟩ | rfl⟩ := send_cases hs <;> exact h.setConsumer (by rw [hq]; rfl)
  | sendEnded q =>
    obtain ⟨hq, rfl | ⟨queue, rfl⟩⟩ := sendEnded_cases hs <;>
      exact h.setConsumer (by rw [hq]; rfl)

theorem reachable_staffed (h : Reachable (system B) s) : Staffed s :=
  h.invariant (fun _ => staffed_start) fun _ _ _ hi _ => staffed_step hi

/-! ## The four places -/

inductive Place where
  | consumer (q : ℕ)
  | channel
  | loop
  | processed
deriving DecidableEq

/-- The delivery a consumer task holds. -/
def Consumer.hand : Consumer B → List ℕ
  | sending event => event.delivery?.toList
  | _ => []

/-- The delivery `run` itself holds. -/
def Phase.hand : Phase B → List ℕ
  | handling event | drainHandling event => event.delivery?.toList
  | _ => []

def State.box (s : State B) : Place → List ℕ
  | .consumer q => (s.consumers q).hand
  | .channel => s.channel.filterMap ConsumerEvent.delivery?
  | .loop => s.phase.hand
  | .processed => s.processed

/-- Every delivery taken off a stream is in one place, once. -/
def Conserved (s : State B) : Prop := Ledger.Holds s.box (· < s.next)

theorem conserved_start (h : (system B).start s) : Conserved s := by
  obtain ⟨queues, concurrency, closeBackend, signals, -, rfl⟩ := h
  have empty : ∀ k, (initial (B := B) queues concurrency closeBackend signals).box k = [] := by
    intro k
    cases k <;> rfl
  refine ⟨fun k => ?_, fun d j k hj => ?_, fun d => ?_⟩
  · rw [empty]
    exact List.nodup_nil
  · rw [empty] at hj
    cases hj
  · simp only [empty, List.not_mem_nil, exists_false, iff_false]
    exact Nat.not_lt_zero d

theorem Conserved.taken {k : Place} (h : Conserved s) (hd : d ∈ s.box k) : d < s.next :=
  (Ledger.Holds.all h d).mpr ⟨k, hd⟩

/-- Nothing moves. -/
theorem Conserved.frame (h : Conserved s) (next : t.next = s.next)
    (consumers : ∀ q, (t.consumers q).hand = (s.consumers q).hand)
    (channel : t.channel.filterMap ConsumerEvent.delivery? =
      s.channel.filterMap ConsumerEvent.delivery?)
    (loop : t.phase.hand = s.phase.hand) (processed : t.processed = s.processed) :
    Conserved t := by
  have same : t.box = s.box := by
    funext k
    cases k with
    | consumer q => exact consumers q
    | channel => exact channel
    | loop => exact loop
    | processed => exact processed
  unfold Conserved
  rw [same, next]
  exact h

theorem hand_update {c : Consumer B} (hc : c.hand = (s.consumers q).hand) (r : ℕ) :
    (Function.update s.consumers q c r).hand = (s.consumers r).hand := by
  rw [Function.update_apply]
  split_ifs with hr
  · rw [hr, hc]
  · rfl

theorem conserved_receive (h : Conserved s) (hs : stepReceive s = some t) : Conserved t := by
  have move : ∀ {event rest p}, s.channel = event :: rest → s.phase.hand = [] →
      p.hand = event.delivery?.toList → Conserved { s with phase := p, channel := rest } := by
    intro event rest p hc hp ht
    have out : s.box .channel =
        event.delivery?.toList ++ rest.filterMap ConsumerEvent.delivery? := by
      simp only [State.box, hc, List.filterMap_cons]
      cases event.delivery? <;> rfl
    refine h.moveAll (j := .channel) (k := .loop) (l := event.delivery?.toList) nofun
      (.of_eq out) (.of_eq ?_) fun m hm hm' => ?_
    · simp only [State.box, hp, ht, List.append_nil]
    · cases m with
      | consumer q => exact .refl _
      | channel => exact absurd rfl hm
      | loop => exact absurd rfl hm'
      | processed => exact .refl _
  obtain ⟨hp, event, rest, hc, rfl⟩ | ⟨hp, event, rest, hc, rfl⟩ | ⟨hp, hc, rfl⟩ | ⟨hp, hc, -, rfl⟩ :=
    receive_cases hs
  · exact move hc (by rw [hp]; rfl) rfl
  · exact move hc (by rw [hp]; rfl) rfl
  · exact h.frame rfl (fun _ => rfl) rfl (by rw [hp]; rfl) rfl
  · exact h.frame rfl (fun _ => rfl) rfl (by rw [hp]; rfl) rfl

theorem conserved_handle (h : Conserved s) (hs : stepHandle s = some t) : Conserved t := by
  obtain ⟨event, p, hp, ht⟩ := handle_cases hs
  have held : s.phase.hand = event.delivery?.toList ∧ p.hand = [] := by
    obtain ⟨hp, rfl⟩ | ⟨hp, rfl⟩ := hp <;> exact ⟨by rw [hp]; rfl, rfl⟩
  obtain ⟨d, rfl, rfl⟩ | ⟨hnone, outcome, permits, rfl⟩ := ht
  · apply h.move (j := .loop) (k := .processed) (i := d) nofun
    · simp only [State.box, held.1, held.2]
      exact .refl _
    · exact List.perm_append_singleton d s.processed
    · intro m hm hm'
      cases m with
      | consumer q => exact .refl _
      | channel => exact .refl _
      | loop => exact absurd rfl hm
      | processed => exact absurd rfl hm'
  · refine h.frame rfl (fun _ => rfl) rfl ?_ rfl
    simp only [held.1, held.2, hnone, Option.toList_none]

theorem conserved_pull (h : Conserved s) (hs : stepPull s q item = some t) : Conserved t := by
  obtain ⟨hq, rfl | ⟨e, rfl⟩ | rfl⟩ := pull_cases hs
  · apply h.arrive (i := s.next) (k := .consumer q) (Nat.lt_irrefl _)
    · simp [State.box, State.setConsumer, hq, Consumer.hand, ConsumerEvent.delivery?]
    · intro m hm
      cases m with
      | consumer r =>
        have hr : r ≠ q := fun hr => hm (by rw [hr])
        simp [State.box, State.setConsumer, hr]
      | channel => exact .refl _
      | loop => exact .refl _
      | processed => exact .refl _
    · intro m
      exact Nat.lt_succ_iff_lt_or_eq
  · exact h.frame rfl (hand_update (by rw [hq]; rfl)) rfl rfl rfl
  · exact h.frame rfl (hand_update (by rw [hq]; rfl)) rfl rfl rfl

theorem conserved_send (staffed : Staffed s) (h : Conserved s) (hs : stepSend s q = some t) :
    Conserved t := by
  obtain ⟨event, hq, ⟨hp, rfl⟩ | rfl⟩ := send_cases hs
  · have hgone := (staffed.gone (by rw [hp]; rfl)).2 q
    rw [hq] at hgone
    cases hgone
  · apply h.moveAll (j := .consumer q) (k := .channel) (l := event.delivery?.toList) nofun
    · simp [State.box, State.setConsumer, hq, Consumer.hand]
    · simp only [State.box, List.filterMap_append]
      have one : [event].filterMap ConsumerEvent.delivery? = event.delivery?.toList := by
        cases event <;> rfl
      rw [one]
      exact List.perm_append_comm
    · intro m hm hm'
      cases m with
      | consumer r =>
        have hr : r ≠ q := fun hr => hm (by rw [hr])
        simp [State.box, State.setConsumer, hr]
      | channel => exact absurd rfl hm'
      | loop => exact .refl _
      | processed => exact .refl _

theorem conserved_step {a : Action B} (staffed : Staffed s) (h : Conserved s)
    (hs : step s a = some t) : Conserved t := by
  cases a with
  | shutdown =>
    obtain rfl := Option.some.inj hs
    exact h
  | consume failed =>
    obtain ⟨i, hp, hi, ⟨-, rfl⟩ | ⟨e, -, rfl⟩⟩ := consume_cases hs
    · have hu : s.consumers i = .unborn := by
        by_contra hne
        exact absurd (staffed.fresh i i hp hne) (Nat.lt_irrefl i)
      exact h.frame rfl (hand_update (by rw [hu]; rfl)) rfl (by rw [hp]; rfl) rfl
    · exact h.frame rfl (fun _ => rfl) rfl (by rw [hp]; rfl) rfl
  | started =>
    obtain ⟨hp, rfl⟩ := started_cases hs
    exact h.frame rfl (fun _ => rfl) rfl (by rw [hp]; rfl) rfl
  | check =>
    obtain ⟨hp, p, seen, rfl | rfl, rfl⟩ := check_cases hs <;>
      exact h.frame rfl (fun _ => rfl) rfl (by rw [hp]; rfl) rfl
  | notice =>
    obtain ⟨hp | hp, permits, rfl⟩ := notice_cases hs <;>
      exact h.frame rfl (fun _ => rfl) rfl (by rw [hp]; rfl) rfl
  | acquire =>
    obtain ⟨hp, rfl⟩ | ⟨hp, rfl⟩ := acquire_cases hs <;>
      exact h.frame rfl (fun _ => rfl) rfl (by rw [hp]; rfl) rfl
  | receive => exact conserved_receive h hs
  | handle => exact conserved_handle h hs
  | stopConsumers =>
    obtain ⟨hp, rfl⟩ := stopConsumers_cases hs
    exact h.frame rfl (fun _ => rfl) rfl (by rw [hp]; rfl) rfl
  | joinConsumers =>
    obtain ⟨hp, rfl⟩ := joinConsumers_cases hs
    exact h.frame rfl (fun _ => rfl) rfl (by rw [hp]; rfl) rfl
  | joinTasks =>
    obtain ⟨hp, -, rfl⟩ := joinTasks_cases hs
    exact h.frame rfl (fun _ => rfl) rfl (by rw [hp]; rfl) rfl
  | close failed =>
    obtain ⟨hp, outcome, rfl⟩ := close_cases hs
    exact h.frame rfl (fun _ => rfl) rfl (by rw [hp]; rfl) rfl
  | finish d =>
    obtain ⟨-, rfl⟩ := finish_cases hs
    exact h
  | checkStop q =>
    obtain ⟨hq, c, hc, rfl⟩ := checkStop_cases hs
    refine h.frame rfl (hand_update ?_) rfl rfl rfl
    obtain rfl | rfl := hc <;> rw [hq] <;> rfl
  | noticeStop q =>
    obtain ⟨hq, rfl⟩ := noticeStop_cases hs
    exact h.frame rfl (hand_update (by rw [hq]; rfl)) rfl rfl rfl
  | pull q item => exact conserved_pull h hs
  | send q => exact conserved_send staffed h hs
  | sendEnded q =>
    obtain ⟨hq, rfl | ⟨queue, rfl⟩⟩ := sendEnded_cases hs
    · exact h.frame rfl (hand_update (by rw [hq]; rfl)) rfl rfl rfl
    · exact h.frame rfl (hand_update (by rw [hq]; rfl))
        (by simp [ConsumerEvent.delivery?]) rfl rfl

theorem reachable_conserved (h : Reachable (system B) s) : Conserved s :=
  h.strengthen (fun _ => reachable_staffed) (fun _ => conserved_start)
    fun _ _ _ hk _ hi _ => conserved_step hk hi

/-! ## The tasks -/

/-- The tasks are those of the deliveries passed to `process`, and `run` awaits them. -/
structure Tasked (s : State B) : Prop where
  spawned : ∀ d, s.tasks d ≠ .unborn ↔ d ∈ s.processed
  tracked : ∀ d, s.tasks d = .running → d ∈ s.inFlight
  idle : s.phase = .closing ∨ s.phase = .returned → ∀ d, s.tasks d ≠ .running

theorem tasked_start (h : (system B).start s) : Tasked s := by
  obtain ⟨queues, concurrency, closeBackend, signals, -, rfl⟩ := h
  exact ⟨fun d => by simp [initial], nofun, fun hp => by simp [initial] at hp⟩

theorem Tasked.frame (h : Tasked s) (tasks : t.tasks = s.tasks) (inFlight : t.inFlight = s.inFlight)
    (processed : t.processed = s.processed)
    (idle : t.phase = .closing ∨ t.phase = .returned →
      s.phase = .closing ∨ s.phase = .returned) : Tasked t where
  spawned := by
    rw [tasks, processed]
    exact h.spawned
  tracked := by
    rw [tasks, inFlight]
    exact h.tracked
  idle hp := by
    rw [tasks]
    exact h.idle (idle hp)

theorem Tasked.spawn {p : Phase B} (h : Tasked s) (hp : ¬(p = .closing ∨ p = .returned)) (d : ℕ) :
    Tasked { s.spawn d with phase := p } where
  spawned e := by
    have := h.spawned e
    by_cases he : e = d <;> simp [State.spawn, he, this]
  tracked e he := by
    by_cases hed : e = d
    · simp [State.spawn, hed]
    · have hr : s.tasks e = .running := by simpa [State.spawn, hed] using he
      simp [State.spawn, hr, h.tracked e hr]
  idle hc := absurd hc hp

theorem tasked_finish (h : Tasked s) (hs : stepFinish s d = some t) : Tasked t := by
  obtain ⟨hr, rfl⟩ := finish_cases hs
  have still : ∀ e, Function.update s.tasks d .finished e = .running → s.tasks e = .running := by
    intro e he
    rw [Function.update_apply] at he
    split_ifs at he
    exact he
  refine ⟨fun e => ?_, fun e he => h.tracked e (still e he), fun hp e he =>
    h.idle hp e (still e he)⟩
  by_cases he : e = d
  · have := (h.spawned d).mp (by rw [hr]; nofun)
    simp [he, this]
  · simpa [he] using h.spawned e

theorem tasked_step {a : Action B} (h : Tasked s) (hs : step s a = some t) : Tasked t := by
  cases a with
  | shutdown =>
    obtain rfl := Option.some.inj hs
    exact ⟨h.spawned, h.tracked, h.idle⟩
  | consume failed =>
    obtain ⟨i, -, -, ⟨-, rfl⟩ | ⟨e, -, rfl⟩⟩ := consume_cases hs <;>
      exact h.frame rfl rfl rfl nofun
  | started =>
    obtain ⟨-, rfl⟩ := started_cases hs
    exact h.frame rfl rfl rfl nofun
  | check =>
    obtain ⟨-, p, seen, rfl | rfl, rfl⟩ := check_cases hs <;> exact h.frame rfl rfl rfl nofun
  | notice =>
    obtain ⟨-, permits, rfl⟩ := notice_cases hs
    exact h.frame rfl rfl rfl nofun
  | acquire =>
    obtain ⟨-, rfl⟩ | ⟨-, rfl⟩ := acquire_cases hs <;> exact h.frame rfl rfl rfl nofun
  | receive =>
    obtain ⟨-, event, rest, -, rfl⟩ | ⟨-, event, rest, -, rfl⟩ | ⟨-, -, rfl⟩ | ⟨-, -, -, rfl⟩ :=
      receive_cases hs <;> exact h.frame rfl rfl rfl nofun
  | handle =>
    obtain ⟨event, p, ⟨-, rfl⟩ | ⟨-, rfl⟩, ⟨d, -, rfl⟩ | ⟨-, outcome, permits, rfl⟩⟩ :=
      handle_cases hs
    · exact h.spawn (p := .checking) (by simp) d
    · exact h.frame rfl rfl rfl nofun
    · exact h.spawn (p := .drainAcquiring) (by simp) d
    · exact h.frame rfl rfl rfl nofun
  | stopConsumers =>
    obtain ⟨-, rfl⟩ := stopConsumers_cases hs
    exact h.frame rfl rfl rfl nofun
  | joinConsumers =>
    obtain ⟨-, rfl⟩ := joinConsumers_cases hs
    exact h.frame rfl rfl rfl nofun
  | joinTasks =>
    obtain ⟨-, hall, rfl⟩ := joinTasks_cases hs
    have done : ∀ d, s.tasks d ≠ .running := by
      intro d hd
      have := hall d (h.tracked d hd)
      rw [hd] at this
      cases this
    exact ⟨h.spawned, fun d hd => absurd hd (done d), fun _ => done⟩
  | close failed =>
    obtain ⟨hp, outcome, rfl⟩ := close_cases hs
    exact h.frame rfl rfl rfl fun _ => .inl hp
  | finish d => exact tasked_finish h hs
  | checkStop q =>
    obtain ⟨-, c, -, rfl⟩ := checkStop_cases hs
    exact h.frame rfl rfl rfl id
  | noticeStop q =>
    obtain ⟨-, rfl⟩ := noticeStop_cases hs
    exact h.frame rfl rfl rfl id
  | pull q item =>
    obtain ⟨-, rfl | ⟨e, rfl⟩ | rfl⟩ := pull_cases hs <;> exact h.frame rfl rfl rfl id
  | send q =>
    obtain ⟨event, -, ⟨-, rfl⟩ | rfl⟩ := send_cases hs <;> exact h.frame rfl rfl rfl id
  | sendEnded q =>
    obtain ⟨-, rfl | ⟨queue, rfl⟩⟩ := sendEnded_cases hs <;> exact h.frame rfl rfl rfl id

theorem reachable_tasked (h : Reachable (system B) s) : Tasked s :=
  h.invariant (fun _ => tasked_start) fun _ _ _ hi _ => tasked_step hi

/-! ## When `run` returns -/

/-- Whatever was taken off a stream was passed to `process` once, and every task has ended. -/
theorem nothing_lost_in_hand (h : Reachable (system B) s) (hp : s.phase = .returned) :
    (∀ d, d < s.next ↔ d ∈ s.processed) ∧ (∀ d ∈ s.processed, s.processed.count d = 1) ∧
      (∀ d ∈ s.processed, s.tasks d = .finished) ∧ ∀ d, s.tasks d ≠ .running := by
  have conserved := reachable_conserved h
  have tasked := reachable_tasked h
  obtain ⟨hchannel, hgone⟩ := (reachable_staffed h).gone (by rw [hp]; rfl)
  -- The other three places are empty.
  have only : ∀ d k, d ∈ s.box k → k = .processed := by
    intro d k hk
    cases k with
    | consumer q =>
      have halive := hgone q
      cases hq : s.consumers q <;> rw [hq] at halive <;>
        simp [State.box, hq, Consumer.hand] at hk
      cases halive
    | channel => simp [State.box, hchannel] at hk
    | loop => simp [State.box, hp, Phase.hand] at hk
    | processed => rfl
  have idle := tasked.idle (.inr hp)
  refine ⟨fun d => ⟨fun hd => ?_, fun hd => conserved.taken (k := .processed) hd⟩, fun d hd =>
    conserved.count_eq_one (k := .processed) hd, fun d hd => ?_, idle⟩
  · obtain ⟨k, hk⟩ := (conserved.all d).mp hd
    obtain rfl := only d k hk
    exact hk
  · have born := (tasked.spawned d).mpr hd
    have := idle d
    cases ht : s.tasks d <;> simp_all

/-- One delivery in the channel and one in the consumer's hand when `shutdown` is called. -/
def shutdownRun : List (Action String) :=
  [.consume none, .checkStop 0, .pull 0 .delivery, .send 0, .checkStop 0, .pull 0 .delivery,
    .started, .shutdown, .check, .stopConsumers, .acquire, .receive, .handle, .send 0, .finish 0,
    .checkStop 0, .acquire, .receive, .handle, .finish 1, .acquire, .receive, .joinConsumers,
    .joinTasks, .close none]

theorem nothing_lost_in_hand_two : ∃ s : State String, Reachable (system String) s ∧
    s.next = 2 ∧ s.processed.count 1 = 1 ∧ s.tasks 1 = .finished := by
  have start : Reachable (system String) (initial [.new "mail"] 1 true 0) :=
    .start ⟨_, _, _, _, Nat.le_refl 1, rfl⟩
  have reached := start.run shutdownRun rfl
  obtain ⟨htaken, hcount, hdone, -⟩ := nothing_lost_in_hand reached rfl
  have hin := (htaken 1).mp (by decide)
  exact ⟨_, reached, rfl, hcount 1 hin, hdone 1 hin⟩

end Queuey.WorkerRun
