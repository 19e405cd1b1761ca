import Queuey.Rabbit.EveryDelay
import Queuey.Rabbit.HeadExpiry
import Queuey.Rabbit.HoldName

/-!
# How long a job is held

What a hold queue has taken waits for as long as its call asked, rounded up, and then goes to
the main queue of its envelope: at its own moment, whatever else waits in front of it or anywhere.
-/
namespace Queuey.Rabbit.HeadExpiry
open Transition Interaction Prog Codec Rabbit.Topology HoldQueues

variable {V : Type} {s t : State V} {suffix : String}

/-- The broker takes each message in time, and a process looks its configs up by their names. -/
def Orderly (s : State V) (a : Action) : Prop :=
  Prompt s.broker a ∧
    ∀ k queue config, a = .answer k ⟨.configFor queue, some config⟩ → config.name = queue

/-- The hold queue a message is in, or on its way to. -/
def queueOf : Fate → Option String
  | .inFlight name | .held name _ => some name
  | _ => none

namespace State
variable (s : State V)

/-- The call that published message `m`. -/
def request (m : ℕ) : Request V := s.requests (s.broker.owner m)

/-- The config a call got. -/
def config (k : ℕ) : Option QueueConfig :=
  (holding (s.requests k)).after none (s.broker.calls k).done

end State

/-- A message accepted at `a` waits, or has been passed on at its moment. -/
def Settled (s : State V) (m a : ℕ) (ttl : UInt32) : Prop :=
  s.broker.fate m = some (.held (holdName (s.request m) ttl) a) ∧ s.released m = none ∨
    s.broker.fate m = some .delivered ∧ a + ttl.toNat * nanosPerMs ≤ s.broker.now ∧
      s.released m = some ((s.request m).envelope.queue, a + ttl.toNat * nanosPerMs)

structure Exact (suffix : String) (s : State V) : Prop where
  sound : Sound s
  safe : Safe s.broker
  suffix : ∀ k, (s.requests k).publisher.options.deferredSuffix = suffix
  named : ∀ k known, s.config k = some known → known.name = (s.requests k).envelope.queue
  declared : ∀ name q, s.broker.queues name = some q → ∃ k ttl known, Waits (s.requests k) ttl ∧
    name = holdName (s.requests k) ttl ∧ known.name = (s.requests k).envelope.queue ∧
    q.args = deferredQueueArgs known ttl
  aimed : ∀ m f name, s.broker.fate m = some f → queueOf f = some name →
    ∃ ttl, Waits (s.request m) ttl ∧ name = holdName (s.request m) ttl
  settled : ∀ m a, s.acceptedAt m = some a → ∃ ttl, Waits (s.request m) ttl ∧ Settled s m a ttl
  unaccepted : ∀ m, s.acceptedAt m = none → s.released m = none

/-- The queue a message is in is the one that its own call declares. -/
theorem Exact.queue {m : ℕ} {ttl : UInt32} {q : HoldQueue} (h : Exact suffix s)
    (hq : s.broker.queues (holdName (s.request m) ttl) = some q) :
    ∃ known : QueueConfig, known.name = (s.request m).envelope.queue ∧
      q.args = deferredQueueArgs known ttl := by
  obtain ⟨k, ttl', known, -, hname, hknown, hargs⟩ := h.declared _ q hq
  unfold holdName Publisher.deferredQueue at hname
  rw [h.suffix k, show (s.request m).publisher.options.deferredSuffix = suffix from h.suffix _] at hname
  obtain ⟨hqueue, rfl⟩ := deferredQueueName_inj hname
  exact ⟨known, hknown.trans hqueue.symm, hargs⟩

theorem argMs_declared {q : HoldQueue} {known : QueueConfig} {ttl : UInt32}
    (h : q.args = deferredQueueArgs known ttl) : argMs q.args argMessageTtl = some ttl.toNat := by
  rw [h]
  simp [argMs, deferredQueueArgs]

theorem target_declared {q : HoldQueue} {known : QueueConfig} {ttl : UInt32}
    (h : q.args = deferredQueueArgs known ttl) : target q = some known.name := by
  unfold target
  rw [h]
  rfl

theorem Exact.moved {m : ℕ} (h : Exact suffix s) {name : String}
    (hm : s.broker.fate m = some (.inFlight name)) : s.acceptedAt m = none := by
  cases ha : s.acceptedAt m with
  | none => rfl
  | some a =>
    obtain ⟨ttl, -, ⟨hheld, -⟩ | ⟨hdelivered, -⟩⟩ := h.settled m a ha
    · cases hm.symm.trans hheld
    · cases hm.symm.trans hdelivered

/-- What an answer means to the broker: a declaration, a message on its way, or nothing. -/
theorem broker_told {b c : HoldQueues.State} {k : ℕ} {event : Interaction.Event Op Ans}
    (hs : stepBroker b k event = some c) : c.now = b.now ∧
      (c.fate = b.fate ∧ c.owner = b.owner ∧ (c.queues = b.queues ∨ ∃ name options args q,
          event.1 = .queueDeclare name options args ∧ q.args = args ∧
          c.queues = Function.update b.queues name.value (some q)) ∨
        c.queues = b.queues ∧ ∃ key mandatory immediate payload properties,
          event.1 = .basicPublish key mandatory immediate payload properties ∧
          c.fate = Function.update b.fate b.next (some (.inFlight key.value)) ∧
          c.owner = Function.update b.owner b.next k) := by
  obtain ⟨name, options, args, hop, -, rfl⟩ | ⟨name, options, args, q, hop, -, hsame, rfl⟩ |
    ⟨key, mandatory, immediate, payload, properties, hop, rfl⟩ | rfl := stepBroker_cases hs
  · exact ⟨rfl, .inl ⟨rfl, rfl, .inr ⟨name, options, args, _, hop, rfl, rfl⟩⟩⟩
  · exact ⟨rfl, .inl ⟨rfl, rfl, .inr ⟨name, options, args, { q with declaredAt := b.now }, hop,
      hsame.2, rfl⟩⟩⟩
  · exact ⟨rfl, .inr ⟨rfl, key, mandatory, immediate, payload, properties, hop, rfl, rfl⟩⟩
  · exact ⟨rfl, .inl ⟨rfl, rfl, .inl rfl⟩⟩

/-- A call that is told a config is told that of its queue. -/
theorem named_answer {k : ℕ} {event : Interaction.Event Op Ans} {next : Ans event.1 → _}
    (h : Exact suffix s) (hrest : (s.broker.calls k).rest = .call event.1 next)
    (orderly : Orderly s (.answer k event)) {known : QueueConfig}
    (hknown : (holding (s.requests k)).after none ((s.broker.calls k).done ++ [event]) = some known) :
    known.name = (s.requests k).envelope.queue := by
  obtain ⟨op, x⟩ := event
  obtain ⟨hallowed, -⟩ := Client.keeps_answered (h.sound.keeps k) hrest x
  rw [Protocol.after_append] at hknown
  cases hstage : (holding (s.requests k)).after none (s.broker.calls k).done with
  | some known' =>
    rw [hstage] at hknown
    obtain rfl : known' = known := Option.some.inj hknown
    exact h.named k known' hstage
  | none =>
    rw [hstage] at hknown hallowed
    cases op with
    | configFor queue =>
      obtain rfl : x = some known := hknown
      exact (orderly.2 k queue known rfl).trans (hallowed rfl)
    | _ => cases hknown

theorem Exact.answer {k : ℕ} {event : Interaction.Event Op Ans} (h : Exact suffix s)
    (orderly : Orderly s (.answer k event)) (hs : stepAnswer s k event = some t) :
    Exact suffix t := by
  have hsound : Sound t := h.sound.answer hs
  have hsafe : Safe t.broker := h.safe.step h.sound.served orderly.1
    (by rw [← h.sound.step_broker]; exact congrArg (Option.map _) hs)
  obtain ⟨call, broker, hcall, hbroker, hrequests, htbroker, -, haccepted, hreleased, -⟩ :=
    stepAnswer_cases hs
  obtain ⟨next, hrest, rfl⟩ := Client.answer_eq_some hcall
  obtain ⟨hallowed, -⟩ := Client.keeps_answered (h.sound.keeps k) hrest event.2
  obtain ⟨hnow, hcases⟩ := broker_told hbroker
  have hqueues : ∀ name q, broker.queues name = some q → ∃ j ttl known, Waits (s.requests j) ttl ∧
      name = holdName (s.requests j) ttl ∧ known.name = (s.requests j).envelope.queue ∧
      q.args = deferredQueueArgs known ttl := by
    intro name q hq
    rcases hcases with ⟨-, -, hsame | ⟨name', options, args, q', hop, hargs, hdeclared⟩⟩ | ⟨hsame, -⟩
    · exact h.declared name q (hsame ▸ hq)
    · rw [hop] at hallowed
      obtain ⟨known, ttl, hstage, hwaits, hname, -, rfl⟩ := hallowed
      rw [hdeclared, Function.update_apply] at hq
      split at hq
      · next hnn =>
        obtain rfl := Option.some.inj hq
        exact ⟨k, ttl, known, hwaits, hnn.trans hname, h.named k known hstage, hargs⟩
      · exact h.declared name q hq
    · exact h.declared name q (hsame ▸ hq)
  have hold : ∀ m, broker.fate m = s.broker.fate m ∧ broker.owner m = s.broker.owner m ∨
      m = s.broker.next ∧ s.broker.fate m = none ∧ broker.owner m = k ∧ ∃ ttl,
        Waits (s.requests k) ttl ∧ broker.fate m = some (.inFlight (holdName (s.requests k) ttl)) := by
    intro m
    rcases hcases with ⟨hfate, howner, -⟩ | ⟨-, key, _, _, _, _, hop, hfate, howner⟩
    · exact .inl ⟨congrFun hfate m, congrFun howner m⟩
    · rw [hfate, howner]
      by_cases hm : m = s.broker.next
      · rw [hop] at hallowed
        obtain ⟨ttl, hwaits, hkey, -⟩ := hallowed
        subst hm
        refine .inr ⟨rfl, h.sound.served.kept.fresh _ le_rfl, Function.update_self .., ttl, hwaits, ?_⟩
        rw [Function.update_self, hkey]
      · exact .inl ⟨Function.update_of_ne hm .., Function.update_of_ne hm ..⟩
  have hrequest : ∀ m, s.broker.fate m ≠ none → t.request m = s.request m := by
    intro m hm
    unfold State.request
    rw [hrequests, htbroker]
    obtain ⟨-, howner⟩ | ⟨-, hnone, -⟩ := hold m
    · exact congrArg _ howner
    · exact absurd hnone hm
  refine ⟨hsound, hsafe, ?_, fun j known hknown => ?_, ?_, fun m f name hm hf => ?_,
    fun m a ha => ?_, fun m hm => ?_⟩
  · rw [hrequests]
    exact h.suffix
  · unfold State.config at hknown
    rw [hrequests, htbroker] at hknown
    dsimp only at hknown
    rw [hrequests]
    rw [Function.update_apply] at hknown
    split at hknown
    · next hj =>
      subst hj
      exact named_answer h hrest orderly hknown
    · exact h.named j known hknown
  · rw [hrequests, htbroker]
    exact hqueues
  · rw [htbroker] at hm
    obtain ⟨hfate, -⟩ | ⟨-, -, howner, ttl, hwaits, hfate⟩ := hold m
    · rw [hrequest m (by rw [← hfate]; exact (hm ▸ Option.some_ne_none f))]
      exact h.aimed m f name (hfate ▸ hm) hf
    · obtain rfl := Option.some.inj (hfate.symm.trans hm)
      obtain rfl := Option.some.inj hf
      refine ⟨ttl, ?_⟩
      unfold State.request
      rw [hrequests, htbroker]
      dsimp only
      rw [howner]
      exact ⟨hwaits, rfl⟩
  · rw [haccepted] at ha
    obtain ⟨ttl, hwaits, hsettled⟩ := h.settled m a ha
    have hsome : s.broker.fate m ≠ none := by
      obtain ⟨hheld, -⟩ | ⟨hdelivered, -⟩ := hsettled
      · exact hheld ▸ Option.some_ne_none _
      · exact hdelivered ▸ Option.some_ne_none _
    obtain ⟨hfate, -⟩ | ⟨-, hnone, -⟩ := hold m
    · refine ⟨ttl, ?_⟩
      unfold Settled
      rw [hrequest m hsome, hreleased, htbroker]
      dsimp only
      rw [hfate, hnow]
      exact ⟨hwaits, hsettled⟩
    · exact absurd hnone hsome
  · rw [hreleased]
    exact h.unaccepted m (haccepted ▸ hm)

theorem Exact.redeclare {name : String} {broker : HoldQueues.State} (h : Exact suffix s)
    (hs : stepRedeclare s.broker name = some broker)
    (sound : Sound { s with broker := broker }) (safe : Safe broker) :
    Exact suffix { s with broker := broker } := by
  revert hs sound safe
  fun_cases stepRedeclare s.broker name with
  | case2 => rintro ⟨⟩
  | case1 q hq =>
    rintro ⟨⟩ sound safe
    refine ⟨sound, safe, h.suffix, h.named, fun name' q' hq' => ?_, h.aimed, h.settled, h.unaccepted⟩
    dsimp only at hq'
    rw [Function.update_apply] at hq'
    split at hq'
    · next hname =>
      obtain rfl := Option.some.inj hq'
      exact h.declared name' q (hname ▸ hq)
    · exact h.declared name' q' hq'

theorem Exact.accept {m : ℕ} (h : Exact suffix s) (hs : stepAccept s m = some t) (sound : Sound t)
    (safe : Safe t.broker) : Exact suffix t := by
  obtain ⟨name, hm, ⟨q, -, rfl⟩ | ⟨-, rfl⟩⟩ := stepAccept_cases h.sound hs
  · have hnew := h.moved hm
    refine ⟨sound, safe, h.suffix, h.named, h.declared, fun m' f name' hm' hf => ?_,
      fun m' a ha => ?_, fun m' hm' => ?_⟩
    all_goals dsimp only at *
    · rw [Function.update_apply] at hm'
      split at hm'
      · next hmm =>
        subst hmm
        obtain rfl := Option.some.inj hm'
        exact h.aimed m' _ name' hm hf
      · exact h.aimed m' f name' hm' hf
    · rw [Function.update_apply] at ha
      split at ha
      · next hmm =>
        subst hmm
        obtain rfl := Option.some.inj ha
        obtain ⟨ttl, hwaits, hname⟩ := h.aimed m' _ name hm rfl
        refine ⟨ttl, hwaits, .inl ⟨?_, h.unaccepted m' hnew⟩⟩
        exact (Function.update_self ..).trans (by rw [hname]; rfl)
      · next hmm =>
        obtain ⟨ttl, hwaits, ⟨hheld, hreleased⟩ | hdone⟩ := h.settled m' a ha
        · exact ⟨ttl, hwaits, .inl ⟨(Function.update_of_ne hmm ..).trans hheld, hreleased⟩⟩
        · exact ⟨ttl, hwaits, .inr ⟨(Function.update_of_ne hmm ..).trans hdone.1, hdone.2⟩⟩
    · rw [Function.update_apply] at hm'
      split at hm'
      · cases hm'
      · exact h.unaccepted m' hm'
  · have hnew := h.moved hm
    refine ⟨sound, safe, h.suffix, h.named, h.declared, fun m' f name' hm' hf => ?_,
      fun m' a ha => ?_, h.unaccepted⟩
    all_goals dsimp only at *
    · rw [Function.update_apply] at hm'
      split at hm'
      · obtain rfl := Option.some.inj hm'
        cases hf
      · exact h.aimed m' f name' hm' hf
    · have hmm : m' ≠ m := by
        rintro rfl
        cases hnew.symm.trans ha
      obtain ⟨ttl, hwaits, ⟨hheld, hreleased⟩ | hdone⟩ := h.settled m' a ha
      · exact ⟨ttl, hwaits, .inl ⟨(Function.update_of_ne hmm ..).trans hheld, hreleased⟩⟩
      · exact ⟨ttl, hwaits, .inr ⟨(Function.update_of_ne hmm ..).trans hdone.1, hdone.2⟩⟩

theorem passed_held {name : String} {m a ttl u : ℕ} {q : HoldQueue} (h : Lined s)
    (hq : s.broker.queues name = some q) (httl : argMs q.args argMessageTtl = some ttl)
    (hm : s.broker.fate m = some (.held name a)) :
    s.passed u m = if q.releases a u then (target q).map (·, a + ttl * nanosPerMs) else none := by
  unfold State.passed
  simp only [hm, hq, lookup_drained h hq httl hm]
  split_ifs <;> cases target q <;> rfl

theorem queueOf_fateAt {b : HoldQueues.State} {u : ℕ} {f : Fate} {name : String}
    (h : queueOf (b.fateAt u f) = some name) : queueOf f = some name := by
  revert h
  fun_cases HoldQueues.State.fateAt b u f with
  | case3 => exact id
  | case5 => exact id
  | _ => rintro ⟨⟩

theorem Exact.tick (h : Exact suffix s) (nanos : ℕ) (safe : Safe (stepTick s nanos).broker) :
    Exact suffix (stepTick s nanos) := by
  have hlined := h.sound.lined
  have kept := h.sound.served.kept
  have hfates := tick_broker hlined kept nanos
  have hrequest : ∀ m, (stepTick s nanos).request m = s.request m := fun _ => rfl
  refine ⟨h.sound.step (a := .tick nanos) rfl, safe, h.suffix, h.named, fun name q hq => ?_,
    fun m f name hm hf => ?_, fun m a ha => ?_, fun m hm => ?_⟩
  · exact h.declared name q (Option.filter_eq_some_iff.mp hq).1
  · obtain ⟨f', hm', rfl⟩ := Option.map_eq_some_iff.mp hm
    rw [fateAt_eq hlined kept hm'] at hf
    exact h.aimed m f' name hm' (queueOf_fateAt hf)
  · obtain ⟨ttl, hwaits, ⟨hheld, hreleased⟩ | ⟨hdelivered, hdone, hreleased⟩⟩ := h.settled m a ha
    · obtain ⟨q, hq⟩ := kept.live m _ a hheld
      obtain ⟨known, hknown, hargs⟩ := h.queue hq
      have hpassed := passed_held (u := s.broker.now + nanos) hlined hq (argMs_declared hargs) hheld
      have hfate : (stepTick s nanos).broker.fate m =
          some (s.broker.fateAt (s.broker.now + nanos) (.held (holdName (s.request m) ttl) a)) := by
        rw [hfates]
        exact congrArg (Option.map _) hheld
      rw [fateAt_waiting hq] at hfate
      refine ⟨ttl, hwaits, ?_⟩
      cases hreleases : q.releases a (s.broker.now + nanos) with
      | true =>
        rw [hreleases, if_pos rfl, target_declared hargs, hknown] at hpassed
        rw [hreleases, if_pos rfl] at hfate
        refine .inr ⟨hfate, ttl_le_of_releases hargs hreleases, ?_⟩
        show (s.passed _ m).or _ = _
        rw [hpassed]
        rfl
      | false =>
        rw [hreleases, if_neg (by simp)] at hpassed hfate
        have hgone : ¬q.gone (s.broker.now + nanos) = true := fun hgone => by
          rw [if_pos hgone] at hfate
          exact safe.unlost m hfate
        rw [if_neg hgone] at hfate
        refine .inl ⟨hfate, ?_⟩
        show (s.passed _ m).or _ = _
        rw [hpassed, hreleased]
        rfl
    · refine ⟨ttl, hwaits, .inr ⟨?_, hdone.trans (Nat.le_add_right _ _), ?_⟩⟩
      · rw [hfates]
        exact congrArg (Option.map _) hdelivered
      · show (s.passed _ m).or _ = _
        unfold State.passed
        rw [hdelivered]
        exact hreleased
  · have hpassed : s.passed (s.broker.now + nanos) m = none := by
      unfold State.passed
      split
      · next name a hheld => cases (hlined.accepted m name a hheld).symm.trans hm
      · rfl
    show (s.passed _ m).or _ = _
    rw [hpassed]
    exact h.unaccepted m hm

theorem Exact.step {a : Action} (h : Exact suffix s) (orderly : Orderly s a)
    (hs : HeadExpiry.step s a = some t) : Exact suffix t := by
  have sound : Sound t := h.sound.step hs
  have safe : Safe t.broker := h.safe.step h.sound.served orderly.1 (by
    rw [← h.sound.step_broker, hs]
    rfl)
  cases a with
  | answer k event => exact h.answer orderly hs
  | redeclare name =>
    obtain ⟨broker, hbroker, rfl⟩ := Option.map_eq_some_iff.mp hs
    exact h.redeclare hbroker sound safe
  | accept m => exact h.accept hs sound safe
  | tick nanos =>
    obtain rfl := Option.some.inj hs
    exact h.tick nanos safe

/-- The guard as a check. -/
def orderlyNow (s : State V) : Action → Bool
  | .accept m =>
    match s.broker.fate m with
    | some (.inFlight name) =>
      match s.broker.queues name with
      | some q => (argMs q.args argMessageTtl).all fun ttl =>
          s.broker.now ≤ q.declaredAt + ttl * nanosPerMs
      | none => true
    | _ => true
  | .answer _ ⟨.configFor queue, some config⟩ => config.name = queue
  | _ => true

theorem orderly_of_orderlyNow (s : State V) (a : Action) (h : orderlyNow s a = true) :
    Orderly s a := by
  refine ⟨?_, ?_⟩
  · cases a with
    | accept m =>
      intro name q ttl hm hq httl
      unfold orderlyNow at h
      simpa [hm, hq, httl] using h
    | _ => trivial
  · rintro k queue config rfl
    simpa [orderlyNow] using h

end Queuey.Rabbit.HeadExpiry
