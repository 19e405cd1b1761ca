import Queuey.Library.HeadQueue
import Queuey.Library.Protocol
import Queuey.Library.StableQueue
import Queuey.Rabbit.HoldDelay
import Queuey.Rabbit.HoldSurvival

/-!
# Hold queues that expire at the head

A classic queue drops an expired message only once the message has come to the head, the moment
it goes depends on the message's own expiration as much as on the queue's time to live, and a
queue with priority levels is ordered by them. The calls of `publish_held` against such a broker.
-/
namespace Queuey.Rabbit.HeadExpiry
open Transition Interaction Prog Codec Rabbit.Topology HoldQueues

variable {V : Type}

/-! ## Classic queues -/

/-- The number of priority levels of a queue that has any. -/
def levels (q : HoldQueue) : Option ℕ :=
  match q.args.lookup argMaxPriority with
  | some (.shortShortUInt count) => some count.toNat
  | _ => none

/-- Where a queue orders a message. -/
def rank (q : HoldQueue) (properties : BasicProperties) : ℕ :=
  match levels q with
  | some count => min ((properties.priority.map UInt8.toNat).getD 0) count
  | none => 0

/-- How long a message may wait, in milliseconds. -/
def lifeMs (q : HoldQueue) (properties : BasicProperties) : Option ℕ :=
  match argMs q.args argMessageTtl, properties.expiration.bind (·.value.toNat?) with
  | some ttl, some own => some (min ttl own)
  | some ttl, none => some ttl
  | none, own => own

/-- The queue an expired message is passed on to through the default exchange. -/
def target (q : HoldQueue) : Option String :=
  match q.args.lookup argDeadLetterExchange, q.args.lookup argDeadLetterRoutingKey with
  | some (.longString ""), some (.longString key) => some key
  | _, _ => none

/-- `broker` holds all that does not depend on the order within a queue. -/
structure State (V : Type) where
  requests : ℕ → Request V
  broker : HoldQueues.State
  properties : ℕ → BasicProperties
  /-- The messages of each hold queue, the head first. -/
  line : String → List ℕ
  acceptedAt : ℕ → Option ℕ
  /-- Where a message was passed on to, and when. -/
  released : ℕ → Option (String × ℕ)

namespace State
variable (s : State V)

/-- The moment message `m` of a queue expires, unless the queue is deleted before. -/
def due (q : HoldQueue) (m : ℕ) : Option ℕ :=
  match s.acceptedAt m, lifeMs q (s.properties m) with
  | some acceptedAt, some ms =>
    let moment := acceptedAt + ms * nanosPerMs
    match q.expiry with
    | some deleted => if moment ≤ deleted then some moment else none
    | none => some moment
  | _, _ => none

/-- What the queue lets go of at its head until time `t`, and what stays. -/
def drained (t : ℕ) (name : String) (q : HoldQueue) : List (ℕ × ℕ) × List ℕ :=
  HeadQueue.drain (s.due q) t s.broker.now (s.line name)

def fateAt (t m : ℕ) : Fate → Fate
  | .held name acceptedAt =>
    match s.broker.queues name with
    | some q =>
      match (s.drained t name q).1.lookup m with
      | some _ => if (target q).isSome then .delivered else .lost
      | none => if q.gone t then .lost else .held name acceptedAt
    | none => .lost
  | fate => fate

/-- Where a message of the queue `name` is passed on to until time `t`, and when. -/
def passed (t m : ℕ) : Option (String × ℕ) :=
  match s.broker.fate m with
  | some (.held name _) =>
    match s.broker.queues name with
    | some q =>
      match target q, (s.drained t name q).1.lookup m with
      | some key, some moment => some (key, moment)
      | _, _ => none
    | none => none
  | _ => none

/-- What is left of a queue at time `t`; nothing if it is deleted. -/
def lineAt (t : ℕ) (name : String) : List ℕ :=
  match s.broker.queues name with
  | some q => if q.gone t then [] else (s.drained t name q).2
  | none => []

end State

/-- A published message keeps its properties. -/
def stepAnswer (s : State V) (k : ℕ) (event : Interaction.Event Op Ans) : Option (State V) :=
  (HoldQueues.stepAnswer s.broker k event).map fun broker =>
    match event with
    | ⟨.basicPublish _ _ _ _ properties, .ok ()⟩ =>
      { s with
        broker := broker
        properties := Function.update s.properties s.broker.next properties }
    | _ => { s with broker := broker }

/-- A message that finds its queue joins it. -/
def stepAccept (s : State V) (m : ℕ) : Option (State V) :=
  (HoldQueues.stepAccept s.broker m).map fun broker =>
    match s.broker.fate m with
    | some (.inFlight name) =>
      match s.broker.queues name with
      | some q =>
        { s with
          broker := broker
          line := Function.update s.line name
            (StableQueue.enqueue (fun m => rank q (s.properties m)) (s.line name) m)
          acceptedAt := Function.update s.acceptedAt m (some s.broker.now) }
      | none => { s with broker := broker }
    | _ => { s with broker := broker }

def stepTick (s : State V) (nanos : ℕ) : State V :=
  let t := s.broker.now + nanos
  { s with
    broker := { s.broker with
      now := t
      queues := fun name => (s.broker.queues name).filter fun q => !q.gone t
      fate := fun m => (s.broker.fate m).map (s.fateAt t m) }
    line := s.lineAt t
    released := fun m => (s.passed t m).or (s.released m) }

def step (s : State V) : Action → Option (State V)
  | .answer k event => stepAnswer s k event
  | .redeclare name => (stepRedeclare s.broker name).map fun broker => { s with broker := broker }
  | .accept m => stepAccept s m
  | .tick nanos => some (stepTick s nanos)

def initial (requests : ℕ → Request V) : State V where
  requests := requests
  broker := HoldQueues.initial requests
  properties := fun _ => BasicProperties.empty
  line := fun _ => []
  acceptedAt := fun _ => none
  released := fun _ => none

/-- Any calls, of processes that name their hold queues alike. -/
def system (V : Type) : System (State V) Action where
  start s := ∃ (requests : ℕ → Request V) (suffix : String),
    (∀ k, (requests k).publisher.options.deferredSuffix = suffix) ∧ s = initial requests
  step := step

/-! ## One call -/

/-- The wait of a call, as the time to live of its hold queue. -/
def Waits (r : Request V) (ttl : UInt32) : Prop :=
  deferredTtlMs r.delay (r.hold.granularity r.publisher.options) = some ttl

/-- The name of the hold queue it waits in. -/
def holdName (r : Request V) (ttl : UInt32) : String := r.publisher.deferredQueue r.envelope.queue ttl

/-- A call asks for the config of its queue, and then declares one hold queue and publishes one
message to it. The stage is the config it got. -/
def holding (r : Request V) : Protocol Op Ans (Option QueueConfig) where
  allows stage op :=
    match op with
    | .configFor queue => stage = none → queue = r.envelope.queue
    | .queueDeclare name options args => ∃ known ttl, stage = some known ∧ Waits r ttl ∧
      name.value = holdName r ttl ∧ options = declareOptions known.durable ∧
      args = deferredQueueArgs known ttl
    | .basicPublish key _ _ payload properties => ∃ ttl, Waits r ttl ∧ key.value = holdName r ttl ∧
      r.publisher.bytes r.envelope = .ok payload ∧ properties = propsFor r.envelope
    | .ack | .reject _ => False
    | _ => True
  next stage op x :=
    match stage, op, x with
    | none, .configFor _, config => config
    | _, _, _ => stage

section Programs
variable {r : Request V} {known : QueueConfig} {stage : Option QueueConfig} {α : Type}

theorem prepares_holding {p : Prog Op Ans α} (h : p.Only Op.Prepares) :
    p.Keeps (holding r) (fun t _ => t = some known) (some known) := by
  refine h.keeps fun op hop => ?_
  cases op with
  | configFor queue => exact ⟨by rintro ⟨⟩, fun _ => rfl⟩
  | basicPublish key m i payload props => exact absurd hop.2 (by simp [Op.exposes])
  | queueDeclare name o args => exact absurd hop.2 (by simp [Op.exposes])
  | ack | reject _ => exact absurd hop.1 (by simp [Op.settles])
  | _ => exact ⟨trivial, fun _ => rfl⟩

theorem orFail_holding (x : Except Failure α) :
    (orFail x).run.Keeps (holding r) (fun t res => t = stage ∧ res = x) stage := by
  cases x <;> exact ⟨rfl, rfl⟩

theorem orAmqp_holding (x : Except LapinError α) :
    (orAmqp x).run.Keeps (holding r) (fun t _ => t = stage) stage := by
  cases x <;> rfl

theorem publishConfirmed_holding {payload : Bytes} {ttl : UInt32} (httl : Waits r ttl)
    (hpayload : r.publisher.bytes r.envelope = .ok payload) :
    (publishConfirmed (holdName r ttl) payload (propsFor r.envelope)).run.Keeps (holding r)
      (fun _ _ => True) (some known) := by
  refine (orFail_holding _).seq (fun _ _ _ => trivial) ?_
  rintro _ key ⟨rfl, hkey⟩
  refine (prepares_holding acquire_only).seq (fun _ _ _ => trivial) ?_
  rintro _ _ rfl
  refine Keeps.ask ⟨ttl, httl, shortString_ok hkey.symm, hpayload, rfl⟩ fun published => ?_
  refine (orAmqp_holding published).seq (fun _ _ _ => trivial) ?_
  rintro _ _ rfl
  refine Keeps.ask trivial fun answer => ?_
  refine (orAmqp_holding answer).seq (fun _ _ _ => trivial) ?_
  rintro _ confirmation rfl
  exact (orFail_holding _).mono fun _ _ _ => trivial

theorem program_holding (r : Request V) :
    r.program.Keeps (holding r) (fun _ _ => True) none := by
  refine Keeps.ask (fun _ => rfl) fun config => ?_
  refine Keeps.seq (s := config) (orFail_holding _) (fun _ _ _ => trivial) ?_
  rintro _ ⟨known, ttl, name⟩ ⟨rfl, hfound⟩
  obtain ⟨rfl, httl, hname⟩ := holdQueue_ok hfound.symm
  refine (prepares_holding withDeclareChannel_only).seq (fun _ _ _ => trivial) ?_
  rintro _ _ rfl
  refine Keeps.ask ⟨known, ttl, rfl, httl, shortString_ok hname, rfl, rfl⟩ fun declared => ?_
  refine (orAmqp_holding declared).seq (fun _ _ _ => trivial) ?_
  rintro _ _ rfl
  refine (orFail_holding _).seq (fun _ _ _ => trivial) ?_
  rintro _ payload ⟨rfl, hpayload⟩
  exact publishConfirmed_holding httl hpayload.symm

end Programs

/-! ## What the head shows -/

section Simulation
variable {s t : State V} {q : HoldQueue} {ttl m : ℕ}

/-- A hold queue has no levels, and lets its messages go by its own time to live only. -/
theorem HoldArgs.plain (h : HoldArgs q.args) : levels q = none ∧ (target q).isSome = true := by
  obtain ⟨config, delay, granularity, ttl, -, hargs⟩ := h
  unfold levels target
  rw [hargs]
  exact ⟨rfl, rfl⟩

/-- The lines hold what the broker holds, in the order it was accepted, and nothing that is due. -/
structure Lined (s : State V) : Prop where
  member : ∀ name m, m ∈ s.line name ↔ ∃ a, s.broker.fate m = some (.held name a)
  accepted : ∀ m name a, s.broker.fate m = some (.held name a) → s.acceptedAt m = some a
  past : ∀ m a, s.acceptedAt m = some a → a ≤ s.broker.now
  ordered : ∀ name, (s.line name).Pairwise fun m n =>
    ∀ b ∈ s.acceptedAt n, ∃ a ∈ s.acceptedAt m, a ≤ b
  plain : ∀ m, (s.properties m).expiration = none
  waiting : ∀ m name a q ttl, s.broker.fate m = some (.held name a) →
    s.broker.queues name = some q → argMs q.args argMessageTtl = some ttl →
      s.broker.now < a + ttl * nanosPerMs

theorem lifeMs_plain (h : Lined s) (httl : argMs q.args argMessageTtl = some ttl) (m : ℕ) :
    lifeMs q (s.properties m) = some ttl := by
  unfold lifeMs
  rw [httl, h.plain m]
  rfl

theorem mem_due (h : Lined s) (httl : argMs q.args argMessageTtl = some ttl) {moment : ℕ} :
    moment ∈ s.due q m ↔ ∃ a ∈ s.acceptedAt m, moment = a + ttl * nanosPerMs ∧
      ∀ deleted ∈ q.expiry, moment ≤ deleted := by
  unfold State.due
  rw [lifeMs_plain h httl]
  cases s.acceptedAt m with
  | none => simp
  | some a =>
    cases q.expiry with
    | none => simp [eq_comm]
    | some deleted =>
      dsimp only
      split_ifs with hle
      · simp only [Option.mem_def, Option.some.injEq, forall_eq', exists_eq_left']
        constructor
        · rintro rfl
          exact ⟨rfl, hle⟩
        · rintro ⟨rfl, -⟩
          rfl
      · simp only [Option.mem_def, reduceCtorEq, Option.some.injEq, forall_eq', exists_eq_left',
          false_iff, not_and]
        rintro rfl
        exact hle

theorem ascending (h : Lined s) (httl : argMs q.args argMessageTtl = some ttl) (name : String) :
    HeadQueue.Ascending (s.due q) (s.line name) := by
  refine (h.ordered name).imp fun {m n} hmn later hlater => ?_
  obtain ⟨b, hb, rfl, hdeleted⟩ := (mem_due h httl).mp hlater
  obtain ⟨a, ha, hle⟩ := hmn b hb
  have hmoment : a + ttl * nanosPerMs ≤ b + ttl * nanosPerMs := Nat.add_le_add_right hle _
  exact ⟨_, (mem_due h httl).mpr ⟨a, ha, rfl, fun x hx => hmoment.trans (hdeleted x hx)⟩, hmoment⟩

theorem ahead_of_now (h : Lined s) {name : String} (hq : s.broker.queues name = some q)
    (httl : argMs q.args argMessageTtl = some ttl) :
    ∀ m ∈ s.line name, ∀ moment ∈ s.due q m, s.broker.now ≤ moment := by
  intro m hm moment hmoment
  obtain ⟨a, ha⟩ := (h.member name m).mp hm
  obtain ⟨a', ha', rfl, -⟩ := (mem_due h httl).mp hmoment
  obtain rfl := Option.some.inj ((h.accepted m name a ha).symm.trans ha')
  exact (h.waiting m name a q ttl ha hq httl).le

/-- A message leaves by itself when the broker that looks at every message releases it. -/
theorem leaves_due (h : Lined s) (httl : argMs q.args argMessageTtl = some ttl) {a : ℕ}
    (ha : s.acceptedAt m = some a) (t : ℕ) :
    HeadQueue.leaves (s.due q) t m =
      if q.releases a t then some (a + ttl * nanosPerMs) else none := by
  ext moment
  rw [← Option.mem_def, HeadQueue.mem_leaves, mem_due h httl, ha]
  unfold HoldQueue.releases HoldQueue.deadline
  rw [httl]
  cases q.expiry with
  | none => simp; grind
  | some x => simp; grind

/-- So the head lets go of every message that is released, and at its own moment. -/
theorem lookup_drained (h : Lined s) {name : String} (hq : s.broker.queues name = some q)
    (httl : argMs q.args argMessageTtl = some ttl) {a : ℕ}
    (hm : s.broker.fate m = some (.held name a)) (t : ℕ) :
    (s.drained t name q).1.lookup m =
      if q.releases a t then some (a + ttl * nanosPerMs) else none := by
  rw [← leaves_due h httl (h.accepted m name a hm)]
  exact HeadQueue.lookup_drain (ascending h httl name) (ahead_of_now h hq httl)
    ((h.member name m).mpr ⟨a, hm⟩)

/-- What a waiting message comes to by time `t`. -/
theorem fateAt_waiting {b : HoldQueues.State} {name : String} (hq : b.queues name = some q)
    (a t : ℕ) : b.fateAt t (.held name a) =
      if q.releases a t then .delivered else if q.gone t then .lost else .held name a := by
  simp only [HoldQueues.State.fateAt, hq]

theorem fateAt_eq (h : Lined s) (kept : Kept s.broker) {f : Fate} (hm : s.broker.fate m = some f)
    (t : ℕ) : s.fateAt t m f = s.broker.fateAt t f := by
  cases f with
  | held name a =>
    obtain ⟨q, hq⟩ := kept.live m name a hm
    have hargs := kept.args name q hq
    obtain ⟨ttl, -, httl, -⟩ := hargs.ms
    rw [fateAt_waiting hq]
    simp only [HeadExpiry.State.fateAt, hq, lookup_drained h hq httl hm, (HoldArgs.plain hargs).2]
    split_ifs <;> rfl
  | _ => rfl

theorem tick_broker (h : Lined s) (kept : Kept s.broker) (nanos : ℕ) :
    (stepTick s nanos).broker = HoldQueues.stepTick s.broker nanos := by
  have hfate : (fun m => (s.broker.fate m).map (s.fateAt (s.broker.now + nanos) m)) =
      fun m => (s.broker.fate m).map (s.broker.fateAt (s.broker.now + nanos)) := by
    funext m
    cases hm : s.broker.fate m with
    | none => rfl
    | some f => exact congrArg some (fateAt_eq h kept hm _)
  unfold stepTick HoldQueues.stepTick
  dsimp only
  rw [hfate]

theorem mem_lineAt (h : Lined s) {name : String} (hq : s.broker.queues name = some q)
    (httl : argMs q.args argMessageTtl = some ttl) (t : ℕ) :
    m ∈ s.lineAt t name ↔ ∃ a, s.broker.fate m = some (.held name a) ∧ q.gone t = false ∧
      q.releases a t = false := by
  unfold State.lineAt
  rw [hq]
  dsimp only
  split_ifs with hgone
  · simp [hgone]
  · unfold State.drained
    rw [HeadQueue.mem_drain (ascending h httl name) (ahead_of_now h hq httl), h.member]
    constructor
    · rintro ⟨⟨a, hm⟩, hleaves⟩
      rw [leaves_due h httl (h.accepted m name a hm)] at hleaves
      exact ⟨a, hm, by simpa using hgone, by simpa using hleaves⟩
    · rintro ⟨a, hm, -, hreleases⟩
      refine ⟨⟨a, hm⟩, ?_⟩
      rw [leaves_due h httl (h.accepted m name a hm), hreleases]
      rfl

theorem lineAt_sublist (h : Lined s) (kept : Kept s.broker) (t : ℕ) (name : String) :
    (s.lineAt t name).Sublist (s.line name) := by
  unfold State.lineAt
  cases hq : s.broker.queues name with
  | none => exact List.nil_sublist _
  | some q =>
    obtain ⟨ttl, -, httl, -⟩ := (kept.args name q hq).ms
    dsimp only
    split_ifs
    · exact List.nil_sublist _
    · exact HeadQueue.drain_sublist (ascending h httl name) (ahead_of_now h hq httl)

/-- The same messages wait, at the same time and in queues with the same arguments. -/
structure Undisturbed (b c : HoldQueues.State) : Prop where
  now : c.now = b.now
  held : ∀ m name a, c.fate m = some (.held name a) ↔ b.fate m = some (.held name a)
  args : ∀ m name a q, b.fate m = some (.held name a) → c.queues name = some q →
    ∃ q', b.queues name = some q' ∧ q'.args = q.args

section Undisturbed
variable {b c : HoldQueues.State}

theorem undisturbed_declared {name : String} {q : HoldQueue}
    (h : ∀ m a, b.fate m = some (.held name a) → ∃ q', b.queues name = some q' ∧ q'.args = q.args) :
    Undisturbed b { b with queues := Function.update b.queues name (some q) } where
  now := rfl
  held _ _ _ := Iff.rfl
  args m name' a q' hm hq' := by
    simp only [Function.update_apply] at hq'
    split at hq'
    · next hname =>
      subst hname
      obtain rfl := Option.some.inj hq'
      exact h m a hm
    · exact ⟨q', hq', rfl⟩

/-- A message that waits nowhere moves to a place where it does not wait. -/
theorem undisturbed_moved {m : ℕ} {f : Fate} {fate : ℕ → Option Fate}
    (hfate : fate = Function.update b.fate m (some f)) (hf : ∀ name a, f ≠ .held name a)
    (hm : ∀ name a, b.fate m ≠ some (.held name a)) (hnow : c.now = b.now) (hqueues : c.queues = b.queues)
    (hc : c.fate = fate) : Undisturbed b c where
  now := hnow
  held m' name a := by
    rw [hc, hfate, Function.update_apply]
    split
    · next hm' =>
      subst hm'
      exact ⟨fun h => absurd (Option.some.inj h) (hf name a), fun h => absurd h (hm name a)⟩
    · exact Iff.rfl
  args _ _ _ q _ hq := ⟨q, hqueues ▸ hq, rfl⟩

theorem undisturbed_broker {k : ℕ} {event : Interaction.Event Op Ans} (kept : Kept b)
    (hs : stepBroker b k event = some c) : Undisturbed b c := by
  obtain ⟨name, options, args, -, hnone, rfl⟩ | ⟨name, options, args, q, -, hq, -, rfl⟩ |
    ⟨key, _, _, _, _, -, rfl⟩ | rfl := stepBroker_cases hs
  · refine undisturbed_declared fun m a hm => ?_
    obtain ⟨q, hq⟩ := kept.live m _ a hm
    cases hnone.symm.trans hq
  · exact undisturbed_declared fun m a hm => ⟨q, hq, rfl⟩
  · refine undisturbed_moved (m := b.next) (f := .inFlight key.value) rfl (by rintro _ _ ⟨⟩) ?_ rfl rfl rfl
    rintro name a hm
    cases (kept.fresh _ le_rfl).symm.trans hm
  · exact ⟨rfl, fun _ _ _ => Iff.rfl, fun _ _ _ q _ hq => ⟨q, hq, rfl⟩⟩

theorem undisturbed_redeclare {name : String} (hs : stepRedeclare b name = some c) :
    Undisturbed b c := by
  revert hs
  fun_cases stepRedeclare b name with
  | case1 q hq =>
    rintro ⟨⟩
    exact undisturbed_declared fun m a hm => ⟨q, hq, rfl⟩
  | case2 => rintro ⟨⟩

end Undisturbed

theorem Lined.undisturbed (h : Lined s) (hb : Undisturbed s.broker t.broker)
    (hline : t.line = s.line) (haccepted : t.acceptedAt = s.acceptedAt)
    (hplain : ∀ m, (t.properties m).expiration = none) : Lined t where
  member name m := by
    rw [hline, h.member]
    exact exists_congr fun a => (hb.held m name a).symm
  accepted m name a hm := by
    rw [haccepted]
    exact h.accepted m name a ((hb.held m name a).mp hm)
  past m a ha := by
    rw [haccepted] at ha
    rw [hb.now]
    exact h.past m a ha
  ordered name := by
    rw [hline, haccepted]
    exact h.ordered name
  plain := hplain
  waiting m name a q ttl hm hq httl := by
    have hheld := (hb.held m name a).mp hm
    obtain ⟨q', hq', hargs⟩ := hb.args m name a q hheld hq
    rw [hb.now]
    exact h.waiting m name a q' ttl hheld hq' (hargs ▸ httl)

theorem stepAnswer_broker (s : State V) (k : ℕ) (event : Interaction.Event Op Ans) :
    (stepAnswer s k event).map State.broker = HoldQueues.stepAnswer s.broker k event := by
  unfold stepAnswer
  rw [Option.map_map]
  refine Eq.trans (congrArg (Option.map · _) (funext fun broker => ?_)) Option.map_id'
  dsimp only [Function.comp]
  split <;> rfl

theorem stepAccept_broker (s : State V) (m : ℕ) :
    (stepAccept s m).map State.broker = HoldQueues.stepAccept s.broker m := by
  unfold stepAccept
  rw [Option.map_map]
  refine Eq.trans (congrArg (Option.map · _) (funext fun broker => ?_)) Option.map_id'
  dsimp only [Function.comp]
  split
  · split <;> rfl
  · rfl

/-- What holds in every state, with the broker that looks at every message below. -/
structure Sound (s : State V) : Prop where
  served : Served s.broker
  lined : Lined s
  keeps : ∀ k, (s.broker.calls k).rest.Keeps (holding (s.requests k)) (fun _ _ => True)
    ((holding (s.requests k)).after none (s.broker.calls k).done)

/-- Each step is the step of the broker below. -/
theorem Sound.step_broker (h : Sound s) (a : Action) :
    (step s a).map State.broker = HoldQueues.step s.broker a := by
  cases a with
  | answer k event => exact stepAnswer_broker s k event
  | redeclare name =>
    show Option.map _ (Option.map _ _) = _
    rw [Option.map_map]
    exact Option.map_id'
  | accept m => exact stepAccept_broker s m
  | tick nanos => exact congrArg some (tick_broker h.lined h.served.kept nanos)

/-- What an answer does to the call and to the order of the messages. -/
theorem stepAnswer_cases {k : ℕ} {event : Interaction.Event Op Ans}
    (hs : stepAnswer s k event = some t) : ∃ call broker, (s.broker.calls k).answer event = some call ∧
      stepBroker s.broker k event = some broker ∧ t.requests = s.requests ∧
      t.broker = { broker with calls := Function.update s.broker.calls k call } ∧
      t.line = s.line ∧ t.acceptedAt = s.acceptedAt ∧ t.released = s.released ∧
      (t.properties = s.properties ∨ ∃ key mandatory immediate payload properties,
        event.1 = .basicPublish key mandatory immediate payload properties ∧
        t.properties = Function.update s.properties s.broker.next properties) := by
  obtain ⟨u, hu, rfl⟩ := Option.map_eq_some_iff.mp hs
  unfold HoldQueues.stepAnswer at hu
  split at hu
  · next call hcall =>
    obtain ⟨broker, hbroker, rfl⟩ := Option.map_eq_some_iff.mp hu
    have hcalls := stepBroker_calls hbroker
    refine ⟨call, broker, hcall, hbroker, ?_⟩
    rw [hcalls]
    split
    · exact ⟨rfl, rfl, rfl, rfl, rfl, .inr ⟨_, _, _, _, _, rfl, rfl⟩⟩
    · exact ⟨rfl, rfl, rfl, rfl, rfl, .inl rfl⟩
  · cases hu

theorem Sound.answer {k : ℕ} {event : Interaction.Event Op Ans} (h : Sound s)
    (hs : stepAnswer s k event = some t) : Sound t := by
  have hserved : Served t.broker := h.served.answer (by rw [← stepAnswer_broker, hs]; rfl)
  obtain ⟨call, broker, hcall, hbroker, hrequests, htbroker, hline, haccepted, -, hproperties⟩ :=
    stepAnswer_cases hs
  obtain ⟨next, hrest, rfl⟩ := Client.answer_eq_some hcall
  obtain ⟨hallowed, hkeeps⟩ := Client.keeps_answered (h.keeps k) hrest event.2
  have hbelow := undisturbed_broker h.served.kept hbroker
  refine ⟨hserved, h.lined.undisturbed ?_ hline haccepted fun m => ?_, fun j => ?_⟩
  · rw [htbroker]
    exact ⟨hbelow.now, hbelow.held, hbelow.args⟩
  · rcases hproperties with hsame | ⟨key, mandatory, immediate, payload, properties, hop, hsent⟩
    · rw [hsame]
      exact h.lined.plain m
    · rw [hop] at hallowed
      obtain ⟨ttl, -, -, -, rfl⟩ := hallowed
      rw [hsent, Function.update_apply]
      split
      · rfl
      · exact h.lined.plain m
  · rw [htbroker, hrequests]
    dsimp only
    rw [Function.update_apply]
    split
    · next hj =>
      subst hj
      exact hkeeps
    · exact h.keeps j

/-- A message joins a queue at the end, or finds none. -/
theorem stepAccept_cases {m : ℕ} (h : Sound s) (hs : stepAccept s m = some t) :
    ∃ name, s.broker.fate m = some (.inFlight name) ∧
      ((∃ q, s.broker.queues name = some q ∧
          t = { s with
            broker := { s.broker with
              fate := Function.update s.broker.fate m (some (.held name s.broker.now)) }
            line := Function.update s.line name (s.line name ++ [m])
            acceptedAt := Function.update s.acceptedAt m (some s.broker.now) }) ∨
        s.broker.queues name = none ∧ t = { s with broker := { s.broker with
          fate := Function.update s.broker.fate m (some .returned) } }) := by
  obtain ⟨u, hu, rfl⟩ := Option.map_eq_some_iff.mp hs
  revert hu
  fun_cases HoldQueues.stepAccept s.broker m with
  | case1 name hm q hq =>
    rintro ⟨⟩
    have hrank : (fun m => rank q (s.properties m)) = fun _ => 0 := by
      funext m
      unfold rank
      rw [(HoldArgs.plain (h.served.kept.args name q hq)).1]
    refine ⟨name, hm, .inl ⟨q, hq, ?_⟩⟩
    simp only [hm, hq, hrank]
    rw [StableQueue.enqueue_last fun _ _ => le_rfl]
  | case2 name hm hq =>
    rintro ⟨⟩
    refine ⟨name, hm, .inr ⟨hq, ?_⟩⟩
    simp only [hm, hq]
  | case3 => rintro ⟨⟩

theorem Lined.joined {m : ℕ} {name : String} (h : Lined s) (kept : Kept s.broker)
    (hm : s.broker.fate m = some (.inFlight name)) :
    Lined { s with
      broker := { s.broker with
        fate := Function.update s.broker.fate m (some (.held name s.broker.now)) }
      line := Function.update s.line name (s.line name ++ [m])
      acceptedAt := Function.update s.acceptedAt m (some s.broker.now) } := by
  have hout : ∀ name, m ∉ s.line name := fun name' hin => by
    obtain ⟨a, ha⟩ := (h.member name' m).mp hin
    cases hm.symm.trans ha
  have hpast : ∀ m' a, Function.update s.acceptedAt m (some s.broker.now) m' = some a →
      a ≤ s.broker.now := by
    intro m' a ha
    rw [Function.update_apply] at ha
    split at ha
    · exact (Option.some.inj ha).ge
    · exact h.past m' a ha
  have hsame : ∀ name, ∀ m' ∈ s.line name,
      Function.update s.acceptedAt m (some s.broker.now) m' = s.acceptedAt m' := by
    intro name' m' hm'
    rw [Function.update_apply, if_neg]
    rintro rfl
    exact hout name' hm'
  have hordered : ∀ name, (s.line name).Pairwise fun m₁ m₂ =>
      ∀ b ∈ Function.update s.acceptedAt m (some s.broker.now) m₂,
        ∃ a ∈ Function.update s.acceptedAt m (some s.broker.now) m₁, a ≤ b := fun name' =>
    (h.ordered name').imp_of_mem fun h₁ h₂ hle => by
      rw [hsame name' _ h₁, hsame name' _ h₂]
      exact hle
  refine ⟨fun name' m' => ?_, fun m' name' a hm' => ?_, hpast, fun name' => ?_, h.plain, ?_⟩
  all_goals dsimp only at *
  · by_cases hmm : m' = m
    · subst hmm
      rw [Function.update_self, Function.update_apply]
      split
      · next hname => simp [hname]
      · next hname => simp [hout name', Ne.symm hname]
    · rw [Function.update_of_ne hmm, ← h.member, Function.update_apply]
      split
      · next hname => simp [hname, hmm]
      · exact Iff.rfl
  · rw [Function.update_apply] at hm' ⊢
    split at hm'
    · next hmm =>
      rw [if_pos hmm]
      exact congrArg some (Fate.held.inj (Option.some.inj hm')).2
    · next hmm =>
      rw [if_neg hmm]
      exact h.accepted m' name' a hm'
  · rw [Function.update_apply]
    split
    · refine List.pairwise_append.mpr ⟨hordered name, List.pairwise_singleton _ _, ?_⟩
      rintro m₁ hm₁ m₂ hm₂ b hb
      obtain rfl := List.mem_singleton.mp hm₂
      rw [Function.update_self] at hb
      obtain rfl := Option.some.inj hb
      obtain ⟨a, ha⟩ := (h.member name m₁).mp hm₁
      refine ⟨a, ?_, h.past m₁ a (h.accepted m₁ name a ha)⟩
      rw [hsame name m₁ hm₁]
      exact h.accepted m₁ name a ha
    · exact hordered name'
  · intro m' name' a q' ttl hm' hq' httl
    rw [Function.update_apply] at hm'
    split at hm'
    · obtain ⟨rfl, rfl⟩ := Fate.held.inj (Option.some.inj hm')
      obtain ⟨ttl', hpos, httl', -⟩ := (kept.args _ q' hq').ms
      obtain rfl := Option.some.inj (httl.symm.trans httl')
      exact Nat.lt_add_of_pos_right (Nat.mul_pos hpos (by decide))
    · exact h.waiting m' name' a q' ttl hm' hq' httl

/-- What a queue still holds after some time was not released, and is not due. -/
theorem held_after_tick {nanos : ℕ} {name : String} {a : ℕ}
    (hm : (HoldQueues.stepTick s.broker nanos).fate m = some (.held name a)) :
    s.broker.fate m = some (.held name a) ∧ ∃ q, s.broker.queues name = some q ∧
      q.gone (s.broker.now + nanos) = false ∧ q.releases a (s.broker.now + nanos) = false := by
  obtain ⟨f, hfate, hf⟩ := Option.map_eq_some_iff.mp hm
  obtain ⟨rfl, q, hq, hgone⟩ := fateAt_held hf
  refine ⟨hfate, q, hq, hgone, ?_⟩
  rw [fateAt_waiting hq] at hf
  split_ifs at hf with hreleases
  simpa using hreleases

/-- A message that a queue keeps at time `t` is due after `t`. -/
theorem lt_of_kept {a t : ℕ} (httl : argMs q.args argMessageTtl = some ttl)
    (hgone : q.gone t = false) (hreleases : q.releases a t = false) :
    t < a + ttl * nanosPerMs := by
  unfold HoldQueue.releases HoldQueue.deadline at hreleases
  unfold HoldQueue.gone at hgone
  rw [httl] at hreleases
  cases hx : q.expiry with
  | none => simpa [hx] using hreleases
  | some x => simp [hx] at hreleases hgone; omega

theorem Lined.tick (h : Lined s) (kept : Kept s.broker) (nanos : ℕ) : Lined (stepTick s nanos) where
  member name m := by
    rw [tick_broker h kept]
    show m ∈ s.lineAt _ name ↔ _
    cases hq : s.broker.queues name with
    | none =>
      unfold State.lineAt
      rw [hq]
      refine ⟨fun hm => (by cases hm), fun ⟨a, ha⟩ => ?_⟩
      obtain ⟨hheld, q, hq', -⟩ := held_after_tick ha
      cases hq.symm.trans hq'
    | some q =>
      obtain ⟨ttl, -, httl, -⟩ := (kept.args name q hq).ms
      rw [mem_lineAt h hq httl]
      refine exists_congr fun a => ⟨fun ⟨hm, hgone, hreleases⟩ => ?_, fun ha => ?_⟩
      · show (s.broker.fate m).map _ = _
        rw [hm]
        simp [fateAt_waiting hq, hgone, hreleases]
      · obtain ⟨hheld, q', hq', hgone, hreleases⟩ := held_after_tick ha
        obtain rfl := Option.some.inj (hq.symm.trans hq')
        exact ⟨hheld, hgone, hreleases⟩
  accepted m name a hm := by
    rw [tick_broker h kept] at hm
    exact h.accepted m name a (held_after_tick hm).1
  past m a ha := (h.past m a ha).trans (Nat.le_add_right _ _)
  ordered name := (h.ordered name).sublist (lineAt_sublist h kept _ name)
  plain := h.plain
  waiting m name a q ttl hm hq httl := by
    rw [tick_broker h kept] at hm
    obtain ⟨-, q', hq', hgone, hreleases⟩ := held_after_tick hm
    obtain ⟨hq'', -⟩ := Option.filter_eq_some_iff.mp hq
    obtain rfl := Option.some.inj (hq''.symm.trans hq')
    exact lt_of_kept httl hgone hreleases

theorem Sound.step {a : Action} (h : Sound s) (hs : HeadExpiry.step s a = some t) : Sound t := by
  have hserved : Served t.broker := h.served.step (by rw [← h.step_broker, hs]; rfl)
  cases a with
  | answer k event => exact h.answer hs
  | redeclare name =>
    obtain ⟨broker, hbroker, rfl⟩ := Option.map_eq_some_iff.mp hs
    have hcalls : broker.calls = s.broker.calls := by
      revert hbroker
      fun_cases stepRedeclare s.broker name with
      | case1 => rintro ⟨⟩; rfl
      | case2 => rintro ⟨⟩
    refine ⟨hserved, h.lined.undisturbed (undisturbed_redeclare hbroker) rfl rfl h.lined.plain, ?_⟩
    intro k
    rw [show broker.calls k = s.broker.calls k from congrFun hcalls k]
    exact h.keeps k
  | accept m =>
    obtain ⟨name, hm, ⟨q, hq, rfl⟩ | ⟨-, rfl⟩⟩ := stepAccept_cases h hs
    · exact ⟨hserved, h.lined.joined h.served.kept hm, h.keeps⟩
    · refine ⟨hserved, h.lined.undisturbed ?_ rfl rfl h.lined.plain, h.keeps⟩
      refine undisturbed_moved (m := m) (f := .returned) rfl (by rintro _ _ ⟨⟩) ?_ rfl rfl rfl
      rintro name' a ha
      cases hm.symm.trans ha
  | tick nanos =>
    obtain rfl := Option.some.inj hs
    exact ⟨hserved, h.lined.tick h.served.kept nanos, h.keeps⟩

theorem sound_initial (requests : ℕ → Request V) : Sound (initial requests) where
  served := served_initial requests
  lined := by
    refine ⟨fun name m => ?_, ?_, ?_, fun name => .nil, fun m => rfl, ?_⟩
    · exact ⟨fun hm => (by cases hm), fun ⟨a, ha⟩ => (by cases ha)⟩
    · rintro m name a ⟨⟩
    · rintro m a ⟨⟩
    · rintro m name a q ttl ⟨⟩
  keeps k := program_holding (requests k)

/-- To let go of the head only changes nothing: with hold queues as `publish_held` declares them
and messages as it publishes them, every run goes as if each message were looked at by itself. -/
theorem head_expiry (requests : ℕ → Request V) (actions : List Action) :
    ((system V).run (initial requests) actions).map State.broker =
      (HoldQueues.system V).run (HoldQueues.initial requests) actions := by
  have keep : ∀ (s : State V) a t, Sound s → HeadExpiry.step s a = some t → Sound t :=
    fun _ _ _ h hs => h.step hs
  exact run_map (T := system V) (B := HoldQueues.system V) keep
    (fun s a h => h.step_broker a) (sound_initial requests) actions

end Simulation

end Queuey.Rabbit.HeadExpiry
