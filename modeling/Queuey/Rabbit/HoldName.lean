import Queuey.Library.NumberedName
import Queuey.Rabbit.Connection
import Queuey.Rabbit.HoldDelay
import Queuey.Rabbit.HoldQueue

/-!
# What a hold queue's name determines

Processes that share a suffix never meet in one hold queue by accident: its name tells the
queue and the delay, so whoever declares it declares the same, and what expires in it goes
back to its own queue.
-/
namespace Queuey.Rabbit
open Interaction Prog Codec Rabbit.Topology NumberedName HoldQueues

/-- `check_deferrable_name`, with the worst case as its name. -/
def checkDeferrableName (queue suffix : String) : Except Failure Unit :=
  let hold := deferredQueueName queue suffix (UInt32.ofNat maxDeferralMs)
  if hold.utf8ByteSize ≤ maxShortStringLength then .ok ()
  else .error (RabbitMqError.deferredNameTooLong queue hold hold.utf8ByteSize
    maxShortStringLength).intoCore

/-- `ConnectionHandle::config_for`. -/
def configFor (configs : List QueueConfig) (queue : String) : Option QueueConfig :=
  configs.find? fun config => config.name = queue

/-- A process answers from what it has declared so far, every queue with its durability. -/
def Remembers (durable : String → Bool) (env : Env Op Ans) : Prop :=
  ∀ n queue, ∃ configs : List QueueConfig, env n (.configFor queue) = configFor configs queue ∧
    ∀ config ∈ configs, config.durable = durable config.name

theorem deferredQueueName_eq (queue suffix : String) (ttl : UInt32) :
    deferredQueueName queue suffix ttl = numbered (queue ++ suffix) ttl.toNat := by
  simp only [deferredQueueName, numbered]

/-- The name tells the queue and the delay, whatever dots and digits they hold. -/
theorem deferredQueueName_inj {suffix p q : String} {s t : UInt32}
    (h : deferredQueueName p suffix s = deferredQueueName q suffix t) : p = q ∧ s = t := by
  rw [deferredQueueName_eq, deferredQueueName_eq] at h
  obtain ⟨hstem, httl⟩ := numbered_inj h
  have hlists : p.toList ++ suffix.toList = q.toList ++ suffix.toList := by
    simpa using congrArg String.toList hstem
  exact ⟨String.toList_inj.mp (List.append_cancel_right hlists), UInt32.toNat_inj.mp httl⟩

/-- A queue that can be declared has room for the name of each of its hold queues. -/
theorem deferrable_short {queue suffix : String} {delay granularity : Duration} {ttl : UInt32}
    (hcheck : checkDeferrableName queue suffix = .ok ())
    (httl : deferredTtlMs delay granularity = some ttl) :
    (deferredQueueName queue suffix ttl).utf8ByteSize ≤ maxShortStringLength := by
  have hmax : (UInt32.ofNat maxDeferralMs).toNat = maxDeferralMs := by decide
  have hle := (deferredTtlMs_bounds httl).2
  unfold checkDeferrableName at hcheck
  dsimp only at hcheck
  split at hcheck
  · rename_i hworst
    rw [deferredQueueName_eq, hmax] at hworst
    rw [deferredQueueName_eq]
    exact (utf8ByteSize_mono hle).trans hworst
  · cases hcheck

/-! ## What a call declares and publishes -/

/-- The operation declares no other queue than this, and publishes to no other. -/
def Targets (name : ShortString) (options : QueueDeclareOptions) (args : FieldTable) : Op → Prop
  | .queueDeclare n o a => n = name ∧ o = options ∧ a = args
  | .basicPublish key _ _ _ _ => key = name
  | _ => True

variable {V : Type} {name : ShortString} {options : QueueDeclareOptions} {args : FieldTable}

theorem prepares_targets {op : Op} (h : op.Prepares) : Targets name options args op := by
  cases op with
  | queueDeclare n o a => exact absurd h.2 (by simp [Op.exposes])
  | basicPublish key m i payload properties => exact absurd h.2 (by simp [Op.exposes])
  | _ => trivial

theorem publishConfirmed_targets {queue : String} (payload : Bytes) (properties : BasicProperties)
    (h : shortString queue = .ok name) :
    (publishConfirmed queue payload properties).run.Only (Targets name options args) := by
  unfold publishConfirmed
  rw [h]
  refine (acquire_only.mono fun _ => prepares_targets).run_bind fun _ => ?_
  have hsend : Targets name options args (.basicPublish name true false payload properties) := rfl
  have hwait : Targets name options args .awaitConfirm := trivial
  refine (only_ask hsend).run_bind fun _ => (only_orAmqp _).run_bind fun _ => ?_
  exact (only_ask hwait).run_bind fun _ => (only_orAmqp _).run_bind fun _ => only_orFail _

theorem declareAndPublish_targets (publisher : Publisher V) (e : Envelope V) (config : QueueConfig)
    {ttl : UInt32} (h : shortString (publisher.deferredQueue e.queue ttl) = .ok name) :
    (publisher.declareAndPublish e config ttl name).run.Only
      (Targets name (declareOptions config.durable) (deferredQueueArgs config ttl)) := by
  refine (withDeclareChannel_only.mono fun _ => prepares_targets).run_bind fun _ => ?_
  have hdeclare : Targets name (declareOptions config.durable) (deferredQueueArgs config ttl)
      (.queueDeclare name (declareOptions config.durable) (deferredQueueArgs config ttl)) :=
    ⟨rfl, rfl, rfl⟩
  refine (only_ask hdeclare).run_bind fun _ => (only_orAmqp _).run_bind fun _ => ?_
  exact (only_orFail _).run_bind fun _ => publishConfirmed_targets _ _ h

/-- The hold queue a call works on, by the config it got. -/
def Aims (r : Request V) (config : QueueConfig) (op : Op) : Prop :=
  ∃ ttl name, deferredTtlMs r.delay (r.hold.granularity r.publisher.options) = some ttl ∧
    name.value = deferredQueueName r.envelope.queue r.publisher.options.deferredSuffix ttl ∧
    Targets name (declareOptions config.durable) (deferredQueueArgs config ttl) op

theorem program_aims (r : Request V) : r.program.Ensures fun events _ =>
    ∃ config rest, events = ⟨.configFor r.envelope.queue, config⟩ :: rest ∧
      ∀ event ∈ rest, ∃ known, config = some known ∧ Aims r known event.1 := by
  refine (ensures_ask (.configFor r.envelope.queue)).seq ?_ ?_
  · rintro _ e ⟨x, -, hx⟩
    cases hx
  rintro _ config ⟨_, rfl, hx⟩
  obtain rfl := Except.ok.inj hx
  refine (ensures_orFail (r.publisher.holdQueue config r.envelope r.delay r.hold)).seq ?_ ?_
  · rintro _ err ⟨rfl, -⟩
    exact ⟨config, [], rfl, by simp⟩
  rintro _ ⟨known, ttl, name⟩ ⟨rfl, hfound⟩
  obtain ⟨hknown, httl, hname⟩ := holdQueue_ok hfound.symm
  refine (declareAndPublish_targets r.publisher r.envelope known hname).ensures.mono ?_
  intro rest _ htargets
  refine ⟨config, rest, rfl, fun event hevent => ⟨known, hknown, ?_⟩⟩
  exact ⟨ttl, name, httl, shortString_ok hname, htargets event hevent⟩

/-! ## Calls that meet in one hold queue -/

/-- The events of a call under the answers of its process. -/
def HoldQueues.Request.events (r : Request V) (env : Env Op Ans) : Trace := (r.program.exec env 0).1

/-- Where a message goes that expires under these arguments. -/
def ReturnsTo (args : FieldTable) (queue : String) : Prop :=
  args.lookup argDeadLetterExchange = some (.longString "") ∧
    args.lookup argDeadLetterRoutingKey = some (.longString queue)

theorem deferredQueueArgs_returnsTo (config : QueueConfig) (ttl : UInt32) :
    ReturnsTo (deferredQueueArgs config ttl) config.name := ⟨rfl, rfl⟩

theorem configFor_some {configs : List QueueConfig} {queue : String} {config : QueueConfig}
    (h : configFor configs queue = some config) : config ∈ configs ∧ config.name = queue := by
  refine ⟨List.mem_of_find?_eq_some h, ?_⟩
  simpa using List.find?_some h

/-- Every declaration and every publish of a call is for a hold queue of its envelope's
queue, with that queue's name and durability. -/
theorem events_aim {durable : String → Bool} {env : Env Op Ans} (henv : Remembers durable env)
    (r : Request V) {event : Interaction.Event Op Ans} (hevent : event ∈ r.events env)
    (hexposes : event.1.exposes = true) : ∃ known : QueueConfig,
      known.name = r.envelope.queue ∧ known.durable = durable r.envelope.queue ∧
      Aims r known event.1 := by
  obtain ⟨config, rest, hevents, haims⟩ := (program_aims r).exec env 0
  have hrest : event ∈ rest := by
    have hmem : event ∈ (r.program.exec env 0).1 := hevent
    rw [hevents] at hmem
    rcases List.mem_cons.mp hmem with rfl | hmem
    · cases hexposes
    · exact hmem
  obtain ⟨known, rfl, haim⟩ := haims event hrest
  -- the config is the one the process remembers for the queue
  have hasked : (⟨.configFor r.envelope.queue, some known⟩ : Interaction.Event Op Ans) ∈
      (r.program.exec env 0).1 := by
    rw [hevents]
    exact List.mem_cons_self ..
  obtain ⟨k, hk⟩ := exec_answered r.program env 0 _ hasked
  obtain ⟨configs, hconfigs, hdurable⟩ := henv k r.envelope.queue
  have hfound : configFor configs r.envelope.queue = some known := by
    rw [← hconfigs]
    exact (eq_of_heq (Sigma.mk.inj hk).2).symm
  obtain ⟨hmem, hname⟩ := configFor_some hfound
  exact ⟨known, hname, hname ▸ hdurable known hmem, haim⟩

/-- Two configs that agree on what the name of a hold queue stands for declare the same. -/
theorem declaration_eq {a b : QueueConfig} (hname : a.name = b.name)
    (hdurable : a.durable = b.durable) (ttl : UInt32) :
    declareOptions a.durable = declareOptions b.durable ∧
      deferredQueueArgs a ttl = deferredQueueArgs b ttl := by
  simp only [deferredQueueArgs, hname, hdurable, true_and]

/-- What the names of hold queues under one suffix determine. -/
structure HoldNames (suffix : String) : Prop where
  injective : ∀ p q s t, deferredQueueName p suffix s = deferredQueueName q suffix t → p = q ∧ s = t
  /-- Whoever declares a hold queue declares the same. -/
  declarations : ∀ {V W : Type} (durable : String → Bool) (r : Request V) (r' : Request W)
    (env env' : Env Op Ans), r.publisher.options.deferredSuffix = suffix →
    r'.publisher.options.deferredSuffix = suffix → Remembers durable env → Remembers durable env' →
    ∀ name options args answer options' args' answer',
      ⟨.queueDeclare name options args, answer⟩ ∈ r.events env →
      ⟨.queueDeclare name options' args', answer'⟩ ∈ r'.events env' →
      options = options' ∧ args = args'
  /-- What is published to a hold queue returns to its own queue, whoever declared it. -/
  returns : ∀ {V W : Type} (durable : String → Bool) (r : Request V) (r' : Request W)
    (env env' : Env Op Ans), r.publisher.options.deferredSuffix = suffix →
    r'.publisher.options.deferredSuffix = suffix → Remembers durable env → Remembers durable env' →
    ∀ name mandatory immediate payload properties answer options args answer',
      ⟨.basicPublish name mandatory immediate payload properties, answer⟩ ∈ r.events env →
      ⟨.queueDeclare name options args, answer'⟩ ∈ r'.events env' →
      ReturnsTo args r.envelope.queue
  short : ∀ queue delay granularity ttl, checkDeferrableName queue suffix = .ok () →
    deferredTtlMs delay granularity = some ttl →
    ∃ name, shortString (deferredQueueName queue suffix ttl) = .ok name

/-- Two calls that aim at one hold queue are for one queue and one delay. -/
theorem aims_meet {W : Type} {suffix : String} {r : Request V} {r' : Request W}
    {known known' : QueueConfig} {s t : UInt32} {n m : ShortString} (hnm : n = m)
    (hr : r.publisher.options.deferredSuffix = suffix)
    (hr' : r'.publisher.options.deferredSuffix = suffix)
    (hn : n.value = deferredQueueName r.envelope.queue r.publisher.options.deferredSuffix s)
    (hm : m.value = deferredQueueName r'.envelope.queue r'.publisher.options.deferredSuffix t)
    (hknown : known.name = r.envelope.queue) (hknown' : known'.name = r'.envelope.queue) :
    known.name = known'.name ∧ s = t := by
  subst hnm
  rw [hr] at hn
  rw [hr'] at hm
  obtain ⟨hqueue, httl⟩ := deferredQueueName_inj (hn.symm.trans hm)
  exact ⟨hknown.trans (hqueue.trans hknown'.symm), httl⟩

/-- A hold queue's name determines its declaration, and where its messages return. -/
theorem holdNames (suffix : String) : HoldNames suffix where
  injective _ _ _ _ h := deferredQueueName_inj h
  declarations durable r r' env env' hr hr' henv henv' name options args _ options' args' _ h h' := by
    obtain ⟨known, hname, hdurable, ttl, n, -, hn, htargets⟩ := events_aim henv r h rfl
    obtain ⟨known', hname', hdurable', ttl', n', -, hn', htargets'⟩ := events_aim henv' r' h' rfl
    obtain ⟨rfl, rfl, rfl⟩ := htargets
    obtain ⟨rfl, rfl, rfl⟩ := htargets'
    obtain ⟨hsame, rfl⟩ := aims_meet rfl hr hr' hn hn' hname hname'
    have hqueue : r.envelope.queue = r'.envelope.queue := hname.symm.trans (hsame.trans hname')
    exact declaration_eq hsame (by rw [hdurable, hdurable', hqueue]) ttl
  returns durable r r' env env' hr hr' henv henv' name _ _ _ _ _ options args _ h h' := by
    obtain ⟨known, hname, -, ttl, n, -, hn, htargets⟩ := events_aim henv r h rfl
    obtain ⟨known', hname', -, ttl', n', -, hn', htargets'⟩ := events_aim henv' r' h' rfl
    obtain rfl : name = n := htargets
    obtain ⟨rfl, rfl, rfl⟩ := htargets'
    obtain ⟨hsame, -⟩ := aims_meet rfl hr hr' hn hn' hname hname'
    rw [← hname, hsame]
    exact deferredQueueArgs_returnsTo known' ttl'
  short _ _ _ _ hcheck httl := by
    have hshort := deferrable_short hcheck httl
    exact ⟨⟨_, hshort⟩, by rw [shortString, dif_pos hshort]⟩

end Queuey.Rabbit
