import Queuey.Rabbit.Publisher

/-!
# The replay of the remembered declarations

After a reconnect the remembered queues are declared again, one after the other on one
channel, in the order the map happens to give them. The broker refuses some declarations,
and a refusal closes the channel it was made on.
-/
namespace Queuey.Rabbit
open Interaction Prog Rabbit.Topology

/-- `channel.queue_declare(short_string(name)?, ..)`. -/
def queueDeclare (name : String) (options : QueueDeclareOptions) (args : FieldTable) : Io Unit := do
  let name ← orFail (shortString name)
  orAmqp (← ask (.queueDeclare name options args))

def declareTopology (options : RabbitMqOptions) (config : QueueConfig) : Io Unit := do
  queueDeclare config.name (declareOptions config.durable) (queueArgs config)
  if options.declareDeadLetterQueues then
    queueDeclare (deadQueueName config.name options.deadSuffix) (declareOptions true)
      (deadQueueArgs config)

/-- The loop over the configs: how many were declared before one failed. -/
def redeclareFrom (options : RabbitMqOptions) : List QueueConfig → ℕ → Prog Op Ans ℕ
  | [], declared => pure declared
  | config :: rest, declared => do
    match ← (declareTopology options config).run with
    | .ok () => redeclareFrom options rest (declared + 1)
    | .error _ => pure declared

/-- `redeclare`, over the configs in the order of the map's iteration. -/
def redeclare (options : RabbitMqOptions) (configs : List QueueConfig) : Prog Op Ans ℕ := do
  if configs.isEmpty then
    return 0
  match ← (perform Op.createChannel : Prog Op Ans (Except LapinError Unit)) with
  | .ok () => redeclareFrom options configs 0
  | .error _ => return 0

/-! ## The broker -/

structure Declaration where
  name : String
  options : QueueDeclareOptions
  args : FieldTable
deriving DecidableEq

/-- What it was made to declare, and whether the replay's channel is open. -/
structure Declared where
  channelOpen : Bool
  queues : List Declaration
deriving DecidableEq

def Declared.none : Declared := ⟨false, []⟩

/-- A broker that refuses a set of declarations; only these operations reach it here. -/
def brokerOf (refuses : Declaration → Bool) (b : Declared) : (op : Op) → Ans op × Declared
  | .createChannel => (.ok (), { b with channelOpen := true })
  | .queueDeclare name options args =>
    if !b.channelOpen then (.error (.invalidChannelState .closed), b)
    else if refuses ⟨name.value, options, args⟩ then
      (.error (.other "PRECONDITION_FAILED"), { b with channelOpen := false })
    else (.ok (), { b with queues := b.queues ++ [⟨name.value, options, args⟩] })
  | .configFor _ => (Option.none, b)
  | .declareChannelConnected => (true, b)
  | .ensureConnected => (.ok (), b)
  | .confirmSelect => (.ok (), b)
  | .acquirePermit => (true, b)
  | .popIdle => (Option.none, b)
  | .basicPublish _ _ _ _ _ => (.ok (), b)
  | .awaitConfirm => (.ok .notRequested, b)
  | .ack => (.ok true, b)
  | .reject _ => (.ok true, b)

def mainOf (config : QueueConfig) : Declaration :=
  ⟨config.name, declareOptions config.durable, queueArgs config⟩

def deadOf (options : RabbitMqOptions) (config : QueueConfig) : Declaration :=
  ⟨deadQueueName config.name options.deadSuffix, declareOptions true, deadQueueArgs config⟩

def declarationsOf (options : RabbitMqOptions) (config : QueueConfig) : List Declaration :=
  mainOf config :: if options.declareDeadLetterQueues then [deadOf options config] else []

/-- The declaration can be made at all, and the broker accepts it. -/
def takes (refuses : Declaration → Bool) (d : Declaration) : Bool :=
  d.name.utf8ByteSize ≤ maxShortStringLength && !refuses d

/-- Everything the config asks for is accepted. -/
def acceptable (options : RabbitMqOptions) (refuses : Declaration → Bool) (config : QueueConfig) :
    Bool :=
  (declarationsOf options config).all (takes refuses)

variable {options : RabbitMqOptions} {refuses : Declaration → Bool} {config : QueueConfig}
  {queues : List Declaration}

theorem serve_ask {σ : Type} (server : σ → (op : Op) → Ans op × σ) (s : σ) (op : Op) :
    (ask op).run.serve server s = (.ok (server s op).1, (server s op).2) := rfl

theorem serve_orFail {σ α : Type} (server : σ → (op : Op) → Ans op × σ) (s : σ)
    (r : Except Failure α) : (orFail r).run.serve server s = (r, s) := by
  cases r <;> rfl

theorem serve_orAmqp {σ α : Type} (server : σ → (op : Op) → Ans op × σ) (s : σ)
    (r : Except LapinError α) : (orAmqp r).run.serve server s = (r.mapError amqp, s) := by
  cases r <;> rfl

theorem queueDeclare_short {d : Declaration} (hshort : d.name.utf8ByteSize ≤ maxShortStringLength)
    (queues : List Declaration) :
    (queueDeclare d.name d.options d.args).run.serve (brokerOf refuses) ⟨true, queues⟩ =
      if refuses d then (.error (amqp (.other "PRECONDITION_FAILED")), ⟨false, queues⟩)
      else (.ok (), ⟨true, queues ++ [d]⟩) := by
  have hname : shortString d.name = .ok ⟨d.name, hshort⟩ := dif_pos hshort
  unfold queueDeclare
  rw [hname]
  rw [serve_run_ok (serve_orFail (brokerOf refuses) ⟨true, queues⟩ (.ok _)),
    serve_run_ok (serve_ask (brokerOf refuses) ⟨true, queues⟩ _), serve_orAmqp]
  cases hrefuses : refuses d <;> simp [brokerOf, hrefuses] <;> rfl

/-- A declaration that is taken is made. -/
theorem queueDeclare_takes {d : Declaration} (h : takes refuses d = true)
    (queues : List Declaration) :
    (queueDeclare d.name d.options d.args).run.serve (brokerOf refuses) ⟨true, queues⟩ =
      (.ok (), ⟨true, queues ++ [d]⟩) := by
  simp only [takes, Bool.and_eq_true, decide_eq_true_eq, Bool.not_eq_true'] at h
  rw [queueDeclare_short h.1, h.2]
  rfl

/-- A declaration that is not taken fails, and nothing is declared. -/
theorem queueDeclare_fails {d : Declaration} (h : takes refuses d = false)
    (queues : List Declaration) : ∃ err b,
    (queueDeclare d.name d.options d.args).run.serve (brokerOf refuses) ⟨true, queues⟩ =
      (.error err, b) ∧ b.queues = queues := by
  by_cases hshort : d.name.utf8ByteSize ≤ maxShortStringLength
  · have hrefuses : refuses d = true := by simpa [takes, hshort] using h
    rw [queueDeclare_short hshort, hrefuses]
    exact ⟨_, _, rfl, rfl⟩
  · have hname : shortString d.name = .error (RabbitMqError.invalidName d.name).intoCore :=
      dif_neg hshort
    refine ⟨(RabbitMqError.invalidName d.name).intoCore, ⟨true, queues⟩, ?_, rfl⟩
    unfold queueDeclare
    rw [hname]
    exact serve_run_error (serve_orFail _ _ _) _

/-- What a config leaves declared: everything it asks for, or its main queue, or nothing. -/
def declaredBy (options : RabbitMqOptions) (refuses : Declaration → Bool) (config : QueueConfig) :
    List Declaration :=
  (declarationsOf options config).takeWhile (takes refuses)

theorem declareTopology_acceptable (h : acceptable options refuses config = true)
    (queues : List Declaration) :
    (declareTopology options config).run.serve (brokerOf refuses) ⟨true, queues⟩ =
      (.ok (), ⟨true, queues ++ declarationsOf options config⟩) := by
  unfold acceptable declarationsOf at h
  unfold declareTopology declarationsOf
  rw [List.all_cons, Bool.and_eq_true] at h
  refine (serve_run_ok (queueDeclare_takes (d := mainOf config) h.1 queues) _).trans ?_
  split at h
  · rename_i hdead
    rw [if_pos hdead, if_pos hdead]
    have hdeclared := queueDeclare_takes (d := deadOf options config) (by simpa using h.2)
      (queues ++ [mainOf config])
    rw [List.append_assoc] at hdeclared
    exact hdeclared
  · rename_i hdead
    rw [if_neg hdead, if_neg hdead]
    rfl

theorem declareTopology_refused (h : acceptable options refuses config = false)
    (queues : List Declaration) : ∃ err b,
    (declareTopology options config).run.serve (brokerOf refuses) ⟨true, queues⟩ =
      (.error err, b) ∧ b.queues = queues ++ declaredBy options refuses config := by
  unfold acceptable declarationsOf at h
  unfold declareTopology declaredBy declarationsOf
  cases hmain : takes refuses (mainOf config) with
  | false =>
    obtain ⟨err, b, hb, hqueues⟩ := queueDeclare_fails hmain queues
    refine ⟨err, b, serve_run_error hb _, ?_⟩
    rw [List.takeWhile_cons_of_neg (by simp [hmain]), List.append_nil]
    exact hqueues
  | true =>
    rw [List.all_cons, hmain, Bool.true_and] at h
    split at h
    · rename_i hdead
      have hrefused : takes refuses (deadOf options config) = false := by simpa using h
      obtain ⟨err, b, hb, hqueues⟩ := queueDeclare_fails hrefused (queues ++ [mainOf config])
      refine ⟨err, b, ?_, ?_⟩
      · refine (serve_run_ok (queueDeclare_takes (d := mainOf config) hmain queues) _).trans ?_
        rw [if_pos hdead]
        exact hb
      · rw [if_pos hdead, List.takeWhile_cons_of_pos hmain,
          List.takeWhile_cons_of_neg (by simp [hrefused])]
        exact hqueues
    · cases h

/-- The queues a replay in this order declares: everything of the configs before the first
that is not accepted in full, and what that one gets declared before it fails. -/
def replayed (options : RabbitMqOptions) (refuses : Declaration → Bool) :
    List QueueConfig → List Declaration
  | [] => []
  | config :: rest =>
    if acceptable options refuses config then
      declarationsOf options config ++ replayed options refuses rest
    else declaredBy options refuses config

theorem redeclareFrom_serves (options : RabbitMqOptions) (refuses : Declaration → Bool)
    (configs : List QueueConfig) (n : ℕ) (queues : List Declaration) :
    ((redeclareFrom options configs n).serve (brokerOf refuses) ⟨true, queues⟩).2.queues =
      queues ++ replayed options refuses configs := by
  induction configs generalizing n queues with
  | nil => simp [redeclareFrom, replayed]
  | cons config rest ih =>
    unfold redeclareFrom replayed
    rw [serve_bind]
    cases h : acceptable options refuses config with
    | true =>
      rw [declareTopology_acceptable h queues, if_pos rfl, ← List.append_assoc]
      exact ih (n + 1) _
    | false =>
      obtain ⟨err, b, hb, hqueues⟩ := declareTopology_refused h queues
      rw [hb, if_neg (by simp)]
      exact hqueues

theorem redeclare_serves (options : RabbitMqOptions) (refuses : Declaration → Bool)
    (configs : List QueueConfig) :
    ((redeclare options configs).serve (brokerOf refuses) .none).2.queues =
      replayed options refuses configs := by
  cases configs with
  | nil => rfl
  | cons config rest =>
    have hloop := redeclareFrom_serves options refuses (config :: rest) 0 []
    exact hloop

/-- The queues that exist after a replay in this order, on a broker that had none. -/
def redeclared (options : RabbitMqOptions) (refuses : Declaration → Bool)
    (configs : List QueueConfig) : List Declaration :=
  ((redeclare options configs).serve (brokerOf refuses) .none).2.queues

/-- Every queue the broker would accept is there, with its dead-letter queue. -/
def Restored (options : RabbitMqOptions) (refuses : Declaration → Bool)
    (configs : List QueueConfig) (queues : List Declaration) : Prop :=
  ∀ config ∈ configs, takes refuses (mainOf config) = true → mainOf config ∈ queues ∧
    (options.declareDeadLetterQueues = true → takes refuses (deadOf options config) = true →
      deadOf options config ∈ queues)

instance (configs : List QueueConfig) (queues : List Declaration) :
    Decidable (Restored options refuses configs queues) :=
  inferInstanceAs (Decidable (∀ config ∈ configs, _))

theorem replayed_append {before rest : List QueueConfig}
    (h : ∀ c ∈ before, acceptable options refuses c = true) :
    replayed options refuses (before ++ rest) =
      before.flatMap (declarationsOf options) ++ replayed options refuses rest := by
  induction before with
  | nil => rfl
  | cons config before ih =>
    have hrest := ih fun c hc => h c (List.mem_cons_of_mem config hc)
    rw [List.cons_append, replayed, if_pos (h config (List.mem_cons_self ..)), hrest,
      List.flatMap_cons, List.append_assoc]

theorem restored_flatMap (configs : List QueueConfig) :
    Restored options refuses configs (configs.flatMap (declarationsOf options)) := by
  intro config hconfig _
  have hmem : ∀ d ∈ declarationsOf options config,
      d ∈ configs.flatMap (declarationsOf options) :=
    fun d hd => List.mem_flatMap.mpr ⟨config, hconfig, hd⟩
  constructor
  · exact hmem _ (List.mem_cons_self ..)
  · intro hdead _
    apply hmem
    simp [declarationsOf, hdead]

/-- A replay goes on to the first config that is refused, in the order it is given. -/
structure StopsAtRefusal (options : RabbitMqOptions) (refuses : Declaration → Bool) : Prop where
  stops : ∀ before config after, (∀ c ∈ before, acceptable options refuses c = true) →
    acceptable options refuses config = false →
    redeclared options refuses (before ++ config :: after) =
      before.flatMap (declarationsOf options) ++ declaredBy options refuses config
  restores : ∀ configs, (∀ c ∈ configs, acceptable options refuses c = true) →
    redeclared options refuses configs = configs.flatMap (declarationsOf options) ∧
      Restored options refuses configs (redeclared options refuses configs)

/-- One refused queue ends the replay; without one, every queue is restored in any order. -/
theorem redeclare_stopsAtRefusal (options : RabbitMqOptions) (refuses : Declaration → Bool) :
    StopsAtRefusal options refuses where
  stops before config after hbefore hconfig := by
    have hall := redeclare_serves options refuses
      (before ++ config :: after)
    rw [replayed_append hbefore, replayed, if_neg (by simp [hconfig])] at hall
    exact hall
  restores configs hconfigs := by
    have hall := redeclare_serves options refuses (configs ++ [])
    rw [replayed_append hconfigs, replayed, List.append_nil, List.append_nil] at hall
    refine ⟨hall, ?_⟩
    show Restored options refuses configs (redeclared options refuses configs)
    rw [redeclared, hall]
    exact restored_flatMap configs

/-- `jobs` is refused and `mail` is not: `mail` is restored only if it comes first. -/
theorem redeclare_order_matters :
    let options : RabbitMqOptions := ⟨".dead", true, ".deferred", .fromSecs 1, .fromSecs 1⟩
    let refuses : Declaration → Bool := fun d => d.name = "jobs"
    ¬Restored options refuses [.new "jobs", .new "mail"]
        (redeclared options refuses [.new "jobs", .new "mail"]) ∧
      Restored options refuses [.new "mail", .new "jobs"]
        (redeclared options refuses [.new "mail", .new "jobs"]) := by
  decide

end Queuey.Rabbit
