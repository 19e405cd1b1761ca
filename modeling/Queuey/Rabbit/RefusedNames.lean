import Queuey.Rabbit.Declare
import Queuey.Rabbit.Healthy
import Queuey.Rabbit.Redeclare

/-!
# Names that are too long

`declare` checks the longest hold name of every queue before it opens a channel. The main
name is shorter than that one, but the dead-letter name has a suffix of its own: it is only
checked where it is declared, behind its main queue.
-/
namespace Queuey.Rabbit
open Interaction Prog Rabbit.Topology
open Declaring (checkNames)

/-- `declare_one` for one queue after the other. With the result come the configs that were
remembered, in their order. -/
def declareEach (options : RabbitMqOptions) :
    List QueueConfig → List QueueConfig → Prog Op Ans (Except Failure Unit × List QueueConfig)
  | [], remembered => pure (.ok (), remembered)
  | config :: rest, remembered => do
    match ← (declareTopology options config).run with
    | .ok () => declareEach options rest (remembered ++ [config])
    | .error e => pure (.error e, remembered)

/-- `RabbitMqBackend::declare`. How the closing of its channel ends decides nothing. -/
def declare (options : RabbitMqOptions) (configs : List QueueConfig) :
    Prog Op Ans (Except Failure Unit × List QueueConfig) := do
  if configs.isEmpty then
    return (.ok (), [])
  match checkNames options.deferredSuffix configs with
  | .error e => return (.error e, [])
  | .ok () =>
    match ← (perform Op.ensureConnected : Prog Op Ans (Except Failure Unit)) with
    | .error e => return (.error e, [])
    | .ok () =>
      match ← (perform Op.createChannel : Prog Op Ans (Except LapinError Unit)) with
      | .error e => return (.error (amqp e), [])
      | .ok () => declareEach options configs []

def TooLong (name : String) : Prop := maxShortStringLength < name.utf8ByteSize

instance (name : String) : Decidable (TooLong name) := inferInstanceAs (Decidable (_ < _))

def longestHoldName (options : RabbitMqOptions) (config : QueueConfig) : String :=
  deferredQueueName config.name options.deferredSuffix (UInt32.ofNat maxDeferralMs)

/-- What the declaration of a config uses: the names it declares and the longest hold name. -/
def usedNames (options : RabbitMqOptions) (config : QueueConfig) : List String :=
  longestHoldName options config :: (declarationsOf options config).map Declaration.name

/-- The queue that exists after an operation was answered like this. -/
def created : Interaction.Event Op Ans → Option String
  | ⟨.queueDeclare name _ _, .ok ()⟩ => some name.value
  | _ => none

/-- The call failed before anything existed. -/
structure RefusedWhole (events : Trace) (outcome : Except Failure Unit × List QueueConfig) :
    Prop where
  fails : ∃ e, outcome.1 = .error e
  uncreated : events.filterMap created = []
  unremembered : outcome.2 = []

/-- Whatever is answered, a name that is too long is refused before anything exists. -/
def RefusesLongNames (options : RabbitMqOptions) (configs : List QueueConfig) : Prop :=
  (∃ config ∈ configs, ∃ name ∈ usedNames options config, TooLong name) →
    (declare options configs).Ensures RefusedWhole

/-- No dead-letter name that would be declared is too long, unless some hold name is. -/
def DeadNamesCovered (options : RabbitMqOptions) (configs : List QueueConfig) : Prop :=
  (∃ config ∈ configs, TooLong (longestHoldName options config)) ∨
    ∀ config ∈ configs, options.declareDeadLetterQueues = true →
      ¬TooLong (deadQueueName config.name options.deadSuffix)

variable {options : RabbitMqOptions} {config : QueueConfig} {configs : List QueueConfig}

theorem deadName_used (h : options.declareDeadLetterQueues = true) (config : QueueConfig) :
    deadQueueName config.name options.deadSuffix ∈ usedNames options config := by
  unfold usedNames declarationsOf
  rw [if_pos h]
  exact List.mem_cons_of_mem _ (List.mem_cons_of_mem _ (List.mem_singleton_self _))

/-- A main queue's name is shorter than each of its hold names. -/
theorem name_fits (h : ¬TooLong (longestHoldName options config)) :
    config.name.utf8ByteSize ≤ maxShortStringLength := by
  unfold TooLong longestHoldName deferredQueueName at h
  simp only [String.utf8ByteSize_append] at h
  omega

theorem checkDeferrableName_ok :
    Declaring.checkDeferrableName config.name options.deferredSuffix = .ok () ↔
      ¬TooLong (longestHoldName options config) := by
  unfold TooLong longestHoldName Declaring.checkDeferrableName
  dsimp only
  split
  · simpa using Nat.not_lt_of_le ‹_›
  · simpa using Nat.lt_of_not_le ‹_›

theorem checkNames_ok : checkNames options.deferredSuffix configs = .ok () ↔
    ∀ config ∈ configs, ¬TooLong (longestHoldName options config) := by
  induction configs with
  | nil => simp [checkNames]
  | cons config rest ih =>
    unfold checkNames
    rw [List.forall_mem_cons, ← ih, ← checkDeferrableName_ok]
    split
    · rename_i hcheck
      exact ⟨fun hrest => ⟨hcheck, hrest⟩, And.right⟩
    · rename_i e hcheck
      simp [hcheck]

/-- A hold name that is too long fails the call before the broker is asked for anything. -/
theorem declare_holdNameTooLong
    (h : ∃ config ∈ configs, TooLong (longestHoldName options config)) :
    ∃ e, declare options configs = pure (.error e, []) := by
  obtain ⟨config, hconfig, hlong⟩ := h
  unfold declare
  rw [if_neg (by simpa using List.ne_nil_of_mem hconfig)]
  split
  · rename_i e hcheck
    exact ⟨e, rfl⟩
  · rename_i hcheck
    exact absurd hlong (checkNames_ok.mp hcheck config hconfig)

/-! ## The names that are only checked on the way -/

theorem queueDeclare_ensures (d : Declaration) :
    (queueDeclare d.name d.options d.args).run.Ensures fun _ r => r = .ok () → ¬TooLong d.name := by
  refine (ensures_orFail (shortString d.name)).seq ?_ ?_
  · intro _ e _ hok
    cases hok
  · rintro _ name ⟨-, hname⟩
    have hfits : ¬TooLong d.name := by
      have hvalue := shortString_ok hname.symm
      have hshort := name.short
      rw [hvalue] at hshort
      exact Nat.not_lt_of_le hshort
    exact (Ensures.trivial _).mono fun _ _ _ _ => hfits

/-- A declaration succeeds only if each of its names fits. -/
theorem declareTopology_ensures (options : RabbitMqOptions) (config : QueueConfig) :
    (declareTopology options config).run.Ensures fun _ r =>
      r = .ok () → ∀ d ∈ declarationsOf options config, ¬TooLong d.name := by
  refine (queueDeclare_ensures (mainOf config)).seq ?_ ?_
  · intro _ e _ hok
    cases hok
  intro _ _ hmain
  unfold declarationsOf
  split
  · refine (queueDeclare_ensures (deadOf options config)).mono fun _ r hdead hok => ?_
    simp only [List.mem_cons, List.not_mem_nil, or_false, forall_eq_or_imp, forall_eq]
    exact ⟨hmain rfl, hdead hok⟩
  · simpa using hmain

theorem declareEach_fails (h : ∃ config ∈ configs, ∃ d ∈ declarationsOf options config,
    TooLong d.name) (remembered : List QueueConfig) :
    (declareEach options configs remembered).Ensures fun _ outcome =>
      ∃ e, outcome.1 = .error e := by
  induction configs generalizing remembered with
  | nil => simp at h
  | cons config rest ih =>
    refine ensures_bind.mpr ((declareTopology_ensures options config).mono fun _ r hr => ?_)
    cases r with
    | error e => exact ⟨e, rfl⟩
    | ok _ =>
      apply ih
      obtain ⟨c, hc, d, hd, hlong⟩ := h
      rcases List.mem_cons.mp hc with rfl | hc
      · exact absurd hlong (hr rfl d hd)
      · exact ⟨c, hc, d, hd, hlong⟩

/-- A name that is too long always fails the call, if not before anything exists. -/
theorem declare_fails
    (h : ∃ config ∈ configs, ∃ name ∈ usedNames options config, TooLong name) :
    (declare options configs).Ensures fun _ outcome => ∃ e, outcome.1 = .error e := by
  obtain ⟨config, hconfig, name, hname, hlong⟩ := h
  unfold usedNames at hname
  rcases List.mem_cons.mp hname with rfl | hname
  · obtain ⟨e, he⟩ := declare_holdNameTooLong ⟨config, hconfig, hlong⟩
    rw [he]
    exact ⟨e, rfl⟩
  obtain ⟨d, hd, rfl⟩ := List.mem_map.mp hname
  unfold declare
  rw [if_neg (by simpa using List.ne_nil_of_mem hconfig)]
  split
  · exact ⟨_, rfl⟩
  refine ensures_bind.mpr fun connected => ?_
  cases connected with
  | error e => exact ⟨e, rfl⟩
  | ok _ =>
    refine ensures_bind.mpr fun opened => ?_
    cases opened with
    | error e => exact ⟨amqp e, rfl⟩
    | ok _ => exact declareEach_fails ⟨config, hconfig, d, hd, hlong⟩ []

/-! ## When the first queue exists before the name is refused -/

/-- A broker that accepts every declaration. -/
def accepts (op : Op) : Ans op := (brokerOf (fun _ => false) ⟨true, []⟩ op).1

theorem declareTopology_first (options : RabbitMqOptions)
    (h : config.name.utf8ByteSize ≤ maxShortStringLength) :
    ∃ next, (declareTopology options config).run =
      .call (.queueDeclare ⟨config.name, h⟩ (declareOptions config.durable) (queueArgs config))
        next := by
  unfold declareTopology queueDeclare
  rw [shortString_of_le h]
  exact ⟨_, rfl⟩

/-- With no hold name too long, nothing stands between the call and its first main queue. -/
theorem declare_not_refusedWhole (hnonempty : configs ≠ [])
    (hfits : ∀ config ∈ configs, ¬TooLong (longestHoldName options config)) :
    ¬(declare options configs).Ensures RefusedWhole := by
  intro h
  obtain ⟨config, rest, rfl⟩ := List.exists_cons_of_ne_nil hnonempty
  obtain ⟨next, hnext⟩ :=
    declareTopology_first options (name_fits (hfits config (List.mem_cons_self ..)))
  unfold declare at h
  rw [if_neg (by simp), checkNames_ok.mpr hfits] at h
  -- the connection is there and the channel opens
  have heach := ensures_bind.mp (ensures_bind.mp h (.ok ())) (.ok ())
  unfold declareEach at heach
  replace heach := ensures_bind.mp heach
  rw [hnext] at heach
  have hdeclared := (heach (.ok ())).exec (fun _ => accepts) 0
  have hwhole := Ensures.exec hdeclared (fun _ => accepts) 0
  simpa [created] using hwhole.uncreated

/-- What the names must satisfy for a refusal to leave nothing behind. -/
theorem refusesLongNames_iff (options : RabbitMqOptions) (configs : List QueueConfig) :
    RefusesLongNames options configs ↔ DeadNamesCovered options configs := by
  constructor
  · intro h
    by_contra huncovered
    unfold DeadNamesCovered at huncovered
    push Not at huncovered
    obtain ⟨hfits, config, hconfig, hdead, hlong⟩ := huncovered
    apply declare_not_refusedWhole (List.ne_nil_of_mem hconfig) hfits
    exact h ⟨config, hconfig, _, deadName_used hdead config, hlong⟩
  · rintro (hhold | hdead) ⟨config, hconfig, name, hname, hlong⟩
    · obtain ⟨e, he⟩ := declare_holdNameTooLong hhold
      rw [he]
      exact ⟨⟨e, rfl⟩, rfl, rfl⟩
    · -- nothing declared is too long, so it is a hold name
      have hhold : TooLong (longestHoldName options config) := by
        by_contra hfits
        rcases List.mem_cons.mp hname with rfl | hname
        · exact hfits hlong
        obtain ⟨d, hd, rfl⟩ := List.mem_map.mp hname
        unfold declarationsOf at hd
        rcases List.mem_cons.mp hd with rfl | hd
        · exact Nat.not_lt_of_le (name_fits hfits) hlong
        · split at hd
          · rename_i hon
            obtain rfl := List.mem_singleton.mp hd
            exact hdead config hconfig hon hlong
          · cases hd
      obtain ⟨e, he⟩ := declare_holdNameTooLong ⟨config, hconfig, hhold⟩
      rw [he]
      exact ⟨⟨e, rfl⟩, rfl, rfl⟩

/-- A dead-letter name of 256 bytes: `mail` is there before it is refused. -/
theorem refuses_after_declaring :
    let suffix := String.ofList (List.replicate 252 'x')
    let options : RabbitMqOptions := ⟨suffix, true, ".deferred", .fromSecs 1, .fromSecs 1⟩
    let run := (declare options [.new "mail"]).exec (fun _ => accepts) 0
    ¬RefusesLongNames options [.new "mail"] ∧
      TooLong (deadQueueName "mail" options.deadSuffix) ∧ run.1.filterMap created = ["mail"] ∧
      run.2 = (.error (RabbitMqError.invalidName ("mail" ++ suffix)).intoCore, []) := by
  have hlong : TooLong (deadQueueName "mail" (String.ofList (List.replicate 252 'x'))) := by
    decide +kernel
  refine ⟨fun h => ?_, hlong, by decide +kernel, by decide +kernel⟩
  have hwhole := h ⟨_, List.mem_singleton_self _, _, deadName_used rfl _, hlong⟩
  refine declare_not_refusedWhole (List.cons_ne_nil _ _) ?_ hwhole
  decide

end Queuey.Rabbit
