import Queuey.Core.JobChain

/-!
# The whole life of a job

The runs of a job on an open backend whose worker alone settles its deliveries are a chain,
whatever is lost on the way. So the envelope counts its outcomes, and what the queue has on
record of the job are its settle operations that succeeded, one record each.
-/
namespace Queuey.Lifecycle
open Transition Interaction Interaction.Prog Dispatch MemoryBackend

variable {V J : Type} {worker : Worker} {x y : Life V} {a : Action V J} {m o : Message V}
  {i j k c n : ℕ} {op : Settle V} {r : Request V} {run run' : Run V} {root : Message V}
  {N : UInt32} {judged : Option (JobOutcome × RetryPolicy)} {effect : Effect V} {name : String}

/-- The settle operations of all jobs. -/
def Life.entries (x : Life V) : List (Entry V) := x.runs.map Run.toEntry

theorem mem_history : run ∈ x.history j ↔ run ∈ x.runs ∧ run.job = j := by
  simp [Life.history]

/-! ## Which job a message belongs to -/

theorem same_run (account : Account x.entries x.backend) (hrun : run ∈ x.runs)
    (hrun' : run' ∈ x.runs) (hid : run.message.id = run'.message.id) : run = run' := by
  have hsame := account.same_message (List.mem_map_of_mem hrun) (List.mem_map_of_mem hrun') hid
  have hnodup : x.entries.Nodup := account.messages.of_map
  exact List.inj_on_of_nodup_map hnodup hrun hrun' hsame

theorem find_run (account : Account x.entries x.backend) (hrun : run ∈ x.runs) :
    (x.runs.find? fun other => other.message.id = run.message.id) = some run := by
  have hsome : (x.runs.find? fun other => other.message.id = run.message.id).isSome = true := by
    rw [List.find?_isSome]
    exact ⟨run, hrun, by simp⟩
  obtain ⟨found, hfound⟩ := Option.isSome_iff_exists.mp hsome
  have hid : found.message.id = run.message.id := by simpa using List.find?_some hfound
  rw [hfound, same_run account (List.mem_of_find?_eq_some hfound) hrun hid]

/-- A message that replaces another is of the job of the run that scheduled it. -/
theorem jobOf_parent (account : Account x.entries x.backend) (ho : o ∈ x.backend.accepted)
    (hi : o.replaces = some i) : ∃ run ∈ x.runs, run.message.id = i ∧ x.jobOf o = run.job ∧
      ∃ r, run.request = some r ∧ o.envelope = r.envelope := by
  obtain ⟨e, he, r, rfl, hr, henv, -⟩ := account.parent ho hi
  obtain ⟨run, hrun, rfl⟩ := List.mem_map.mp he
  refine ⟨run, hrun, rfl, ?_, r, hr, henv⟩
  simp only [Life.jobOf, hi]
  rw [find_run account hrun]
  rfl

/-- Further runs do not change the job of a message. -/
theorem jobOf_append (account : Account x.entries x.backend) (ho : o ∈ x.backend.accepted)
    {s : MemoryBackend.State V} (later : List (Run V)) :
    Life.jobOf ⟨s, x.runs ++ later⟩ o = x.jobOf o := by
  cases hi : o.replaces with
  | none => simp only [Life.jobOf, hi]
  | some i =>
    obtain ⟨run, hrun, rfl, -⟩ := jobOf_parent account ho hi
    simp only [Life.jobOf, hi, List.find?_append]
    rw [find_run account hrun]
    rfl

/-! ## The runs of a job are a chain -/

/-- What is known of job `j` in a run that is attended. -/
structure Tracked (worker : Worker) (j : ℕ) (x : Life V) : Prop where
  account : Account x.entries x.backend
  jobs : ∀ run ∈ x.runs, run.job = x.jobOf run.message
  handled : ∀ run ∈ x.history j, Handled worker run.message.envelope run.judged run.op
  lived : Lived j (x.history j)

theorem tracked_start (h : (system V J worker).start x) : Tracked worker j x := by
  obtain ⟨hstart, hruns⟩ := h
  have account := account_start hstart
  refine ⟨?_, ?_, ?_, ?_⟩
  · rw [Life.entries, hruns]
    exact account
  · rw [hruns]
    exact fun run hrun => absurd hrun List.not_mem_nil
  · rw [Life.history, hruns]
    exact fun run hrun => absurd hrun List.not_mem_nil
  · rw [Life.history, hruns]
    exact .fresh

/-- A message of the job that has not been run follows on all its runs. -/
theorem Tracked.next (h : Tracked worker j x) (hm : m ∈ x.backend.accepted)
    (unrun : ∀ run ∈ x.history j, run.message ≠ m) (hj : x.jobOf m = j) :
    Next j (x.history j) m := by
  have accepted : ∀ run ∈ x.runs, run.message ∈ x.backend.accepted :=
    fun run hrun => (h.account.unsettled (List.mem_map_of_mem hrun)).1
  cases hi : m.replaces with
  | none =>
    have hid : m.id = j := by simpa [Life.jobOf, hi] using hj
    have hnone : x.history j = [] := by
      by_contra hne
      obtain ⟨run, hrun, hfirst⟩ := h.lived.first hne
      apply unrun run hrun
      have hin := accepted run (mem_history.mp hrun).1
      exact h.account.wired.id_injective hin hm (hfirst.trans hid.symm)
    rw [hnone]
    exact next_nil.mpr ⟨hid, hi⟩
  | some i =>
    obtain ⟨run, hrun, rfl, hjob, hr⟩ := jobOf_parent h.account hm hi
    obtain ⟨earlier, hlast⟩ | ⟨later, hlater, hrep⟩ :=
      h.lived.last_or (mem_history.mpr ⟨hrun, hjob.symm.trans hj⟩)
    · rw [hlast]
      exact next_concat.mpr ⟨hi, hr⟩
    · -- The run has scheduled the message of a later one, and that is this message.
      refine absurd ?_ (unrun later hlater)
      exact h.account.replaces_injective (accepted later (mem_history.mp hlater).1) hm hrep hi

theorem Tracked.backend {s : MemoryBackend.State V} {b : MemoryBackend.Action V}
    (h : Tracked worker j x) (hs : MemoryBackend.step x.backend b = some s) (hclose : b ≠ .close)
    (hsettle : ∀ k c i op, b ≠ .settle k c i op) : Tracked worker j { x with backend := s } :=
  ⟨h.account.step hclose hsettle hs, h.jobs, h.handled, h.lived⟩

theorem Tracked.settle (h : Tracked worker j x) (hs : x.settle k c i op judged = some y)
    (handled : ∀ m, (x.backend.consumers c).out[i]? = some m → x.jobOf m = j →
      Handled worker m.envelope judged op) : Tracked worker j y := by
  unfold Life.settle at hs
  split at hs
  · rename_i m s hm hstep
    cases hs
    have account := h.account.settle hstep hm
    obtain ⟨lost, scattered, -⟩ := h.account.scattered
    have hout : m ∈ x.backend.box (.consumer c .unsettled) := List.mem_of_getElem? hm
    have hin := scattered.accepted hout
    have unrun : ∀ run ∈ x.runs, run.message ≠ m := by
      rintro run hrun rfl
      exact (h.account.unsettled (List.mem_map_of_mem hrun)).2 c (List.mem_of_getElem? hm)
    have hhistory : ∀ run : Run V, Life.history ⟨s, x.runs ++ [run]⟩ j =
        if run.job = j then x.history j ++ [run] else x.history j := by
      intro run
      rw [Life.history, List.filter_append, Life.history]
      by_cases hj : run.job = j <;> simp [hj]
    refine ⟨?_, ?_, ?_, ?_⟩
    · simpa [Life.entries] using account
    · intro run hrun
      obtain hrun | hrun := List.mem_append.mp hrun
      · have hold := (h.account.unsettled (List.mem_map_of_mem hrun)).1
        rw [jobOf_append h.account hold]
        exact h.jobs run hrun
      · obtain rfl := List.mem_singleton.mp hrun
        exact (jobOf_append h.account hin _).symm
    · intro run hrun
      rw [hhistory] at hrun
      split_ifs at hrun with hj
      · obtain hrun | hrun := List.mem_append.mp hrun
        · exact h.handled run hrun
        · obtain rfl := List.mem_singleton.mp hrun
          exact handled m hm hj
      · exact h.handled run hrun
    · rw [hhistory]
      split_ifs with hj
      · exact h.lived.run (h.next hin (fun run hrun => unrun run (mem_history.mp hrun).1) hj)
      · exact h.lived
  · cases hs

theorem tracked_step (h : Tracked worker j x) (attended : Attended j x a)
    (hs : step worker x a = some y) : Tracked worker j y := by
  cases a with
  | backend b =>
    cases b with
    | close => exact attended.elim
    | settle k c i op => exact h.settle hs fun m hm hj => absurd hj (attended m hm)
    | _ =>
      simp only [step, Option.map_eq_some_iff] at hs
      obtain ⟨s, hstep, rfl⟩ := hs
      exact h.backend hstep nofun nofun
  | run k c i user =>
    simp only [step] at hs
    split at hs
    · cases hs
    · rename_i m hm
      split at hs
      · rename_i op hop
        refine h.settle hs fun m' hm' _ => ?_
        obtain rfl := Option.some.inj (hm'.symm.trans hm)
        exact handled_of_process hop
      · obtain ⟨s, hstep, rfl⟩ := Option.map_eq_some_iff.mp hs
        exact h.backend (b := .dropDelivery c i) hstep nofun nofun

theorem reach_tracked (h : Reach (system V J worker) (Attended j) x) : Tracked worker j x := by
  induction h with
  | start hs => exact tracked_start hs
  | next _ attended hstep ih => exact tracked_step ih attended hstep

/-! ## What is on record -/

namespace Life

/-- The acks and dead letters of a job in the lists of a queue. -/
def records (x : Life V) (j : ℕ) (name : String) : List (Effect V) :=
  let q := x.backend.queue name
  ((q.settled.filter fun p => x.jobOf p.1 = j).map fun p => .acked p.1 p.2) ++
    (q.dead.filter fun p => x.jobOf p.1 = j).map fun p => .buried p.1 p.2

/-- The settle operation of the run has returned `Ok`. -/
def finished (x : Life V) (run : Run V) : Bool := (x.backend.calls run.call).ok

end Life

/-- The record is an ack of this kind. -/
def acks (kind : AckKind) : Effect V → Bool
  | .acked _ k => k = kind
  | _ => false

/-- A success or a dead letter. -/
def terminal : Effect V → Bool
  | .acked _ .succeeded | .buried _ _ => true
  | _ => false

theorem mem_acked {kind : AckKind} : .acked m kind ∈ x.records j name ↔
    (m, kind) ∈ (x.backend.queue name).settled ∧ x.jobOf m = j := by
  simp [Life.records]

theorem mem_buried {reason : String} : .buried m reason ∈ x.records j name ↔
    (m, reason) ∈ (x.backend.queue name).dead ∧ x.jobOf m = j := by
  simp [Life.records]

theorem records_of_mem (h : effect ∈ x.records j name) : effect.records = true := by
  simp only [Life.records, List.mem_append, List.mem_map] at h
  obtain ⟨p, -, rfl⟩ | ⟨p, -, rfl⟩ := h <;> rfl

theorem records_nodup (account : Account x.entries x.backend) : (x.records j name).Nodup := by
  obtain ⟨lost, scattered, -⟩ := account.scattered
  have settled : (x.backend.queue name).settled.Nodup :=
    (scattered.ledger.nodup (.queue name .settled)).of_map
  have dead : (x.backend.queue name).dead.Nodup :=
    (scattered.ledger.nodup (.queue name .dead)).of_map
  refine List.Nodup.append ((settled.filter _).map ?_) ((dead.filter _).map ?_) ?_
  · rintro ⟨m, kind⟩ ⟨m', kind'⟩ heq
    simpa using heq
  · rintro ⟨m, reason⟩ ⟨m', reason'⟩ heq
    simpa using heq
  · intro effect hs hd
    obtain ⟨p, -, rfl⟩ := List.mem_map.mp hs
    obtain ⟨q, -, hq⟩ := List.mem_map.mp hd
    cases hq

theorem record_cases (e : Entry V) : (∃ kind, e.record = .acked e.message kind) ∨
    ∃ reason, e.record = .buried e.message reason := by
  obtain ⟨k, d, op⟩ := e
  cases op with
  | deadLetter reason => exact .inr ⟨reason, rfl⟩
  | _ => exact .inl ⟨_, rfl⟩

/-- A record of the job is that of one of its runs. -/
theorem Tracked.of_record (h : Tracked worker j x) (hrec : effect ∈ x.records j name) :
    ∃ run ∈ x.history j, x.finished run = true ∧ run.record = effect ∧
      run.message.envelope.queue = name := by
  have recorded : ∃ m, Recorded x.backend effect ∧ x.jobOf m = j ∧ m.envelope.queue = name ∧
      ((∃ kind, effect = .acked m kind) ∨ ∃ reason, effect = .buried m reason) := by
    cases effect with
    | acked m kind =>
      rw [mem_acked] at hrec
      obtain ⟨hin, hj⟩ := hrec
      obtain ⟨rfl, -⟩ := (h.account.books.settled name m kind).mp hin
      exact ⟨m, hin, hj, rfl, .inl ⟨kind, rfl⟩⟩
    | buried m reason =>
      rw [mem_buried] at hrec
      obtain ⟨hin, hj⟩ := hrec
      obtain ⟨rfl, -⟩ := (h.account.buried name m reason).mp hin
      exact ⟨m, hin, hj, rfl, .inr ⟨reason, rfl⟩⟩
    | _ => cases records_of_mem hrec
  obtain ⟨m, hrecorded, hj, hqueue, heffect⟩ := recorded
  obtain ⟨e, he, hok, hrecord⟩ := h.account.of_record hrecorded
  obtain ⟨run, hrun, rfl⟩ := List.mem_map.mp he
  have hm : run.message = m := by
    obtain ⟨kind, hk⟩ | ⟨reason, hk⟩ := record_cases run.toEntry <;>
      obtain ⟨kind', rfl⟩ | ⟨reason', rfl⟩ := heffect <;> simp_all
  refine ⟨run, mem_history.mpr ⟨hrun, ?_⟩, hok, hrecord, ?_⟩
  · rw [h.jobs run hrun, hm, hj]
  · rw [hm, hqueue]

/-- A run that has finished is on record. -/
theorem Tracked.recorded (h : Tracked worker j x) (hrun : run ∈ x.history j)
    (hok : x.finished run = true) :
    run.record ∈ x.records j run.message.envelope.queue := by
  obtain ⟨hin, hj⟩ := mem_history.mp hrun
  have hrecorded := h.account.recorded (List.mem_map_of_mem hin) hok
  have hjob : x.jobOf run.message = j := by rw [← h.jobs run hin, hj]
  obtain ⟨kind, hk⟩ | ⟨reason, hk⟩ := record_cases run.toEntry
  · rw [hk] at hrecorded
    rw [hk, mem_acked]
    exact ⟨hrecorded, hjob⟩
  · rw [hk] at hrecorded
    rw [hk, mem_buried]
    exact ⟨hrecorded, hjob⟩

/-- What is on record of the job are its runs that have finished, each once. -/
theorem Tracked.records_perm (h : Tracked worker j x)
    (queue : ∀ run ∈ x.history j, run.message.envelope.queue = name) :
    (x.records j name).Perm (((x.history j).filter x.finished).map fun run => run.record) := by
  have hruns : (x.runs.map fun run => run.message).Nodup := by
    have := h.account.messages
    rwa [Life.entries, List.map_map] at this
  have hhistory : ((x.history j).filter x.finished).Nodup := (hruns.of_map.filter _).filter _
  have hnodup : (((x.history j).filter x.finished).map fun run => run.record).Nodup := by
    refine hhistory.map_on fun run hrun run' hrun' heq => ?_
    have hin := (mem_history.mp (List.mem_filter.mp hrun).1).1
    have hin' := (mem_history.mp (List.mem_filter.mp hrun').1).1
    apply List.inj_on_of_nodup_map hruns hin hin'
    obtain ⟨kind, hk⟩ | ⟨reason, hk⟩ := record_cases run.toEntry <;>
      obtain ⟨kind', hk'⟩ | ⟨reason', hk'⟩ := record_cases run'.toEntry <;> simp_all
  rw [List.perm_ext_iff_of_nodup (records_nodup h.account) hnodup]
  intro effect
  simp only [List.mem_map, List.mem_filter]
  constructor
  · intro hrec
    obtain ⟨run, hrun, hok, hrecord, -⟩ := h.of_record hrec
    exact ⟨run, ⟨hrun, hok⟩, hrecord⟩
  · rintro ⟨run, ⟨hrun, hok⟩, rfl⟩
    rw [← queue run hrun]
    exact h.recorded hrun hok

/-! ## The whole life -/

theorem Enqueued.accepted (h : Enqueued x.backend root) (account : Account x.entries x.backend) :
    root ∈ x.backend.accepted ∧ root.replaces = none ∧
      Bears worker root.envelope [] root.envelope := by
  obtain ⟨k, a, r, jobId, nowMs, jobType, queue, payload, top, correlationId, ha, hreq, hk, hroot⟩ := h
  obtain ⟨r', hr', henv, hrep, -⟩ := scheduling_request account.logged hroot
  obtain rfl := Option.some.inj (hr'.symm.trans hk)
  have hin : root ∈ x.backend.accepted :=
    (account.books.accepted root).mpr (hroot.imp (fun h => ⟨k, h⟩) fun h => ⟨k, h⟩)
  have fresh : r'.origin = none ∧ r'.envelope =
      { Envelope.raw jobId nowMs jobType queue payload with correlationId := correlationId } := by
    obtain rfl | ⟨delay, rfl⟩ := ha <;>
      simp only [enqueue, enqueueAfter, enqueueWith, requested, Option.some.injEq,
        Prod.mk.injEq] at hreq <;> simp [← hreq.2]
  refine ⟨hin, by rw [hrep, fresh.1]; rfl, .refl _, ?_, ?_, ?_⟩
  all_goals rw [henv, fresh.2]
  all_goals rfl

/-- The life of the job that began with `root`: what its messages say, how often it is run, and
what its queue has on record. -/
structure WholeLife (worker : Worker) (root : Message V) (N : UInt32) (x : Life V) : Prop where
  origin : x.jobOf root = root.id
  /-- Each run is of a message that says what came of the runs before. -/
  runs : ∀ (n : ℕ) (run : Run V), (x.history root.id)[n]? = some run →
    Bears worker root.envelope ((x.history root.id).take n) run.message.envelope
  /-- So does a message that is yet to be run, or that is lost. -/
  waiting : ∀ m ∈ x.backend.accepted, x.jobOf m = root.id →
    (∀ run ∈ x.history root.id, run.message ≠ m) →
      Bears worker root.envelope (x.history root.id) m.envelope
  retryable : (x.history root.id).countP Run.retryable ≤ max N.toNat 1
  /-- A run that has been settled has left one record, and there are no others. -/
  records : (x.records root.id root.envelope.queue).Perm
    (((x.history root.id).filter x.finished).map fun run => run.record)
  elsewhere : ∀ name, name ≠ root.envelope.queue → x.records root.id name = []
  terminal : (x.records root.id root.envelope.queue).countP terminal ≤ 1
  retried : (x.records root.id root.envelope.queue).countP (acks .retried) =
    ((x.history root.id).filter x.finished).countP fun run => run.retryable && run.request.isSome
  deferred : (x.records root.id root.envelope.queue).countP (acks .deferred) =
    ((x.history root.id).filter x.finished).countP Run.deferred
  /-- What is scheduled again was scheduled by one run; and each run that has been settled by
  scheduling the job again has scheduled it once. -/
  scheduled : ∀ m ∈ x.backend.accepted, x.jobOf m = root.id → m ≠ root →
    ∃! run, run ∈ x.history root.id ∧ m.replaces = some run.message.id
  successor : ∀ run ∈ x.history root.id, x.finished run = true → run.request.isSome = true →
    ∃! m, m ∈ x.backend.accepted ∧ m.replaces = some run.message.id

theorem terminal_record (e : Entry V) : terminal e.record = e.request.isNone := by
  obtain ⟨k, d, op⟩ := e
  cases op <;> rfl

theorem acks_retried (e : Entry V) :
    acks .retried e.record = true ↔ ∃ next delay, e.op = .retry next delay := by
  obtain ⟨k, d, op⟩ := e
  cases op <;> simp [Entry.record, acks]

theorem acks_deferred (e : Entry V) :
    acks .deferred e.record = true ↔ ∃ next delay, e.op = .defer next delay := by
  obtain ⟨k, d, op⟩ := e
  cases op <;> simp [Entry.record, acks]

/-- A job that `enqueue` or `enqueue_after` has published, on an open backend whose worker gives
it `N` attempts, with fewer than 2^32 deferrals: whatever its runs come to, and whatever else
is done to the backend, its envelope counts the outcomes and its records are those of its runs. -/
theorem lifecycle (h : Reach (system V J worker) (Attended root.id) x)
    (enqueued : Enqueued x.backend root)
    (policy : ∀ run ∈ x.history root.id, ∀ outcome policy,
      run.judged = some (outcome, policy) → policy.maxAttempts = N)
    (short : (x.history root.id).countP Run.deferred < 2 ^ 32) : WholeLife worker root N x := by
  have tracked := reach_tracked h
  obtain ⟨hroot, hnone, fresh⟩ : root ∈ x.backend.accepted ∧ root.replaces = none ∧
      Bears worker root.envelope [] root.envelope := enqueued.accepted tracked.account
  have accepted : ∀ run ∈ x.history root.id, run.message ∈ x.backend.accepted := fun run hrun =>
    (tracked.account.unsettled (List.mem_map_of_mem (mem_history.mp hrun).1)).1
  have begins : ∀ m ∈ x.backend.accepted, m.id = root.id → m.envelope = root.envelope := by
    intro m hm hid
    rw [tracked.account.wired.id_injective hm hroot hid]
  have worked : Worked worker root.envelope root.id N (x.history root.id) :=
    ⟨tracked.lived, tracked.handled, fun run hrun => begins _ (accepted run hrun), policy, short⟩
  have runs : ∀ (n : ℕ) (run : Run V), (x.history root.id)[n]? = some run →
      Bears worker root.envelope ((x.history root.id).take n) run.message.envelope :=
    fun n run hn => worked.bears_run fresh hn
  have queue : ∀ run ∈ x.history root.id, run.message.envelope.queue = root.envelope.queue := by
    intro run hrun
    obtain ⟨n, hn⟩ := List.mem_iff_getElem?.mp hrun
    exact (runs n run hn).same.queue.symm
  have records := tracked.records_perm queue
  have counted : ∀ p : Effect V → Bool, (x.records root.id root.envelope.queue).countP p =
      ((x.history root.id).filter x.finished).countP fun run => p run.record := by
    intro p
    rw [records.countP_eq, List.countP_map]
    rfl
  have asked : ∀ run ∈ x.history root.id, _ := fun run hrun =>
    (tracked.handled run hrun).request_iff (worked.fits fresh hrun)
  refine ⟨by simp [Life.jobOf, hnone], runs, fun m hm hj unrun => ?_,
    worked.retryable_le fresh, records, fun name hname => ?_, ?_, ?_, ?_,
    fun m hm hj hne => ?_, fun run hrun hok hr => ?_⟩
  · exact worked.bears fresh (tracked.next hm unrun hj) (begins m hm)
  · rw [List.eq_nil_iff_forall_not_mem]
    intro effect hrec
    obtain ⟨run, hrun, -, -, hqueue⟩ := tracked.of_record hrec
    exact hname (hqueue.symm.trans (queue run hrun))
  · rw [counted, List.countP_filter]
    refine le_trans (List.countP_mono_left fun run _ hrun => ?_) worked.terminal_le
    rw [Bool.and_eq_true] at hrun
    rw [← terminal_record]
    exact hrun.1
  · rw [counted]
    refine List.countP_congr fun run hrun => ?_
    rw [acks_retried, (asked run (List.mem_filter.mp hrun).1).1, Bool.and_eq_true]
  · rw [counted]
    refine List.countP_congr fun run hrun => ?_
    rw [acks_deferred, (asked run (List.mem_filter.mp hrun).1).2]
  · cases hi : m.replaces with
    | none =>
      have hid : m.id = root.id := by simpa [Life.jobOf, hi] using hj
      exact absurd (tracked.account.wired.id_injective hm hroot hid) hne
    | some i =>
      obtain ⟨run, hrun, rfl, hjob, -⟩ := jobOf_parent tracked.account hm hi
      refine ⟨run, ⟨mem_history.mpr ⟨hrun, hjob.symm.trans hj⟩, rfl⟩, fun run' hrun' => ?_⟩
      have hid : run.message.id = run'.message.id := Option.some.inj hrun'.2
      exact same_run tracked.account (mem_history.mp hrun'.1).1 hrun hid.symm
  · obtain ⟨r, hr⟩ := Option.isSome_iff_exists.mp hr
    have hin := List.mem_map_of_mem (f := Run.toEntry) (mem_history.mp hrun).1
    obtain ⟨m, hm, hrep, -⟩ := tracked.account.successor hin hr hok
    exact ⟨m, ⟨hm, hrep⟩, fun m' hm' =>
      tracked.account.replaces_injective hm'.1 hm hm'.2 hrep⟩

/-- `Attended`, computed. -/
def attendedNow (j : ℕ) (x : Life V) : Action V J → Bool
  | .backend .close => false
  | .backend (.settle _ c i _) => ((x.backend.consumers c).out[i]?).all fun m => x.jobOf m ≠ j
  | _ => true

theorem attended_of_attendedNow (j : ℕ) (x : Life V) (a : Action V J)
    (h : attendedNow j x a = true) : Attended j x a := by
  cases a with
  | run k c i user => trivial
  | backend b =>
    cases b with
    | close => cases h
    | settle k c i op =>
      intro m hm
      simpa [attendedNow, hm] using h
    | _ => trivial

/-- A worker whose queue has ten priorities. -/
def priorityWorker : Worker :=
  { mailWorker true none with
    handlers := fun _ => some ⟨"send", "mail", { QueueConfig.new "mail" with maxPriority := some 10 },
      none⟩ }

/-- What a consumer does from acquiring a permit to handing out a delivery, which is then run
and its settle operation `k` carried out. -/
def served (k : ℕ) (joined : Joined) (steps : List (MemoryBackend.Action Unit)) :
    List (Action Unit Unit) :=
  [.backend (.acquire 0), .backend (.pop 0), .backend (.send 0), .backend (.poll 0),
    .run k 0 0 (ending (.ok (.ok ())) (.ok none) joined)] ++ steps.map .backend

/-- A job is deferred, fails, and succeeds. -/
def threeRuns : List (Action Unit Unit) :=
  [.backend (enqueue 0 (.raw 7 1000 "send" "mail" ()) (some 10) none), .backend (.check 0),
    .backend (.schedule 0), .backend (.consume 0 (.new "mail"))] ++
    served 1 (.returned (.error (.deferred .zero "busy"))) [.check 1, .schedule 1, .record 1] ++
    served 2 .panicked [.check 2, .schedule 2, .record 2] ++
    served 3 (.returned (.ok ())) [.record 3]

/-- The message of the job above. -/
def firstMail : Message Unit := ⟨0, .raw 7 1000 "send" "mail" (), none, 0⟩

deriving instance DecidableEq for MemoryDelivery, Request, Effect

/-- The envelopes of the runs, whether policies and deferrals are within bounds, and the call that
published the job. -/
def readings (x : Life Unit) :
    List (Envelope Unit) × Bool × Bool × Option (Request Unit) × Bool :=
  ((x.history 0).map fun run => run.message.envelope,
    (x.history 0).all fun run => run.judged.all fun p => p.2.maxAttempts = 3,
    (x.history 0).countP Run.deferred < 2 ^ 32, (x.backend.calls 0).request,
    Effect.inserted firstMail ∈ x.backend.did 0)

/-- Deferred, the job comes back at the top of its queue, and failed at the bottom. -/
theorem lifecycle_three : ∃ x : Life Unit, WholeLife priorityWorker firstMail 3 x ∧
    (x.history 0).map (fun run => run.message.envelope) =
      [.raw 7 1000 "send" "mail" (),
        { Envelope.raw 7 1000 "send" "mail" () with deferrals := 1, priority := 10 },
        { Envelope.raw 7 1000 "send" "mail" () with attempt := 2, deferrals := 1 }] := by
  have start : Reach (system Unit Unit priorityWorker) (Attended 0) ⟨initial 0 10, []⟩ :=
    .start ⟨⟨0, 10, by decide, rfl⟩, rfl⟩
  have hrun : ((system Unit Unit priorityWorker).checked (attendedNow 0) ⟨initial 0 10, []⟩
      threeRuns).map readings =
      some ([.raw 7 1000 "send" "mail" (),
        { Envelope.raw 7 1000 "send" "mail" () with deferrals := 1, priority := 10 },
        { Envelope.raw 7 1000 "send" "mail" () with attempt := 2, deferrals := 1 }], true, true,
        some ⟨false, .raw 7 1000 "send" "mail" (), .zero, none⟩, true) := by
    decide
  obtain ⟨x, hx, hfacts⟩ := Option.map_eq_some_iff.mp hrun
  have reached := start.checkedRun (attended_of_attendedNow 0) threeRuns hx
  simp only [readings, Prod.mk.injEq, decide_eq_true_eq] at hfacts
  obtain ⟨envelopes, policies, short, request, inserted⟩ := hfacts
  refine ⟨x, lifecycle reached ⟨0, _, _, 7, 1000, "send", "mail", (), some 10, none, .inl rfl, rfl,
    request, .inl inserted⟩ (fun run hrun outcome policy hj => ?_) short, envelopes⟩
  have := List.all_eq_true.mp policies run hrun
  simpa [hj] using this

end Queuey.Lifecycle
