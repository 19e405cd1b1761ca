import Queuey.Core.Builder

/-!
# What a build comes to

The calls on a builder are turned into one worker, or into the first error: a job type claimed
twice, else queues that cannot be declared. A worker consumes the queues it has declared, one
of each name.
-/
namespace Queuey.Dispatch

variable {Q V J B : Type} {set : QueueSet Q} {chosen : List Q} {queue : Q}
  {configs : List QueueConfig}

/-! ## The queues -/

/-- Of the selected queues the first of each name, in their order. -/
structure Consumes (set : QueueSet Q) (chosen : List Q) (configs : List QueueConfig) : Prop where
  ordered : configs.Sublist (chosen.map set.config)
  distinct : (configs.map QueueConfig.name).Nodup
  found : ∀ name, configs.find? (fun c => c.name = name) =
    (chosen.map set.config).find? fun c => c.name = name

theorem Consumes.skip (h : Consumes set chosen configs)
    (hany : (configs.any fun c => c.name = (set.config queue).name) = true) :
    Consumes set (chosen ++ [queue]) configs := by
  obtain ⟨c, hc, hname⟩ := List.any_eq_true.mp hany
  refine ⟨?_, h.distinct, fun name => ?_⟩
  · rw [List.map_append]
    exact h.ordered.trans (List.sublist_append_left _ _)
  · rw [List.map_append, List.find?_append, ← h.found]
    cases hfind : configs.find? fun c => c.name = name with
    | some _ => rfl
    | none =>
      have hne : ¬(set.config queue).name = name := by
        rintro rfl
        exact List.find?_eq_none.mp hfind c hc hname
      simp [hne]

theorem Consumes.push (h : Consumes set chosen configs)
    (hany : ¬(configs.any fun c => c.name = (set.config queue).name) = true) :
    Consumes set (chosen ++ [queue]) (configs ++ [set.config queue]) := by
  have hnew : ∀ c ∈ configs, c.name ≠ (set.config queue).name := by simpa using hany
  refine ⟨?_, ?_, fun name => ?_⟩
  · rw [List.map_append]
    exact h.ordered.append (.refl _)
  · rw [List.map_append, List.nodup_append]
    refine ⟨h.distinct, List.nodup_singleton _, fun a ha b hb hab => ?_⟩
    obtain ⟨c, hc, rfl⟩ := List.mem_map.mp ha
    rw [List.mem_singleton.mp hb] at hab
    exact hnew c hc hab
  · rw [List.map_append, List.find?_append, List.find?_append, h.found]
    rfl

theorem Consumes.selected (h : Consumes set chosen configs) (rest : List Q) :
    Consumes set (chosen ++ rest) (set.selected rest configs) := by
  induction rest generalizing chosen configs with
  | nil => simpa [QueueSet.selected] using h
  | cons queue rest ih =>
    rw [QueueSet.selected, List.append_cons]
    split_ifs with hany
    · exact ih (h.skip hany)
    · exact ih (h.push hany)

theorem consumes_selected (set : QueueSet Q) (chosen : List Q) :
    Consumes set chosen (set.selected chosen []) := by
  have empty : Consumes set [] [] := ⟨.refl _, List.nodup_nil, fun _ => rfl⟩
  exact empty.selected chosen

/-! ## The settings -/

namespace WorkerBuilder
variable {calls : List (Call Q)} {built : Built} {b : WorkerBuilder Q} {machine : Machine}
  {iteration : Iteration} {declare : List QueueConfig → Except (Error B) Unit} {e : Error B}

def Call.selects : Call Q → Option (List Q)
  | .queues chosen => some chosen
  | _ => none

def Call.caps : Call Q → Option ℕ
  | .concurrency cap => some cap
  | _ => none

def Call.times : Call Q → Option Duration
  | .jobTimeout timeout => some timeout
  | _ => none

def Call.closes : Call Q → Option Bool
  | .closeBackendOnShutdown close => some close
  | _ => none

def Call.hooks : Call Q → Option Unit
  | .onDeadLetter => some ()
  | _ => none

/-- For every setting the last call that makes it counts. -/
structure Settled (calls : List (Call Q)) (b : WorkerBuilder Q) : Prop where
  queues : b.queues = lastOf Call.selects calls
  concurrency : b.concurrency = lastOf Call.caps calls
  jobTimeout : b.jobTimeout = lastOf Call.times calls
  closeBackend : b.closeBackend = (lastOf Call.closes calls).getD false
  hook : b.deadLetterHook = (lastOf Call.hooks calls).isSome

theorem settled_configured (set : QueueSet Q) (calls : List (Call Q)) :
    Settled calls (configured set calls) := by
  induction calls using List.reverseRecOn with
  | nil => exact ⟨rfl, rfl, rfl, rfl, rfl⟩
  | append_singleton calls c ih =>
    rw [configured_append]
    refine ⟨?_, ?_, ?_, ?_, ?_⟩ <;> rw [lastOf_append]
    · rw [← ih.queues]
      cases c <;> rfl
    · rw [← ih.concurrency]
      cases c <;> rfl
    · rw [← ih.jobTimeout]
      cases c <;> rfl
    · cases c <;> simp [call, Call.closes, ih.closeBackend]
    · cases c <;> simp [call, Call.hooks, ih.hook]

/-! ## The outcome -/

/-- The queues that a list of calls selects. -/
def selection (set : QueueSet Q) (calls : List (Call Q)) : List Q :=
  (lastOf Call.selects calls).getD set.all

/-- The job types that are claimed, in order. -/
def claimed (calls : List (Call Q)) : List String :=
  (calls.filterMap Call.registered).map Prod.fst

/-- The worker a list of calls is for. -/
structure Outfit (set : QueueSet Q) (machine : Machine) (calls : List (Call Q)) (built : Built) :
    Prop where
  machine : built.worker.build = machine.build ∧ built.worker.floats = machine.floats ∧
    built.worker.rng = machine.rng
  handlers : ∀ name handler, built.worker.handlers name = some handler ↔
    .handler handler ∈ calls ∧ handler.name = name
  policies : ∀ name, built.worker.policies name =
    (built.worker.handlers name).map fun handler => precedence set calls handler none
  queues : Consumes set (selection set calls) built.queues
  /-- Never less than one job at a time. -/
  concurrency : built.concurrency = max ((lastOf Call.caps calls).getD
    (built.queues.map fun c => c.prefetch.toNat).sum) 1
  jobTimeout : built.worker.jobTimeout = lastOf Call.times calls
  hook : built.worker.hook = (lastOf Call.hooks calls).isSome
  closeBackend : built.closeBackend = (lastOf Call.closes calls).getD false

/-- The first error: a job type that was claimed before, else what the declaration failed with. -/
inductive Refused (set : QueueSet Q) (declare : List QueueConfig → Except (Error B) Unit)
    (calls : List (Call Q)) : Error B → Prop
  | duplicate {before after : List String} {name : String} :
      claimed calls = before ++ name :: after → before.Nodup → name ∈ before →
      Refused set declare calls (.duplicateHandler name)
  | undeclared {configs : List QueueConfig} {e : Error B} : (claimed calls).Nodup →
      Consumes set (selection set calls) configs → declare configs = .error e →
      Refused set declare calls e

theorem mem_fill_iff {entries : List (String × Handler)} (nodup : (entries.map Prod.fst).Nodup)
    {name : String} {handler : Handler} :
    (Table.empty : Table String Handler).fill entries name = some handler ↔
      (name, handler) ∈ entries := by
  constructor
  · intro h
    by_cases hmem : name ∈ entries.map Prod.fst
    · obtain ⟨⟨_, other⟩, hin, rfl⟩ := List.mem_map.mp hmem
      obtain rfl := Option.some.inj ((Table.fill_of_mem nodup hin).symm.trans h)
      exact hin
    · rw [Table.fill_of_not_mem hmem] at h
      cases h
  · exact Table.fill_of_mem nodup

theorem mem_handlers_iff (set : QueueSet Q) {name : String} {handler : Handler} :
    (name, handler) ∈ (configured set calls).handlers ↔
      .handler handler ∈ calls ∧ handler.name = name := by
  rw [configured_handlers, List.mem_filterMap]
  constructor
  · rintro ⟨c, hc, hreg⟩
    cases c with
    | handler h =>
      obtain ⟨rfl, rfl⟩ := Prod.mk.inj (Option.some.inj hreg)
      exact ⟨hc, rfl⟩
    | _ => cases hreg
  · rintro ⟨hc, rfl⟩
    exact ⟨_, hc, rfl⟩

theorem refused_of_build
    (h : (configured set calls).build set machine iteration declare = .error e) :
    Refused set declare calls e := by
  have hqueues : (configured set calls).queues.getD set.all = selection set calls := by
    rw [(settled_configured set calls).queues]
    rfl
  unfold build at h
  cases hadd : (Table.empty.addAll (configured set calls).handlers) with
  | error name =>
    rw [hadd] at h
    obtain rfl := Except.error.inj h
    obtain ⟨before, after, heq, nodup, -, hin | hsome⟩ := Table.addAll_error hadd
    · rw [configured_handlers] at heq
      exact .duplicate heq nodup hin
    · cases hsome
  | ok handlers =>
    have nodup := (Table.addAll_empty_iff.mp hadd).1
    rw [configured_handlers] at nodup
    rw [hadd] at h
    simp only [Except.mapError, bind, Except.bind] at h
    cases hd : declare (set.selected ((configured set calls).queues.getD set.all) []) with
    | error err =>
      rw [hd] at h
      obtain rfl := Except.error.inj h
      rw [hqueues] at hd
      exact .undeclared nodup (consumes_selected set _) hd
    | ok u =>
      rw [hd] at h
      cases h

theorem outfit_of_build
    (h : (configured set calls).build set machine iteration declare = .ok built) :
    Outfit set machine calls built := by
  have settled := settled_configured set calls
  obtain ⟨nodup, hd⟩ := declared_of_build h
  have resolves : ∀ name handler, (name, handler) ∈ (configured set calls).handlers →
      built.worker.handlers name = some handler ∧
        built.worker.policies name = some ((configured set calls).resolve name handler) :=
    fun _ _ => build_resolves h
  have hadd := Table.addAll_empty_iff.mpr ⟨nodup, rfl⟩
  have hbuilt := h
  unfold build at hbuilt
  simp only [hadd, Except.mapError, hd, bind, Except.bind] at hbuilt
  obtain rfl := (Except.ok.inj hbuilt).symm
  have handlers : ∀ name handler, Table.empty.fill (configured set calls).handlers name =
      some handler ↔ .handler handler ∈ calls ∧ handler.name = name := fun name handler =>
    (mem_fill_iff nodup).trans (mem_handlers_iff set)
  refine ⟨⟨rfl, rfl, rfl⟩, handlers, fun name => ?_, ?_, ?_, settled.jobTimeout, settled.hook,
    settled.closeBackend⟩
  · dsimp only
    cases hname : Table.empty.fill (configured set calls).handlers name with
    | some handler =>
      obtain ⟨hin, rfl⟩ := (handlers name handler).mp hname
      have hpolicy := (resolves _ handler ((mem_handlers_iff set).mpr ⟨hin, rfl⟩)).2
      rw [resolve_eq] at hpolicy
      exact hpolicy
    | none =>
      refine Table.fill_of_not_mem fun hmem => ?_
      rw [List.map_map] at hmem
      obtain ⟨⟨_, handler⟩, hin, rfl⟩ := List.mem_map.mp hmem
      have hin := (iteration.perm _).mem_iff.mp hin
      have hsome := (mem_fill_iff nodup).mpr hin
      dsimp only [Function.comp_apply] at hname
      rw [hsome] at hname
      cases hname
  · rw [settled.queues]
    exact consumes_selected set _
  · dsimp only
    rw [settled.concurrency]

/-- A build takes the last word on every setting, refuses a job type that is claimed twice, and
otherwise declares exactly the queues that the worker then consumes. -/
theorem build_outcome (set : QueueSet Q) (machine : Machine) (iteration : Iteration)
    (declare : List QueueConfig → Except (Error B) Unit) (calls : List (Call Q)) :
    match (configured set calls).build set machine iteration declare with
    | .error e => Refused set declare calls e
    | .ok built => (claimed calls).Nodup ∧ declare built.queues = .ok () ∧
        Outfit set machine calls built := by
  split
  · next e h => exact refused_of_build h
  · next built h =>
    obtain ⟨nodup, hd⟩ := declared_of_build h
    have hadd := Table.addAll_empty_iff.mpr ⟨nodup, rfl⟩
    have hbuilt := h
    unfold build at hbuilt
    simp only [hadd, Except.mapError, hd, bind, Except.bind] at hbuilt
    obtain rfl := (Except.ok.inj hbuilt).symm
    rw [configured_handlers] at nodup
    exact ⟨nodup, hd, outfit_of_build h⟩

end WorkerBuilder
end Queuey.Dispatch
