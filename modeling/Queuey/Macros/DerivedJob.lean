import Queuey.Macros.Job
import Queuey.Macros.KeyOrder

/-!
# What the `Job` derive accepts

A payload type is accepted exactly when its attributes give a variant of a queue set, at most
one name that shows, at most one `retry(...)` list of the shared grammar and at most one path
to the core crate. The implementation says what was written, and the default for the rest.
-/
namespace Queuey.Macros
open KeyList

/-! ## The grammar -/

def JobAttribute.itemList (attr : JobAttribute) : List JobItem :=
  match attr.body with
  | .list items => items
  | _ => []

def JobAttribute.Readable (attr : JobAttribute) : Prop := ∀ error, attr.body ≠ .malformed error

/-- The items of all `#[job(...)]` attributes. -/
def JobInput.items (input : JobInput) : List JobItem :=
  (input.attrs.filter fun a => a.path = "job").flatMap JobAttribute.itemList

/-- What a key is given, as the parsers of literals and of lists see it. -/
def JobInput.given (input : JobInput) (key : String) : List Payload :=
  (KeyList.given key input.items).map JobPayload.payload

def jobKeys : List String := ["queue", "name", "retry", "crate"]

/-- The path of a variant, with the path of its set. -/
structure Path.VariantOf (path set : Path) : Prop where
  leadingColon : path.leadingColon = set.leadingColon
  segments : ∃ variant, path.segments = set.segments ++ [variant]

/-- The implementation of an accepted type. -/
structure JobDerived (paths : CratePaths) (input : JobInput) (impl : JobImpl) : Prop where
  plain : input.generic = false
  readable : ∀ a ∈ input.attrs, a.path = "job" → a.Readable
  known : ∀ item ∈ input.items, item.1 ∈ jobKeys
  ident : impl.ident = input.ident
  queue : KeyList.given "queue" input.items = [.path impl.queue]
  queueSet : impl.queue.VariantOf impl.queueSet
  name : (input.given "name" = [] ∧ impl.name = .default input.ident.text) ∨
    ∃ s, input.given "name" = [.text s] ∧ ¬Blank s ∧ impl.name = .literal s
  retry : (input.given "retry" = [] ∧ impl.retryPolicy = none) ∨
    ∃ list spec, input.given "retry" = [.list list] ∧ parseRetry list = .ok spec ∧
      impl.retryPolicy = some spec.toTokens
  core : (input.given "crate" = [] ∧ paths.default = .ok impl.core) ∨
    ∃ s, input.given "crate" = [.text s] ∧ paths.parse s = some impl.core

/-! ## The form -/

/-- One key of `#[job(...)]` with its value. -/
inductive JobEntry where
  | queue (p : Path)
  | name (s : String)
  | retry (spec : RetrySpec)
  | core (path : String)

namespace JobEntry

def key : JobEntry → String
  | queue _ => "queue"
  | name _ => "name"
  | retry _ => "retry"
  | core _ => "crate"

def ReadsAs (paths : CratePaths) (payload : JobPayload) : JobEntry → Prop
  | queue p => payload = .path p
  | name s => payload.payload = .text s ∧ ¬Blank s
  | retry spec => ∃ list, payload.payload = .list list ∧ parseRetry list = .ok spec
  | core path => ∃ s, payload.payload = .text s ∧ paths.parse s = some path

end JobEntry

namespace JobAttr

def taken (parsed : JobAttr) : JobEntry → Bool
  | .queue _ => parsed.queue.isSome
  | .name _ => parsed.name.isSome
  | .retry _ => parsed.retry.isSome
  | .core _ => parsed.core.isSome

def put (parsed : JobAttr) : JobEntry → JobAttr
  | .queue p => { parsed with queue := parsed.queue.or (some p) }
  | .name s => { parsed with name := parsed.name.or (some s) }
  | .retry spec => { parsed with retry := parsed.retry.or (some spec) }
  | .core path => { parsed with core := parsed.core.or (some path) }

end JobAttr

section Form
variable {paths : CratePaths} {parsed parsed' : JobAttr} {key : String} {payload : JobPayload}
  {entry : JobEntry}

theorem eqPath_ok_iff {p : Path} : payload.eqPath = .ok p ↔ payload = .path p := by
  cases payload with
  | path q => simp [JobPayload.eqPath]
  | other payload refusal =>
    simp [JobPayload.eqPath, bind_ok_iff, throw, throwThe, MonadExceptOf.throw]

theorem parenthesized_ok_iff {p : Payload} {list : List (String × Value)} :
    p.parenthesized = .ok list ↔ p = .list list := by
  cases p <;> simp [Payload.parenthesized]

theorem parseCratePath_ok_iff {s path : String} :
    parseCratePath paths s = .ok path ↔ paths.parse s = some path := by
  unfold parseCratePath
  cases paths.parse s <;> simp

theorem parseJobKey_reads (hreads : entry.ReadsAs paths payload)
    (hfree : parsed.taken entry = false) :
    parseJobKey paths parsed (entry.key, payload) = .ok (parsed.put entry) := by
  cases entry with
  | queue p =>
    obtain rfl := hreads
    exact bind_ok_iff.mpr ⟨p, rfl, setOnce_bind_ok.mpr ⟨hfree, rfl⟩⟩
  | name s =>
    obtain ⟨htext, hblank⟩ := hreads
    exact bind_ok_iff.mpr ⟨.lit (.str s), by rw [htext]; rfl, bind_ok_iff.mpr ⟨s, rfl,
      bind_ok_iff.mpr ⟨(), rejectBlank_ok_iff.mpr hblank, setOnce_bind_ok.mpr ⟨hfree, rfl⟩⟩⟩⟩
  | retry spec =>
    obtain ⟨list, hlist, hspec⟩ := hreads
    exact bind_ok_iff.mpr ⟨list, by rw [hlist]; rfl, bind_ok_iff.mpr ⟨spec, hspec,
      setOnce_bind_ok.mpr ⟨hfree, rfl⟩⟩⟩
  | core path =>
    obtain ⟨s, htext, hpath⟩ := hreads
    exact bind_ok_iff.mpr ⟨.lit (.str s), by rw [htext]; rfl, bind_ok_iff.mpr ⟨s, rfl,
      bind_ok_iff.mpr ⟨path, parseCratePath_ok_iff.mpr hpath, setOnce_bind_ok.mpr ⟨hfree, rfl⟩⟩⟩⟩

theorem parseJobKey_ok (h : parseJobKey paths parsed (key, payload) = .ok parsed') :
    ∃ entry : JobEntry, (key = entry.key ∧ entry.ReadsAs paths payload) ∧
      parsed.taken entry = false ∧ parsed' = parsed.put entry := by
  unfold parseJobKey at h
  dsimp only at h
  split_ifs at h with hqueue hname hretry hcrate
  · subst hqueue
    obtain ⟨p, hp, h⟩ := bind_ok h
    obtain ⟨hslot, rfl⟩ := setOnce_bind_ok.mp h
    exact ⟨.queue p, ⟨rfl, eqPath_ok_iff.mp hp⟩, hslot, rfl⟩
  · subst hname
    obtain ⟨value, hvalue, h⟩ := bind_ok h
    obtain ⟨s, hs, h⟩ := bind_ok h
    obtain ⟨_, hblank, h⟩ := bind_ok h
    obtain ⟨hslot, rfl⟩ := setOnce_bind_ok.mp h
    exact ⟨.name s, ⟨rfl, text_of_litStr hvalue hs, rejectBlank_ok_iff.mp hblank⟩, hslot, rfl⟩
  · subst hretry
    obtain ⟨list, hlist, h⟩ := bind_ok h
    obtain ⟨spec, hspec, h⟩ := bind_ok h
    obtain ⟨hslot, rfl⟩ := setOnce_bind_ok.mp h
    exact ⟨.retry spec, ⟨rfl, list, parenthesized_ok_iff.mp hlist, hspec⟩, hslot, rfl⟩
  · subst hcrate
    obtain ⟨value, hvalue, h⟩ := bind_ok h
    obtain ⟨s, hs, h⟩ := bind_ok h
    obtain ⟨path, hpath, h⟩ := bind_ok h
    obtain ⟨hslot, rfl⟩ := setOnce_bind_ok.mp h
    exact ⟨.core path, ⟨rfl, s, text_of_litStr hvalue hs, parseCratePath_ok_iff.mp hpath⟩, hslot,
      rfl⟩

theorem jobForm (paths : CratePaths) : KeyForm (parseJobKey paths)
    (fun item entry => item.1 = entry.key ∧ entry.ReadsAs paths item.2) JobEntry.key
    JobAttr.taken JobAttr.put where
  step_ok parsed item parsed' := by
    obtain ⟨key, payload⟩ := item
    constructor
    · exact parseJobKey_ok
    · rintro ⟨entry, ⟨hkey, hreads⟩, hfree, rfl⟩
      dsimp only at hkey
      subst hkey
      exact parseJobKey_reads hreads hfree
  taken_put parsed a b := by
    cases a <;> cases b <;> simp [JobAttr.put, JobAttr.taken, JobEntry.key]
  put_comm parsed a b hkey := by
    cases a <;> cases b <;> first | rfl | exact absurd rfl hkey

/-- A key fills its slot with what it reads as. -/
theorem jobSlot (paths : CratePaths) {W : Type} {k : String} {get : JobAttr → Option W}
    {R : JobPayload → W → Prop}
    (hit : ∀ (parsed : JobAttr) (payload : JobPayload) (a : JobEntry), k = a.key →
      a.ReadsAs paths payload → parsed.taken a = false →
        get parsed = none ∧ ∃ v, R payload v ∧ get (parsed.put a) = some v)
    (miss : ∀ (parsed : JobAttr) (a : JobEntry), a.key ≠ k → get (parsed.put a) = get parsed) :
    Slot (parseJobKey paths) k get R :=
  (jobForm paths).slot (fun _ _ h => h.1.symm)
    (fun parsed payload a h hfree => hit parsed payload a h.1 h.2 hfree) miss

theorem jobQueueSlot (paths : CratePaths) : Slot (parseJobKey paths) "queue" JobAttr.queue
    (fun payload p => payload = .path p) := by
  refine jobSlot paths (fun parsed payload a hkey hreads hfree => ?_) fun parsed a hkey => ?_
  · cases a with
    | queue p =>
      have hnone : parsed.queue = none := by simpa [JobAttr.taken] using hfree
      exact ⟨hnone, p, hreads, by simp [JobAttr.put, hnone]⟩
    | _ => simp [JobEntry.key] at hkey
  · cases a <;> first | rfl | exact absurd rfl hkey

theorem jobNameSlot (paths : CratePaths) : Slot (parseJobKey paths) "name" JobAttr.name
    (fun payload s => payload.payload = .text s ∧ ¬Blank s) := by
  refine jobSlot paths (fun parsed payload a hkey hreads hfree => ?_) fun parsed a hkey => ?_
  · cases a with
    | name s =>
      have hnone : parsed.name = none := by simpa [JobAttr.taken] using hfree
      exact ⟨hnone, s, hreads, by simp [JobAttr.put, hnone]⟩
    | _ => simp [JobEntry.key] at hkey
  · cases a <;> first | rfl | exact absurd rfl hkey

theorem jobRetrySlot (paths : CratePaths) : Slot (parseJobKey paths) "retry" JobAttr.retry
    (fun payload spec => ∃ list, payload.payload = .list list ∧ parseRetry list = .ok spec) := by
  refine jobSlot paths (fun parsed payload a hkey hreads hfree => ?_) fun parsed a hkey => ?_
  · cases a with
    | retry spec =>
      have hnone : parsed.retry = none := by simpa [JobAttr.taken] using hfree
      exact ⟨hnone, spec, hreads, by simp [JobAttr.put, hnone]⟩
    | _ => simp [JobEntry.key] at hkey
  · cases a <;> first | rfl | exact absurd rfl hkey

theorem jobCoreSlot (paths : CratePaths) : Slot (parseJobKey paths) "crate" JobAttr.core
    (fun payload path => ∃ s, payload.payload = .text s ∧ paths.parse s = some path) := by
  refine jobSlot paths (fun parsed payload a hkey hreads hfree => ?_) fun parsed a hkey => ?_
  · cases a with
    | core path =>
      have hnone : parsed.core = none := by simpa [JobAttr.taken] using hfree
      exact ⟨hnone, path, hreads, by simp [JobAttr.put, hnone]⟩
    | _ => simp [JobEntry.key] at hkey
  · cases a <;> first | rfl | exact absurd rfl hkey

end Form

/-! ## Both directions -/

section Derived
variable {paths : CratePaths} {input : JobInput} {attr : JobAttr} {impl impl' : JobImpl}

theorem jobItems_ok_iff {attr : JobAttribute} {found : List JobItem} :
    attr.items = .ok found ↔ attr.Readable ∧ found = attr.itemList := by
  unfold JobAttribute.items JobAttribute.Readable JobAttribute.itemList
  cases attr.body <;> simp [eq_comm]

theorem parseJobAttr_ok_iff : parseJobAttr paths input.attrs = .ok attr ↔
    (∀ a ∈ input.attrs, a.path = "job" → a.Readable) ∧
      input.items.foldlM (parseJobKey paths) .empty = .ok attr := by
  unfold parseJobAttr JobInput.items
  rw [foldlM_lists_ok_iff fun _ _ => jobItems_ok_iff]
  simp [and_imp]

theorem queueSetOf_ok_iff {path set : Path} : queueSetOf path = .ok set ↔ path.VariantOf set := by
  unfold queueSetOf
  constructor
  · intro h
    split_ifs at h with hshort
    obtain rfl := Except.ok.inj h
    refine ⟨rfl, path.segments.getLast path.nonempty, ?_⟩
    exact (List.dropLast_append_getLast path.nonempty).symm
  · intro ⟨hcolon, variant, hsegments⟩
    have hpos := List.length_pos_iff.mpr set.nonempty
    have hlong : ¬path.segments.length < 2 := by
      rw [hsegments, List.length_append, List.length_singleton]
      omega
    rw [dif_neg hlong]
    cases set with
    | mk colon segments nonempty =>
      dsimp only at hcolon hsegments
      congr 1
      simp [hcolon, hsegments]

theorem deriveJob_ok_iff : deriveJob paths input = .ok impl ↔ input.generic = false ∧
    ∃ attr, parseJobAttr paths input.attrs = .ok attr ∧ ∃ core, attr.corePath paths = .ok core ∧
      ∃ queue, attr.queue = some queue ∧ ∃ queueSet, queueSetOf queue = .ok queueSet ∧
        impl = ⟨core, input.ident, queueSet,
          match attr.name with
          | some name => .literal name
          | none => .default input.ident.text,
          queue, attr.retry.map RetrySpec.toTokens⟩ := by
  unfold deriveJob
  cases hgeneric : input.generic with
  | true => simp [throw, throwThe, MonadExceptOf.throw, bind, Except.bind]
  | false =>
    simp only [Bool.false_eq_true, if_false, true_and, bind_ok_iff]
    refine exists_congr fun attr => and_congr_right fun _ => exists_congr fun core =>
      and_congr_right fun _ => ?_
    cases attr.queue with
    | none => simp [throw, throwThe, MonadExceptOf.throw]
    | some queue =>
      simp only [bind_ok_iff, Option.some.injEq]
      constructor
      · rintro ⟨queueSet, hset, h⟩
        exact ⟨queue, rfl, queueSet, hset, (Except.ok.inj h).symm⟩
      · rintro ⟨_, rfl, queueSet, hset, rfl⟩
        exact ⟨queueSet, hset, rfl⟩

theorem derived_of_deriveJob (h : deriveJob paths input = .ok impl) :
    JobDerived paths input impl := by
  obtain ⟨hplain, attr, hattr, core, hcore, queue, hqueue, queueSet, hset, rfl⟩ :=
    deriveJob_ok_iff.mp h
  obtain ⟨hreadable, hrun⟩ := parseJobAttr_ok_iff.mp hattr
  refine ⟨hplain, hreadable, fun item hitem => ?_, rfl, ?_, queueSetOf_ok_iff.mp hset, ?_, ?_, ?_⟩
  · obtain ⟨entry, hkey, -⟩ := (jobForm paths).reads_of_run hrun hitem
    rw [hkey]
    cases entry <;> simp [jobKeys, JobEntry.key]
  · rcases (jobQueueSlot paths).run_empty hrun rfl with ⟨-, hnone⟩ | ⟨_, p, hgiven, rfl, hsome⟩
    · rw [hqueue] at hnone
      cases hnone
    · rw [hqueue] at hsome
      obtain rfl := Option.some.inj hsome
      exact hgiven
  · rcases (jobNameSlot paths).run_empty hrun rfl with
      ⟨hgiven, hnone⟩ | ⟨payload, s, hgiven, ⟨htext, hblank⟩, hsome⟩
    · exact .inl ⟨by simp [JobInput.given, hgiven], by simp [hnone]⟩
    · exact .inr ⟨s, by simp [JobInput.given, hgiven, htext], hblank, by simp [hsome]⟩
  · rcases (jobRetrySlot paths).run_empty hrun rfl with
      ⟨hgiven, hnone⟩ | ⟨payload, spec, hgiven, ⟨list, hlist, hspec⟩, hsome⟩
    · exact .inl ⟨by simp [JobInput.given, hgiven], by simp [hnone]⟩
    · exact .inr ⟨list, spec, by simp [JobInput.given, hgiven, hlist], hspec, by simp [hsome]⟩
  · unfold JobAttr.corePath at hcore
    rcases (jobCoreSlot paths).run_empty hrun rfl with
      ⟨hgiven, hnone⟩ | ⟨payload, path, hgiven, ⟨s, htext, hpath⟩, hsome⟩
    · rw [hnone] at hcore
      exact .inl ⟨by simp [JobInput.given, hgiven], hcore⟩
    · rw [hsome] at hcore
      obtain rfl := Except.ok.inj hcore
      exact .inr ⟨s, by simp [JobInput.given, hgiven, htext], hpath⟩

theorem payload_mem_given {key : String} {item : JobItem} (hitem : item ∈ input.items)
    (hkey : item.1 = key) : item.2.payload ∈ input.given key :=
  List.mem_map_of_mem (hkey ▸ mem_given hitem)

/-- The only item of a key is what the key is given. -/
theorem payload_of_given {key : String} {p : Payload} {item : JobItem} (hitem : item ∈ input.items)
    (hkey : item.1 = key) (hgiven : input.given key = [p]) : item.2.payload = p :=
  List.mem_singleton.mp (hgiven ▸ payload_mem_given hitem hkey)

theorem not_given {key : String} {item : JobItem} (hitem : item ∈ input.items)
    (hkey : item.1 = key) : input.given key ≠ [] :=
  List.ne_nil_of_mem (payload_mem_given hitem hkey)

theorem JobDerived.reads (h : JobDerived paths input impl) {item : JobItem}
    (hitem : item ∈ input.items) :
    ∃ a : JobEntry, (item.1 = a.key ∧ a.ReadsAs paths item.2) ∧ a.key = item.1 := by
  suffices hread : ∃ a : JobEntry, item.1 = a.key ∧ a.ReadsAs paths item.2 by
    obtain ⟨a, ha⟩ := hread
    exact ⟨a, ha, ha.1.symm⟩
  have hknown := h.known item hitem
  simp only [jobKeys, List.mem_cons, List.not_mem_nil, or_false] at hknown
  rcases hknown with hkey | hkey | hkey | hkey
  · have hmem := mem_given hitem
    rw [hkey, h.queue] at hmem
    exact ⟨.queue impl.queue, hkey, List.mem_singleton.mp hmem⟩
  · rcases h.name with ⟨hnone, -⟩ | ⟨s, hgiven, hblank, -⟩
    · exact absurd hnone (not_given hitem hkey)
    · exact ⟨.name s, hkey, payload_of_given hitem hkey hgiven, hblank⟩
  · rcases h.retry with ⟨hnone, -⟩ | ⟨list, spec, hgiven, hspec, -⟩
    · exact absurd hnone (not_given hitem hkey)
    · exact ⟨.retry spec, hkey, list, payload_of_given hitem hkey hgiven, hspec⟩
  · rcases h.core with ⟨hnone, -⟩ | ⟨s, hgiven, hpath⟩
    · exact absurd hnone (not_given hitem hkey)
    · exact ⟨.core impl.core, hkey, s, payload_of_given hitem hkey hgiven, hpath⟩

/-- No key comes twice. -/
theorem JobDerived.nodup (h : JobDerived paths input impl) :
    (input.items.map Prod.fst).Nodup := by
  refine nodup_of_given fun key => ?_
  have hlength : (KeyList.given key input.items).length = (input.given key).length := by
    simp [JobInput.given]
  by_cases hkey : key ∈ jobKeys
  · simp only [jobKeys, List.mem_cons, List.not_mem_nil, or_false] at hkey
    rcases hkey with rfl | rfl | rfl | rfl
    · rw [h.queue, List.length_singleton]
    · rw [hlength]
      rcases h.name with ⟨hnone, -⟩ | ⟨s, hgiven, -⟩ <;> simp [*]
    · rw [hlength]
      rcases h.retry with ⟨hnone, -⟩ | ⟨list, spec, hgiven, -⟩ <;> simp [*]
    · rw [hlength]
      rcases h.core with ⟨hnone, -⟩ | ⟨s, hgiven, -⟩ <;> simp [*]
  · have hnone : KeyList.given key input.items = [] := by
      rw [KeyList.given, List.map_eq_nil_iff, List.filter_eq_nil_iff]
      intro item hitem hsame
      exact hkey (of_decide_eq_true hsame ▸ h.known item hitem)
    simp [hnone]

theorem JobDerived.accepted (h : JobDerived paths input impl) :
    ∃ impl', deriveJob paths input = .ok impl' := by
  obtain ⟨attr, hrun⟩ := (jobForm paths).run_of_reads (s := .empty)
    (fun item hitem => h.reads hitem) h.nodup fun a => by cases a <;> rfl
  have hattr : parseJobAttr paths input.attrs = .ok attr :=
    parseJobAttr_ok_iff.mpr ⟨h.readable, hrun⟩
  have hcore : ∃ core, attr.corePath paths = .ok core := by
    unfold JobAttr.corePath
    rcases h.core with ⟨hnone, hdefault⟩ | ⟨s, hgiven, -⟩
    · rcases (jobCoreSlot paths).run_empty hrun rfl with ⟨-, hempty⟩ | ⟨payload, path, hgiven, -⟩
      · exact ⟨impl.core, by rw [hempty]; exact hdefault⟩
      · simp [JobInput.given, hgiven] at hnone
    · rcases (jobCoreSlot paths).run_empty hrun rfl with ⟨hnone, -⟩ | ⟨_, path, -, -, hsome⟩
      · simp [JobInput.given, hnone] at hgiven
      · exact ⟨path, by rw [hsome]⟩
  obtain ⟨core, hcore⟩ := hcore
  have hqueue : attr.queue = some impl.queue := by
    rcases (jobQueueSlot paths).run_empty hrun rfl with ⟨hnone, -⟩ | ⟨_, p, hgiven, rfl, hsome⟩
    · rw [h.queue] at hnone
      cases hnone
    · rw [h.queue] at hgiven
      simpa using hsome.trans (by simpa using hgiven.symm)
  exact ⟨_, deriveJob_ok_iff.mpr ⟨h.plain, attr, hattr, core, hcore, impl.queue, hqueue,
    impl.queueSet, queueSetOf_ok_iff.mpr h.queueSet, rfl⟩⟩

theorem Path.VariantOf.unique {path set set' : Path} (h : path.VariantOf set)
    (h' : path.VariantOf set') : set = set' := by
  obtain ⟨hcolon, variant, hsegments⟩ := h
  obtain ⟨hcolon', variant', hsegments'⟩ := h'
  have hsame := List.append_inj_left' (hsegments.symm.trans hsegments') rfl
  cases set
  cases set'
  simp_all

/-- What is written determines the implementation. -/
theorem JobDerived.unique (h : JobDerived paths input impl) (h' : JobDerived paths input impl') :
    impl = impl' := by
  have hident : impl.ident = impl'.ident := h.ident.trans h'.ident.symm
  have hqueue : impl.queue = impl'.queue := by
    simpa using h.queue.symm.trans h'.queue
  have hset : impl.queueSet = impl'.queueSet := by
    have hset' := h'.queueSet
    rw [← hqueue] at hset'
    exact h.queueSet.unique hset'
  have hname : impl.name = impl'.name := by
    rcases h.name with ⟨hgiven, hname⟩ | ⟨s, hgiven, -, hname⟩ <;>
      rcases h'.name with ⟨hgiven', hname'⟩ | ⟨s', hgiven', -, hname'⟩ <;>
      simp_all
  have hretry : impl.retryPolicy = impl'.retryPolicy := by
    rcases h.retry with ⟨hgiven, hretry⟩ | ⟨list, spec, hgiven, hspec, hretry⟩ <;>
      rcases h'.retry with ⟨hgiven', hretry'⟩ | ⟨list', spec', hgiven', hspec', hretry'⟩ <;>
      simp_all
  have hcore : impl.core = impl'.core := by
    rcases h.core with ⟨hgiven, hcore⟩ | ⟨s, hgiven, hcore⟩ <;>
      rcases h'.core with ⟨hgiven', hcore'⟩ | ⟨s', hgiven', hcore'⟩ <;>
      simp_all
  cases impl
  cases impl'
  simp_all

/-- A type with a written name and a policy of its own. -/
def sendEmail : JobInput where
  attrs := [⟨"job", .list [("queue", .path ⟨false, ["AppQueues", "Emails"], by simp⟩),
    ("name", .other (.text "emails.send") "expected identifier"),
    ("retry", .other (.list [("max_attempts", .lit (.int 5 (.finite 5)))]) "expected identifier")]⟩]
  generic := false
  ident := ⟨"SendEmail", visible_of_all (by decide)⟩
  plain := by decide

example : (deriveJob mailPaths sendEmail).toOption.map (fun impl =>
    (impl.queueSet.segments, impl.name, impl.retryPolicy.map RetryPolicy.maxAttempts)) =
      some (["AppQueues"], .literal "emails.send", some 5) := by
  decide

/-! ## Names -/

/-- What follows the last colon of a list. -/
theorem after_colon {xs ys us vs : List Char} (hx : ':' ∉ xs) (hy : ':' ∉ ys)
    (h : us ++ ':' :: xs = vs ++ ':' :: ys) : us = vs ∧ xs = ys := by
  rcases List.append_eq_append_iff.mp h with ⟨ws, hv, hw⟩ | ⟨ws, hu, hw⟩
  · cases ws with
    | nil => simp_all
    | cons w ws =>
      obtain ⟨rfl, rfl⟩ := List.cons.inj hw
      simp at hx
  · cases ws with
    | nil => simp_all
    | cons w ws =>
      obtain ⟨rfl, rfl⟩ := List.cons.inj hw
      simp at hy

/-- A job's name shows, and no two types have the same one by default. -/
theorem job_name {paths' : CratePaths} {input' : JobInput} {modulePath modulePath' : String}
    (h : deriveJob paths input = .ok impl) (h' : deriveJob paths' input' = .ok impl') :
    ¬Blank (impl.name.eval modulePath) ∧
      (input.given "name" = [] → input'.given "name" = [] →
        impl.name.eval modulePath = impl'.name.eval modulePath' →
          modulePath = modulePath' ∧ impl.ident = impl'.ident) := by
  have hderived := derived_of_deriveJob h
  have hderived' := derived_of_deriveJob h'
  refine ⟨?_, fun hnone hnone' hsame => ?_⟩
  · rcases hderived.name with ⟨-, hname⟩ | ⟨s, -, hblank, hname⟩ <;> rw [hname]
    · intro hblank
      have hcolon := hblank ':' (by simp [JobName.eval])
      cases hcolon
    · exact hblank
  · have hname : impl.name = .default input.ident.text := by
      rcases hderived.name with ⟨-, hname⟩ | ⟨s, hgiven, -⟩
      · exact hname
      · rw [hnone] at hgiven
        cases hgiven
    have hname' : impl'.name = .default input'.ident.text := by
      rcases hderived'.name with ⟨-, hname⟩ | ⟨s, hgiven, -⟩
      · exact hname
      · rw [hnone'] at hgiven
        cases hgiven
    rw [hname, hname'] at hsame
    have hchars : (modulePath.toList ++ [':']) ++ ':' :: input.ident.text.toList =
        (modulePath'.toList ++ [':']) ++ ':' :: input'.ident.text.toList := by
      simpa [JobName.eval, String.toList_append] using congrArg String.toList hsame
    obtain ⟨hmodule, hident⟩ := after_colon input.plain input'.plain hchars
    refine ⟨String.toList_inj.mp (List.append_inj_left' hmodule rfl), ?_⟩
    rw [hderived.ident, hderived'.ident]
    exact Ident.mk.injEq .. |>.mpr (String.toList_inj.mp hident)

end Derived

end Queuey.Macros
