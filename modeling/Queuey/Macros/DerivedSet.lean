import Mathlib.Data.List.TakeWhile
import Queuey.Library.KeyList
import Queuey.Macros.Queues

/-!
# A derived queue set is a faithful naming

What a derive that accepts an enum emits: every variant once and in order, a name of its own
for each, made of the written or the default name, and a lookup that is the inverse of the
names.
-/
namespace Queuey.Macros
open KeyList

/-- Nothing but white space. -/
def Blank (s : String) : Prop := ∀ c ∈ s.toList, isWhitespace c

def Attr.itemList (attr : Attr) : List Item :=
  match attr.body with
  | .list items => items
  | _ => []

/-- What a key of the attributes of one name is given. -/
def givenTo (path key : String) (attrs : List Attr) : List Payload :=
  given key ((attrs.filter fun a => a.path = path).flatMap Attr.itemList)

abbrev Payload.text (s : String) : Payload := .value (.lit (.str s))

/-- The name a variant has before the prefix: the one that is written, or its own. -/
def BareName (t : CaseTable) (v : Variant) (bare : String) : Prop :=
  (givenTo "queue" "name" v.attrs = [] ∧ bare = snakeCase t v.ident.text) ∨
    givenTo "queue" "name" v.attrs = [.text bare]

/-- The prefix that is written on the enum, if any. -/
def WrittenPrefix (input : DeriveInput) : Option String → Prop
  | none => givenTo "queues" "prefix" input.attrs = []
  | some p => givenTo "queues" "prefix" input.attrs = [.text p]

def qualified (p : Option String) (bare : String) : String :=
  p.elim bare fun p => p ++ "." ++ bare

/-- The emitted set names the variants of the enum. -/
structure Faithful (t : CaseTable) (input : DeriveInput) (variants : List Variant)
    (set : QueueSetImpl) : Prop where
  all : set.all = variants.map Variant.ident
  once : set.all.Nodup
  named : ∃ p, WrittenPrefix input p ∧ (∀ s ∈ p, ¬Blank s) ∧ ∀ v ∈ variants, ∃ bare,
    BareName t v bare ∧ ¬Blank bare ∧ set.name v.ident = some (qualified p bare)
  injective : ∀ v ∈ variants, ∀ w ∈ variants, set.name v.ident = set.name w.ident →
    v.ident = w.ident
  config : ∀ v ∈ variants, ∃ c, set.config v.ident = some c ∧ set.name v.ident = some c.name
  fromName : ∀ v ∈ variants, ∀ s, set.name v.ident = some s → set.fromName s = some v.ident
  fromName_none : ∀ s, (∀ v ∈ variants, set.name v.ident ≠ some s) → set.fromName s = none

/-! ## Blank text -/

section Blank
variable {cs : List Char} {s key : String} {u : Unit}

theorem trim_eq_nil_iff : trim cs = [] ↔ ∀ c ∈ cs, isWhitespace c := by
  simp only [trim, trimEnd, trimStart, List.reverse_eq_nil_iff, List.dropWhile_eq_nil_iff,
    List.mem_reverse]
  constructor
  · intro h c hc
    by_contra hvisible
    -- a visible character is not dropped from the front, so it is left for the back
    have hmem : c ∈ cs.dropWhile isWhitespace := by
      rw [← List.takeWhile_append_dropWhile (p := isWhitespace) (l := cs)] at hc
      rcases List.mem_append.mp hc with hfront | hrest
      · exact absurd (List.mem_takeWhile_imp hfront) hvisible
      · exact hrest
    exact hvisible (h c hmem)
  · intro h c hc
    exact h c ((List.dropWhile_sublist isWhitespace).subset hc)

theorem rejectBlank_ok_iff : rejectBlank s key = .ok u ↔ ¬Blank s := by
  unfold rejectBlank Blank
  split
  · rename_i hempty
    simp [hempty]
  · split
    · rename_i htrim
      simpa using trim_eq_nil_iff.mp htrim
    · rename_i htrim
      simpa [trim_eq_nil_iff] using htrim

end Blank

/-! ## What the keys are read as -/

section Keys
variable {payload : Payload} {key s : String} {item : Item}

theorem litStr_ok {value : Value} (h : litStr key value = .ok s) : value = .lit (.str s) := by
  obtain ⟨⟨negated, l⟩, hlit, h⟩ := bind_ok h
  cases value with
  | lit found =>
    obtain ⟨rfl, rfl⟩ := Prod.mk.inj (Except.ok.inj hlit)
    cases found with
    | str text =>
      obtain rfl := Except.ok.inj h
      rfl
    | _ => cases h
  | negated found =>
    cases found <;> cases hlit <;> cases h
  | expr => cases hlit
  | malformed error => cases hlit

theorem text_of_litStr {value : Value} (hvalue : payload.eqValue = .ok value)
    (h : litStr key value = .ok s) : payload = .text s := by
  cases payload with
  | value v =>
    obtain rfl := Except.ok.inj hvalue
    rw [litStr_ok h]
  | _ => cases hvalue

/-- What one item of `#[queue(...)]` does to the keys read so far. -/
inductive QueueKey (parsed : QueueAttr) : Item → QueueAttr → Prop
  | name {s : String} : parsed.name = none → ¬Blank s →
      QueueKey parsed ("name", .text s) { parsed with name := some s }
  | prefetch {payload : Payload} {n : UInt16} :
      QueueKey parsed ("prefetch", payload) { parsed with prefetch := some n }
  | durable {payload : Payload} {b : Bool} :
      QueueKey parsed ("durable", payload) { parsed with durable := some b }
  | messageTtl {s : String} {millis : UInt64} : parsed.messageTtl = none →
      parseMessageTtl s = .ok millis →
      QueueKey parsed ("message_ttl", .text s) { parsed with messageTtl := some millis }
  | maxPriority {payload : Payload} {levels : UInt8} :
      QueueKey parsed ("max_priority", payload) { parsed with maxPriority := some levels }
  | retry {payload : Payload} {spec : RetrySpec} :
      QueueKey parsed ("retry", payload) { parsed with retry := some spec }

/-- A slot that could be set was empty. -/
theorem setOnce_empty {α : Type} {slot slot' : Option α} {v : α}
    (h : setOnce key slot v = .ok slot') : slot = none := by
  cases slot with
  | none => rfl
  | some w => cases h

theorem queueKey_of_ok {parsed parsed' : QueueAttr} (h : parseQueueKey parsed item = .ok parsed') :
    QueueKey parsed item parsed' := by
  obtain ⟨key, payload⟩ := item
  unfold parseQueueKey at h
  dsimp only at h
  split_ifs at h with hname hprefetch hdurable httl hpriority hretry
  · obtain ⟨value, hvalue, h⟩ := bind_ok h
    obtain ⟨s, hs, h⟩ := bind_ok h
    obtain ⟨_, hblank, h⟩ := bind_ok h
    obtain ⟨slot, hslot, h⟩ := bind_ok h
    obtain rfl := Except.ok.inj h
    rw [hname, text_of_litStr hvalue hs, setOnce_ok hslot]
    exact .name (setOnce_empty hslot) (rejectBlank_ok_iff.mp hblank)
  · obtain ⟨value, -, h⟩ := bind_ok h
    obtain ⟨n, -, h⟩ := bind_ok h
    obtain ⟨slot, hslot, h⟩ := bind_ok h
    obtain rfl := Except.ok.inj h
    rw [hprefetch, setOnce_ok hslot]
    exact .prefetch
  · obtain ⟨value, -, h⟩ := bind_ok h
    obtain ⟨b, -, h⟩ := bind_ok h
    obtain ⟨slot, hslot, h⟩ := bind_ok h
    obtain rfl := Except.ok.inj h
    rw [hdurable, setOnce_ok hslot]
    exact .durable
  · obtain ⟨value, hvalue, h⟩ := bind_ok h
    obtain ⟨s, hs, h⟩ := bind_ok h
    obtain ⟨millis, hmillis, h⟩ := bind_ok h
    obtain ⟨slot, hslot, h⟩ := bind_ok h
    obtain rfl := Except.ok.inj h
    rw [httl, text_of_litStr hvalue hs, setOnce_ok hslot]
    exact .messageTtl (setOnce_empty hslot) hmillis
  · obtain ⟨value, -, h⟩ := bind_ok h
    obtain ⟨n, -, h⟩ := bind_ok h
    obtain ⟨slot, hslot, h⟩ := bind_ok h
    obtain rfl := Except.ok.inj h
    rw [hpriority, setOnce_ok hslot]
    exact .maxPriority
  · obtain ⟨items, -, h⟩ := bind_ok h
    obtain ⟨spec, -, h⟩ := bind_ok h
    obtain ⟨slot, hslot, h⟩ := bind_ok h
    obtain rfl := Except.ok.inj h
    rw [hretry, setOnce_ok hslot]
    exact .retry

/-- What one item of `#[queues(...)]` does to the keys read so far. -/
inductive ContainerKey (parsed : ContainerAttr) : Item → ContainerAttr → Prop
  | prefixed {s : String} : parsed.prefixKey = none → ¬Blank s →
      ContainerKey parsed ("prefix", .text s) { parsed with prefixKey := some s }
  | core {payload : Payload} {path : String} :
      ContainerKey parsed ("crate", payload) { parsed with core := some path }

theorem containerKey_of_ok {paths : CratePaths} {parsed parsed' : ContainerAttr}
    (h : parseContainerKey paths parsed item = .ok parsed') : ContainerKey parsed item parsed' := by
  obtain ⟨key, payload⟩ := item
  unfold parseContainerKey at h
  dsimp only at h
  split_ifs at h with hname hcrate
  · obtain ⟨value, hvalue, h⟩ := bind_ok h
    obtain ⟨s, hs, h⟩ := bind_ok h
    obtain ⟨_, hblank, h⟩ := bind_ok h
    obtain ⟨-, -, h⟩ := bind_ok h
    obtain ⟨slot, hslot, h⟩ := bind_ok h
    obtain rfl := Except.ok.inj h
    rw [hname, text_of_litStr hvalue hs, setOnce_ok hslot]
    exact .prefixed (setOnce_empty hslot) (rejectBlank_ok_iff.mp hblank)
  · obtain ⟨value, -, h⟩ := bind_ok h
    obtain ⟨s, -, h⟩ := bind_ok h
    obtain ⟨path, -, h⟩ := bind_ok h
    obtain ⟨slot, hslot, h⟩ := bind_ok h
    obtain rfl := Except.ok.inj h
    rw [hcrate, setOnce_ok hslot]
    exact .core

end Keys

/-! ## The attributes of an accepted enum -/

section Attributes
variable {attrs : List Attr} {attr : QueueAttr} {container : ContainerAttr} {paths : CratePaths}

theorem parseAttrs_items {S : Type} {step : S → Item → Except String S} {s s' : S}
    (h : parseAttrs step attrs s = .ok s') :
    (attrs.flatMap Attr.itemList).foldlM step s = .ok s' := by
  unfold parseAttrs at h
  induction attrs generalizing s with
  | nil => exact h
  | cons a attrs ih =>
    rw [List.foldlM_cons] at h
    obtain ⟨next, hnext, h⟩ := bind_ok h
    obtain ⟨items, hitems, hnext⟩ := bind_ok hnext
    have hsame : a.itemList = items := by
      unfold Attr.items at hitems
      unfold Attr.itemList
      split at hitems
      · rename_i hbody
        obtain rfl := Except.ok.inj hitems
        rw [hbody]
      · rename_i hbody
        obtain rfl := Except.ok.inj hitems
        rw [hbody]
      · cases hitems
    rw [List.flatMap_cons, List.foldlM_append, hsame, hnext]
    exact ih h

theorem nameSlot : Slot parseQueueKey "name" QueueAttr.name
    (fun payload s => payload = .text s ∧ ¬Blank s) where
  fill parsed payload parsed' h := by
    have hkey := queueKey_of_ok h
    generalize hitem : ("name", payload) = item at hkey
    cases hkey with
    | name hempty hblank => exact ⟨hempty, _, ⟨(Prod.mk.inj hitem).2, hblank⟩, rfl⟩
    | _ => simp at hitem
  keep parsed item parsed' hne h := by
    cases queueKey_of_ok h with
    | name hempty hblank => exact absurd rfl hne
    | _ => rfl

theorem messageTtlSlot : Slot parseQueueKey "message_ttl" QueueAttr.messageTtl
    (fun payload millis => ∃ s, payload = .text s ∧ parseMessageTtl s = .ok millis) where
  fill parsed payload parsed' h := by
    have hkey := queueKey_of_ok h
    generalize hitem : ("message_ttl", payload) = item at hkey
    cases hkey with
    | messageTtl hempty hmillis => exact ⟨hempty, _, ⟨_, (Prod.mk.inj hitem).2, hmillis⟩, rfl⟩
    | _ => simp at hitem
  keep parsed item parsed' hne h := by
    cases queueKey_of_ok h with
    | messageTtl hempty hmillis => exact absurd rfl hne
    | _ => rfl

theorem prefixSlot (paths : CratePaths) :
    Slot (parseContainerKey paths) "prefix" ContainerAttr.prefixKey
      (fun payload s => payload = .text s ∧ ¬Blank s) where
  fill parsed payload parsed' h := by
    have hkey := containerKey_of_ok h
    generalize hitem : ("prefix", payload) = item at hkey
    cases hkey with
    | prefixed hempty hblank => exact ⟨hempty, _, ⟨(Prod.mk.inj hitem).2, hblank⟩, rfl⟩
    | core => simp at hitem
  keep parsed item parsed' hne h := by
    cases containerKey_of_ok h with
    | prefixed hempty hblank => exact absurd rfl hne
    | core => rfl

theorem queueAttr_items (h : parseQueueAttr attrs = .ok attr) :
    ((attrs.filter fun a => a.path = "queue").flatMap Attr.itemList).foldlM parseQueueKey .empty =
      .ok attr := by
  obtain ⟨_, -, h⟩ := bind_ok h
  exact parseAttrs_items h

theorem name_of_queueAttr (h : parseQueueAttr attrs = .ok attr) :
    (givenTo "queue" "name" attrs = [] ∧ attr.name = none) ∨
      ∃ s, givenTo "queue" "name" attrs = [.text s] ∧ ¬Blank s ∧ attr.name = some s := by
  rcases nameSlot.run_empty (queueAttr_items h) rfl with hnone | ⟨p, s, hgiven, ⟨rfl, hblank⟩, hs⟩
  · exact .inl hnone
  · exact .inr ⟨s, hgiven, hblank, hs⟩

theorem prefix_of_container (h : parseContainerAttr paths attrs = .ok container) :
    (givenTo "queues" "prefix" attrs = [] ∧ container.prefixKey = none) ∨
      ∃ s, givenTo "queues" "prefix" attrs = [.text s] ∧ ¬Blank s ∧
        container.prefixKey = some s := by
  obtain ⟨_, -, h⟩ := bind_ok h
  rcases (prefixSlot paths).run_empty (parseAttrs_items h) rfl with
    hnone | ⟨p, s, hgiven, ⟨rfl, hblank⟩, hs⟩
  · exact .inl hnone
  · exact .inr ⟨s, hgiven, hblank, hs⟩

end Attributes

/-! ## Names -/

section Names
variable {t : CaseTable} {container : ContainerAttr} {v : Variant} {queue : ResolvedQueue}

theorem snakeLoop_visible {previous : Option Char} {out cs : List Char}
    (hout : ∀ d ∈ out, isWhitespace d = false) (hcs : ∀ c ∈ cs, isWhitespace c = false) :
    ∀ d ∈ snakeLoop t previous out cs, isWhitespace d = false := by
  induction cs generalizing previous out with
  | nil => exact hout
  | cons c cs ih =>
    have hc := hcs c (List.mem_cons_self ..)
    apply ih _ fun d hd => hcs d (List.mem_cons_of_mem c hd)
    have hpush : ∀ d ∈ out ++ ['_'], isWhitespace d = false := by
      intro d hd
      rcases List.mem_append.mp hd with hd | hd
      · exact hout d hd
      · obtain rfl := List.mem_singleton.mp hd
        rfl
    unfold snakeStep
    split
    · split
      · exact hpush
      · exact hout
    · intro d hd
      rcases List.mem_append.mp hd with hd | hd
      · split at hd
        · exact hpush d hd
        · exact hout d hd
      · exact t.toLowercase_visible c hc d hd

/-- A default name that is not empty shows. -/
theorem snakeCase_not_blank {ident : Ident} (hne : snakeCase t ident.text ≠ "") :
    ¬Blank (snakeCase t ident.text) := by
  intro hblank
  have hvisible : ∀ d ∈ (snakeCase t ident.text).toList, isWhitespace d = false := by
    rw [snakeCase, String.toList_ofList]
    exact snakeLoop_visible (by simp) ident.visible
  cases hout : (snakeCase t ident.text).toList with
  | nil => exact hne (String.toList_eq_nil_iff.mp hout)
  | cons d rest =>
    have hd : d ∈ (snakeCase t ident.text).toList := by simp [hout]
    have hboth := (hvisible d hd).symm.trans (hblank d hd)
    cases hboth

/-- What a variant is resolved to. -/
theorem attr_of_resolve (h : resolveVariant t container v = .ok queue) :
    ∃ attr, parseQueueAttr v.attrs = .ok attr ∧
      attr.name.getD (snakeCase t v.ident.text) ≠ "" ∧
      queue = ⟨v.ident, container.qualify (attr.name.getD (snakeCase t v.ident.text)), attr⟩ := by
  unfold resolveVariant at h
  split at h
  · cases h
  obtain ⟨attr, hattr, h⟩ := bind_ok h
  dsimp only at h
  split at h
  · cases h
  · rename_i hne
    exact ⟨attr, hattr, hne, (Except.ok.inj h).symm⟩

theorem resolve_ok (h : resolveVariant t container v = .ok queue) : queue.ident = v.ident ∧
    ∃ bare, BareName t v bare ∧ ¬Blank bare ∧ queue.name = qualified container.prefixKey bare := by
  obtain ⟨attr, hattr, hne, rfl⟩ := attr_of_resolve h
  refine ⟨rfl, attr.name.getD (snakeCase t v.ident.text), ?_, ?_, ?_⟩
  · rcases name_of_queueAttr hattr with ⟨hgiven, hname⟩ | ⟨s, hgiven, -, hname⟩
    · rw [hname]
      exact .inl ⟨hgiven, rfl⟩
    · rw [hname]
      exact .inr hgiven
  · rcases name_of_queueAttr hattr with ⟨-, hname⟩ | ⟨s, -, hblank, hname⟩
    · rw [hname] at hne ⊢
      exact snakeCase_not_blank hne
    · rwa [hname]
  · unfold ContainerAttr.qualify qualified
    cases container.prefixKey <;> rfl

/-- The time-to-live of a variant is the one that is written. -/
theorem messageTtl_of_resolve (h : resolveVariant t container v = .ok queue) :
    (givenTo "queue" "message_ttl" v.attrs = [] ∧ queue.attr.messageTtl = none) ∨
      ∃ s millis, givenTo "queue" "message_ttl" v.attrs = [.text s] ∧
        parseMessageTtl s = .ok millis ∧ queue.attr.messageTtl = some millis := by
  obtain ⟨attr, hattr, -, rfl⟩ := attr_of_resolve h
  rcases messageTtlSlot.run_empty (queueAttr_items hattr) rfl with
    hnone | ⟨p, millis, hgiven, ⟨s, rfl, hparse⟩, hsome⟩
  · exact .inl hnone
  · exact .inr ⟨s, millis, hgiven, hparse, hsome⟩

end Names

/-! ## The emitted set -/

section Emitted
variable {t : CaseTable} {paths : CratePaths} {input : DeriveInput} {set : QueueSetImpl}
  {container : ContainerAttr} {variants : List Variant} {resolved : List ResolvedQueue}
  {queue : ResolvedQueue}

theorem forall₂_of_mapM {α β : Type} {f : α → Except String β} {xs : List α} {ys : List β}
    (h : xs.mapM f = .ok ys) : List.Forall₂ (fun x y => f x = .ok y) xs ys := by
  induction xs generalizing ys with
  | nil =>
    obtain rfl := Except.ok.inj h
    exact .nil
  | cons x xs ih =>
    rw [List.mapM_cons] at h
    obtain ⟨y, hy, h⟩ := bind_ok h
    obtain ⟨rest, hrest, h⟩ := bind_ok h
    obtain rfl := Except.ok.inj h
    exact .cons hy (ih hrest)

theorem nodup_of_rejectDuplicates {names : List String} {u : Unit}
    (h : rejectDuplicates names = .ok u) : names.Nodup := by
  unfold rejectDuplicates at h
  split at h
  · cases h
  · rename_i table htable
    have hnodup := (Table.nodup_of_addAll htable).1
    simpa [Function.comp_def] using hnodup

/-- The arm of a variant is found under its identifier. -/
theorem lookup_arm {β : Type} (f : ResolvedQueue → β)
    (hnodup : (resolved.map ResolvedQueue.ident).Nodup) (hmem : queue ∈ resolved) :
    (resolved.map fun queue => (queue.ident, f queue)).lookup queue.ident = some (f queue) := by
  induction resolved with
  | nil => cases hmem
  | cons first rest ih =>
    obtain ⟨hfirst, hnodup⟩ := List.nodup_cons.mp hnodup
    rcases List.mem_cons.mp hmem with rfl | hmem
    · simp
    · have hne : queue.ident ≠ first.ident := by
        intro hsame
        exact hfirst (hsame ▸ List.mem_map_of_mem hmem)
      rw [List.map_cons, List.lookup_cons, beq_false_of_ne hne]
      exact ih hnodup hmem

/-- The variants one by one, with what each was resolved to. -/
structure Resolves (t : CaseTable) (container : ContainerAttr) (variants : List Variant)
    (resolved : List ResolvedQueue) : Prop where
  each : List.Forall₂ (fun v queue => resolveVariant t container v = .ok queue) variants resolved
  distinct : (variants.map Variant.ident).Nodup
  names : (resolved.map ResolvedQueue.name).Nodup

theorem Resolves.idents (h : Resolves t container variants resolved) :
    resolved.map ResolvedQueue.ident = variants.map Variant.ident := by
  have heach := h.each
  clear h
  induction heach with
  | nil => rfl
  | cons hfirst _ ih => rw [List.map_cons, List.map_cons, ih, (resolve_ok hfirst).1]

theorem Resolves.queue_of_variant (h : Resolves t container variants resolved) {v : Variant}
    (hv : v ∈ variants) : ∃ queue ∈ resolved, resolveVariant t container v = .ok queue := by
  have heach := h.each
  clear h
  induction heach with
  | nil => cases hv
  | cons hfirst _ ih =>
    rcases List.mem_cons.mp hv with rfl | hv
    · exact ⟨_, List.mem_cons_self .., hfirst⟩
    · obtain ⟨queue, hqueue, hok⟩ := ih hv
      exact ⟨queue, List.mem_cons_of_mem _ hqueue, hok⟩

/-- Each variant is given the name and the configuration it was resolved to. -/
theorem Resolves.arms (h : Resolves t container variants resolved) {v : Variant}
    (hv : v ∈ variants) : ∃ queue ∈ resolved, resolveVariant t container v = .ok queue ∧
      queue.ident = v.ident ∧ (emit resolved).name v.ident = some queue.name ∧
      (emit resolved).config v.ident = some (configExpr queue) := by
  obtain ⟨queue, hqueue, hok⟩ := h.queue_of_variant hv
  have hident := (resolve_ok hok).1
  have hnodup : (resolved.map ResolvedQueue.ident).Nodup := by
    rw [h.idents]
    exact h.distinct
  refine ⟨queue, hqueue, hok, hident, ?_, ?_⟩
  · rw [← hident]
    exact lookup_arm ResolvedQueue.name hnodup hqueue
  · rw [← hident]
    exact lookup_arm configExpr hnodup hqueue

theorem configExpr_name (queue : ResolvedQueue) : (configExpr queue).name = queue.name := by
  unfold configExpr
  cases queue.attr.prefetch <;> cases queue.attr.durable <;> cases queue.attr.messageTtl <;>
    cases queue.attr.maxPriority <;> cases queue.attr.retry <;> rfl

theorem Resolves.injective (h : Resolves t container variants resolved) {v w : Variant}
    (hv : v ∈ variants) (hw : w ∈ variants)
    (hsame : (emit resolved).name v.ident = (emit resolved).name w.ident) :
    v.ident = w.ident := by
  obtain ⟨q, hq, -, hvq, hnameq, -⟩ := h.arms hv
  obtain ⟨r, hr, -, hwr, hnamer, -⟩ := h.arms hw
  rw [hnameq, hnamer] at hsame
  have heq : q = r := List.inj_on_of_nodup_map h.names hq hr (Option.some.inj hsame)
  rw [← hvq, ← hwr, heq]

theorem Resolves.fromName (h : Resolves t container variants resolved) {v : Variant} {s : String}
    (hv : v ∈ variants) (hs : (emit resolved).name v.ident = some s) :
    (emit resolved).fromName s = some v.ident := by
  have hall : (emit resolved).all = variants.map Variant.ident := h.idents
  unfold QueueSetImpl.fromName
  rw [hall]
  cases hfind : (variants.map Variant.ident).find?
      fun v => (emit resolved).name v = some s with
  | none =>
    have hnone := List.find?_eq_none.mp hfind v.ident (List.mem_map_of_mem hv)
    simp [hs] at hnone
  | some found =>
    have hfound : (emit resolved).name found = some s := by simpa using List.find?_some hfind
    obtain ⟨w, hw, rfl⟩ := List.mem_map.mp (List.mem_of_find?_eq_some hfind)
    rw [h.injective hw hv (hfound.trans hs.symm)]

theorem Resolves.fromName_none (h : Resolves t container variants resolved) {s : String}
    (hs : ∀ v ∈ variants, (emit resolved).name v.ident ≠ some s) :
    (emit resolved).fromName s = none := by
  have hall : (emit resolved).all = variants.map Variant.ident := h.idents
  unfold QueueSetImpl.fromName
  rw [hall, List.find?_eq_none]
  intro found hfound
  obtain ⟨v, hv, rfl⟩ := List.mem_map.mp hfound
  simpa using hs v hv

theorem resolves_of_derive {distinct : (variants.map Variant.ident).Nodup}
    (hdata : input.data = .enumeration variants distinct)
    (h : derive t paths input = .ok set) :
    ∃ container resolved, parseContainerAttr paths input.attrs = .ok container ∧
      Resolves t container variants resolved ∧ set = emit resolved := by
  unfold derive at h
  rw [hdata] at h
  dsimp only at h
  split at h
  · cases h
  split at h
  · cases h
  obtain ⟨container, hcontainer, h⟩ := bind_ok h
  obtain ⟨_, -, h⟩ := bind_ok h
  obtain ⟨resolved, hresolved, h⟩ := bind_ok h
  obtain ⟨_, hduplicates, h⟩ := bind_ok h
  obtain rfl := Except.ok.inj h
  exact ⟨container, resolved, hcontainer, ⟨forall₂_of_mapM hresolved, distinct,
    nodup_of_rejectDuplicates hduplicates⟩, rfl⟩

/-- Every enum that is accepted is named faithfully. -/
theorem derived_faithful (t : CaseTable) (paths : CratePaths) (input : DeriveInput)
    (variants : List Variant) (distinct : (variants.map Variant.ident).Nodup)
    (hdata : input.data = .enumeration variants distinct) (set : QueueSetImpl)
    (h : derive t paths input = .ok set) : Faithful t input variants set := by
  obtain ⟨container, resolved, hcontainer, hres, rfl⟩ := resolves_of_derive hdata h
  have hall : (emit resolved).all = variants.map Variant.ident := hres.idents
  refine ⟨hall, hall ▸ distinct, ⟨container.prefixKey, ?_, ?_, ?_⟩, ?_, ?_, ?_, ?_⟩
  · rcases prefix_of_container hcontainer with ⟨hgiven, hkey⟩ | ⟨s, hgiven, -, hkey⟩
    · rwa [hkey]
    · rwa [hkey]
  · rcases prefix_of_container hcontainer with ⟨-, hkey⟩ | ⟨s, -, hblank, hkey⟩
    · simp [hkey]
    · simpa [hkey] using hblank
  · intro v hv
    obtain ⟨queue, -, hok, -, hname, -⟩ := hres.arms hv
    obtain ⟨-, bare, hbare, hblank, hqualified⟩ := resolve_ok hok
    exact ⟨bare, hbare, hblank, hqualified ▸ hname⟩
  · intro v hv w hw hsame
    exact hres.injective hv hw hsame
  · intro v hv
    obtain ⟨queue, -, -, -, hname, hconfig⟩ := hres.arms hv
    exact ⟨configExpr queue, hconfig, by rw [configExpr_name, hname]⟩
  · intro v hv s hs
    exact hres.fromName hv hs
  · intro s hs
    exact hres.fromName_none hs

/-- A default name and a written one, under a prefix. -/
def mailVariants : List Variant :=
  [⟨⟨"SendEmails", visible_of_all (by decide)⟩, true, []⟩,
    ⟨⟨"HTTPCalls", visible_of_all (by decide)⟩, true,
      [⟨"queue", .list [("name", .text "calls")]⟩]⟩]

def mailInput : DeriveInput where
  attrs := [⟨"queues", .list [("prefix", .text "myapp")]⟩]
  generic := false
  data := .enumeration mailVariants (by decide)

def mailPaths : CratePaths := ⟨some, .ok "::queuey_core"⟩

def mailSet : QueueSetImpl :=
  emit [⟨⟨"SendEmails", visible_of_all (by decide)⟩, "myapp.send_emails", .empty⟩,
    ⟨⟨"HTTPCalls", visible_of_all (by decide)⟩, "myapp.calls",
      { QueueAttr.empty with name := some "calls" }⟩]

theorem derived_faithful_mail : Faithful asciiTable mailInput mailVariants mailSet :=
  derived_faithful asciiTable mailPaths mailInput mailVariants (by decide) rfl mailSet
    (by decide)

end Emitted

end Queuey.Macros
