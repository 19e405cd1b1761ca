import Queuey.Library.KeyForm
import Queuey.Macros.DerivedSet
import Queuey.Macros.RetryGrammar

/-!
# The order of the keys

Each attribute of the derives is a form: a key is read whatever else is written, and goes into
a slot of its own. So the keys may come in any order, on one attribute or on several, and the
keys of a `retry(...)` list in any order within it.
-/
namespace Queuey.Macros

/-! ## The forms -/

theorem retryForm : KeyForm (fun raw item => parseKey raw item.1 item.2)
    (fun item entry => Reads item entry ∧ entry.Positive) Entry.key RetryRaw.taken RetryRaw.put where
  step_ok raw item raw' := by
    constructor
    · intro h
      obtain ⟨entry, hreads, hpos, hfree, rfl⟩ := parseKey_ok h
      exact ⟨entry, ⟨hreads, hpos⟩, hfree, rfl⟩
    · rintro ⟨entry, ⟨hreads, hpos⟩, hfree, rfl⟩
      exact parseKey_reads hreads hpos hfree
  taken_put := taken_put
  put_comm raw a b hkey := by
    cases a <;> cases b <;> first | rfl | exact absurd rfl hkey

theorem parseRetry_perm {items items' : List (String × Value)} {spec : RetrySpec}
    (perm : items'.Perm items) (h : parseRetry items = .ok spec) : parseRetry items' = .ok spec := by
  obtain ⟨raw, hraw, hfinish⟩ := bind_ok h
  exact bind_ok_iff.mpr ⟨raw, retryForm.run_perm perm hraw, hfinish⟩

/-- One key of `#[queue(...)]` with its value. -/
inductive QueueEntry where
  | name (s : String)
  | prefetch (n : UInt16)
  | durable (b : Bool)
  | messageTtl (millis : UInt64)
  | maxPriority (levels : UInt8)
  | retry (spec : RetrySpec)

namespace QueueEntry

def key : QueueEntry → String
  | name _ => "name"
  | prefetch _ => "prefetch"
  | durable _ => "durable"
  | messageTtl _ => "message_ttl"
  | maxPriority _ => "max_priority"
  | retry _ => "retry"

/-- What is written after the key reads as the value. -/
def ReadsAs (payload : Payload) : QueueEntry → Prop
  | name s => ∃ value, payload.eqValue = .ok value ∧ litStr "name" value = .ok s ∧
      rejectBlank s "name" = .ok ()
  | prefetch n => ∃ value, payload.eqValue = .ok value ∧ parsePrefetch value = .ok n
  | durable b => ∃ value, payload.eqValue = .ok value ∧ litBool "durable" value = .ok b
  | messageTtl millis => ∃ value, payload.eqValue = .ok value ∧
      ∃ s, litStr "message_ttl" value = .ok s ∧ parseMessageTtl s = .ok millis
  | maxPriority levels => ∃ value, payload.eqValue = .ok value ∧
      ∃ n, litInt "max_priority" maxPriorityRange 255 value = .ok n ∧ levels = UInt8.ofNat n
  | retry spec => ∃ items, payload.parenthesized = .ok items ∧ parseRetry items = .ok spec

end QueueEntry

namespace QueueAttr

def taken (parsed : QueueAttr) : QueueEntry → Bool
  | .name _ => parsed.name.isSome
  | .prefetch _ => parsed.prefetch.isSome
  | .durable _ => parsed.durable.isSome
  | .messageTtl _ => parsed.messageTtl.isSome
  | .maxPriority _ => parsed.maxPriority.isSome
  | .retry _ => parsed.retry.isSome

def put (parsed : QueueAttr) : QueueEntry → QueueAttr
  | .name s => { parsed with name := parsed.name.or (some s) }
  | .prefetch n => { parsed with prefetch := parsed.prefetch.or (some n) }
  | .durable b => { parsed with durable := parsed.durable.or (some b) }
  | .messageTtl millis => { parsed with messageTtl := parsed.messageTtl.or (some millis) }
  | .maxPriority levels => { parsed with maxPriority := parsed.maxPriority.or (some levels) }
  | .retry spec => { parsed with retry := parsed.retry.or (some spec) }

end QueueAttr

section Queue
variable {parsed parsed' : QueueAttr} {key : String} {payload : Payload} {entry : QueueEntry}

theorem parseQueueKey_reads (hreads : entry.ReadsAs payload) (hfree : parsed.taken entry = false) :
    parseQueueKey parsed (entry.key, payload) = .ok (parsed.put entry) := by
  cases entry with
  | name s =>
    obtain ⟨value, hvalue, hs, hblank⟩ := hreads
    exact bind_ok_iff.mpr ⟨value, hvalue, bind_ok_iff.mpr ⟨s, hs, bind_ok_iff.mpr ⟨(), hblank,
      setOnce_bind_ok.mpr ⟨hfree, rfl⟩⟩⟩⟩
  | prefetch n =>
    obtain ⟨value, hvalue, hn⟩ := hreads
    exact bind_ok_iff.mpr ⟨value, hvalue, bind_ok_iff.mpr ⟨n, hn,
      setOnce_bind_ok.mpr ⟨hfree, rfl⟩⟩⟩
  | durable b =>
    obtain ⟨value, hvalue, hb⟩ := hreads
    exact bind_ok_iff.mpr ⟨value, hvalue, bind_ok_iff.mpr ⟨b, hb,
      setOnce_bind_ok.mpr ⟨hfree, rfl⟩⟩⟩
  | messageTtl millis =>
    obtain ⟨value, hvalue, s, hs, hmillis⟩ := hreads
    exact bind_ok_iff.mpr ⟨value, hvalue, bind_ok_iff.mpr ⟨s, hs, bind_ok_iff.mpr ⟨millis, hmillis,
      setOnce_bind_ok.mpr ⟨hfree, rfl⟩⟩⟩⟩
  | maxPriority levels =>
    obtain ⟨value, hvalue, n, hn, rfl⟩ := hreads
    exact bind_ok_iff.mpr ⟨value, hvalue, bind_ok_iff.mpr ⟨n, hn,
      setOnce_bind_ok.mpr ⟨hfree, rfl⟩⟩⟩
  | retry spec =>
    obtain ⟨items, hitems, hspec⟩ := hreads
    exact bind_ok_iff.mpr ⟨items, hitems, bind_ok_iff.mpr ⟨spec, hspec,
      setOnce_bind_ok.mpr ⟨hfree, rfl⟩⟩⟩

theorem parseQueueKey_ok (h : parseQueueKey parsed (key, payload) = .ok parsed') :
    ∃ entry : QueueEntry, (key = entry.key ∧ entry.ReadsAs payload) ∧ parsed.taken entry = false ∧
      parsed' = parsed.put entry := by
  unfold parseQueueKey at h
  dsimp only at h
  split_ifs at h with hname hprefetch hdurable httl hpriority hretry
  · subst hname
    obtain ⟨value, hvalue, h⟩ := bind_ok h
    obtain ⟨s, hs, h⟩ := bind_ok h
    obtain ⟨_, hblank, h⟩ := bind_ok h
    obtain ⟨hslot, rfl⟩ := setOnce_bind_ok.mp h
    exact ⟨.name s, ⟨rfl, value, hvalue, hs, hblank⟩, hslot, rfl⟩
  · subst hprefetch
    obtain ⟨value, hvalue, h⟩ := bind_ok h
    obtain ⟨n, hn, h⟩ := bind_ok h
    obtain ⟨hslot, rfl⟩ := setOnce_bind_ok.mp h
    exact ⟨.prefetch n, ⟨rfl, value, hvalue, hn⟩, hslot, rfl⟩
  · subst hdurable
    obtain ⟨value, hvalue, h⟩ := bind_ok h
    obtain ⟨b, hb, h⟩ := bind_ok h
    obtain ⟨hslot, rfl⟩ := setOnce_bind_ok.mp h
    exact ⟨.durable b, ⟨rfl, value, hvalue, hb⟩, hslot, rfl⟩
  · subst httl
    obtain ⟨value, hvalue, h⟩ := bind_ok h
    obtain ⟨s, hs, h⟩ := bind_ok h
    obtain ⟨millis, hmillis, h⟩ := bind_ok h
    obtain ⟨hslot, rfl⟩ := setOnce_bind_ok.mp h
    exact ⟨.messageTtl millis, ⟨rfl, value, hvalue, s, hs, hmillis⟩, hslot, rfl⟩
  · subst hpriority
    obtain ⟨value, hvalue, h⟩ := bind_ok h
    obtain ⟨n, hn, h⟩ := bind_ok h
    obtain ⟨hslot, rfl⟩ := setOnce_bind_ok.mp h
    exact ⟨.maxPriority _, ⟨rfl, value, hvalue, n, hn, rfl⟩, hslot, rfl⟩
  · subst hretry
    obtain ⟨items, hitems, h⟩ := bind_ok h
    obtain ⟨spec, hspec, h⟩ := bind_ok h
    obtain ⟨hslot, rfl⟩ := setOnce_bind_ok.mp h
    exact ⟨.retry spec, ⟨rfl, items, hitems, hspec⟩, hslot, rfl⟩

theorem queueForm : KeyForm parseQueueKey
    (fun item entry => item.1 = entry.key ∧ entry.ReadsAs item.2) QueueEntry.key QueueAttr.taken
    QueueAttr.put where
  step_ok parsed item parsed' := by
    obtain ⟨key, payload⟩ := item
    constructor
    · exact parseQueueKey_ok
    · rintro ⟨entry, ⟨rfl, hreads⟩, hfree, rfl⟩
      exact parseQueueKey_reads hreads hfree
  taken_put parsed a b := by
    cases a <;> cases b <;> simp [QueueAttr.put, QueueAttr.taken, QueueEntry.key]
  put_comm parsed a b hkey := by
    cases a <;> cases b <;> first | rfl | exact absurd rfl hkey

end Queue

/-- One key of `#[queues(...)]` with its value. -/
inductive ContainerEntry where
  | prefixKey (s : String)
  | core (path : String)

namespace ContainerEntry

def key : ContainerEntry → String
  | prefixKey _ => "prefix"
  | core _ => "crate"

def ReadsAs (paths : CratePaths) (payload : Payload) : ContainerEntry → Prop
  | prefixKey s => ∃ value, payload.eqValue = .ok value ∧ litStr "prefix" value = .ok s ∧
      rejectBlank s "prefix" = .ok () ∧ rejectTrailingSeparator s = .ok ()
  | core path => ∃ value, payload.eqValue = .ok value ∧
      ∃ s, litStr "crate" value = .ok s ∧ parseCratePath paths s = .ok path

end ContainerEntry

namespace ContainerAttr

def taken (parsed : ContainerAttr) : ContainerEntry → Bool
  | .prefixKey _ => parsed.prefixKey.isSome
  | .core _ => parsed.core.isSome

def put (parsed : ContainerAttr) : ContainerEntry → ContainerAttr
  | .prefixKey s => { parsed with prefixKey := parsed.prefixKey.or (some s) }
  | .core path => { parsed with core := parsed.core.or (some path) }

end ContainerAttr

theorem containerForm (paths : CratePaths) : KeyForm (parseContainerKey paths)
    (fun item entry => item.1 = entry.key ∧ entry.ReadsAs paths item.2) ContainerEntry.key
    ContainerAttr.taken ContainerAttr.put where
  step_ok parsed item parsed' := by
    obtain ⟨key, payload⟩ := item
    constructor
    · intro h
      unfold parseContainerKey at h
      dsimp only at h
      split_ifs at h with hname hcrate
      · subst hname
        obtain ⟨value, hvalue, h⟩ := bind_ok h
        obtain ⟨s, hs, h⟩ := bind_ok h
        obtain ⟨_, hblank, h⟩ := bind_ok h
        obtain ⟨_, hsep, h⟩ := bind_ok h
        obtain ⟨hslot, rfl⟩ := setOnce_bind_ok.mp h
        exact ⟨.prefixKey s, ⟨rfl, value, hvalue, hs, hblank, hsep⟩, hslot, rfl⟩
      · subst hcrate
        obtain ⟨value, hvalue, h⟩ := bind_ok h
        obtain ⟨s, hs, h⟩ := bind_ok h
        obtain ⟨path, hpath, h⟩ := bind_ok h
        obtain ⟨hslot, rfl⟩ := setOnce_bind_ok.mp h
        exact ⟨.core path, ⟨rfl, value, hvalue, s, hs, hpath⟩, hslot, rfl⟩
    · rintro ⟨entry, ⟨hkey, hreads⟩, hfree, rfl⟩
      dsimp only at hkey
      subst hkey
      cases entry with
      | prefixKey s =>
        obtain ⟨value, hvalue, hs, hblank, hsep⟩ := hreads
        exact bind_ok_iff.mpr ⟨value, hvalue, bind_ok_iff.mpr ⟨s, hs, bind_ok_iff.mpr ⟨(), hblank,
          bind_ok_iff.mpr ⟨(), hsep, setOnce_bind_ok.mpr ⟨hfree, rfl⟩⟩⟩⟩⟩
      | core path =>
        obtain ⟨value, hvalue, s, hs, hpath⟩ := hreads
        exact bind_ok_iff.mpr ⟨value, hvalue, bind_ok_iff.mpr ⟨s, hs, bind_ok_iff.mpr ⟨path, hpath,
          setOnce_bind_ok.mpr ⟨hfree, rfl⟩⟩⟩⟩
  taken_put parsed a b := by
    cases a <;> cases b <;> simp [ContainerAttr.put, ContainerAttr.taken, ContainerEntry.key]
  put_comm parsed a b hkey := by
    cases a <;> cases b <;> first | rfl | exact absurd rfl hkey

/-! ## Rearranged attributes -/

/-- The same value, or the same `retry(...)` list in some order. -/
def Payload.Alike : Payload → Payload → Prop
  | list items, list items' => items'.Perm items
  | p, p' => p' = p

def Item.Alike (i j : Item) : Prop := j.1 = i.1 ∧ i.2.Alike j.2

/-- The same items in some order. -/
def Shuffled (items items' : List Item) : Prop :=
  ∃ mid, mid.Perm items ∧ List.Forall₂ Item.Alike mid items'

/-- The attribute is well formed as far as the token parser goes. -/
def Attr.Readable (attr : Attr) : Prop := ∀ error, attr.body ≠ .malformed error

/-- The attributes of one name. -/
def named (path : String) (attrs : List Attr) : List Attr := attrs.filter fun a => a.path = path

/-- The same attribute names, and for each the same items in some order. -/
structure Rearranged (attrs attrs' : List Attr) : Prop where
  written : ∀ path, named path attrs = [] ↔ named path attrs' = []
  readable : ∀ path, (∀ a ∈ named path attrs, a.Readable) ↔ ∀ a ∈ named path attrs', a.Readable
  items : ∀ path, Shuffled ((named path attrs).flatMap Attr.itemList)
    ((named path attrs').flatMap Attr.itemList)

structure Variant.Rearranged (v w : Variant) : Prop where
  ident : w.ident = v.ident
  unit : w.unit = v.unit
  attrs : Macros.Rearranged v.attrs w.attrs

def Data.Rearranged : Data → Data → Prop
  | enumeration variants _, enumeration variants' _ =>
    List.Forall₂ Variant.Rearranged variants variants'
  | other, other => True
  | _, _ => False

structure DeriveInput.Rearranged (input input' : DeriveInput) : Prop where
  generic : input'.generic = input.generic
  attrs : Macros.Rearranged input.attrs input'.attrs
  data : input.data.Rearranged input'.data

section Rearranging
variable {attrs attrs' : List Attr} {items items' : List Item} {i j : Item} {p p' : Payload}

theorem Payload.Alike.symm (h : p.Alike p') : p'.Alike p := by
  cases p <;> cases p' <;> first | exact List.Perm.symm h | exact Eq.symm h

theorem Item.Alike.symm (h : i.Alike j) : j.Alike i := ⟨h.1.symm, h.2.symm⟩

theorem Shuffled.symm (h : Shuffled items items') : Shuffled items' items := by
  obtain ⟨mid, hperm, halike⟩ := h
  obtain ⟨mid', halike', hperm'⟩ := List.perm_comp_forall₂ hperm.symm halike
  exact ⟨mid', hperm', halike'.flip.imp fun _ _ h => Item.Alike.symm h⟩

theorem Rearranged.symm (h : Rearranged attrs attrs') : Rearranged attrs' attrs :=
  ⟨fun path => (h.written path).symm, fun path => (h.readable path).symm, fun path =>
    (h.items path).symm⟩

theorem Variant.Rearranged.symm {v w : Variant} (h : v.Rearranged w) : w.Rearranged v :=
  ⟨h.ident.symm, h.unit.symm, h.attrs.symm⟩

theorem DeriveInput.Rearranged.symm {input input' : DeriveInput} (h : input.Rearranged input') :
    input'.Rearranged input := by
  refine ⟨h.generic.symm, h.attrs.symm, ?_⟩
  have hdata := h.data
  cases hd : input.data <;> cases hd' : input'.data <;> rw [hd, hd'] at hdata
  · exact hdata.flip.imp fun _ _ h => h.symm
  · exact hdata
  · exact hdata
  · trivial

/-- A form takes shuffled items that read alike as well. -/
theorem run_shuffled {S A K : Type} {step : S → Item → Except String S} {Reads : Item → A → Prop}
    {key : A → K} {taken : S → A → Bool} {put : S → A → S} {s s' : S}
    (form : KeyForm step Reads key taken put)
    (alike : ∀ i j, i.Alike j → ∀ a, Reads i a → Reads j a) (h : Shuffled items items')
    (hrun : items.foldlM step s = .ok s') : items'.foldlM step s = .ok s' := by
  obtain ⟨mid, hperm, halike⟩ := h
  exact form.run_congr (halike.imp alike) (form.run_perm hperm hrun)

theorem Payload.Alike.eqValue {value : Value} (h : p.Alike p') (hp : p.eqValue = .ok value) :
    p'.eqValue = .ok value := by
  cases p with
  | value v =>
    obtain rfl : p' = .value v := h
    exact hp
  | _ => cases hp

theorem Payload.Alike.parenthesized {list : List (String × Value)} (h : p.Alike p')
    (hp : p.parenthesized = .ok list) : ∃ list', p'.parenthesized = .ok list' ∧ list'.Perm list := by
  cases p with
  | list found =>
    obtain rfl := Except.ok.inj hp
    cases p' with
    | list found' => exact ⟨found', rfl, h⟩
    | _ => cases h
  | _ => cases hp

theorem QueueEntry.ReadsAs.alike {entry : QueueEntry} (h : p.Alike p')
    (hreads : entry.ReadsAs p) : entry.ReadsAs p' := by
  cases entry with
  | retry spec =>
    obtain ⟨list, hlist, hspec⟩ := hreads
    obtain ⟨list', hlist', hperm⟩ := h.parenthesized hlist
    exact ⟨list', hlist', parseRetry_perm hperm hspec⟩
  | _ =>
    obtain ⟨value, hvalue, hread⟩ := hreads
    exact ⟨value, h.eqValue hvalue, hread⟩

theorem ContainerEntry.ReadsAs.alike {paths : CratePaths} {entry : ContainerEntry}
    (h : p.Alike p') (hreads : entry.ReadsAs paths p) : entry.ReadsAs paths p' := by
  cases entry <;> obtain ⟨value, hvalue, hread⟩ := hreads <;>
    exact ⟨value, h.eqValue hvalue, hread⟩

theorem items_ok_iff {attr : Attr} {found : List Item} :
    attr.items = .ok found ↔ attr.Readable ∧ found = attr.itemList := by
  unfold Attr.items Attr.Readable Attr.itemList
  cases attr.body <;> simp [eq_comm]

/-- Lists of items are read when all of them can be, and as one list. -/
theorem foldlM_lists_ok_iff {B I S : Type} {lists : B → Except String (List I)} {list : B → List I}
    {Readable : B → Prop} {step : S → I → Except String S} {bs : List B} {s s' : S}
    (h : ∀ b found, lists b = .ok found ↔ Readable b ∧ found = list b) :
    bs.foldlM (fun s b => do (← lists b).foldlM step s) s = .ok s' ↔
      (∀ b ∈ bs, Readable b) ∧ (bs.flatMap list).foldlM step s = .ok s' := by
  induction bs generalizing s with
  | nil => simp
  | cons b bs ih =>
    rw [List.foldlM_cons, List.flatMap_cons, List.foldlM_append, List.forall_mem_cons, bind_ok_iff,
      bind_ok_iff]
    simp only [ih, bind_ok_iff, h]
    constructor
    · rintro ⟨u, ⟨_, ⟨hread, rfl⟩, hu⟩, hreads, hrun⟩
      exact ⟨⟨hread, hreads⟩, u, hu, hrun⟩
    · rintro ⟨⟨hread, hreads⟩, u, hu, hrun⟩
      exact ⟨u, ⟨_, ⟨hread, rfl⟩, hu⟩, hreads, hrun⟩

theorem parseAttrs_ok_iff {S : Type} {step : S → Item → Except String S} {s s' : S} :
    parseAttrs step attrs s = .ok s' ↔
      (∀ a ∈ attrs, a.Readable) ∧ (attrs.flatMap Attr.itemList).foldlM step s = .ok s' :=
  foldlM_lists_ok_iff fun _ _ => items_ok_iff

/-- Rearranged attributes are read into the same form. -/
theorem parseAttrs_rearranged {S A K : Type} {step : S → Item → Except String S}
    {Reads : Item → A → Prop} {key : A → K} {taken : S → A → Bool} {put : S → A → S} {s s' : S}
    {path : String} (form : KeyForm step Reads key taken put)
    (alike : ∀ i j, i.Alike j → ∀ a, Reads i a → Reads j a) (h : Rearranged attrs attrs')
    (hrun : parseAttrs step (named path attrs) s = .ok s') :
    parseAttrs step (named path attrs') s = .ok s' := by
  obtain ⟨hreadable, hrun⟩ := parseAttrs_ok_iff.mp hrun
  exact parseAttrs_ok_iff.mpr
    ⟨(h.readable path).mp hreadable, run_shuffled form alike (h.items path) hrun⟩

theorem rejectMisplaced_ok_iff {wrong right wrongPlace rightPlace : String} {u : Unit} :
    rejectMisplaced attrs wrong right wrongPlace rightPlace = .ok u ↔ named wrong attrs = [] := by
  unfold rejectMisplaced named
  split_ifs with h
  · simpa using h
  · simpa using h

theorem parseQueueAttr_rearranged {attr : QueueAttr} (h : Rearranged attrs attrs')
    (hattr : parseQueueAttr attrs = .ok attr) : parseQueueAttr attrs' = .ok attr := by
  obtain ⟨u, hplaced, hattr⟩ := bind_ok hattr
  refine bind_ok_iff.mpr ⟨u, ?_, parseAttrs_rearranged queueForm (fun i j hij entry hreads => ?_) h
    hattr⟩
  · exact rejectMisplaced_ok_iff.mpr ((h.written _).mp (rejectMisplaced_ok_iff.mp hplaced))
  · exact ⟨hij.1.trans hreads.1, hreads.2.alike hij.2⟩

theorem parseContainerAttr_rearranged {paths : CratePaths} {container : ContainerAttr}
    (h : Rearranged attrs attrs') (hattr : parseContainerAttr paths attrs = .ok container) :
    parseContainerAttr paths attrs' = .ok container := by
  obtain ⟨u, hplaced, hattr⟩ := bind_ok hattr
  refine bind_ok_iff.mpr ⟨u, ?_, parseAttrs_rearranged (containerForm paths)
    (fun i j hij entry hreads => ?_) h hattr⟩
  · exact rejectMisplaced_ok_iff.mpr ((h.written _).mp (rejectMisplaced_ok_iff.mp hplaced))
  · exact ⟨hij.1.trans hreads.1, hreads.2.alike hij.2⟩

theorem resolveVariant_rearranged {t : CaseTable} {container : ContainerAttr} {v w : Variant}
    {queue : ResolvedQueue} (h : v.Rearranged w) (hv : resolveVariant t container v = .ok queue) :
    resolveVariant t container w = .ok queue := by
  unfold resolveVariant at hv ⊢
  rw [h.unit, h.ident]
  split at hv
  · cases hv
  · rename_i hunit
    rw [if_neg hunit]
    obtain ⟨attr, hattr, hv⟩ := bind_ok hv
    exact bind_ok_iff.mpr ⟨attr, parseQueueAttr_rearranged h.attrs hattr, hv⟩

theorem mapM_of_forall₂ {α β γ : Type} {f : α → Except String γ} {g : β → Except String γ}
    {xs : List α} {ys : List β} {zs : List γ}
    (h : List.Forall₂ (fun x y => ∀ z, f x = .ok z → g y = .ok z) xs ys)
    (hx : xs.mapM f = .ok zs) : ys.mapM g = .ok zs := by
  induction h generalizing zs with
  | nil => exact hx
  | cons hxy _ ih =>
    rw [List.mapM_cons] at hx ⊢
    obtain ⟨z, hz, hx⟩ := bind_ok hx
    obtain ⟨rest, hrest, hx⟩ := bind_ok hx
    exact bind_ok_iff.mpr ⟨z, hxy z hz, bind_ok_iff.mpr ⟨rest, ih hrest, hx⟩⟩

end Rearranging

/-- What an enum is accepted for. -/
theorem derive_ok_iff {t : CaseTable} {paths : CratePaths} {input : DeriveInput}
    {set : QueueSetImpl} {variants : List Variant}
    {distinct : (variants.map Variant.ident).Nodup}
    (hdata : input.data = .enumeration variants distinct) :
    derive t paths input = .ok set ↔ input.generic = false ∧ variants ≠ [] ∧
      ∃ container, parseContainerAttr paths input.attrs = .ok container ∧
        (∃ core, container.corePath paths = .ok core) ∧
        ∃ resolved, variants.mapM (resolveVariant t container) = .ok resolved ∧
          rejectDuplicates (resolved.map ResolvedQueue.name) = .ok () ∧ set = emit resolved := by
  unfold derive
  rw [hdata]
  cases hgeneric : input.generic with
  | true => simp [throw, throwThe, MonadExceptOf.throw, bind, Except.bind]
  | false =>
    cases variants with
    | nil => simp [throw, throwThe, MonadExceptOf.throw, bind, Except.bind]
    | cons v rest =>
      simp only [Bool.false_eq_true, if_false, List.isEmpty_cons, bind_ok_iff, true_and, ne_eq,
        reduceCtorEq, not_false_eq_true]
      constructor
      · rintro ⟨container, hcontainer, core, hcore, resolved, hresolved, _, hdup, h⟩
        exact ⟨container, hcontainer, ⟨core, hcore⟩, resolved, hresolved, hdup,
          (Except.ok.inj h).symm⟩
      · rintro ⟨container, hcontainer, ⟨core, hcore⟩, resolved, hresolved, hdup, rfl⟩
        exact ⟨container, hcontainer, core, hcore, resolved, hresolved, _, hdup, rfl⟩

theorem derive_of_rearranged {t : CaseTable} {paths : CratePaths} {input input' : DeriveInput}
    {set : QueueSetImpl} (h : input.Rearranged input') (hset : derive t paths input = .ok set) :
    derive t paths input' = .ok set := by
  have hdata := h.data
  cases hd : input.data with
  | other =>
    unfold derive at hset
    rw [hd] at hset
    cases hset
  | enumeration variants distinct =>
    cases hd' : input'.data with
    | other =>
      rw [hd, hd'] at hdata
      cases hdata
    | enumeration variants' distinct' =>
      rw [hd, hd'] at hdata
      have hforall : List.Forall₂ Variant.Rearranged variants variants' := hdata
      obtain ⟨hgeneric, hne, container, hcontainer, hcore, resolved, hresolved, hrest⟩ :=
        (derive_ok_iff hd).mp hset
      refine (derive_ok_iff hd').mpr ⟨h.generic.trans hgeneric, ?_, container,
        parseContainerAttr_rearranged h.attrs hcontainer, hcore, resolved, ?_, hrest⟩
      · rintro rfl
        cases hforall
        exact hne rfl
      · exact mapM_of_forall₂ (hforall.imp fun _ _ hv _ => resolveVariant_rearranged hv) hresolved

/-- The keys of the attributes may be written in any order and on any number of attributes, and
those of a `retry(...)` list in any order: the same enums are accepted, with the same queue set. -/
theorem derive_rearranged (t : CaseTable) (paths : CratePaths) (input input' : DeriveInput)
    (h : input.Rearranged input') (set : QueueSetImpl) :
    derive t paths input = .ok set ↔ derive t paths input' = .ok set :=
  ⟨derive_of_rearranged h, derive_of_rearranged h.symm⟩

/-- Two keys on one attribute, or on two. -/
def callsAttrs : List Attr :=
  [⟨"queue", .list [("name", .text "calls"),
    ("retry", .list [("max_attempts", .lit (.int 5 (.finite 5))), ("backoff", .lit (.str "none"))])]⟩]

def callsAttrs' : List Attr :=
  [⟨"queue", .list [("retry", .list [("backoff", .lit (.str "none")),
      ("max_attempts", .lit (.int 5 (.finite 5)))])]⟩,
    ⟨"queue", .list [("name", .text "calls")]⟩]

theorem callsAttrs_rearranged : Rearranged callsAttrs callsAttrs' := by
  have none : ∀ path, path ≠ "queue" → named path callsAttrs = [] ∧ named path callsAttrs' = [] := by
    intro path hpath
    simp [named, callsAttrs, callsAttrs', Ne.symm hpath]
  have all : named "queue" callsAttrs = callsAttrs ∧ named "queue" callsAttrs' = callsAttrs' := by
    decide
  refine ⟨fun path => ?_, fun path => ?_, fun path => ?_⟩ <;> by_cases hpath : path = "queue"
  · subst hpath
    rw [all.1, all.2]
    simp [callsAttrs, callsAttrs']
  · simp [none path hpath]
  · subst hpath
    rw [all.1, all.2]
    simp [callsAttrs, callsAttrs', Attr.Readable]
  · simp [none path hpath]
  · subst hpath
    rw [all.1, all.2]
    refine ⟨_, List.Perm.swap _ _ [], .cons ⟨rfl, ?_⟩ (.cons ⟨rfl, rfl⟩ .nil)⟩
    exact List.Perm.swap _ _ []
  · rw [(none path hpath).1, (none path hpath).2]
    exact ⟨[], .nil, .nil⟩

def callsInput (attrs : List Attr) : DeriveInput where
  attrs := []
  generic := false
  data := .enumeration [⟨⟨"PhoneCalls", visible_of_all (by decide)⟩, true, attrs⟩] (by simp)

theorem derive_rearranged_calls : ∃ set, derive asciiTable mailPaths (callsInput callsAttrs') =
    .ok set ∧ set.nameArms.map Prod.snd = ["calls"] := by
  have rearranged : (callsInput callsAttrs).Rearranged (callsInput callsAttrs') := by
    refine ⟨rfl, ⟨fun _ => Iff.rfl, fun _ => Iff.rfl, fun _ => ⟨[], .nil, .nil⟩⟩, ?_⟩
    exact .cons ⟨rfl, rfl, callsAttrs_rearranged⟩ .nil
  exact ⟨_, (derive_rearranged asciiTable mailPaths _ _ rearranged _).mp rfl, rfl⟩

end Queuey.Macros
