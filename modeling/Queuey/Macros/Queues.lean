import Queuey.Core.Queue
import Queuey.Library.Table
import Queuey.Macros.Retry
import Queuey.Macros.SnakeCase

/-!
# The `Queues` derive

From the attributes of an enum and of its variants to the queue set that is emitted: all
variants, and for each its name and its configuration. Where in the source an error points
is left out, and so is the path the emitted code names the core crate by.
-/
namespace Queuey.Macros

/-- What follows a key in an attribute: `= value`, a list in parentheses, or nothing. -/
inductive Payload where
  | value (value : Value)
  | list (items : List (String × Value))
  | bare
deriving DecidableEq

/-- `ParseNestedMeta::value`. -/
def Payload.eqValue : Payload → Except String Value
  | value v => .ok v
  | _ => .error "expected `=`"

def Payload.parenthesized : Payload → Except String (List (String × Value))
  | list items => .ok items
  | _ => .error "expected parentheses"

abbrev Item := String × Payload

inductive Body where
  | path
  | list (items : List Item)
  | malformed (error : String)
deriving DecidableEq

structure Attr where
  path : String
  body : Body
deriving DecidableEq

/-- The items of one attribute; without parentheses it has none. -/
def Attr.items (attr : Attr) : Except String (List Item) :=
  match attr.body with
  | .path => .ok []
  | .list items => .ok items
  | .malformed error => .error error

/-- Every item of every attribute, read into one state. -/
def parseAttrs {S : Type} (step : S → Item → Except String S) (attrs : List Attr) (init : S) :
    Except String S :=
  attrs.foldlM (fun parsed attr => do (← attr.items).foldlM step parsed) init

def rejectMisplaced (attrs : List Attr) (wrong right wrongPlace rightPlace : String) :
    Except String Unit :=
  if attrs.any fun a => a.path = wrong then
    .error ("`#[" ++ wrong ++ "(...)]` belongs on " ++ wrongPlace ++ "; " ++ rightPlace ++
      " takes `#[" ++ right ++ "(...)]`")
  else .ok ()

def rejectBlank (value key : String) : Except String Unit :=
  if value = "" then .error ("`" ++ key ++ "` must not be empty")
  else if trim value.toList = [] then .error ("`" ++ key ++ "` must not be only whitespace")
  else .ok ()

def rejectTrailingSeparator (value : String) : Except String Unit :=
  if value.toList.getLast? = some '.' then
    .error ("`prefix` must not end with `.`: the separator before the queue name is added for " ++
      "you, so `prefix = \"myapp\"` already yields `myapp.emails`")
  else .ok ()

/-- The keys of `#[queues(...)]`. -/
structure ContainerAttr where
  prefixKey : Option String
  core : Option String
deriving DecidableEq

def ContainerAttr.empty : ContainerAttr := ⟨none, none⟩

def ContainerAttr.qualify (container : ContainerAttr) (name : String) : String :=
  match container.prefixKey with
  | some prefixed => prefixed ++ "." ++ name
  | none => name

/-- How a module path is read, and where the manifest says the core crate is. -/
structure CratePaths where
  parse : String → Option String
  default : Except String String

def parseCratePath (paths : CratePaths) (value : String) : Except String String :=
  match paths.parse value with
  | some path => .ok path
  | none => .error ("`" ++ value ++ "` is not a valid module path")

def ContainerAttr.corePath (paths : CratePaths) (container : ContainerAttr) :
    Except String String :=
  match container.core with
  | some path => .ok path
  | none => paths.default

def parseContainerKey (paths : CratePaths) (parsed : ContainerAttr) (item : Item) :
    Except String ContainerAttr := do
  let key := item.1
  if key = "prefix" then
    let value ← litStr key (← item.2.eqValue)
    rejectBlank value "prefix"
    rejectTrailingSeparator value
    return { parsed with prefixKey := ← setOnce key parsed.prefixKey value }
  else if key = "crate" then
    let value ← litStr key (← item.2.eqValue)
    let path ← parseCratePath paths value
    return { parsed with core := ← setOnce key parsed.core path }
  else
    throw ("unknown key `" ++ key ++ "` in `#[queues(...)]`, expected `prefix` or `crate`")

def parseContainerAttr (paths : CratePaths) (attrs : List Attr) : Except String ContainerAttr := do
  rejectMisplaced attrs "queue" "queues" "a variant" "the enum"
  parseAttrs (parseContainerKey paths) (attrs.filter fun a => a.path = "queues") .empty

/-- The keys of `#[queue(...)]`. -/
structure QueueAttr where
  name : Option String
  prefetch : Option UInt16
  durable : Option Bool
  messageTtl : Option UInt64
  maxPriority : Option UInt8
  retry : Option RetrySpec
deriving DecidableEq

def QueueAttr.empty : QueueAttr := ⟨none, none, none, none, none, none⟩

def prefetchRange : String := "between 1 and 65535"
def maxPriorityRange : String := "in 0..=255"
def messageTtlRange : String := "between \"1ms\" and \"4294967295ms\" (~49.7 days)"

/-- `MAX_MESSAGE_TTL_MS`: `u32::MAX`. -/
def maxMessageTtlMs : UInt64 := 4294967295

/-- A time-to-live that a broker can be asked for. -/
def parseMessageTtl (literal : String) : Except String UInt64 := do
  let millis ← parseLit literal "message_ttl"
  if maxMessageTtlMs < millis then
    throw ("`message_ttl` must be " ++ messageTtlRange ++ ": a broker stores it as an unsigned " ++
      "32-bit millisecond count, so a longer TTL cannot be expressed and would be silently clamped")
  return millis

def parsePrefetch (value : Value) : Except String UInt16 := do
  let n ← litInt "prefetch" prefetchRange 65535 value
  if n = 0 then
    throw ("`prefetch = 0` means unlimited in AMQP; omit the attribute or use a positive value")
  return UInt16.ofNat n

def parseQueueKey (parsed : QueueAttr) (item : Item) : Except String QueueAttr := do
  let key := item.1
  if key = "name" then
    let value ← litStr key (← item.2.eqValue)
    rejectBlank value "name"
    return { parsed with name := ← setOnce key parsed.name value }
  else if key = "prefetch" then
    let n ← parsePrefetch (← item.2.eqValue)
    return { parsed with prefetch := ← setOnce key parsed.prefetch n }
  else if key = "durable" then
    let b ← litBool key (← item.2.eqValue)
    return { parsed with durable := ← setOnce key parsed.durable b }
  else if key = "message_ttl" then
    let millis ← parseMessageTtl (← litStr key (← item.2.eqValue))
    return { parsed with messageTtl := ← setOnce key parsed.messageTtl millis }
  else if key = "max_priority" then
    let n ← litInt key maxPriorityRange 255 (← item.2.eqValue)
    return { parsed with maxPriority := ← setOnce key parsed.maxPriority (UInt8.ofNat n) }
  else if key = "retry" then
    let spec ← parseRetry (← item.2.parenthesized)
    return { parsed with retry := ← setOnce key parsed.retry spec }
  else
    throw ("unknown key `" ++ key ++ "` in `#[queue(...)]`, expected one of `name`, `prefetch`, " ++
      "`durable`, `message_ttl`, `max_priority`, `retry`")

def parseQueueAttr (attrs : List Attr) : Except String QueueAttr := do
  rejectMisplaced attrs "queues" "queue" "the enum" "a variant"
  parseAttrs parseQueueKey (attrs.filter fun a => a.path = "queue") .empty

/-- An identifier, which has no blank in it. -/
structure Ident where
  text : String
  visible : ∀ c ∈ text.toList, isWhitespace c = false
deriving DecidableEq

theorem visible_of_all {text : String} (h : (text.toList.all fun c => !isWhitespace c) = true) :
    ∀ c ∈ text.toList, isWhitespace c = false := by
  simpa using h

structure Variant where
  ident : Ident
  unit : Bool
  attrs : List Attr
deriving DecidableEq

/-- The item a derive is put on; an enum has no two variants of one name. -/
inductive Data where
  | enumeration (variants : List Variant) (distinct : (variants.map Variant.ident).Nodup)
  | other

structure DeriveInput where
  attrs : List Attr
  generic : Bool
  data : Data

structure ResolvedQueue where
  ident : Ident
  name : String
  attr : QueueAttr

def resolveVariant (t : CaseTable) (container : ContainerAttr) (variant : Variant) :
    Except String ResolvedQueue := do
  if !variant.unit then throw "queue variants must not have fields"
  let attr ← parseQueueAttr variant.attrs
  let bare := attr.name.getD (snakeCase t variant.ident.text)
  if bare = "" then
    throw "queue name is empty; give the variant a `#[queue(name = \"...\")]`"
  return ⟨variant.ident, container.qualify bare, attr⟩

/-- What the emitted configuration expression evaluates to. -/
def configExpr (queue : ResolvedQueue) : QueueConfig :=
  let config := QueueConfig.new queue.name
  let config := queue.attr.prefetch.elim config fun n => { config with prefetch := n }
  let config := queue.attr.durable.elim config fun b => { config with durable := b }
  let config := queue.attr.messageTtl.elim config fun millis =>
    { config with messageTtl := some (.fromMillis millis) }
  let config := queue.attr.maxPriority.elim config fun levels =>
    { config with maxPriority := if 0 < levels then some levels else none }
  queue.attr.retry.elim config fun spec => { config with retry := spec.toTokens }

/-- The emitted implementation: the array of `all`, and the arms of `name` and `config`. -/
structure QueueSetImpl where
  all : List Ident
  nameArms : List (Ident × String)
  configArms : List (Ident × QueueConfig)
deriving DecidableEq

namespace QueueSetImpl
variable (set : QueueSetImpl)

def name (v : Ident) : Option String := set.nameArms.lookup v

def config (v : Ident) : Option QueueConfig := set.configArms.lookup v

def fromName (name : String) : Option Ident := set.all.find? fun v => set.name v = some name

end QueueSetImpl

/-- The names in the order of the variants, each for the first time. -/
def rejectDuplicates (names : List String) : Except String Unit :=
  match (Table.empty : Table String Unit).addAll (names.map fun name => (name, ())) with
  | .error name => .error ("duplicate queue name `" ++ name ++ "`")
  | .ok _ => .ok ()

def emit (resolved : List ResolvedQueue) : QueueSetImpl where
  all := resolved.map ResolvedQueue.ident
  nameArms := resolved.map fun queue => (queue.ident, queue.name)
  configArms := resolved.map fun queue => (queue.ident, configExpr queue)

def derive (t : CaseTable) (paths : CratePaths) (input : DeriveInput) :
    Except String QueueSetImpl :=
  match input.data with
  | .other => .error "#[derive(Queues)] can only be applied to enums"
  | .enumeration variants _ => do
    if input.generic then throw "generic queue enums are not supported"
    if variants.isEmpty then throw "#[derive(Queues)] requires at least one variant"
    let container ← parseContainerAttr paths input.attrs
    let _core ← container.corePath paths
    let resolved ← variants.mapM (resolveVariant t container)
    rejectDuplicates (resolved.map ResolvedQueue.name)
    return emit resolved

end Queuey.Macros
