import Queuey.Macros.Queues

/-!
# The `Job` derive

From the `#[job(...)]` attributes of a payload type to the implementation that is emitted: the
queue set and the variant the job goes to, its name, and its retry policy.
-/
namespace Queuey.Macros

/-- A path as it is written, with or without a leading `::`. -/
structure Path where
  leadingColon : Bool
  segments : List String
  nonempty : segments ≠ []
deriving DecidableEq

/-- What follows a key of `#[job(...)]`: a path behind the `=`, or anything else with the words
in which the path parser refuses it. -/
inductive JobPayload where
  | path (p : Path)
  | other (payload : Payload) (refusal : String)
deriving DecidableEq

/-- As the parsers of literals and of lists see it. -/
def JobPayload.payload : JobPayload → Payload
  | path _ => .value .expr
  | other payload _ => payload

/-- `meta.value()?.parse::<Path>()`. -/
def JobPayload.eqPath : JobPayload → Except String Path
  | path p => .ok p
  | other payload refusal => do
    let _ ← payload.eqValue
    throw refusal

abbrev JobItem := String × JobPayload

inductive JobBody where
  | path
  | list (items : List JobItem)
  | malformed (error : String)
deriving DecidableEq

structure JobAttribute where
  path : String
  body : JobBody
deriving DecidableEq

def JobAttribute.items (attr : JobAttribute) : Except String (List JobItem) :=
  match attr.body with
  | .path => .ok []
  | .list items => .ok items
  | .malformed error => .error error

/-- Parsed `#[job(...)]` options. -/
structure JobAttr where
  queue : Option Path
  name : Option String
  retry : Option RetrySpec
  core : Option String
deriving DecidableEq

def JobAttr.empty : JobAttr := ⟨none, none, none, none⟩

def JobAttr.corePath (paths : CratePaths) (attr : JobAttr) : Except String String :=
  match attr.core with
  | some path => .ok path
  | none => paths.default

def parseJobKey (paths : CratePaths) (parsed : JobAttr) (item : JobItem) :
    Except String JobAttr := do
  let key := item.1
  if key = "queue" then
    let path ← item.2.eqPath
    return { parsed with queue := ← setOnce key parsed.queue path }
  else if key = "name" then
    let value ← litStr key (← item.2.payload.eqValue)
    rejectBlank value "name"
    return { parsed with name := ← setOnce key parsed.name value }
  else if key = "retry" then
    let spec ← parseRetry (← item.2.payload.parenthesized)
    return { parsed with retry := ← setOnce key parsed.retry spec }
  else if key = "crate" then
    let value ← litStr key (← item.2.payload.eqValue)
    let path ← parseCratePath paths value
    return { parsed with core := ← setOnce key parsed.core path }
  else
    throw ("unknown key `" ++ key ++ "` in `#[job(...)]`, expected one of `queue`, `name`, " ++
      "`retry`, `crate`")

def parseJobAttr (paths : CratePaths) (attrs : List JobAttribute) : Except String JobAttr :=
  (attrs.filter fun a => a.path = "job").foldlM
    (fun parsed attr => do (← attr.items).foldlM (parseJobKey paths) parsed) .empty

/-- `AppQueues::Emails` without its variant. -/
def queueSetOf (path : Path) : Except String Path :=
  if h : path.segments.length < 2 then
    .error "`queue` must be a path to an enum variant such as `AppQueues::Emails`"
  else
    .ok ⟨path.leadingColon, path.segments.dropLast, by
      rw [← List.length_pos_iff, List.length_dropLast]
      omega⟩

/-- The type a derive is put on. Its name is an identifier: no part of a path. -/
structure JobInput where
  attrs : List JobAttribute
  generic : Bool
  ident : Ident
  plain : ':' ∉ ident.text.toList

/-- The expression emitted for `NAME`. -/
inductive JobName where
  | literal (name : String)
  | default (ident : String)
deriving DecidableEq

/-- Its value in a module. -/
def JobName.eval (modulePath : String) : JobName → String
  | literal name => name
  | default ident => modulePath ++ "::" ++ ident

structure JobImpl where
  core : String
  ident : Ident
  queueSet : Path
  name : JobName
  queue : Path
  retryPolicy : Option RetryPolicy
deriving DecidableEq

def deriveJob (paths : CratePaths) (input : JobInput) : Except String JobImpl := do
  if input.generic then throw "generic job types are not supported"
  let attr ← parseJobAttr paths input.attrs
  let core ← attr.corePath paths
  match attr.queue with
  | none => throw "#[derive(Job)] requires `#[job(queue = MyQueues::Variant)]`"
  | some queue =>
    let queueSet ← queueSetOf queue
    let name := match attr.name with
      | some name => .literal name
      | none => .default input.ident.text
    return ⟨core, input.ident, queueSet, name, queue, attr.retry.map RetrySpec.toTokens⟩

/-! ## The default path to the core crate -/

/-- What the manifest says about one of the two crates. -/
inductive Lookup where
  | itself
  | named (name : String)
  | absent
  | noManifest
deriving DecidableEq

def chooseCratePath : Lookup → Lookup → Option String
  | .itself, _ => some "::queuey::__core"
  | _, .itself => some "crate"
  | _, .named name => some ("::" ++ name)
  | .named name, _ => some ("::" ++ name ++ "::__core")
  | .noManifest, _ | _, .noManifest => some "::queuey_core"
  | .absent, .absent => none

/-- `parseStr` reads the chosen path. -/
def defaultCratePath (parseStr : String → Option String) (facade core : Lookup) (attr : String) :
    Except String String :=
  match chooseCratePath facade core with
  | none => .error ("cannot find `queuey` or `queuey-core` in the dependencies of this crate; " ++
      "add one of them, or name the core crate explicitly with `#[" ++ attr ++ "(crate = \"...\")]`")
  | some chosen =>
    match parseStr chosen with
    | some path => .ok path
    | none => .error ("`" ++ chosen ++ "` is not a usable path to `queuey-core`; name it " ++
        "explicitly with `#[" ++ attr ++ "(crate = \"...\")]`")

example : chooseCratePath (.named "queuey") (.named "queuey_core") = some "::queuey_core" := by
  decide

end Queuey.Macros
