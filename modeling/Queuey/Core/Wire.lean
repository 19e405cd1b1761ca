import Queuey.Core.Envelope
import Queuey.Library.Record

/-!
# The wire format of an envelope

An envelope as the JSON object it travels as: nine named fields, two with a default, one with
a default that is left out when it is unset. What the JSON and UUID libraries do to texts is
a parameter.
-/
namespace Queuey

inductive Json where
  | null
  | bool (b : Bool)
  | int (n : ℤ)
  | float (text : String)
  | string (s : String)
  | array (values : List Json)
  | object (entries : List (String × Json))

/-- The libraries' part: a document as bytes, a UUID as a string, and the payload's value as
a part of a document. -/
structure Serde (V : Type) where
  write : Json → Except String (List UInt8)
  parse : List UInt8 → Except String Json
  formatUuid : Uuid → String
  parseUuid : String → Option Uuid
  ofValue : V → Json
  toValue : Json → Except String V

inductive EnvelopeField where
  | jobId
  | jobType
  | queue
  | attempt
  | enqueuedAtMs
  | deferrals
  | priority
  | correlationId
  | payload
deriving DecidableEq

namespace EnvelopeField

def name : EnvelopeField → String
  | jobId => "job_id"
  | jobType => "job_type"
  | queue => "queue"
  | attempt => "attempt"
  | enqueuedAtMs => "enqueued_at_ms"
  | deferrals => "deferrals"
  | priority => "priority"
  | correlationId => "correlation_id"
  | payload => "payload"

theorem name_injective : Function.Injective name := by
  intro f g h
  cases f <;> cases g <;> first | rfl | simp [name] at h

/-- In the order of declaration. -/
def all : List EnvelopeField :=
  [jobId, jobType, queue, attempt, enqueuedAtMs, deferrals, priority, correlationId, payload]

abbrev T (V : Type) : EnvelopeField → Type
  | jobId => Uuid
  | jobType | queue => String
  | attempt | deferrals => UInt32
  | enqueuedAtMs => UInt64
  | priority => UInt8
  | correlationId => Option String
  | payload => V

end EnvelopeField

/-! ## Values of the fields -/

/-- An integer of at most `max`; the error names what was expected. -/
def Json.toNat (expected : String) (max : ℕ) : Json → Except String ℕ
  | .int n => if 0 ≤ n ∧ n ≤ max then .ok n.toNat else .error expected
  | _ => .error expected

def Json.toU8 (j : Json) : Except String UInt8 := (j.toNat "u8" (2 ^ 8 - 1)).map UInt8.ofNat

def Json.toU32 (j : Json) : Except String UInt32 := (j.toNat "u32" (2 ^ 32 - 1)).map UInt32.ofNat

def Json.toU64 (j : Json) : Except String UInt64 := (j.toNat "u64" (2 ^ 64 - 1)).map UInt64.ofNat

def Json.toStr : Json → Except String String
  | .string s => .ok s
  | _ => .error "a string"

def Json.toOptionStr : Json → Except String (Option String)
  | .null => .ok none
  | j => j.toStr.map some

namespace Serde
variable {V : Type} (serde : Serde V)

def toUuid : Json → Except String Uuid
  | .string s => (serde.parseUuid s).elim (.error "a formatted UUID string") .ok
  | _ => .error "a formatted UUID string"

open EnvelopeField

def encode : ∀ f, EnvelopeField.T V f → Json
  | jobId, v => .string (serde.formatUuid v)
  | jobType, v | queue, v => .string v
  | attempt, v | deferrals, v => .int v.toNat
  | enqueuedAtMs, v => .int v.toNat
  | priority, v => .int v.toNat
  | correlationId, v => v.elim .null .string
  | payload, v => serde.ofValue v

def decode : ∀ f, Json → Except String (EnvelopeField.T V f)
  | jobId, j => serde.toUuid j
  | jobType, j | queue, j => j.toStr
  | attempt, j | deferrals, j => j.toU32
  | enqueuedAtMs, j => j.toU64
  | priority, j => j.toU8
  | correlationId, j => j.toOptionStr
  | payload, j => serde.toValue j

/-- `#[serde(default)]`. -/
def absent (V : Type) : ∀ f, Option (EnvelopeField.T V f)
  | deferrals => some 0
  | priority => some 0
  | correlationId => some none
  | jobId | jobType | queue | attempt | enqueuedAtMs | payload => none

/-- `#[serde(skip_serializing_if = "Option::is_none")]`. -/
def skip : ∀ f, EnvelopeField.T V f → Bool
  | correlationId, v => v.isNone
  | _, _ => false

def schema : Record.Schema EnvelopeField Json String where
  T := EnvelopeField.T V
  fields := EnvelopeField.all
  nodup := by decide
  complete f := by cases f <;> decide
  name := EnvelopeField.name
  name_injective := EnvelopeField.name_injective
  encode := serde.encode
  decode := serde.decode
  absent := absent V
  skip := skip

end Serde

inductive SerdeError where
  | document (text : String)
  | record (fault : Record.Fault String)
  | notRecord

namespace Envelope
variable {V : Type} (serde : Serde V)

def values (e : Envelope V) : ∀ f, EnvelopeField.T V f
  | .jobId => e.jobId
  | .jobType => e.jobType
  | .queue => e.queue
  | .attempt => e.attempt
  | .enqueuedAtMs => e.enqueuedAtMs
  | .deferrals => e.deferrals
  | .priority => e.priority
  | .correlationId => e.correlationId
  | .payload => e.payload

def ofValues (r : ∀ f, EnvelopeField.T V f) : Envelope V where
  jobId := r .jobId
  jobType := r .jobType
  queue := r .queue
  attempt := r .attempt
  enqueuedAtMs := r .enqueuedAtMs
  deferrals := r .deferrals
  priority := r .priority
  correlationId := r .correlationId
  payload := r .payload

@[simp] theorem values_ofValues (r : ∀ f, EnvelopeField.T V f) : (ofValues r).values = r := by
  funext f
  cases f <;> rfl

@[simp] theorem ofValues_values (e : Envelope V) : ofValues e.values = e := rfl

def toJson (e : Envelope V) : Json := .object (serde.schema.entries e.values)

def toBytes (e : Envelope V) : Except SerdeError (List UInt8) :=
  (serde.write (e.toJson serde)).mapError .document

/-- Also the list of its values is read as an envelope, as every derived struct is. -/
def fromJson : Json → Except SerdeError (Envelope V)
  | .object entries => ((serde.schema.ofEntries entries).map ofValues).mapError .record
  | .array values => ((serde.schema.ofList values).map ofValues).mapError .record
  | _ => .error .notRecord

def fromBytes (body : List UInt8) : Except SerdeError (Envelope V) := do
  let j ← (serde.parse body).mapError .document
  fromJson serde j

end Envelope

/-! ## What is written is read -/

theorem Json.toNat_int (expected : String) {max n : ℕ} (h : n ≤ max) :
    (Json.int n).toNat expected max = .ok n := by
  have hle : (n : ℤ) ≤ max := by omega
  simp [Json.toNat, hle]

theorem Json.toU8_int (v : UInt8) : (Json.int v.toNat).toU8 = .ok v := by
  have hv := v.toNat_lt
  rw [Json.toU8, Json.toNat_int _ (by omega)]
  simp [Except.map]

theorem Json.toU32_int (v : UInt32) : (Json.int v.toNat).toU32 = .ok v := by
  have hv := v.toNat_lt
  rw [Json.toU32, Json.toNat_int _ (by omega)]
  simp [Except.map]

theorem Json.toU64_int (v : UInt64) : (Json.int v.toNat).toU64 = .ok v := by
  have hv := v.toNat_lt
  rw [Json.toU64, Json.toNat_int _ (by omega)]
  simp [Except.map]

theorem Json.toOptionStr_encode (v : Option String) :
    (v.elim .null Json.string).toOptionStr = .ok v := by
  cases v <;> rfl

namespace Envelope
variable {V : Type} {serde : Serde V} {e : Envelope V}

/-- The libraries read back what they write for this envelope. -/
structure Survives (serde : Serde V) (e : Envelope V) : Prop where
  uuid : serde.parseUuid (serde.formatUuid e.jobId) = some e.jobId
  payload : serde.toValue (serde.ofValue e.payload) = .ok e.payload
  body : ∃ body, serde.write (e.toJson serde) = .ok body ∧ serde.parse body = .ok (e.toJson serde)

theorem Survives.reads (h : Survives serde e) (f : EnvelopeField) :
    serde.decode f (serde.encode f (e.values f)) = .ok (e.values f) := by
  cases f with
  | jobId =>
    simp only [Serde.decode, Serde.encode, Serde.toUuid, values]
    rw [h.uuid]
    rfl
  | jobType | queue => rfl
  | attempt | deferrals => exact Json.toU32_int _
  | enqueuedAtMs => exact Json.toU64_int _
  | priority => exact Json.toU8_int _
  | correlationId => exact Json.toOptionStr_encode _
  | payload => exact h.payload

/-- Only an unset correlation id is left out, and that is its default. -/
theorem skips (f : EnvelopeField) (h : Serde.skip f (e.values f) = true) :
    Serde.absent V f = some (e.values f) := by
  cases f with
  | correlationId =>
    have hnone : e.correlationId = none := by simpa [Serde.skip, values] using h
    simp [Serde.absent, values, hnone]
  | _ => cases h

theorem fromJson_object {entries : List (String × Json)} {r : serde.schema.Values}
    (h : serde.schema.ofEntries entries = .ok r) :
    fromJson serde (.object entries) = .ok (ofValues r) := by
  have hread : fromJson serde (.object entries) =
      ((serde.schema.ofEntries entries).map ofValues).mapError .record := rfl
  rw [hread, h]
  rfl

theorem fromBytes_object {body : List UInt8} {entries : List (String × Json)}
    {r : serde.schema.Values} (hparse : serde.parse body = .ok (.object entries))
    (h : serde.schema.ofEntries entries = .ok r) : fromBytes serde body = .ok (ofValues r) := by
  rw [fromBytes, hparse]
  exact fromJson_object h

theorem Survives.ofEntries (h : Survives serde e) :
    serde.schema.ofEntries (serde.schema.entries e.values) = .ok e.values :=
  Record.ofEntries_entries (fun f _ => h.reads f) skips

theorem Survives.fromBytes (h : Survives serde e) :
    ∃ body, e.toBytes serde = .ok body ∧ serde.parse body = .ok (e.toJson serde) ∧
      fromBytes serde body = .ok e := by
  obtain ⟨body, hwrite, hparse⟩ := h.body
  exact ⟨body, by rw [toBytes, hwrite]; rfl, hparse, fromBytes_object hparse h.ofEntries⟩

theorem correlationId_written (serde : Serde V) (e : Envelope V) :
    "correlation_id" ∈ (serde.schema.entries e.values).map Prod.fst ↔
      e.correlationId.isSome = true := by
  have hwritten := Record.name_mem_entries (S := serde.schema) (f := .correlationId) (r := e.values)
  refine Iff.trans hwritten ?_
  cases h : e.correlationId <;> simp [Serde.schema, Serde.skip, values, h]

/-- An envelope whose parts survive the libraries survives the wire, and its body has a
correlation id exactly if it is set. Any object that has the original fields, well typed, and
at most once each of the fields there are, is an envelope that survives the wire, with
`0`, `0` and `None` for what it leaves out; the order and other entries do not matter. -/
theorem wire_format (serde : Serde V) :
    (∀ e, Survives serde e → ∃ body entries, e.toBytes serde = .ok body ∧
      serde.parse body = .ok (.object entries) ∧
      ("correlation_id" ∈ entries.map Prod.fst ↔ e.correlationId.isSome = true) ∧
      fromBytes serde body = .ok e) ∧
    ∀ body entries, serde.parse body = .ok (.object entries) → serde.schema.Accepts entries →
      ∃ e, fromBytes serde body = .ok e ∧
        (∀ f j, (EnvelopeField.name f, j) ∈ entries → serde.decode f j = .ok (e.values f)) ∧
        ("deferrals" ∉ entries.map Prod.fst → e.deferrals = 0) ∧
        ("priority" ∉ entries.map Prod.fst → e.priority = 0) ∧
        ("correlation_id" ∉ entries.map Prod.fst → e.correlationId = none) ∧
        (Survives serde e → (e.toBytes serde >>= fromBytes serde) = .ok e) := by
  refine ⟨fun e h => ?_, fun body entries hparse haccepts => ?_⟩
  · obtain ⟨body, hbytes, hparse, hread⟩ := h.fromBytes
    exact ⟨body, _, hbytes, hparse, correlationId_written serde e, hread⟩
  · obtain ⟨r, hr, hin, hout⟩ := Record.ofEntries_ok haccepts
    have missing : ∀ f, EnvelopeField.name f ∉ entries.map Prod.fst →
        Serde.absent V f = some (r f) := fun f hf =>
      hout f fun j hj => hf (List.mem_map.mpr ⟨_, hj, rfl⟩)
    refine ⟨ofValues r, fromBytes_object hparse hr, fun f j hj => ?_, fun hd => ?_, fun hp => ?_,
      fun hc => ?_, fun h => ?_⟩
    · rw [congrFun (values_ofValues r) f]
      exact hin f j hj
    · exact (Option.some.inj (missing .deferrals hd)).symm
    · exact (Option.some.inj (missing .priority hp)).symm
    · exact (Option.some.inj (missing .correlationId hc)).symm
    · obtain ⟨again, hbytes, -, hread⟩ := h.fromBytes
      rw [hbytes]
      exact hread

/-- A body from before `deferrals`, `priority` and `correlation_id`, with an entry of its own
and in an order of its own. -/
def oldEntries : List (String × Json) :=
  [("payload", .string "ada"), ("shard", .int 3), ("queue", .string "mail"),
    ("job_type", .string "Greet"), ("attempt", .int 2),
    ("job_id", .string "67e55044-10b1-426f-9247-bb680e5fe0c8"),
    ("enqueued_at_ms", .int 1700000000000)]

def oldBody : List UInt8 :=
  ("\x7b\"payload\":\"ada\",\"shard\":3,\"queue\":\"mail\",\"job_type\":\"Greet\"," ++
    "\"attempt\":2,\"job_id\":\"67e55044-10b1-426f-9247-bb680e5fe0c8\"," ++
    "\"enqueued_at_ms\":1700000000000\x7d").toUTF8.data.toList

def oldEnvelope : Envelope Json where
  jobId := 0x67e5504410b1426f9247bb680e5fe0c8
  jobType := "Greet"
  queue := "mail"
  attempt := 2
  enqueuedAtMs := 1700000000000
  deferrals := 0
  priority := 0
  correlationId := none
  payload := .string "ada"

def newBody : List UInt8 :=
  ("\x7b\"job_id\":\"67e55044-10b1-426f-9247-bb680e5fe0c8\",\"job_type\":\"Greet\"," ++
    "\"queue\":\"mail\",\"attempt\":2,\"enqueued_at_ms\":1700000000000,\"deferrals\":0," ++
    "\"priority\":0,\"payload\":\"ada\"\x7d").toUTF8.data.toList

def newEntries : List (String × Json) :=
  [("job_id", .string "67e55044-10b1-426f-9247-bb680e5fe0c8"), ("job_type", .string "Greet"),
    ("queue", .string "mail"), ("attempt", .int 2), ("enqueued_at_ms", .int 1700000000000),
    ("deferrals", .int 0), ("priority", .int 0), ("payload", .string "ada")]

/-- The libraries on these two bodies. -/
def oldSerde : Serde Json where
  write _ := .ok newBody
  parse body :=
    if body = oldBody then .ok (.object oldEntries)
    else .ok (.object newEntries)
  formatUuid _ := "67e55044-10b1-426f-9247-bb680e5fe0c8"
  parseUuid _ := some 0x67e5504410b1426f9247bb680e5fe0c8
  ofValue := id
  toValue := .ok

theorem parse_oldBody : oldSerde.parse oldBody = .ok (.object oldEntries) := by
  dsimp only [oldSerde]
  exact if_pos rfl

theorem parse_newBody : oldSerde.parse newBody = .ok (.object newEntries) := by
  have hne : newBody ≠ oldBody := by decide
  dsimp only [oldSerde]
  exact if_neg hne

theorem oldEntries_accepted : oldSerde.schema.Accepts oldEntries := by
  constructor
  · decide
  · intro f j hj
    cases f <;> simp [Serde.schema, EnvelopeField.name, oldEntries] at hj <;> subst hj <;>
      exact ⟨_, rfl⟩
  · intro f hf
    cases f <;> simp [Serde.schema, EnvelopeField.name, oldEntries, Serde.absent] at hf ⊢

theorem survives_oldEnvelope : Survives oldSerde oldEnvelope :=
  ⟨rfl, rfl, newBody, rfl, parse_newBody⟩

/-- An older body with an entry of its own is read, and survives the wire from there on. -/
theorem wire_format_old : fromBytes oldSerde oldBody = .ok oldEnvelope ∧
    (oldEnvelope.toBytes oldSerde >>= fromBytes oldSerde) = .ok oldEnvelope := by
  obtain ⟨e, he, hin, hdeferrals, hpriority, hcorrelation, hagain⟩ :=
    (wire_format oldSerde).2 oldBody oldEntries parse_oldBody oldEntries_accepted
  have present : ∀ f j, (EnvelopeField.name f, j) ∈ oldEntries →
      oldSerde.decode f j = .ok (oldEnvelope.values f) → e.values f = oldEnvelope.values f := by
    intro f j hj hdecode
    rw [hin f j hj, Except.ok.injEq] at hdecode
    exact hdecode
  have hvalues : e.values = oldEnvelope.values := by
    funext f
    cases f with
    | jobId => exact present .jobId _ (by simp [oldEntries, EnvelopeField.name]; rfl) rfl
    | jobType =>
      exact present .jobType (.string "Greet") (by simp [oldEntries, EnvelopeField.name]) rfl
    | queue => exact present .queue (.string "mail") (by simp [oldEntries, EnvelopeField.name]) rfl
    | attempt => exact present .attempt (.int 2) (by simp [oldEntries, EnvelopeField.name]) rfl
    | enqueuedAtMs =>
      exact present .enqueuedAtMs (.int 1700000000000)
        (by simp [oldEntries, EnvelopeField.name]) rfl
    | payload =>
      exact present .payload (.string "ada") (by simp [oldEntries, EnvelopeField.name]) rfl
    | deferrals => exact hdeferrals (by decide)
    | priority => exact hpriority (by decide)
    | correlationId => exact hcorrelation (by decide)
  have heq : e = oldEnvelope := congrArg ofValues hvalues
  subst heq
  exact ⟨he, hagain survives_oldEnvelope⟩

end Envelope
end Queuey
