import NmLogging.Framework.Regex
import NmLogging.Vocab

/-!
# Records

The envelope, and the operational and audit records of `record.py`. Arguments
whose annotation is a class of the package or of the standard library have that
type here, and the others are arbitrary objects, checked as the source checks
them. A record carries the proof that `__post_init__` accepted its arguments, so
that what the checks promise can be read off any record.
-/

namespace NmLogging

/-! ## The contract -/

/-- Actor values that assert no real accountability. -/
def nonAccountableActors : List PyStr := [lit "system", lit "none", lit "null", lit "-"]

def SCHEMA_VERSION : Int := 1
def MAX_RECORD_BYTES : Nat := 16384
def MAX_FIELD_CHARS : Nat := 512
def MAX_EVENT_ID_CHARS : Nat := 128

def EMITTERS : List PyStr := [lit "app", lit "wrapper"]

/-- The names an event field must not collide with. -/
def RESERVED_FIELD_NAMES : List PyStr :=
  [lit "schema_version", lit "timestamp", lit "application", lit "emitter", lit "event",
    lit "severity", lit "category", lit "actor", lit "stage", lit "operation_id", lit "outcome",
    lit "message"]

/-- The structural shape of an encrypted envelope. -/
def looksLikeEncEnvelope (value : PyStr) : Bool :=
  startsWith value (lit "ENC[") && endsWith value (lit "]")

/-- `[a-z][a-z0-9_-]{0,63}` -/
def applicationRe : Regex :=
  .seq (.cls isLower) (.upTo 63 (.cls fun c => isLower c || isDigit c || c == 0x5f || c == 0x2d))

/-- `[a-z][a-z0-9]*(?:_[a-z0-9]+)*` -/
def eventSegment : Regex :=
  .seq (.cls isLower) (.seq (.star (.cls fun c => isLower c || isDigit c))
    (.star (.seq (.chr 0x5f) (.plus (.cls fun c => isLower c || isDigit c)))))

/-- At least two segments with dots between them. -/
def eventIdRe : Regex := .seq eventSegment (.plus (.seq (.chr 0x2e) eventSegment))

/-! ## Checks -/

/-- `raise LoggingConfigurationError(text) from None`. -/
def configurationError (text : String) : PyError := ⟨LoggingConfigurationError, lit text⟩

/-- `raise EventSchemaError(text) from None`. -/
def schemaError (text : String) : PyError := ⟨EventSchemaError, lit text⟩

/-- A check: the error where the condition fails. -/
def require (b : Bool) (e : PyError) : Except PyError Unit := if b then .ok () else .error e

@[simp] theorem require_eq_ok {b : Bool} {e : PyError} : require b e = .ok () ↔ b = true := by
  cases b <;> simp [require]

@[simp] theorem require_eq_error {b : Bool} {e e' : PyError} :
    require b e = .error e' ↔ b = false ∧ e = e' := by
  cases b <;> simp [require]

def validateApplication (application : PyAtom) : Except PyError Unit :=
  require (match application with | .str s => applicationRe.fullmatch s | _ => false)
    (configurationError "application id must match [a-z][a-z0-9_-]\x7b0,63\x7d")

def validateEmitter (emitter : PyAtom) : Except PyError Unit :=
  require (match emitter with | .str s => s ∈ EMITTERS | _ => false)
    (configurationError "emitter must be one of the documented values")

def validateEvent : PyAtom → Except PyError Unit
  | .str s =>
    require (s.length ≤ MAX_EVENT_ID_CHARS && eventIdRe.fullmatch s)
      (configurationError "event id must be at least two dot-separated lower-case segments")
  | _ => .error (configurationError "event must be a string")

/-- `isinstance(value, _PERMITTED_SCALAR_TYPES)`, of an object of a builtin class. Instances of
their subclasses are in `Instances`. -/
def isScalar : PyAtom → Bool
  | .str _ | .int _ | .float _ | .bool _ => true
  | .none | .other _ => false

/-- A permitted scalar, or a tuple of permitted scalars, of builtin classes as in `isScalar`. -/
def isFieldValue : PyObj → Bool
  | .atom a => isScalar a
  | .tuple xs => xs.all isScalar
  | .list _ => false

def validateTimestamp (t : Datetime) : Except PyError Unit :=
  match t.utcoffset with
  | none => .error (configurationError "record timestamp must be timezone-aware UTC, not naive")
  | some o => require (o = 0) (configurationError "record timestamp must be UTC (zero offset)")

/-- Whether a key is one of the reserved names. -/
def isReserved : PyAtom → Bool
  | .str s => s ∈ RESERVED_FIELD_NAMES
  | _ => false

/-! ## The envelope -/

/-- The arguments of `Record`. -/
structure Envelope where
  application : PyAtom
  emitter : PyAtom
  event : PyAtom
  timestamp : Datetime
  fields : Dict PyAtom PyObj
  message : PyAtom

/-- `Record.__post_init__`. -/
def Envelope.postInit (r : Envelope) : Except PyError Unit := do
  validateApplication r.application
  validateEmitter r.emitter
  validateEvent r.event
  validateTimestamp r.timestamp
  require (r.message = .none || r.message.isStr)
    (configurationError "record message must be a string or None")
  require (!r.fields.keys.any isReserved)
    (schemaError "event field name collides with a reserved envelope field")
  require (r.fields.values.all isFieldValue)
    (schemaError "record field value must be a scalar or a tuple of scalars")

/-- The arguments of `OperationalRecord`. -/
structure OperationalArgs extends Envelope where
  severity : Severity

/-- `OperationalRecord.__post_init__`. -/
def OperationalArgs.postInit (r : OperationalArgs) : Except PyError Unit := r.toEnvelope.postInit

/-- The arguments of `AuditRecord`. -/
structure AuditArgs extends Envelope where
  category : Category
  actor : PyAtom
  stage : Stage
  operationId : PyAtom
  outcome : Option Outcome

def validateActor : PyAtom → Except PyError Unit
  | .str s => do
    require (strip s ≠ []) (configurationError "audit actor must be a non-empty string")
    require (casefoldAscii (strip s) ∉ nonAccountableActors)
      (configurationError "audit actor must be an accountable identity, not a placeholder")
    require (!looksLikeEncEnvelope s)
      (configurationError "audit actor must not be an encrypted envelope")
  | _ => .error (configurationError "audit actor must be a non-empty string")

def validateOperationId (stage : Stage) (operationId : PyAtom) : Except PyError Unit := do
  let needsId := stage = .intent || stage = .outcome
  let hasId := operationId ≠ .none
  require (!(needsId && !hasId))
    (configurationError "operation_id is required for intent and outcome records")
  require (!(!needsId && hasId))
    (configurationError "operation_id must be absent for a complete record")
  require (!(hasId && !(match operationId with | .str s => strip s ≠ [] | _ => false)))
    (configurationError "operation_id must be a non-empty string when present")

/-- An intent has no outcome and an outcome record has one; a complete record
may state one. -/
def validateOutcome (stage : Stage) (outcome : Option Outcome) : Except PyError Unit :=
  match stage with
  | .outcome => require outcome.isSome (configurationError "an outcome record must carry an Outcome")
  | .intent =>
    require outcome.isNone (configurationError "an intent record must not carry an outcome")
  | .complete => .ok ()

/-- `AuditRecord.__post_init__`. -/
def AuditArgs.postInit (r : AuditArgs) : Except PyError Unit := do
  r.toEnvelope.postInit
  validateActor r.actor
  validateOperationId r.stage r.operationId
  validateOutcome r.stage r.outcome

/-- An operational record: arguments that were accepted. -/
structure OperationalRecord extends OperationalArgs where
  ok : toOperationalArgs.postInit = .ok ()

/-- An audit record: arguments that were accepted. -/
structure AuditRecord extends AuditArgs where
  ok : toAuditArgs.postInit = .ok ()

/-- A record of any class. -/
inductive Record where
  | base (r : Envelope) (ok : r.postInit = .ok ())
  | operational (r : OperationalRecord)
  | audit (r : AuditRecord)

def Record.envelope : Record → Envelope
  | base r _ => r
  | operational r => r.toEnvelope
  | audit r => r.toEnvelope

/-- `OperationalRecord(…)`. -/
def OperationalArgs.construct (r : OperationalArgs) : Except PyError OperationalRecord :=
  match h : r.postInit with
  | .ok () => .ok ⟨r, h⟩
  | .error e => .error e

/-- `AuditRecord(…)`. -/
def AuditArgs.construct (r : AuditArgs) : Except PyError AuditRecord :=
  match h : r.postInit with
  | .ok () => .ok ⟨r, h⟩
  | .error e => .error e

/-! ## What the checks promise -/

theorem validateEvent_ok {e : PyAtom} :
    validateEvent e = .ok () ↔
      ∃ s, e = .str s ∧ s.length ≤ MAX_EVENT_ID_CHARS ∧ eventIdRe.fullmatch s = true := by
  cases e <;> simp [validateEvent]

theorem validateTimestamp_ok {t : Datetime} :
    validateTimestamp t = .ok () ↔ t.utcoffset = some 0 := by
  cases h : t.utcoffset <;> simp [validateTimestamp, h]

/-- An envelope that `Record.__post_init__` accepts. -/
structure Envelope.Valid (r : Envelope) : Prop where
  application : ∃ s, r.application = .str s ∧ applicationRe.fullmatch s = true
  emitter : ∃ s ∈ EMITTERS, r.emitter = .str s
  event : ∃ s, r.event = .str s ∧ s.length ≤ MAX_EVENT_ID_CHARS ∧ eventIdRe.fullmatch s = true
  timestamp : r.timestamp.utcoffset = some 0
  message : r.message = .none ∨ ∃ s, r.message = .str s
  names : ∀ k ∈ r.fields.keys, isReserved k = false
  values : ∀ v ∈ r.fields.values, isFieldValue v = true

theorem Envelope.postInit_ok {r : Envelope} : r.postInit = .ok () ↔ r.Valid := by
  have happ : validateApplication r.application = .ok () ↔
      ∃ s, r.application = .str s ∧ applicationRe.fullmatch s = true := by
    cases r.application <;> simp [validateApplication]
  have hem : validateEmitter r.emitter = .ok () ↔ ∃ s ∈ EMITTERS, r.emitter = .str s := by
    cases r.emitter <;> simp [validateEmitter]
  have hmsg : (r.message = .none || r.message.isStr) = true ↔
      (r.message = .none ∨ ∃ s, r.message = .str s) := by
    cases r.message <;> simp [PyAtom.isStr]
  simp only [postInit, check_eq_ok, happ, hem, validateEvent_ok, validateTimestamp_ok,
    require_eq_ok, hmsg, Bool.not_eq_true', List.any_eq_false, List.all_eq_true]
  constructor
  · rintro ⟨h₁, h₂, h₃, h₄, h₅, h₆, h₇⟩
    exact ⟨h₁, h₂, h₃, h₄, h₅, fun k hk => Bool.eq_false_iff.mpr (h₆ k hk), h₇⟩
  · intro h
    exact ⟨h.application, h.emitter, h.event, h.timestamp, h.message,
      fun k hk => Bool.eq_false_iff.mp (h.names k hk), h.values⟩

theorem validateActor_ok {a : PyAtom} :
    validateActor a = .ok () ↔
      ∃ s, a = .str s ∧ strip s ≠ [] ∧ casefoldAscii (strip s) ∉ nonAccountableActors ∧
        looksLikeEncEnvelope s = false := by
  cases a <;> simp [validateActor, check_eq_ok]

/-- An audit record's own arguments that `AuditRecord.__post_init__` accepts. -/
structure AuditArgs.Valid (r : AuditArgs) : Prop where
  envelope : r.toEnvelope.Valid
  actor : ∃ s, r.actor = .str s ∧ strip s ≠ [] ∧
    casefoldAscii (strip s) ∉ nonAccountableActors ∧ looksLikeEncEnvelope s = false
  operationId : validateOperationId r.stage r.operationId = .ok ()
  outcome : validateOutcome r.stage r.outcome = .ok ()

theorem AuditArgs.postInit_ok {r : AuditArgs} : r.postInit = .ok () ↔ r.Valid := by
  simp only [postInit, check_eq_ok, Envelope.postInit_ok, validateActor_ok]
  constructor
  · rintro ⟨h₁, h₂, h₃, h₄⟩; exact ⟨h₁, h₂, h₃, h₄⟩
  · intro h; exact ⟨h.envelope, h.actor, h.operationId, h.outcome⟩

/-- Every record's envelope is valid. -/
theorem Record.valid (r : Record) : r.envelope.Valid := by
  cases r with
  | base r ok => exact Envelope.postInit_ok.mp ok
  | operational r => exact Envelope.postInit_ok.mp r.ok
  | audit r => exact (AuditArgs.postInit_ok.mp r.ok).envelope

theorem OperationalArgs.construct_ok {a : OperationalArgs} {r : OperationalRecord} :
    a.construct = .ok r ↔ r.toOperationalArgs = a := by
  unfold construct
  split
  · rename_i h
    constructor
    · intro e; cases e; rfl
    · intro e; subst e; rfl
  · rename_i e h
    constructor
    · intro e; cases e
    · intro e; subst e; rw [r.ok] at h; cases h

theorem AuditArgs.construct_ok {a : AuditArgs} {r : AuditRecord} :
    a.construct = .ok r ↔ r.toAuditArgs = a := by
  unfold construct
  split
  · rename_i h
    constructor
    · intro e; cases e; rfl
    · intro e; subst e; rfl
  · rename_i e h
    constructor
    · intro e; cases e
    · intro e; subst e; rw [r.ok] at h; cases h

/-- The application of the examples. -/
theorem validateApplication_app : validateApplication (.str (lit "app")) = .ok () := by
  decide +kernel

/-- Their emitter. -/
theorem validateEmitter_app : validateEmitter (.str (lit "app")) = .ok () := by decide +kernel

/-- An audit intent without fields. -/
def sampleIntent : AuditRecord where
  application := .str (lit "app")
  emitter := .str (lit "app")
  event := .str (lit "user.created")
  timestamp := firstHour
  fields := Dict.empty
  message := .none
  category := .admin
  actor := .str (lit "alice")
  stage := .intent
  operationId := .str (lit "1")
  outcome := none
  ok := by decide +kernel

/-- An intent with a field. -/
def countedIntent : AuditRecord :=
  ⟨{ sampleIntent.toAuditArgs with
      fields := Dict.empty.set (.str (lit "count")) (.atom (.int 3)) }, by decide +kernel⟩

/-- Its outcome, with a list and a message. -/
def countedOutcome : AuditRecord :=
  ⟨{ sampleIntent.toAuditArgs with
      fields := (Dict.empty.set (.str (lit "count")) (.atom (.int 3))).set (.str (lit "names"))
        (.tuple [.str (lit "alice"), .str (lit "bob")])
      message := .str (lit "3 users")
      stage := .outcome
      outcome := some .success }, by decide +kernel⟩

end NmLogging
