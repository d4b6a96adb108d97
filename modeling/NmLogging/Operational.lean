import NmLogging.Events
import NmLogging.Framework.Prog
import NmLogging.Health

/-!
# Operational logging

`OperationalLog` of `operational.py`: the emit path that fails open. A call is a
program over what the log does outside itself (`LogOp`): it reads the clock, hands
records to its sink, marks its health and writes to the fallback channel.
-/

namespace NmLogging

/-! ## Operations -/

/-- What an operational log does outside itself. -/
inductive LogOp where
  | now
  | sinkWrite (record : OperationalRecord)
  | markHealthy
  | markDegraded (kind : PyStr)
  | fallbackEmit (text : PyStr)

def logSig : Sig where
  Op := LogOp
  Ret
    | .now => Except PyError Datetime
    | .sinkWrite _ => Except PyError Unit
    | .markHealthy => Unit
    | .markDegraded _ => Unit
    | .fallbackEmit _ => Except PyError Unit

/-- What an operational log runs. -/
abbrev LogProg := Prog logSig PyError

def now : LogProg Datetime := .op .now .ofExcept
def sinkWrite (record : OperationalRecord) : LogProg Unit := .op (.sinkWrite record) .ofExcept
def fallbackEmit (text : PyStr) : LogProg Unit := .op (.fallbackEmit text) .ofExcept
def markHealthy : LogProg Unit := .op .markHealthy .ret
def markDegraded (kind : PyStr) : LogProg Unit := .op (.markDegraded kind) .ret

/-! ## The log -/

def DEFECT_EVENT : PyAtom := .str (lit "nmlogging.operational.defect")

/-- `_DEFECT_SCHEMA`. -/
def DEFECT_SCHEMA : EventSchema where
  eventId := DEFECT_EVENT
  severity := some .error
  fields := [
    { name := .str (lit "violation"), type := .str, required := true, ok := by decide +kernel },
    { name := .str (lit "offending_event"), type := .str, ok := by decide +kernel }]
  ok := by decide +kernel

/-- `_is_safe_event_ref`. -/
def isSafeEventRef : PyAtom → Bool
  | .str s => s.length ≤ MAX_EVENT_ID_CHARS && eventIdRe.fullmatch s
  | _ => false

/-- An operational log, constructed: its names are valid and the defect event is
registered. -/
structure OperationalLog where
  application : PyAtom
  emitter : PyAtom
  registry : EventRegistry
  defectSchema : EventSchema
  strict : Bool
  applicationOk : validateApplication application = .ok ()
  emitterOk : validateEmitter emitter = .ok ()
  defectOk : registry.get DEFECT_EVENT = .ok defectSchema

namespace OperationalLog

/-- The registry with the package's self-report, as `OperationalLog.__init__` leaves it. -/
def withDefectEvent (registry : EventRegistry) : Except PyError EventRegistry :=
  if registry.contains DEFECT_EVENT then .ok registry else registry.registerReserved DEFECT_SCHEMA

/-- `OperationalLog(…)`. -/
def init (application emitter : PyAtom) (registry : EventRegistry) (strict : Bool) :
    Except PyError OperationalLog :=
  match ha : validateApplication application, he : validateEmitter emitter with
  | .error e, _ => .error e
  | .ok (), .error e => .error e
  | .ok (), .ok () => do
    let registry ← withDefectEvent registry
    match hd : registry.get DEFECT_EVENT with
    | .ok defectSchema => return ⟨application, emitter, registry, defectSchema, strict, ha, he, hd⟩
    | .error e => .error e

variable [PyRuntime] (log : OperationalLog)

/-- The arguments of the record of an event. -/
def recordArgs (event : PyAtom) (severity : Severity) (fields : Dict PyAtom PyObj)
    (message : PyAtom) (timestamp : Datetime) : OperationalArgs where
  application := log.application
  emitter := log.emitter
  event := event
  timestamp := timestamp
  severity := severity
  fields := fields
  message := message

/-- The record of an event at the time of the clock. -/
def buildRecord (event : PyAtom) (severity : Severity) (schema : EventSchema)
    (fields : Dict PyAtom PyObj) : LogProg OperationalRecord := do
  let validated ← .ofExcept (schema.validateOperational severity fields)
  let message ← .ofExcept (schema.renderMessage validated)
  let timestamp ← now
  .ofExcept (log.recordArgs event severity validated message timestamp).construct

omit [PyRuntime] in
/-- `_degrade`. -/
def degrade (kind : PyStr) : LogProg Unit := do
  markDegraded kind
  (fallbackEmit (lit "operational sink degraded (" ++ kind ++ lit ")")).tryCatch fun e =>
    if e.isA .exception then .ret () else .throw e

/-- The fields of the record of a defect. -/
def defectFields (event : PyAtom) (kind : PyStr) : Dict PyAtom PyObj :=
  let fields := Dict.empty.set (.str (lit "violation")) (.atom (.str kind))
  if isSafeEventRef event then fields.set (.str (lit "offending_event")) (.atom event) else fields

/-- `_emit_defect_record`. -/
def emitDefectRecord (event : PyAtom) (kind : PyStr) : LogProg Unit :=
  (do
    let record ← log.buildRecord DEFECT_EVENT .error log.defectSchema (defectFields event kind)
    sinkWrite record).elim
    (fun _ => markHealthy)
    (fun e => if e.isA .exception then degrade (lit "defect_unwritable") else .throw e)

/-- `_handle_defect`. -/
def handleDefect (event : PyAtom) (exc : PyError) (kind : PyStr) : LogProg Unit :=
  if log.strict then .throw exc else log.emitDefectRecord event kind

/-- `_write`. -/
def write (record : OperationalRecord) (event : PyAtom) : LogProg Unit :=
  (sinkWrite record).elim (fun _ => markHealthy) fun exc =>
    if exc.isA .eventSchemaError then log.handleDefect event exc (lit "oversize")
    else if exc.isA .sinkError then degrade (lit "sink_write")
    else .throw exc

/-- `_emit`. -/
def emit (severity : Severity) (event : PyAtom) (fields : Dict PyAtom PyObj) : LogProg Unit :=
  match log.registry.get event with
  | .error exc =>
    if exc.isA .eventSchemaError then log.handleDefect event exc (lit "unknown_event")
    else .throw exc
  | .ok schema =>
    (log.buildRecord event severity schema fields).elim (fun record => log.write record event)
      fun exc =>
        if exc.isA .eventSchemaError then log.handleDefect event exc (lit "schema_violation")
        else if exc.isA .loggingConfigurationError then
          log.handleDefect event exc (lit "record_construction")
        else .throw exc

/-- The parameters of a severity method that no field can be given for. -/
def methodParams : List PyStr := [lit "self", lit "event"]

/-- The name of the method of a severity. -/
def methodName : Severity → PyStr
  | .info => lit "OperationalLog.info"
  | .warning => lit "OperationalLog.warning"
  | .error => lit "OperationalLog.error"
  | .critical => lit "OperationalLog.critical"

def info (event : PyAtom) (kw : Keywords methodParams) : LogProg Unit :=
  log.emit .info event kw.fields

def warning (event : PyAtom) (kw : Keywords methodParams) : LogProg Unit :=
  log.emit .warning event kw.fields

def error (event : PyAtom) (kw : Keywords methodParams) : LogProg Unit :=
  log.emit .error event kw.fields

def critical (event : PyAtom) (kw : Keywords methodParams) : LogProg Unit :=
  log.emit .critical event kw.fields

/-- The method of a severity. -/
def method (severity : Severity) (event : PyAtom) (kw : Keywords methodParams) : LogProg Unit :=
  match severity with
  | .info => log.info event kw
  | .warning => log.warning event kw
  | .error => log.error event kw
  | .critical => log.critical event kw

/-- `log.<severity>(event, **fields)`. -/
def call (severity : Severity) (event : PyAtom) (fields : Dict PyAtom PyObj) : LogProg Unit := do
  let kw ← .ofExcept (bindKeywords (methodName severity) methodParams fields)
  log.method severity event kw

/-! ## Building a record -/

variable {log} {event : PyAtom} {severity : Severity} {schema : EventSchema}
  {fields d : Dict PyAtom PyObj} {e : PyError}

theorem buildRecord_of_invalid (h : schema.validateOperational severity fields = .error e) :
    log.buildRecord event severity schema fields = .throw e := by
  rw [buildRecord, h]; rfl

theorem buildRecord_of_unrendered (h : schema.validateOperational severity fields = .ok d)
    (hm : schema.renderMessage d = .error e) :
    log.buildRecord event severity schema fields = .throw e := by
  rw [buildRecord, h, Prog.ofExcept_ok, Prog.ret_bind, hm]; rfl

theorem buildRecord_of_rendered {m : PyAtom}
    (h : schema.validateOperational severity fields = .ok d) (hm : schema.renderMessage d = .ok m) :
    log.buildRecord event severity schema fields =
      now >>= fun timestamp => .ofExcept (log.recordArgs event severity d m timestamp).construct := by
  rw [buildRecord, h, Prog.ofExcept_ok, Prog.ret_bind, hm]; rfl

omit [PyRuntime] in
/-- A record of guarded fields is accepted. -/
theorem construct_guarded (hid : schema.eventId = event) (hd : schema.Guarded fields d)
    {message : PyAtom} (hm : message = .none ∨ ∃ s, message = .str s) {timestamp : Datetime}
    (ht : timestamp.utcoffset = some 0) :
    ∃ r, (log.recordArgs event severity d message timestamp).construct = .ok r ∧ r.fields = d := by
  have hv : (log.recordArgs event severity d message timestamp).postInit = .ok () := by
    simp only [recordArgs, OperationalArgs.postInit, Envelope.postInit, check_eq_ok,
      log.applicationOk, log.emitterOk, validateEvent_ok, validateTimestamp_ok, ht, require_eq_ok,
      true_and]
    obtain ⟨⟨id, hid', hlen, hre⟩, -⟩ := schema.postInit_ok
    refine ⟨⟨id, hid ▸ hid', hlen, hre⟩, ?_, ?_, List.all_eq_true.mpr hd.fieldValues.2⟩
    · rcases hm with rfl | ⟨s, rfl⟩ <;> rfl
    · rw [Bool.not_eq_true', List.any_eq_false]
      exact fun k hk => Bool.eq_false_iff.mp (hd.fieldValues.1 k hk)
  exact ⟨⟨_, hv⟩, OperationalArgs.construct_ok.mpr rfl, rfl⟩

end OperationalLog

end NmLogging
