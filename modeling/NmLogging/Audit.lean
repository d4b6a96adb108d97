import NmLogging.Events
import NmLogging.Exceptions
import NmLogging.Framework.Prog

/-!
# Audit logging

`AuditLog` and `AuditOperation` of `audit.py`: the emit path that fails hard. A call is a
program over what the facade does outside itself (`AuditOp`): the clock, the factory of
operation ids, the sink, the attributes of handles, and exception objects. It raises
references to such objects. The exception that the caller is handling is a parameter of
every function, since a raised exception gets it for its context.
-/

namespace NmLogging

/-! ## Operations -/

/-- Where an audited operation stands. -/
inductive OperationState where
  | OPEN
  | FINALISED
  | FINALISATION_FAILED
  deriving DecidableEq

/-- A handle: the attributes of `AuditOperation` that never change. -/
structure AuditOperation where
  ref : Nat
  event : PyAtom
  schema : EventSchema
  actor : PyAtom
  operationId : PyAtom

/-- A call of a function that performs no operation; when it raises, its own frames and the
exceptions it was handling come with the exception. -/
inductive PureCall where
  | get (event : PyAtom)
  | validate (schema : EventSchema) (fields : Dict PyAtom PyObj) (stage : Stage)
  | render (schema : EventSchema) (fields : Dict PyAtom PyObj)
  | build (args : AuditArgs)

/-- What the facade does with exception objects. -/
inductive HeapOp where
  | alloc (o : ExcObj)
  | pureError (call : PureCall) (e : PyError) (handled : Option Exc)
  | raise (e : Exc) (cause : RaiseFrom) (handled : Option Exc) (loc : CodeLocation)
  | addFrame (e : Exc) (loc : CodeLocation)

abbrev HeapOp.Ret : HeapOp → Type
  | .alloc _ => Exc
  | .pureError _ _ _ => Exc
  | .raise _ _ _ _ => Unit
  | .addFrame _ _ => Unit

/-- What the facade does with the attributes of handles. -/
inductive HandleOp where
  | newHandle (event : PyAtom) (schema : EventSchema) (actor operationId : PyAtom)
  | getState (ref : Nat)
  | setState (ref : Nat) (state : OperationState)
  | getFailure (ref : Nat)
  | setFailure (ref : Nat) (e : Exc)
  | setAsContextManager (ref : Nat)

abbrev HandleOp.Ret : HandleOp → Type
  | .newHandle _ _ _ _ => AuditOperation
  | .getState _ => OperationState
  | .setState _ _ => Unit
  | .getFailure _ => Option Exc
  | .setFailure _ _ => Unit
  | .setAsContextManager _ => Unit

/-- What the facade does outside itself. -/
inductive AuditOp where
  | now (handled : Option Exc)
  | newOperationId (handled : Option Exc)
  | append (record : AuditRecord) (handled : Option Exc)
  | supportsAtomic
  | heap (o : HeapOp)
  | handle (o : HandleOp)

def auditSig : Sig where
  Op := AuditOp
  Ret
    | .now _ => Except Exc Datetime
    | .newOperationId _ => Except Exc PyAtom
    | .append _ _ => Except Exc Unit
    | .supportsAtomic => Bool
    | .heap o => o.Ret
    | .handle o => o.Ret

/-- What the facade runs. -/
abbrev AuditProg := Prog auditSig Exc

namespace AuditProg

def heap (o : HeapOp) : AuditProg o.Ret := .op (.heap o) .ret
def handle (o : HandleOp) : AuditProg o.Ret := .op (.handle o) .ret

end AuditProg

/-- A frame of `audit.py`. -/
def auditFrame (function : String) (line : Nat) : CodeLocation := ⟨lit "audit.py", line, lit function⟩

/-- A call, in a frame that its exception enters. -/
def inFrame {α : Type} (loc : CodeLocation) (p : AuditProg α) : AuditProg α :=
  p.elim .ret fun e => do
    AuditProg.heap (.addFrame e loc)
    .throw e

/-- The call of a function that performs no operation. -/
def pureCall {α : Type} (call : PureCall) (handled : Option Exc) : Except PyError α → AuditProg α
  | .ok a => .ret a
  | .error e => do
    let x ← AuditProg.heap (.pureError call e handled)
    .throw x

/-- `raise e from cause`, of an object. -/
def raiseExc {α : Type} (e : Exc) (cause : RaiseFrom) (handled : Option Exc) (loc : CodeLocation) :
    AuditProg α := do
  AuditProg.heap (.raise e cause handled loc)
  .throw e

/-- `raise cls(text) from None`. -/
def raiseNew {α : Type} (e : PyError) (handled : Option Exc) (loc : CodeLocation) :
    AuditProg α := do
  let x ← AuditProg.heap (.alloc (.ofError e))
  raiseExc x .fromNone handled loc

def clockNow (handled : Option Exc) : AuditProg Datetime := .op (.now handled) .ofExcept
def newOperationId (handled : Option Exc) : AuditProg PyAtom := .op (.newOperationId handled) .ofExcept
def sinkAppend (record : AuditRecord) (handled : Option Exc) : AuditProg Unit :=
  .op (.append record handled) .ofExcept

/-! ## The log -/

/-- An audit log, constructed: its names are valid. -/
structure AuditLog where
  application : PyAtom
  emitter : PyAtom
  registry : EventRegistry
  applicationOk : validateApplication application = .ok ()
  emitterOk : validateEmitter emitter = .ok ()

/-- `AuditLog(…)`. -/
def AuditLog.init (application emitter : PyAtom) (registry : EventRegistry) :
    Except PyError AuditLog :=
  match ha : validateApplication application, he : validateEmitter emitter with
  | .error e, _ => .error e
  | .ok (), .error e => .error e
  | .ok (), .ok () => .ok ⟨application, emitter, registry, ha, he⟩

def usageError (text : PyStr) : PyError := ⟨AuditUsageError, text⟩

/-- `_normalized_persistence_error`. -/
def normalizedPersistenceError (operationId : PyAtom) (original : Exc) : AuditProg Exc :=
  AuditProg.heap (.alloc { ExcObj.ofError ⟨AuditPersistenceError, lit "audit persistence failed"⟩ with
    operationId := operationId, sinkFailure := some original })

namespace AuditLog

variable (log : AuditLog)

/-- The arguments of a record. -/
def recordArgs (event : PyAtom) (category : Category) (actor : PyAtom) (stage : Stage)
    (fields : Dict PyAtom PyObj) (message operationId : PyAtom) (outcome : Option Outcome)
    (timestamp : Datetime) : AuditArgs where
  application := log.application
  emitter := log.emitter
  event := event
  timestamp := timestamp
  category := category
  actor := actor
  stage := stage
  operationId := operationId
  outcome := outcome
  fields := fields
  message := message

/-- `_build`. -/
def build (event : PyAtom) (category : Category) (actor : PyAtom) (stage : Stage)
    (fields : Dict PyAtom PyObj) (message operationId : PyAtom) (outcome : Option Outcome)
    (handled : Option Exc) : AuditProg AuditRecord := do
  let timestamp ← inFrame (auditFrame "_build" 217) (clockNow handled)
  let args := log.recordArgs event category actor stage fields message operationId outcome timestamp
  inFrame (auditFrame "_build" 213) (pureCall (.build args) handled args.construct)

/-- `complete`: there is no atomic sink. -/
def complete (handled : Option Exc) : AuditProg Unit := do
  let atomic ← .op .supportsAtomic .ret
  if !atomic then
    raiseNew (configurationError "complete requires an atomic state-plus-audit sink; this backend uses intent/outcome")
      handled (auditFrame "complete" 113)
  else
    raiseNew (configurationError "atomic complete is not implemented in this release")
      handled (auditFrame "complete" 117)

/-- The parameters that no field can be given for. -/
def methodParams : List PyStr := [lit "self", lit "event", lit "actor"]

variable [PyRuntime]

/-- The error of `operation` for an event whose outcomes must have fields. -/
def contextManagerError (event : PyAtom) : PyError :=
  let id := match event with | .str s => PyRuntime.strRepr s | _ => []
  usageError (lit "event " ++ id ++ lit (" declares a required_on_outcome field and " ++
    "cannot be used as a context manager; use intent() with an explicit " ++
    "success()/failure()/indeterminate()"))

/-- `intent`. An accepted schema is an audit event's, so its category is there. -/
def intent (event actor : PyAtom) (kw : Keywords methodParams) (handled : Option Exc) :
    AuditProg AuditOperation := do
  let schema ← inFrame (auditFrame "intent" 128)
    (pureCall (.get event) handled (log.registry.get event))
  let validated ← inFrame (auditFrame "intent" 129)
    (pureCall (.validate schema kw.fields .intent) handled (schema.validateAudit kw.fields .intent))
  let message ← inFrame (auditFrame "intent" 130)
    (pureCall (.render schema validated) handled (schema.renderMessage validated))
  let operationId ← inFrame (auditFrame "intent" 131) (newOperationId handled)
  let record ← inFrame (auditFrame "intent" 132)
    (log.build event (schema.category.getD .admin) actor .intent validated message operationId none
      handled)
  (inFrame (auditFrame "intent" 138) (sinkAppend record handled)).elim
    (fun _ => AuditProg.handle (.newHandle event schema actor operationId))
    fun original =>
      if original.isA .auditPersistenceError then do
        let normalized ← normalizedPersistenceError operationId original
        raiseExc normalized .fromNone handled (auditFrame "intent" 148)
      else .throw original

/-- `operation`. -/
def operation (event actor : PyAtom) (kw : Keywords methodParams) (handled : Option Exc) :
    AuditProg AuditOperation := do
  let schema ← inFrame (auditFrame "operation" 164)
    (pureCall (.get event) handled (log.registry.get event))
  if !schema.supportsContextManager then
    raiseNew (contextManagerError event) handled (auditFrame "operation" 168)
  else
    let op ← inFrame (auditFrame "operation" 173) (log.intent event actor kw handled)
    AuditProg.handle (.setAsContextManager op.ref)
    return op

/-- `_append_outcome`. -/
def appendOutcome (op : AuditOperation) (outcome : Outcome) (fields : Dict PyAtom PyObj)
    (handled : Option Exc) : AuditProg Unit := do
  let validated ← inFrame (auditFrame "_append_outcome" 191)
    (pureCall (.validate op.schema fields .outcome) handled (op.schema.validateAudit fields .outcome))
  let message ← inFrame (auditFrame "_append_outcome" 192)
    (pureCall (.render op.schema validated) handled (op.schema.renderMessage validated))
  let record ← inFrame (auditFrame "_append_outcome" 193)
    (log.build op.event (op.schema.category.getD .admin) op.actor .outcome validated message
      op.operationId (some outcome) handled)
  inFrame (auditFrame "_append_outcome" 199) (sinkAppend record handled)

end AuditLog

/-! ## Handles -/

namespace AuditOperation

variable [PyRuntime] (log : AuditLog) (op : AuditOperation)

/-- `_finalise`. Whatever the append raises makes the operation terminal, and only then is it
looked at. -/
def finalise (outcome : Outcome) (fields : Dict PyAtom PyObj) (handled : Option Exc) :
    AuditProg Unit := do
  let state ← AuditProg.handle (.getState op.ref)
  if state ≠ .OPEN then
    raiseNew (usageError (lit "audit operation already finalised or its finalisation failed"))
      handled (auditFrame "_finalise" 311)
  else
    (inFrame (auditFrame "_finalise" 316) (log.appendOutcome op outcome fields handled)).elim
      (fun _ => AuditProg.handle (.setState op.ref .FINALISED))
      fun original => do
        AuditProg.handle (.setState op.ref .FINALISATION_FAILED)
        AuditProg.handle (.setFailure op.ref original)
        if original.isA .auditPersistenceError then
          let persistenceFailure ← normalizedPersistenceError op.operationId original
          AuditProg.handle (.setFailure op.ref persistenceFailure)
          raiseExc persistenceFailure .fromNone handled (auditFrame "_finalise" 349)
        else .throw original

/-- The parameters that no field can be given for. -/
def methodParams : List PyStr := [lit "self"]

def success (kw : Keywords methodParams) (handled : Option Exc) : AuditProg Unit :=
  inFrame (auditFrame "success" 297) (op.finalise log .success kw.fields handled)

def failure (kw : Keywords methodParams) (handled : Option Exc) : AuditProg Unit :=
  inFrame (auditFrame "failure" 301) (op.finalise log .failure kw.fields handled)

def indeterminate (kw : Keywords methodParams) (handled : Option Exc) : AuditProg Unit :=
  inFrame (auditFrame "indeterminate" 305) (op.finalise log .indeterminate kw.fields handled)

/-- The method that records an outcome. -/
def record (outcome : Outcome) (kw : Keywords methodParams) (handled : Option Exc) :
    AuditProg Unit :=
  match outcome with
  | .success => op.success log kw handled
  | .failure => op.failure log kw handled
  | .indeterminate => op.indeterminate log kw handled

omit [PyRuntime] in
/-- `_raise_finalisation_error`. -/
def raiseFinalisationError {α : Type} (bodyException : Exc) (handled : Option Exc) :
    AuditProg α := do
  let finalisationException ← AuditProg.handle (.getFailure op.ref)
  let finalisationType := match finalisationException with
    | some e => e.cls.qualname
    | none => lit "NoneType"
  let error ← AuditProg.heap (.alloc
    { ExcObj.ofError ⟨AuditFinalisationError, lit "audit outcome could not be established"⟩ with
      bodyException := some bodyException
      finalisationException := finalisationException
      operationId := op.operationId
      notes := [lit "nm-logging audit finalisation failed: body=" ++ bodyException.cls.qualname ++
        lit ", finalisation=" ++ finalisationType] })
  match finalisationException with
  | some cause =>
    if cause.isA .auditPersistenceError then
      raiseExc error (.fromExc cause) handled (auditFrame "_raise_finalisation_error" 435)
    else raiseExc error .fromNone handled (auditFrame "_raise_finalisation_error" 438)
  | none => raiseExc error .fromNone handled (auditFrame "_raise_finalisation_error" 438)

/-- `__exit__`; a failed operation has its failure stored. -/
def exit (exc handled : Option Exc) : AuditProg Bool := do
  let state ← AuditProg.handle (.getState op.ref)
  match state, exc with
  | .FINALISED, _ => return false
  | .FINALISATION_FAILED, none => do
    match ← AuditProg.handle (.getFailure op.ref) with
    | some stored => raiseExc stored .unsaid handled (auditFrame "__exit__" 365)
    | none =>
      raiseNew ⟨TypeError, lit "exceptions must derive from BaseException"⟩ handled
        (auditFrame "__exit__" 365)
  | .FINALISATION_FAILED, some e => do
    let stored ← AuditProg.handle (.getFailure op.ref)
    if stored = some e then return false
    else inFrame (auditFrame "__exit__" 370) (op.raiseFinalisationError e handled)
  | .OPEN, none =>
    raiseNew (usageError (lit "audited operation exited without recording an outcome")) handled
      (auditFrame "__exit__" 376)
  | .OPEN, some e =>
    (inFrame (auditFrame "__exit__" 383) (op.indeterminate log .empty handled)).elim
      (fun _ => .ret false)
      fun failure =>
        if failure.isA .exception then
          inFrame (auditFrame "__exit__" 393) (op.raiseFinalisationError e (some failure))
        else .throw failure

end AuditOperation

end NmLogging
