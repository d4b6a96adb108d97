import Mathlib.Logic.Function.Basic
import NmLogging.Audit
import NmLogging.Framework.Interleave

/-!
# Runs of the audit facade

What the operations of an audit log's programs do. The clock, the factory of operation ids
and the sink are any objects (`Externals`): a call of one returns or raises, and may do
anything to the exception objects and to the rest of the world. The state of a run also has
the history of the calls of the sink and of the factory, and the attributes of the handles.

`AuditLog.system` has the runs in which calls of one log are interleaved in any order. A
call on a handle starts only when the handle has been returned, and while no other call on it
is being made.
-/

namespace NmLogging

/-! ## Objects outside -/

/-- What a function that performs no operation leaves in an exception: the frames below the
facade's, and the exceptions that were being handled there, outermost first. -/
structure PureTrace where
  frames : List CodeLocation := []
  beneath : List ExcObj := []
  suppress : Bool := true

/-- What is outside the facade: what calls of the clock, of the factory of operation ids, and
of the sink return or raise, and what the world is then. -/
structure Externals (ω : Type) where
  clock : Option Exc → Heap × ω → Except Exc Datetime → Heap × ω → Prop
  factory : Option Exc → Heap × ω → Except Exc PyAtom → Heap × ω → Prop
  sink : AuditRecord → Option Exc → Heap × ω → Except Exc Unit → Heap × ω → Prop
  atomic : Heap × ω → Bool → Prop
  trace : PureCall → PureTrace

/-! ## The state -/

/-- A call of the sink on behalf of an operation, and how it ended. -/
structure AppendEntry where
  owner : Nat
  record : AuditRecord
  result : Except Exc Unit

/-- The attributes of a handle. -/
structure OperationCell where
  op : AuditOperation
  state : OperationState := .OPEN
  failure : Option Exc := none
  asContextManager : Bool := false

/-- The state of a run: exception objects and the world, what the sink and the factory of
operation ids did, and the handles. -/
structure AuditState (ω : Type) where
  memory : Heap × ω
  appends : List AppendEntry := []
  ids : List (Nat × PyAtom) := []
  cells : Nat → Option OperationCell := fun _ => none

/-! ## Operations -/

/-- New objects, each the context of the next. -/
def Heap.allocChain (h : Heap) (context : Option Exc) : List ExcObj → Option Exc × Heap
  | [] => (context, h)
  | o :: os =>
    let (x, h') := h.alloc { o with context := context }
    h'.allocChain (some x) os

def HeapOp.apply (trace : PureCall → PureTrace) (h : Heap) : (o : HeapOp) → o.Ret × Heap
  | .alloc o => h.alloc o
  | .pureError call e handled =>
    let (context, h') := h.allocChain handled (trace call).beneath
    h'.alloc { ExcObj.ofError e with
      context := context
      suppressContext := (trace call).suppress
      traceback := (trace call).frames }
  | .raise e cause handled loc => ((), h.raise e cause handled loc)
  | .addFrame e loc => ((), h.addFrame e loc)

/-- The handle that an operation is about. A call that makes one has its reference. -/
def HandleOp.ref (k : Nat) : HandleOp → Nat
  | .newHandle _ _ _ _ => k
  | .getState ref | .setState ref _ | .getFailure ref | .setFailure ref _
  | .setAsContextManager ref => ref

def HandleOp.apply (k : Nat) : (o : HandleOp) → Option OperationCell → Option (o.Ret × OperationCell)
  | .newHandle event schema actor id, none =>
    some (⟨k, event, schema, actor, id⟩, { op := ⟨k, event, schema, actor, id⟩ })
  | .newHandle _ _ _ _, some _ => none
  | .getState _, some cell => some (cell.state, cell)
  | .setState _ state, some cell => some ((), { cell with state := state })
  | .getFailure _, some cell => some (cell.failure, cell)
  | .setFailure _ e, some cell => some ((), { cell with failure := some e })
  | .setAsContextManager _, some cell => some ((), { cell with asContextManager := true })
  | .getState _, none | .setState _ _, none | .getFailure _, none | .setFailure _ _, none
  | .setAsContextManager _, none => none

/-- The id that the factory returned, if it did. -/
def issued (k : Nat) : Except Exc PyAtom → List (Nat × PyAtom)
  | .ok id => [(k, id)]
  | .error _ => []

variable {ω : Type}

/-- What an operation of a call does, on behalf of the operation `k`. -/
def auditStep (X : Externals ω) (k : Nat) (s : AuditState ω) :
    (o : AuditOp) → auditSig.Ret o → AuditState ω → Prop
  | .now handled, r, s' => ∃ m, X.clock handled s.memory r m ∧ s' = { s with memory := m }
  | .newOperationId handled, r, s' =>
    ∃ m, X.factory handled s.memory r m ∧ s' = { s with memory := m, ids := s.ids ++ issued k r }
  | .append record handled, r, s' =>
    ∃ m, X.sink record handled s.memory r m ∧
      s' = { s with memory := m, appends := s.appends ++ [⟨k, record, r⟩] }
  | .supportsAtomic, r, s' => X.atomic s.memory r ∧ s' = s
  | .heap o, r, s' =>
    r = (o.apply X.trace s.memory.1).1 ∧
      s' = { s with memory := ((o.apply X.trace s.memory.1).2, s.memory.2) }
  | .handle o, r, s' =>
    ∃ cell, o.apply k (s.cells (o.ref k)) = some (r, cell) ∧
      s' = { s with cells := Function.update s.cells (o.ref k) (some cell) }

def auditSem (X : Externals ω) (k : Nat) : Semantics auditSig (AuditState ω) where
  step := auditStep X k

/-- What is outside the facade, where functions say what it does. -/
structure ScriptedExternals (ω : Type) where
  clock : Option Exc → Heap × ω → Except Exc Datetime × (Heap × ω)
  factory : Option Exc → Heap × ω → Except Exc PyAtom × (Heap × ω)
  sink : AuditRecord → Option Exc → Heap × ω → Except Exc Unit × (Heap × ω)
  atomic : Bool := false
  trace : PureCall → PureTrace := fun _ => {}

namespace ScriptedExternals

variable (F : ScriptedExternals ω)

def externals : Externals ω where
  clock handled m r m' := F.clock handled m = (r, m')
  factory handled m r m' := F.factory handled m = (r, m')
  sink record handled m r m' := F.sink record handled m = (r, m')
  atomic _ b := F.atomic = b
  trace := F.trace

/-- The answer of an operation, and the state after it. -/
def answer (k : Nat) (s : AuditState ω) : (o : AuditOp) → Option (auditSig.Ret o × AuditState ω)
  | .now handled =>
    let (r, m) := F.clock handled s.memory
    some (r, { s with memory := m })
  | .newOperationId handled =>
    let (r, m) := F.factory handled s.memory
    some (r, { s with memory := m, ids := s.ids ++ issued k r })
  | .append record handled =>
    let (r, m) := F.sink record handled s.memory
    some (r, { s with memory := m, appends := s.appends ++ [⟨k, record, r⟩] })
  | .supportsAtomic => some (F.atomic, s)
  | .heap o =>
    let (r, h) := o.apply F.trace s.memory.1
    some (r, { s with memory := (h, s.memory.2) })
  | .handle o =>
    (o.apply k (s.cells (o.ref k))).map fun (r, cell) =>
      (r, { s with cells := Function.update s.cells (o.ref k) (some cell) })

theorem step_of_answer {F : ScriptedExternals ω} {k : Nat} {s s' : AuditState ω} {o : AuditOp}
    {r : auditSig.Ret o} (h : F.answer k s o = some (r, s')) :
    (auditSem F.externals k).step s o r s' := by
  cases o with
  | now handled => cases h; exact ⟨_, rfl, rfl⟩
  | newOperationId handled => cases h; exact ⟨_, rfl, rfl⟩
  | append record handled => cases h; exact ⟨_, rfl, rfl⟩
  | supportsAtomic => cases h; exact ⟨rfl, rfl⟩
  | heap o => cases h; exact ⟨rfl, rfl⟩
  | handle o =>
    obtain ⟨⟨r', cell⟩, hcell, e⟩ := Option.map_eq_some_iff.mp h
    cases e
    exact ⟨cell, hcell, rfl⟩

end ScriptedExternals

/-! ## Calls -/

/-- A call of the facade. -/
inductive AuditCall where
  | complete (handled : Option Exc)
  | intent (event actor : PyAtom) (kw : Keywords AuditLog.methodParams) (handled : Option Exc)
  | operation (event actor : PyAtom) (kw : Keywords AuditLog.methodParams) (handled : Option Exc)
  | record (op : AuditOperation) (outcome : Outcome) (kw : Keywords AuditOperation.methodParams)
    (handled : Option Exc)
  | exit (op : AuditOperation) (exc handled : Option Exc)

/-- What a call returns. -/
inductive AuditValue where
  | none
  | handle (op : AuditOperation)
  | suppress (b : Bool)

/-- The handle that a call is on. -/
def AuditCall.on : AuditCall → Option AuditOperation
  | .complete _ | .intent _ _ _ _ | .operation _ _ _ _ => none
  | .record op _ _ _ | .exit op _ _ => some op

/-- The operation on whose behalf the `i`-th call is made: a handle has the number of the
call that made it. -/
def AuditCall.key (i : Nat) (c : AuditCall) : Nat :=
  match c.on with
  | some op => op.ref
  | none => i

variable [PyRuntime]

def AuditLog.call (log : AuditLog) : AuditCall → AuditProg AuditValue
  | .complete handled => do
    AuditLog.complete handled
    return .none
  | .intent event actor kw handled => do return .handle (← log.intent event actor kw handled)
  | .operation event actor kw handled => do return .handle (← log.operation event actor kw handled)
  | .record op outcome kw handled => do
    op.record log outcome kw handled
    return .none
  | .exit op exc handled => do return .suppress (← op.exit log exc handled)

/-- Whether a call may start: its handle has been returned, and no call on it is being made. -/
def AuditCall.canStart (cs : List (AuditCall × AuditProg AuditValue)) (c : AuditCall) : Prop :=
  ∀ op, c.on = some op →
    (∃ (i : Nat) (c' : AuditCall), cs[i]? = some (c', .ret (.handle op))) ∧
      ∀ (i : Nat) (c' : AuditCall) (p : AuditProg AuditValue) (op' : AuditOperation),
        cs[i]? = some (c', p) → p.result? = none → c'.on = some op' → op'.ref ≠ op.ref

/-- Calls of a log, interleaved. -/
def AuditLog.system (log : AuditLog) (X : Externals ω) :
    System auditSig Exc AuditValue AuditCall (AuditState ω) where
  prog := log.call
  sem i c := auditSem X (c.key i)
  canStart _ cs c := c.canStart cs

/-! ## A log -/

omit [PyRuntime]

/-- An audit event with an optional text. -/
def userCreated : EventSchema where
  eventId := .str (lit "user.created")
  category := some .admin
  fields := [{ name := .str (lit "note"), type := .str, ok := by decide +kernel }]
  ok := by decide +kernel

/-- A log with that event. -/
def userLog : AuditLog where
  application := .str (lit "app")
  emitter := .str (lit "app")
  registry := ⟨⟨[(.str (lit "user.created"), userCreated)], by decide⟩, by simp [userCreated]⟩
  applicationOk := validateApplication_app
  emitterOk := validateEmitter_app

/-- A clock that stands still, ids that count, and a sink that takes everything. -/
def obliging : ScriptedExternals Nat where
  clock _ m := (.ok firstHour, m)
  factory _ m := (.ok (.str (natText m.2)), m.1, m.2 + 1)
  sink _ _ m := (.ok (), m)

end NmLogging
