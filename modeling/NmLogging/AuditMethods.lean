import NmLogging.AuditCells

/-!
# The methods on one operation

One specification for each method of the facade, on what is seen of one operation
(`cellSem`): `wp_intent`, `wp_operation`, `wp_record` and `wp_exit`. They say what the method
returns or raises, what it appends, and what it leaves in the handle.
-/

namespace NmLogging

variable [PyRuntime] {clock : Except Exc Datetime → Prop} {k : Nat} {cell : OperationCell}
  {appends : List AppendEntry} {ids : List (Nat × PyAtom)}

/-! ## Handles -/

omit [PyRuntime] in
theorem wp_handle {o : HandleOp} {r : o.Ret} {cell' : OperationCell}
    {Q : Except Exc o.Ret → OperationView → Prop}
    (hp : OperationView.Allows k ⟨some cell, appends, ids⟩ (.handle o))
    (ha : o.apply k (some cell) = some (r, cell')) (h : Q (.ok r) ⟨some cell', appends, ids⟩) :
    (AuditProg.handle o).wp (cellSem clock k) ⟨some cell, appends, ids⟩ Q := by
  refine ⟨hp, fun r' v' hs => ?_⟩
  obtain ⟨cell'', ha', rfl⟩ := hs
  rw [ha] at ha'
  cases ha'
  exact h

omit [PyRuntime] in
theorem wp_getState {Q : Except Exc OperationState → OperationView → Prop}
    (h : Q (.ok cell.state) ⟨some cell, appends, ids⟩) :
    (AuditProg.handle (.getState k)).wp (cellSem clock k) ⟨some cell, appends, ids⟩ Q :=
  wp_handle rfl rfl h

omit [PyRuntime] in
theorem wp_getFailure {Q : Except Exc (Option Exc) → OperationView → Prop}
    (h : Q (.ok cell.failure) ⟨some cell, appends, ids⟩) :
    (AuditProg.handle (.getFailure k)).wp (cellSem clock k) ⟨some cell, appends, ids⟩ Q :=
  wp_handle rfl rfl h

omit [PyRuntime] in
theorem wp_setFailure {e : Exc} {Q : Except Exc Unit → OperationView → Prop}
    (h : Q (.ok ()) ⟨some { cell with failure := some e }, appends, ids⟩) :
    (AuditProg.handle (.setFailure k e)).wp (cellSem clock k) ⟨some cell, appends, ids⟩ Q :=
  wp_handle rfl rfl h

omit [PyRuntime] in
theorem wp_setState {state : OperationState} {Q : Except Exc Unit → OperationView → Prop}
    (hopen : cell.state = .OPEN) (hne : state ≠ .OPEN)
    (hs : state = .FINALISED ↔ ∃ a b, appends = [a, b] ∧ b.result = .ok ())
    (h : Q (.ok ()) ⟨some { cell with state := state }, appends, ids⟩) :
    (AuditProg.handle (.setState k state)).wp (cellSem clock k) ⟨some cell, appends, ids⟩ Q :=
  wp_handle ⟨rfl, hne, ⟨cell, rfl, hopen⟩, hs⟩ rfl h

/-! ## Recording an outcome -/

/-- The exception that leaves the facade for one that a call of the sink, or what comes before
it, raised. -/
def Surfaces (x e : Exc) : Prop :=
  if x.isA .auditPersistenceError then e.cls = AuditPersistenceError else e = x

section

variable (log : AuditLog) (op : AuditOperation) (outcome : Outcome) (fields : Dict PyAtom PyObj)
  (clock : Except Exc Datetime → Prop)

/-- A record that says the outcome of an operation. -/
inductive IsOutcome (record : AuditRecord) : Prop where
  | mk {d : Dict PyAtom PyObj} {message : PyAtom} {t : Datetime}
    (validated : op.schema.validateAudit fields .outcome = .ok d)
    (rendered : op.schema.renderMessage d = .ok message) (now : clock (.ok t))
    (args : record.toAuditArgs = log.recordArgs op.event (op.schema.category.getD .admin) op.actor
      .outcome d message op.operationId (some outcome) t)

/-- An exception by which recording an outcome ends before the record is appended. -/
inductive Prevented (x : Exc) : Prop where
  | invalid {e : PyError} (h : op.schema.validateAudit fields .outcome = .error e)
    (cls : x.cls = e.cls)
  | unrendered {d : Dict PyAtom PyObj} {e : PyError}
    (validated : op.schema.validateAudit fields .outcome = .ok d)
    (h : op.schema.renderMessage d = .error e) (cls : x.cls = e.cls)
  | clock (h : clock (.error x))
  | unbuilt {d : Dict PyAtom PyObj} {message : PyAtom} {t : Datetime} {e : PyError}
    (validated : op.schema.validateAudit fields .outcome = .ok d)
    (rendered : op.schema.renderMessage d = .ok message) (now : clock (.ok t))
    (h : (log.recordArgs op.event (op.schema.category.getD .admin) op.actor .outcome d message
      op.operationId (some outcome) t).construct = .error e) (cls : x.cls = e.cls)

/-- How recording an outcome of an open operation ends. -/
inductive Finalised (k : Nat) (cell : OperationCell) (appends : List AppendEntry)
    (ids : List (Nat × PyAtom)) : Except Exc Unit → OperationView → Prop where
  | recorded {record : AuditRecord} (h : IsOutcome log op outcome fields clock record) :
    Finalised k cell appends ids (.ok ())
      ⟨some { cell with state := .FINALISED }, appends ++ [⟨k, record, .ok ()⟩], ids⟩
  | prevented {x e : Exc} (h : Prevented log op outcome fields clock x) (raised : Surfaces x e) :
    Finalised k cell appends ids (.error e)
      ⟨some { cell with state := .FINALISATION_FAILED, failure := some e }, appends, ids⟩
  | refused {record : AuditRecord} {x e : Exc} (h : IsOutcome log op outcome fields clock record)
    (raised : Surfaces x e) :
    Finalised k cell appends ids (.error e)
      ⟨some { cell with state := .FINALISATION_FAILED, failure := some e },
        appends ++ [⟨k, record, .error x⟩], ids⟩

end

section

variable {log : AuditLog} {op : AuditOperation} {outcome : Outcome} {fields : Dict PyAtom PyObj}
  {handled : Option Exc}

theorem IsOutcome.stage {record : AuditRecord} (h : IsOutcome log op outcome fields clock record) :
    record.stage = .outcome := by
  obtain ⟨-, -, -, args⟩ := h
  rw [args]
  rfl

theorem IsOutcome.outcome_eq {record : AuditRecord}
    (h : IsOutcome log op outcome fields clock record) : record.outcome = some outcome := by
  obtain ⟨-, -, -, args⟩ := h
  rw [args]
  rfl

theorem IsOutcome.belongs {record : AuditRecord}
    (h : IsOutcome log op outcome fields clock record) : record.BelongsTo op := by
  obtain ⟨-, -, -, args⟩ := h
  constructor <;> rw [args] <;> rfl

/-- Appending an outcome: the record is appended, or something prevented it. -/
theorem wp_appendOutcome {Q : Except Exc Unit → OperationView → Prop} (hop : cell.op = op)
    (hopen : cell.state = .OPEN) (hlen : appends.length = 1)
    (hprev : ∀ x, Prevented log op outcome fields clock x → Q (.error x) ⟨some cell, appends, ids⟩)
    (happ : ∀ record r, IsOutcome log op outcome fields clock record →
      Q r ⟨some cell, appends ++ [⟨k, record, r⟩], ids⟩) :
    (log.appendOutcome op outcome fields handled).wp (cellSem clock k)
      ⟨some cell, appends, ids⟩ Q := by
  have hM : Quiet (cellSem clock k) clock := quiet_cellSem
  rw [AuditLog.appendOutcome, Prog.wp_bind]
  refine hM.inFrame (hM.pureCall (fun d hd => ?_) fun e x he hx => hprev x (.invalid he hx))
  show Prog.wp _ (_ >>= _) _ _
  rw [Prog.wp_bind]
  refine hM.inFrame (hM.pureCall (fun message hm => ?_)
    fun e x he hx => hprev x (.unrendered hd he hx))
  show Prog.wp _ (_ >>= _) _ _
  rw [Prog.wp_bind]
  refine hM.inFrame (hM.build (fun x hx => hprev x (.clock hx)) (fun t record ht hargs => ?_)
    fun t e x ht he hx => hprev x (.unbuilt hd hm ht he hx))
  have hrec : IsOutcome log op outcome fields clock record := ⟨hd, hm, ht, hargs⟩
  refine hM.inFrame ⟨.inr ⟨cell, rfl, hopen, hlen, hrec.stage, hop ▸ hrec.belongs⟩,
    fun r v' hs => ?_⟩
  cases hs
  cases (r : Except Exc Unit) with
  | ok u => exact happ record (.ok u) hrec
  | error x => exact happ record (.error x) hrec

theorem wp_finalise_open (hop : cell.op = op) (href : op.ref = k) (hopen : cell.state = .OPEN)
    (hlen : appends.length = 1) :
    (op.finalise log outcome fields handled).wp (cellSem clock k) ⟨some cell, appends, ids⟩
      (Finalised log op outcome fields clock k cell appends ids) := by
  have hM : Quiet (cellSem clock k) clock := quiet_cellSem
  obtain ⟨a, rfl⟩ := List.length_eq_one_iff.mp hlen
  subst href
  -- what follows an exception, whichever appends were made
  have failed : ∀ {x : Exc} {appends' : List AppendEntry},
      (¬∃ a b, appends' = [a, b] ∧ b.result = .ok ()) → (∀ e, Surfaces x e →
        Finalised log op outcome fields clock op.ref cell [a] ids (.error e)
          ⟨some { cell with state := .FINALISATION_FAILED, failure := some e }, appends', ids⟩) →
      Prog.wp (cellSem clock op.ref) (do
        AuditProg.handle (.setState op.ref .FINALISATION_FAILED)
        AuditProg.handle (.setFailure op.ref x)
        if x.isA .auditPersistenceError then
          let persistenceFailure ← normalizedPersistenceError op.operationId x
          AuditProg.handle (.setFailure op.ref persistenceFailure)
          raiseExc persistenceFailure .fromNone handled (auditFrame "_finalise" 349)
        else .throw x) ⟨some cell, appends', ids⟩
        (Finalised log op outcome fields clock op.ref cell [a] ids) := by
    intro x appends' happ hfin
    rw [Prog.wp_bind]
    refine wp_setState hopen (by decide) ⟨fun h => (by cases h), fun h => absurd h happ⟩ ?_
    show Prog.wp _ (_ >>= _) _ _
    rw [Prog.wp_bind]
    refine wp_setFailure ?_
    show Prog.wp _ (if _ then _ else _) _ _
    split
    · rename_i hx
      rw [Prog.wp_bind]
      refine hM.normalizedPersistenceError fun e he => ?_
      show Prog.wp _ (_ >>= _) _ _
      rw [Prog.wp_bind]
      exact wp_setFailure (hM.raiseExc (hfin e (by rw [Surfaces, if_pos hx]; exact he)))
    · rename_i hx
      exact hfin x (by rw [Surfaces, if_neg hx])
  rw [AuditOperation.finalise, Prog.wp_bind]
  refine wp_getState ?_
  show Prog.wp _ (if _ then _ else _) _ _
  rw [if_neg (not_not.mpr hopen), Prog.wp_elim]
  refine hM.inFrame (wp_appendOutcome hop hopen rfl (fun x hx => ?_) fun record r hrec => ?_)
  · refine failed ?_ fun e he => .prevented hx he
    rintro ⟨a, b, hab, -⟩
    cases hab
  · cases r with
    | ok u =>
      exact wp_setState hopen (by decide) ⟨fun _ => ⟨_, _, rfl, rfl⟩, fun _ => rfl⟩ (.recorded hrec)
    | error x =>
      refine failed ?_ fun e he => .refused hrec he
      rintro ⟨a, b, hab, hb⟩
      cases hab
      cases hb

theorem wp_finalise_closed (href : op.ref = k) (hne : cell.state ≠ .OPEN)
    {Q : Except Exc Unit → OperationView → Prop}
    (h : ∀ e, e.cls = AuditUsageError → Q (.error e) ⟨some cell, appends, ids⟩) :
    (op.finalise log outcome fields handled).wp (cellSem clock k) ⟨some cell, appends, ids⟩ Q := by
  subst href
  rw [AuditOperation.finalise, Prog.wp_bind]
  refine wp_getState ?_
  show Prog.wp _ (if _ then _ else _) _ _
  rw [if_pos hne]
  exact quiet_cellSem.raiseNew h

/-- The three methods are `_finalise`, with their outcome. -/
theorem wp_record {kw : Keywords AuditOperation.methodParams}
    {Q : Except Exc Unit → OperationView → Prop} {v : OperationView}
    (h : (op.finalise log outcome kw.fields handled).wp (cellSem clock k) v Q) :
    (op.record log outcome kw handled).wp (cellSem clock k) v Q := by
  cases outcome
  · exact quiet_cellSem.inFrame h
  · exact quiet_cellSem.inFrame h
  · exact quiet_cellSem.inFrame h

end

/-! ## Leaving the block -/

section

variable {log : AuditLog} {op : AuditOperation} {exc handled : Option Exc}

omit [PyRuntime] in
theorem wp_raiseFinalisationError {α : Type} {e : Exc} (href : op.ref = k)
    {Q : Except Exc α → OperationView → Prop}
    (h : ∀ x, x.cls = AuditFinalisationError → Q (.error x) ⟨some cell, appends, ids⟩) :
    (op.raiseFinalisationError e handled).wp (cellSem clock k) ⟨some cell, appends, ids⟩ Q := by
  have hM : Quiet (cellSem clock k) clock := quiet_cellSem
  subst href
  rw [AuditOperation.raiseFinalisationError, Prog.wp_bind]
  refine wp_getFailure ?_
  show Prog.wp _ (_ >>= _) _ _
  rw [Prog.wp_bind]
  refine hM.heap fun x hx => ?_
  have raised : ∀ cause loc, Prog.wp (cellSem clock op.ref) (raiseExc x cause handled loc)
      ⟨some cell, appends, ids⟩ Q := fun cause loc => hM.raiseExc (h x hx)
  dsimp only
  cases cell.failure with
  | none => exact raised _ _
  | some cause =>
    show Prog.wp _ (if _ then _ else _) _ _
    split
    · exact raised _ _
    · exact raised _ _

/-- How `__exit__` ends, by the state it finds and the exception that left the body. -/
def Exited (log : AuditLog) (op : AuditOperation) (clock : Except Exc Datetime → Prop) (k : Nat)
    (state : OperationState) (cell : OperationCell) (appends : List AppendEntry)
    (ids : List (Nat × PyAtom)) (exc : Option Exc) (res : Except Exc Bool) (v : OperationView) :
    Prop :=
  match state, exc with
  | .FINALISED, _ => res = .ok false ∧ v = ⟨some cell, appends, ids⟩
  | .FINALISATION_FAILED, none =>
    (∀ f, cell.failure = some f → res = .error f) ∧ v = ⟨some cell, appends, ids⟩
  | .FINALISATION_FAILED, some e =>
    (if cell.failure = some e then res = .ok false
      else ∃ x, res = .error x ∧ x.cls = AuditFinalisationError) ∧ v = ⟨some cell, appends, ids⟩
  | .OPEN, none => (∃ x, res = .error x ∧ x.cls = AuditUsageError) ∧ v = ⟨some cell, appends, ids⟩
  | .OPEN, some _ =>
    ∃ r, Finalised log op .indeterminate Dict.empty clock k cell appends ids r v ∧
      match r with
      | .ok _ => res = .ok false
      | .error f =>
        if f.isA .exception then ∃ x, res = .error x ∧ x.cls = AuditFinalisationError
        else res = .error f

theorem Finalised.cell_eq {outcome : Outcome} {fields : Dict PyAtom PyObj} {r : Except Exc Unit}
    {v : OperationView} (h : Finalised log op outcome fields clock k cell appends ids r v) :
    ∃ cell' appends', v = ⟨some cell', appends', ids⟩ := by
  cases h with
  | recorded => exact ⟨_, _, rfl⟩
  | prevented => exact ⟨_, _, rfl⟩
  | refused => exact ⟨_, _, rfl⟩

theorem wp_exit (hop : cell.op = op) (href : op.ref = k)
    (hlen : cell.state = .OPEN → appends.length = 1) :
    (op.exit log exc handled).wp (cellSem clock k) ⟨some cell, appends, ids⟩
      (Exited log op clock k cell.state cell appends ids exc) := by
  have hM : Quiet (cellSem clock k) clock := quiet_cellSem
  subst href
  rw [AuditOperation.exit, Prog.wp_bind]
  refine wp_getState ?_
  cases hs : cell.state with
  | FINALISED => exact ⟨rfl, rfl⟩
  | FINALISATION_FAILED =>
    cases exc with
    | none =>
      show Prog.wp _ (_ >>= _) _ _
      rw [Prog.wp_bind]
      refine wp_getFailure ?_
      dsimp only
      cases hf : cell.failure with
      | none => exact hM.raiseNew fun x _ => ⟨fun f hf' => (by rw [hf] at hf'; cases hf'), rfl⟩
      | some f => exact hM.raiseExc ⟨fun f' hf' => (by rw [hf] at hf'; cases hf'; rfl), rfl⟩
    | some e =>
      show Prog.wp _ (_ >>= _) _ _
      rw [Prog.wp_bind]
      refine wp_getFailure ?_
      show Prog.wp _ (if _ then _ else _) _ _
      split
      · rename_i hf
        exact ⟨by rw [if_pos hf], rfl⟩
      · rename_i hf
        exact hM.inFrame (wp_raiseFinalisationError rfl fun x hx =>
          ⟨by rw [if_neg hf]; exact ⟨x, rfl, hx⟩, rfl⟩)
  | OPEN =>
    cases exc with
    | none => exact hM.raiseNew fun x hx => ⟨⟨x, rfl, hx⟩, rfl⟩
    | some e =>
      show Prog.wp _ (Prog.elim _ _ _) _ _
      rw [Prog.wp_elim]
      refine hM.inFrame (hM.inFrame (Prog.wp_mono (wp_finalise_open hop rfl hs (hlen hs)) ?_))
      intro r v hfin
      cases r with
      | ok u => exact ⟨_, hfin, rfl⟩
      | error f =>
        obtain ⟨cell', appends', rfl⟩ := hfin.cell_eq
        show Prog.wp _ (if _ then _ else _) _ _
        split
        · rename_i hf
          refine hM.inFrame (wp_raiseFinalisationError rfl fun x hx => ⟨_, hfin, ?_⟩)
          show if _ then _ else _
          rw [if_pos hf]
          exact ⟨x, rfl, hx⟩
        · rename_i hf
          refine ⟨_, hfin, ?_⟩
          show if _ then _ else _
          rw [if_neg hf]

end

/-! ## Intents -/

section

variable {log : AuditLog} {event actor : PyAtom} {kw : Keywords AuditLog.methodParams}
  {handled : Option Exc}

/-- A handle that a call returned: its INTENT was appended. -/
structure Intended (log : AuditLog) (event actor : PyAtom) (k : Nat) (contextManager : Bool)
    (op : AuditOperation) (v : OperationView) : Prop where
  ref : op.ref = k
  event_eq : op.event = event
  actor_eq : op.actor = actor
  schema : log.registry.get event = .ok op.schema
  audit : op.schema.isAudit
  history : ∃ record : AuditRecord, record.stage = .intent ∧ record.BelongsTo op ∧
    v = ⟨some { op := op, asContextManager := contextManager }, [⟨k, record, .ok ()⟩],
      [(k, op.operationId)]⟩

theorem wp_intent :
    (log.intent event actor kw handled).wp (cellSem clock k) ⟨none, [], []⟩ fun res v =>
      match res with
      | .ok op => Intended log event actor k false op v
      | .error _ => v.cell = none := by
  have hM : Quiet (cellSem clock k) clock := quiet_cellSem
  rw [AuditLog.intent, Prog.wp_bind]
  refine hM.inFrame (hM.pureCall (fun schema hschema => ?_) fun _ _ _ _ => rfl)
  show Prog.wp _ (_ >>= _) _ _
  rw [Prog.wp_bind]
  refine hM.inFrame (hM.pureCall (fun d hd => ?_) fun _ _ _ _ => rfl)
  show Prog.wp _ (_ >>= _) _ _
  rw [Prog.wp_bind]
  refine hM.inFrame (hM.pureCall (fun message hm => ?_) fun _ _ _ _ => rfl)
  show Prog.wp _ (_ >>= _) _ _
  rw [Prog.wp_bind]
  refine hM.inFrame ⟨⟨rfl, rfl, rfl⟩, fun r v hs => ?_⟩
  cases hs
  cases (r : Except Exc PyAtom) with
  | error e => rfl
  | ok id =>
    show Prog.wp _ (_ >>= _) _ _
    rw [Prog.wp_bind]
    refine hM.inFrame (hM.build (fun _ _ => rfl) (fun t record _ hargs => ?_)
      fun _ _ _ _ _ _ => rfl)
    have hid : record.operationId = id := by rw [hargs]; rfl
    have hstage : record.stage = .intent := by rw [hargs]; rfl
    have hbelongs : record.BelongsTo ⟨k, event, schema, actor, id⟩ := by
      constructor <;> rw [hargs] <;> rfl
    show Prog.wp _ (Prog.elim _ _ _) _ _
    rw [Prog.wp_elim]
    refine hM.inFrame ⟨.inl ⟨rfl, rfl, by rw [hid]; rfl, hstage⟩, fun r v hs => ?_⟩
    cases hs
    cases (r : Except Exc Unit) with
    | ok u =>
      refine ⟨⟨rfl, rfl, record, rfl, hstage, hbelongs⟩, fun op v hs => ?_⟩
      obtain ⟨cell, happly, rfl⟩ := hs
      cases happly
      exact ⟨rfl, rfl, rfl, hschema, require_eq_ok.mp (check_eq_ok.mp hd).1, record, hstage,
        hbelongs, rfl⟩
    | error x =>
      show Prog.wp _ (if _ then _ else _) _ _
      split
      · rw [Prog.wp_bind]
        exact hM.normalizedPersistenceError fun _ _ => hM.raiseExc rfl
      · rfl

theorem wp_operation :
    (log.operation event actor kw handled).wp (cellSem clock k) ⟨none, [], []⟩ fun res v =>
      match res with
      | .ok op => op.schema.supportsContextManager ∧ Intended log event actor k true op v
      | .error _ => v.cell = none := by
  have hM : Quiet (cellSem clock k) clock := quiet_cellSem
  rw [AuditLog.operation, Prog.wp_bind]
  refine hM.inFrame (hM.pureCall (fun schema hschema => ?_) fun _ _ _ _ => rfl)
  show Prog.wp _ (if _ then _ else _) _ _
  split
  · exact hM.raiseNew fun _ _ => rfl
  · rename_i hcm
    rw [Prog.wp_bind]
    refine hM.inFrame (Prog.wp_mono wp_intent fun res v h => ?_)
    cases res with
    | error e => exact h
    | ok op =>
      obtain ⟨rfl, hevent, hactor, hget, haudit, record, hstage, hbelongs, rfl⟩ := h
      show Prog.wp _ (_ >>= _) _ _
      rw [Prog.wp_bind]
      refine wp_handle rfl rfl ?_
      have hschema' : op.schema = schema := by
        rw [hschema] at hget
        cases hget
        rfl
      refine ⟨?_, rfl, hevent, hactor, hget, haudit, record, hstage, hbelongs, rfl⟩
      rw [hschema']
      simpa using hcm

end

end NmLogging
