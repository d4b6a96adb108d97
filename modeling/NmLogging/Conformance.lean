import NmLogging.AuditRules
import NmLogging.Containment
import NmLogging.Framework.Contract
import NmLogging.Guard

/-!
# Records conform to their schemas

Every record that a facade hands to its sink is one that the schema registered for its event
describes: the schema is of the record's severity or category, it accepts the fields, which
stand in its order, and it makes the message of them. The facades keep to this as a contract
(`OperationalLog.keeps_call`, `AuditLog.keepsTo_conforming`), so whatever is called with,
however calls are interleaved, and whatever clocks, sinks and factories do, no field that was
not declared leaves the package, and none is missing that had to be there.
-/

namespace NmLogging

variable [PyRuntime]

/-! ## Conforming -/

/-- What a schema says of the fields and the message of a record. -/
structure EventSchema.Describes (schema : EventSchema) (required : FieldSpec → Bool)
    (fields : Dict PyAtom PyObj) (message : PyAtom) : Prop where
  accepts : schema.Accepts required fields
  order : fields.keys.Sublist schema.names
  message : schema.renderMessage fields = .ok message

/-- An operational record of the log, as the schema registered for its event describes it. -/
structure OperationalLog.Conforms (log : OperationalLog) (r : OperationalRecord) : Prop where
  application : r.application = log.application
  emitter : r.emitter = log.emitter
  schema : ∃ schema, log.registry.get r.event = .ok schema ∧ schema.severity = some r.severity ∧
    schema.Describes (fun spec => spec.required) r.fields r.message

/-- An audit record of the log, as the schema registered for its event describes it. -/
structure AuditLog.Conforms (log : AuditLog) (r : AuditRecord) : Prop where
  application : r.application = log.application
  emitter : r.emitter = log.emitter
  stage : r.stage = .intent ∨ r.stage = .outcome
  schema : ∃ schema, log.registry.get r.event = .ok schema ∧ schema.category = some r.category ∧
    schema.Describes (FieldSpec.requiredAt r.stage) r.fields r.message

section

omit [PyRuntime]

variable {schema : EventSchema} {required : FieldSpec → Bool} {fields d : Dict PyAtom PyObj}

theorem FieldSpec.matches_frozen {spec : FieldSpec} {v : PyObj} (h : spec.Matches v) :
    spec.Matches v.frozen := by
  cases v <;> exact h

/-- What the guard makes of accepted fields is accepted. -/
theorem EventSchema.Normalises.accepts (hn : schema.Normalises fields d)
    (h : schema.Accepts required fields) : schema.Accepts required d where
  declared k hk := by
    obtain ⟨⟨k, w⟩, hkw, rfl⟩ := List.mem_map.mp hk
    obtain ⟨v, hv, -⟩ := (hn.mem_iff k w).mp hkw
    exact h.declared k (List.mem_map_of_mem hv)
  supplied spec hspec hreq := by
    obtain ⟨⟨k, v⟩, hkv, hname⟩ := List.mem_map.mp (h.supplied spec hspec hreq)
    exact List.mem_map.mpr ⟨(k, v.frozen), (hn.mem_iff _ _).mpr ⟨v, hkv, rfl⟩, hname⟩
  matching spec hspec w hw := by
    obtain ⟨v, hv, rfl⟩ := (hn.mem_iff _ w).mp hw
    exact FieldSpec.matches_frozen (h.matching spec hspec v hv)

/-- Accepted fields have the names of strings. -/
theorem EventSchema.Accepts.isStr (h : schema.Accepts required fields) :
    ∀ k ∈ fields.keys, k.isStr = true := by
  intro k hk
  obtain ⟨spec, -, rfl⟩ := h.declared k hk
  obtain ⟨s, hs⟩ := spec.name_ok.1
  rw [hs]
  rfl

end

variable {schema : EventSchema} {fields d : Dict PyAtom PyObj} {message : PyAtom}

theorem describes_of_operational {severity : Severity}
    (h : schema.validateOperational severity fields = .ok d)
    (hm : schema.renderMessage d = .ok message) :
    schema.severity = some severity ∧ schema.Describes (fun spec => spec.required) d message := by
  obtain ⟨hiff, hnorm, -⟩ := (schema.validate_iff fields).1 severity
  obtain ⟨hpinned, hacc⟩ := hiff.mp ⟨d, h⟩
  exact ⟨hpinned, (hnorm d h).accepts hacc, (hnorm d h).order, hm⟩

theorem describes_of_audit {stage : Stage} (h : schema.validateAudit fields stage = .ok d)
    (hm : schema.renderMessage d = .ok message) :
    schema.category = some (schema.category.getD .admin) ∧
      schema.Describes (FieldSpec.requiredAt stage) d message := by
  obtain ⟨hiff, hnorm, -⟩ := (schema.validate_iff fields).2 stage
  obtain ⟨⟨category, hcat⟩, hacc⟩ := hiff.mp ⟨d, h⟩
  exact ⟨by rw [hcat]; rfl, (hnorm d h).accepts hacc, (hnorm d h).order, hm⟩

/-! ## The operational facade -/

namespace OperationalLog

variable {log : OperationalLog} {event : PyAtom} {severity : Severity} {kind : PyStr}

/-- Only records that conform are handed to the sink. -/
def conforming (log : OperationalLog) : Contract logSig where
  allowed
    | .sinkWrite record => log.Conforms record
    | .now | .markHealthy | .markDegraded _ | .fallbackEmit _ => True

theorem keeps_buildRecord (hget : log.registry.get event = .ok schema) :
    (log.buildRecord event severity schema fields).Keeps log.conforming fun res =>
      ∀ record, res = .ok record → log.Conforms record := by
  have raised : ∀ {e : PyError}, ∀ record : OperationalRecord,
      (.error e : Except PyError OperationalRecord) = .ok record → log.Conforms record := by
    intro e record h
    cases h
  cases hval : schema.validateOperational severity fields with
  | error e =>
    rw [buildRecord_of_invalid hval]
    exact raised
  | ok d =>
    cases hm : schema.renderMessage d with
    | error e =>
      rw [buildRecord_of_unrendered hval hm]
      exact raised
    | ok m =>
      rw [buildRecord_of_rendered hval hm]
      refine Prog.keeps_op.mpr ⟨trivial, fun r _ => ?_⟩
      cases (r : Except PyError Datetime) with
      | error e => exact raised
      | ok t =>
        refine Prog.wp_ofExcept.mpr fun record hrecord => ?_
        have hargs := OperationalArgs.construct_ok.mp hrecord
        obtain ⟨hpinned, hdescribes⟩ := describes_of_operational hval hm
        refine ⟨by rw [hargs]; rfl, by rw [hargs]; rfl, schema, ?_⟩
        rw [hargs]
        exact ⟨hget, hpinned, hdescribes⟩

theorem keeps_sinkWrite {record : OperationalRecord} (h : log.Conforms record) :
    (sinkWrite record).Keeps log.conforming fun _ => True :=
  Prog.keeps_op.mpr ⟨h, fun _ _ => Prog.wp_ofExcept.mpr trivial⟩

theorem keeps_markHealthy : markHealthy.Keeps log.conforming fun _ => True :=
  Prog.keeps_op.mpr ⟨trivial, fun _ _ => trivial⟩

theorem keeps_degrade : (degrade kind).Keeps log.conforming fun _ => True := by
  refine Prog.keeps_op.mpr ⟨trivial, fun _ _ => Prog.keeps_op.mpr ⟨trivial, fun r _ => ?_⟩⟩
  cases (r : Except PyError Unit) with
  | ok _ => trivial
  | error e =>
    show Prog.Keeps _ (if _ then _ else _ : LogProg Unit) _
    split <;> trivial

theorem keeps_emitDefectRecord : (log.emitDefectRecord event kind).Keeps log.conforming
    fun _ => True := by
  refine Prog.Keeps.elim (?_ : Prog.Keeps _ _ fun _ => True) (fun _ _ => keeps_markHealthy)
    fun e _ => ?_
  · exact (keeps_buildRecord log.defectOk).bind (fun record h => keeps_sinkWrite (h record rfl))
      fun _ _ => trivial
  · split
    · exact keeps_degrade
    · trivial

theorem keeps_handleDefect {exc : PyError} :
    (log.handleDefect event exc kind).Keeps log.conforming fun _ => True := by
  rw [handleDefect]
  split
  · trivial
  · exact keeps_emitDefectRecord

theorem keeps_write {record : OperationalRecord} (h : log.Conforms record) :
    (log.write record event).Keeps log.conforming fun _ => True := by
  refine (keeps_sinkWrite h).elim (fun _ _ => keeps_markHealthy) fun e _ => ?_
  split
  · exact keeps_handleDefect
  · split
    · exact keeps_degrade
    · trivial

theorem keeps_emit : (log.emit severity event fields).Keeps log.conforming fun _ => True := by
  rw [emit]
  cases hget : log.registry.get event with
  | error e =>
    show Prog.Keeps _ (if _ then _ else _ : LogProg Unit) _
    split
    · exact keeps_handleDefect
    · trivial
  | ok schema =>
    refine (keeps_buildRecord hget).elim (fun record h => keeps_write (h record rfl)) fun e _ => ?_
    split
    · exact keeps_handleDefect
    · split
      · exact keeps_handleDefect
      · trivial

/-- A call hands over only records that conform. -/
theorem keeps_call : (log.call severity event fields).Keeps log.conforming fun _ => True := by
  rw [call]
  refine Prog.Keeps.bind (Prog.wp_ofExcept.mpr trivial : Prog.Keeps _ _ fun _ => True)
    (fun kw _ => ?_) fun _ _ => trivial
  cases severity
  all_goals exact keeps_emit

end OperationalLog

/-! ## The audit facade -/

namespace AuditLog

variable {log : AuditLog} {event actor : PyAtom} {handled : Option Exc} {α : Type}

/-- A handle whose event is registered with its schema. -/
def Handles (log : AuditLog) (op : AuditOperation) : Prop :=
  log.registry.get op.event = .ok op.schema

/-- Only records that conform are appended. -/
def conforming (log : AuditLog) : Contract auditSig where
  allowed
    | .append record _ => log.Conforms record
    | .now _ | .newOperationId _ | .supportsAtomic | .heap _ | .handle _ => True
  answers
    | .handle (.newHandle event schema _ _), op =>
      AuditOperation.event op = event ∧ AuditOperation.schema op = schema
    | .heap o, r => o.Answers r
    | _, _ => True

omit [PyRuntime] in
/-- The handle that a call returned, if it did, is one of the log's. -/
def Returns (log : AuditLog) (res : Except Exc AuditValue) : Prop :=
  ∀ op, res = .ok (.handle op) → log.Handles op

theorem quiet_conforming (log : AuditLog) : Quiet log.conforming.sem fun _ => True where
  heap_pre _ _ := trivial
  heap_step h := ⟨rfl, h⟩
  now_pre _ _ := trivial
  now_step _ := ⟨rfl, trivial⟩
  atomic_pre _ := trivial
  atomic_step _ := rfl

/-- A record of fields that its schema accepted. -/
theorem conforms_of_args {record : AuditRecord} {stage : Stage} {id : PyAtom}
    {outcome : Option Outcome} {t : Datetime} (hget : log.registry.get event = .ok schema)
    (hval : schema.validateAudit fields stage = .ok d) (hm : schema.renderMessage d = .ok message)
    (hstage : stage = .intent ∨ stage = .outcome)
    (hargs : record.toAuditArgs = log.recordArgs event (schema.category.getD .admin) actor stage d
      message id outcome t) : log.Conforms record := by
  obtain ⟨hcat, hdescribes⟩ := describes_of_audit hval hm
  refine ⟨by rw [hargs]; rfl, by rw [hargs]; rfl, by rw [hargs]; exact hstage, schema, ?_⟩
  rw [hargs]
  exact ⟨hget, hcat, hdescribes⟩

theorem keeps_sinkAppend {record : AuditRecord} {u : Unit} {Q : Except Exc Unit → Unit → Prop}
    (h : log.Conforms record) (hQ : ∀ r, Q r u) :
    (sinkAppend record handled).wp log.conforming.sem u Q :=
  ⟨h, fun _ _ _ => Prog.wp_ofExcept.mpr (hQ _)⟩

theorem keeps_handle {o : HandleOp} {u : Unit} {Q : Except Exc o.Ret → Unit → Prop}
    (h : ∀ r, log.conforming.answers (.handle o) r → Q (.ok r) u) :
    (AuditProg.handle o).wp log.conforming.sem u Q :=
  ⟨trivial, fun r _ hr => h r hr⟩

theorem keeps_intent {kw : Keywords AuditLog.methodParams} :
    (log.intent event actor kw handled).Keeps log.conforming fun res =>
      ∀ op, res = .ok op → log.Handles op := by
  have hM := log.quiet_conforming
  have raised : ∀ {x : Exc} (op : AuditOperation),
      (.error x : Except Exc AuditOperation) = .ok op → log.Handles op := by
    intro x op h
    cases h
  rw [intent]
  refine (Prog.wp_bind _ _ _ _).mpr (hM.inFrame (hM.pureCall (fun schema hget => ?_)
    fun _ _ _ _ => raised))
  refine (Prog.wp_bind _ _ _ _).mpr (hM.inFrame (hM.pureCall (fun d hval => ?_)
    fun _ _ _ _ => raised))
  refine (Prog.wp_bind _ _ _ _).mpr (hM.inFrame (hM.pureCall (fun message hm => ?_)
    fun _ _ _ _ => raised))
  refine (Prog.wp_bind _ _ _ _).mpr (hM.inFrame ⟨trivial, fun r _ _ => ?_⟩)
  cases (r : Except Exc PyAtom) with
  | error x => exact raised
  | ok id =>
    refine (Prog.wp_bind _ _ _ _).mpr (hM.inFrame (hM.build (fun _ _ => raised)
      (fun t record _ hargs => ?_) fun _ _ _ _ _ _ => raised))
    have hrec := conforms_of_args hget hval hm (.inl rfl) hargs
    refine (Prog.wp_elim _ _ _ _ _).mpr (hM.inFrame (keeps_sinkAppend hrec fun r => ?_))
    cases r with
    | ok _ =>
      refine keeps_handle fun op hop op' h => ?_
      cases h
      show log.registry.get (AuditOperation.event op) = .ok (AuditOperation.schema op)
      rw [hop.1, hop.2]
      exact hget
    | error x =>
      show Prog.Keeps _ (if _ then _ else _ : AuditProg AuditOperation) _
      split
      · exact (Prog.wp_bind _ _ _ _).mpr
          (hM.normalizedPersistenceError fun _ _ => hM.raiseExc raised)
      · exact raised

theorem keeps_operation {kw : Keywords AuditLog.methodParams} :
    (log.operation event actor kw handled).Keeps log.conforming fun res =>
      ∀ op, res = .ok op → log.Handles op := by
  have hM := log.quiet_conforming
  have raised : ∀ {x : Exc} (op : AuditOperation),
      (.error x : Except Exc AuditOperation) = .ok op → log.Handles op := by
    intro x op h
    cases h
  rw [operation]
  refine (Prog.wp_bind _ _ _ _).mpr (hM.inFrame (hM.pureCall (fun schema _ => ?_)
    fun _ _ _ _ => raised))
  show Prog.Keeps _ (if _ then _ else _ : AuditProg AuditOperation) _
  split
  · exact hM.raiseNew fun _ _ => raised
  · refine (Prog.wp_bind _ _ _ _).mpr (hM.inFrame (Prog.wp_mono keeps_intent fun res _ h => ?_))
    cases res with
    | error x => exact raised
    | ok op =>
      refine (Prog.wp_bind _ _ _ _).mpr (keeps_handle fun _ _ => fun op' h' => ?_)
      cases h'
      exact h op rfl

variable {op : AuditOperation} {outcome : Outcome}

theorem keeps_appendOutcome (hop : log.Handles op) :
    (log.appendOutcome op outcome fields handled).Keeps log.conforming fun _ => True := by
  have hM := log.quiet_conforming
  rw [appendOutcome]
  refine (Prog.wp_bind _ _ _ _).mpr (hM.inFrame (hM.pureCall (fun d hval => ?_)
    fun _ _ _ _ => trivial))
  refine (Prog.wp_bind _ _ _ _).mpr (hM.inFrame (hM.pureCall (fun message hm => ?_)
    fun _ _ _ _ => trivial))
  refine (Prog.wp_bind _ _ _ _).mpr (hM.inFrame (hM.build (fun _ _ => trivial)
    (fun t record _ hargs => ?_) fun _ _ _ _ _ _ => trivial))
  exact hM.inFrame (keeps_sinkAppend (conforms_of_args hop hval hm (.inr rfl) hargs)
    fun _ => trivial)

theorem keeps_finalise (hop : log.Handles op) :
    (op.finalise log outcome fields handled).Keeps log.conforming fun _ => True := by
  have hM := log.quiet_conforming
  rw [AuditOperation.finalise]
  refine (Prog.wp_bind _ _ _ _).mpr (keeps_handle fun (state : OperationState) _ => ?_)
  show Prog.Keeps _ (if _ then _ else _ : AuditProg Unit) _
  split
  · exact hM.raiseNew fun _ _ => trivial
  refine (Prog.wp_elim _ _ _ _ _).mpr (hM.inFrame (Prog.wp_mono (keeps_appendOutcome hop)
    fun res _ _ => ?_))
  cases res with
  | ok _ => exact keeps_handle fun _ _ => trivial
  | error x =>
    refine (Prog.wp_bind _ _ _ _).mpr (keeps_handle fun _ _ => ?_)
    refine (Prog.wp_bind _ _ _ _).mpr (keeps_handle fun _ _ => ?_)
    show Prog.Keeps _ (if _ then _ else _ : AuditProg Unit) _
    split
    · refine (Prog.wp_bind _ _ _ _).mpr (hM.normalizedPersistenceError fun _ _ => ?_)
      exact (Prog.wp_bind _ _ _ _).mpr (keeps_handle fun _ _ => hM.raiseExc trivial)
    · trivial

theorem keeps_record (hop : log.Handles op) {kw : Keywords AuditOperation.methodParams} :
    (op.record log outcome kw handled).Keeps log.conforming fun _ => True := by
  have hM := log.quiet_conforming
  cases outcome
  all_goals exact hM.inFrame (keeps_finalise hop)

theorem keeps_raiseFinalisationError {e : Exc} :
    (op.raiseFinalisationError e handled : AuditProg α).Keeps log.conforming fun _ => True := by
  have hM := log.quiet_conforming
  rw [AuditOperation.raiseFinalisationError]
  refine (Prog.wp_bind _ _ _ _).mpr (keeps_handle fun failure _ => ?_)
  refine (Prog.wp_bind _ _ _ _).mpr (hM.heap fun x _ => ?_)
  cases (failure : Option Exc) with
  | none => exact hM.raiseExc trivial
  | some cause =>
    show Prog.Keeps _ (if _ then _ else _ : AuditProg α) _
    split <;> exact hM.raiseExc trivial

theorem keeps_exit (hop : log.Handles op) {exc : Option Exc} :
    (op.exit log exc handled).Keeps log.conforming fun _ => True := by
  have hM := log.quiet_conforming
  rw [AuditOperation.exit]
  refine (Prog.wp_bind _ _ _ _).mpr (keeps_handle fun state _ => ?_)
  cases (state : OperationState) with
  | FINALISED => trivial
  | FINALISATION_FAILED =>
    cases exc with
    | none =>
      refine (Prog.wp_bind _ _ _ _).mpr (keeps_handle fun failure _ => ?_)
      cases (failure : Option Exc) with
      | none => exact hM.raiseNew fun _ _ => trivial
      | some stored => exact hM.raiseExc trivial
    | some e =>
      refine (Prog.wp_bind _ _ _ _).mpr (keeps_handle fun (stored : Option Exc) _ => ?_)
      show Prog.Keeps _ (if _ then _ else _ : AuditProg Bool) _
      split
      · trivial
      · exact hM.inFrame keeps_raiseFinalisationError
  | OPEN =>
    cases exc with
    | none => exact hM.raiseNew fun _ _ => trivial
    | some e =>
      refine (Prog.wp_elim _ _ _ _ _).mpr (hM.inFrame (hM.inFrame (Prog.wp_mono
        (keeps_finalise hop) fun res _ _ => ?_)))
      cases res with
      | ok _ => trivial
      | error x =>
        show Prog.Keeps _ (if _ then _ else _ : AuditProg Bool) _
        split
        · exact hM.inFrame keeps_raiseFinalisationError
        · trivial

/-- A call on handles of the log appends only records that conform, and returns one of them. -/
theorem keeps_call {c : AuditCall} (hon : ∀ op, c.on = some op → log.Handles op) :
    (log.call c).Keeps log.conforming log.Returns := by
  have hM := log.quiet_conforming
  have raised : ∀ {x : Exc}, log.Returns (.error x) := by
    intro x op h
    cases h
  have none : log.Returns (.ok .none) := by
    intro op h
    cases h
  cases c with
  | complete handled => exact (Prog.wp_bind _ _ _ _).mpr (hM.complete fun _ _ => raised)
  | intent event actor kw handled =>
    refine keeps_intent.bind (fun op h op' h' => ?_) fun _ _ => raised
    cases h'
    exact h op rfl
  | operation event actor kw handled =>
    refine keeps_operation.bind (fun op h op' h' => ?_) fun _ _ => raised
    cases h'
    exact h op rfl
  | record op outcome kw handled =>
    exact (keeps_record (hon op rfl)).bind (fun _ _ => none) fun _ _ => raised
  | exit op exc handled =>
    refine (keeps_exit (hon op rfl)).bind (fun b _ op' h' => ?_) fun _ _ => raised
    cases h'

/-- The calls of a log keep to it, however they are interleaved. -/
theorem keepsTo_conforming {ω : Type} (log : AuditLog) (X : Externals ω) :
    (log.system X).KeepsTo log.conforming fun _ => log.Returns where
  answers {i c s o r s'} hs := by
    cases o with
    | heap o =>
      obtain ⟨rfl, -⟩ := hs
      exact o.answers_apply _ _
    | handle o =>
      cases o with
      | newHandle event schema actor id =>
        obtain ⟨cell, happly, -⟩ := hs
        cases hc : s.cells (c.key i) with
        | some cell' =>
          rw [HandleOp.ref, hc] at happly
          cases happly
        | none =>
          rw [HandleOp.ref, hc] at happly
          cases happly
          exact ⟨rfl, rfl⟩
      | _ => trivial
    | _ => trivial
  start hcs hstart := keeps_call fun op hop => by
    obtain ⟨⟨i, c', hi⟩, -⟩ := hstart op hop
    exact hcs.ended hi rfl op rfl

/-- Every record that was given to the sink conforms, in every run. -/
theorem appended_conform {ω : Type} {X : Externals ω} {m : Heap × ω}
    {cfg : Config auditSig Exc AuditValue AuditCall (AuditState ω)}
    (h : (log.system X).Reachable { memory := m } cfg) :
    ∀ a ∈ cfg.shared.appends, log.Conforms a.record := by
  refine h.holds (J := fun s => ∀ a ∈ s.appends, log.Conforms a.record)
    (keepsTo_conforming log X) (List.forall_mem_nil _) fun {i c s o r s'} hallowed hs hall => ?_
  cases o with
  | now handled =>
    obtain ⟨m, -, rfl⟩ := hs
    exact hall
  | newOperationId handled =>
    obtain ⟨m, -, rfl⟩ := hs
    exact hall
  | append record handled =>
    obtain ⟨m, -, rfl⟩ := hs
    exact List.forall_mem_append.mpr ⟨hall, List.forall_mem_singleton.mpr hallowed⟩
  | supportsAtomic =>
    obtain ⟨-, rfl⟩ := hs
    exact hall
  | heap o =>
    obtain ⟨-, rfl⟩ := hs
    exact hall
  | handle o =>
    obtain ⟨cell, -, rfl⟩ := hs
    exact hall

end AuditLog

end NmLogging
