import NmLogging.Accounting
import NmLogging.AuditFile
import NmLogging.Envelope
import NmLogging.Samples

/-!
# Schemas that can be used

Whether a schema that `EventRegistry.register` admits has a call that is recorded. It has one,
on a sink that works, if and only if no field that has to be given is named `self`, which no
keyword of a method can be, and its template has an encoding (`usable_iff`). The fields of that
call are the shortest values of their types.
-/

namespace NmLogging

/-! ## Operational events -/

namespace OperationalLog

section

variable [PyRuntime] (log : OperationalLog) (severity : Severity) (event : PyAtom)
  (fields : Dict PyAtom PyObj)

/-- On a sink that works, a keyword call returns, hands one record of the event to the sink, and
its line is written. -/
def Records : Prop :=
  ∀ clock : Nat → Datetime, (∀ n, (clock n).utcoffset = some 0) →
  ∀ s : Production, s.file.closed = false → s.file.latched = false →
  ∀ tr res s', (log.call severity event fields).Traces tr res →
    (production clock).Follows s tr s' →
    res = .ok () ∧ ∃ r line, LogTrace.handed tr = [r] ∧ r.event = event ∧
      encodeLineBytes (.operational r) = .ok line ∧
      s'.file = { s.file with content := s.file.content ++ line }

end

section

variable [PyRuntime] {log : OperationalLog} {severity : Severity} {event : PyAtom}
  {fields d : Dict PyAtom PyObj} {schema : EventSchema} {m : PyAtom} {tr : LogTrace}

theorem method_eq_emit (kw : Keywords methodParams) :
    log.method severity event kw = log.emit severity event kw.fields := by
  cases severity <;> rfl

/-- A call whose record has a line at any time is recorded. -/
theorem records_of_line
    (hfree : ∀ k ∈ fields.keys, ∃ s, k = .str s ∧ s ∉ methodParams)
    (hget : log.registry.get event = .ok schema)
    (hval : schema.validateOperational severity fields = .ok d)
    (hm : schema.renderMessage d = .ok m)
    (hline : ∀ t : Datetime, t.utcoffset = some 0 → ∃ r line,
      (log.recordArgs event severity d m t).construct = .ok r ∧
        encodeLineBytes (.operational r) = .ok line) :
    log.Records severity event fields := by
  intro clock hclock s hc hl tr res s' htr hfollow
  obtain ⟨r, line, hr, hline⟩ := hline (clock s.ticks) (hclock _)
  have hevent : r.event = event := by
    rw [OperationalArgs.construct_ok.mp hr]
    rfl
  obtain ⟨kw, hkw, rfl, -⟩ | ⟨e, -, hnot⟩ :=
    bindKeywords_cases (methodName severity) methodParams fields
  swap
  · exact absurd hfree hnot
  rw [call, hkw, Prog.ofExcept_ok, Prog.ret_bind, method_eq_emit, emit, hget] at htr
  simp only at htr
  rw [buildRecord_of_rendered hval hm] at htr
  -- the clock is read, the record is handed over, and the health is marked
  obtain ⟨a, tr₁, rfl, htr₁⟩ := Prog.traces_op.mp htr
  obtain _ | ⟨⟨rfl, rfl⟩, hfollow₁⟩ := hfollow
  change ((Prog.ofExcept (log.recordArgs event severity d m (clock s.ticks)).construct :
    LogProg OperationalRecord).elim _ _).Traces tr₁ res at htr₁
  rw [hr] at htr₁
  obtain ⟨a, tr₂, rfl, htr₂⟩ := Prog.traces_op.mp htr₁
  obtain _ | ⟨⟨f, rfl, hrun⟩, hfollow₂⟩ := hfollow₁
  have hpost := hrun.post (jsonlSink_write_accepting hc hl)
  rw [hline] at hpost
  obtain ⟨rfl, rfl⟩ := hpost
  obtain ⟨a, tr₃, rfl, htr₃⟩ := Prog.traces_op.mp htr₂
  obtain ⟨rfl, rfl⟩ := Prog.traces_ret.mp htr₃
  obtain _ | ⟨hstep, hfollow₃⟩ := hfollow₂
  cases hstep
  cases hfollow₃
  exact ⟨rfl, r, line, rfl, hevent, hline, rfl⟩

/-! ### What is handed over -/

omit [PyRuntime] in
theorem handed_append (tr₁ tr₂ : LogTrace) :
    LogTrace.handed (tr₁ ++ tr₂) = LogTrace.handed tr₁ ++ LogTrace.handed tr₂ :=
  List.filterMap_append

/-- Building a record hands nothing over, and the record is of the guarded fields. -/
theorem buildRecord_handed {res : Except PyError OperationalRecord}
    (h : (log.buildRecord event severity schema fields).Traces tr res) :
    LogTrace.handed tr = [] ∧ ∀ r, res = .ok r → ∃ d m t,
      schema.validateOperational severity fields = .ok d ∧ schema.renderMessage d = .ok m ∧
        (log.recordArgs event severity d m t).construct = .ok r := by
  cases hval : schema.validateOperational severity fields with
  | error e =>
    rw [buildRecord_of_invalid hval] at h
    obtain ⟨rfl, rfl⟩ := Prog.traces_throw.mp h
    exact ⟨rfl, fun r hr => (by cases hr)⟩
  | ok d =>
    cases hm : schema.renderMessage d with
    | error e =>
      rw [buildRecord_of_unrendered hval hm] at h
      obtain ⟨rfl, rfl⟩ := Prog.traces_throw.mp h
      exact ⟨rfl, fun r hr => (by cases hr)⟩
    | ok m =>
      rw [buildRecord_of_rendered hval hm] at h
      obtain ⟨a, tr', rfl, h'⟩ := Prog.traces_op.mp h
      cases (a : Except PyError Datetime) with
      | error e =>
        obtain ⟨rfl, rfl⟩ := Prog.traces_throw.mp h'
        exact ⟨rfl, fun r hr => (by cases hr)⟩
      | ok t =>
        change (Prog.ofExcept (log.recordArgs event severity d m t).construct :
          LogProg OperationalRecord).Traces tr' res at h'
        cases hr : (log.recordArgs event severity d m t).construct with
        | error e =>
          rw [hr] at h'
          obtain ⟨rfl, rfl⟩ := Prog.traces_throw.mp h'
          exact ⟨rfl, fun r hr => (by cases hr)⟩
        | ok r =>
          rw [hr] at h'
          obtain ⟨rfl, rfl⟩ := Prog.traces_ret.mp h'
          exact ⟨rfl, fun r' hr' => ⟨d, m, t, rfl, hm, Except.ok.inj hr' ▸ hr⟩⟩

/-- The report of a defect hands over no record but that of the defect. -/
theorem emitDefectRecord_handed {kind : PyStr} {res : Except PyError Unit}
    (h : (log.emitDefectRecord event kind).Traces tr res) :
    ∀ r ∈ LogTrace.handed tr, r.event = DEFECT_EVENT := by
  rw [emitDefectRecord_eq] at h
  obtain ⟨built, rest, res', rfl, hb, hrest⟩ := Prog.traces_elim.mp h
  obtain ⟨hnone, hbuilt⟩ := buildRecord_handed hb
  rw [handed_append, hnone, List.nil_append]
  cases res' with
  | error e =>
    rw [(unwritable_traces hrest).2.1]
    exact List.forall_mem_nil _
  | ok record =>
    obtain ⟨d, m, t, -, -, hr⟩ := hbuilt record rfl
    have hevent : record.event = DEFECT_EVENT := by
      rw [OperationalArgs.construct_ok.mp hr]
      rfl
    obtain ⟨a, tr', rfl, htr'⟩ := Prog.traces_op.mp hrest
    refine List.forall_mem_cons.mpr ⟨hevent, ?_⟩
    have hafter : LogTrace.handed tr' = [] := by
      cases (a : Except PyError Unit) with
      | ok u =>
        obtain ⟨_, tr'', rfl, h''⟩ := Prog.traces_op.mp htr'
        obtain ⟨rfl, -⟩ := Prog.traces_ret.mp h''
        rfl
      | error e => exact (unwritable_traces htr').2.1
    change ∀ r ∈ LogTrace.handed tr', r.event = DEFECT_EVENT
    rw [hafter]
    exact List.forall_mem_nil _

/-- And so does the handling of one. -/
theorem handleDefect_handed {exc : PyError} {kind : PyStr} {res : Except PyError Unit}
    (h : (log.handleDefect event exc kind).Traces tr res) :
    ∀ r ∈ LogTrace.handed tr, r.event = DEFECT_EVENT := by
  rw [handleDefect] at h
  split at h
  · obtain ⟨rfl, -⟩ := Prog.traces_throw.mp h
    exact List.forall_mem_nil _
  · exact emitDefectRecord_handed h

/-- A call that is recorded has a record with a line. -/
theorem line_of_records (hget : log.registry.get event = .ok schema)
    (hevent : event ≠ DEFECT_EVENT) (h : log.Records severity event fields) :
    (∀ k ∈ fields.keys, ∃ s, k = .str s ∧ s ∉ methodParams) ∧ ∃ d m t r line,
      schema.validateOperational severity fields = .ok d ∧ schema.renderMessage d = .ok m ∧
      (log.recordArgs event severity d m t).construct = .ok r ∧
        encodeLineBytes (.operational r) = .ok line := by
  let clock : Nat → Datetime := fun _ => firstHour
  let s : Production := ⟨⟨[], false, false⟩, .init, 0, []⟩
  obtain ⟨res, s', hrun⟩ := exists_runs_production clock (log.call severity event fields) s
  obtain ⟨tr, htr, hfollow⟩ := Prog.runs_iff_traces.mp hrun
  obtain ⟨rfl, r, line, hhanded, hr, hline, -⟩ :=
    h clock (fun _ => rfl) s rfl rfl tr res s' htr hfollow
  have hdefect : ∀ {tr' : LogTrace}, LogTrace.handed tr' = [r] →
      ¬∀ r ∈ LogTrace.handed tr', r.event = DEFECT_EVENT := by
    intro tr' hone hall
    rw [hone] at hall
    exact hevent (hr.symm.trans (hall r (List.mem_singleton_self r)))
  obtain ⟨kw, hkw, rfl, hfree⟩ | ⟨e, hkw, -⟩ :=
    bindKeywords_cases (methodName severity) methodParams fields
  swap
  · rw [call, hkw] at htr
    cases (Prog.traces_throw.mp htr).2
  refine ⟨hfree, ?_⟩
  rw [call, hkw, Prog.ofExcept_ok, Prog.ret_bind, method_eq_emit, emit, hget] at htr
  obtain ⟨built, rest, res', rfl, hb, hrest⟩ := Prog.traces_elim.mp htr
  obtain ⟨hnone, hbuilt⟩ := buildRecord_handed hb
  rw [handed_append, hnone, List.nil_append] at hhanded
  cases res' with
  | error exc =>
    simp only at hrest
    split at hrest
    · exact absurd (handleDefect_handed hrest) (hdefect hhanded)
    split at hrest
    · exact absurd (handleDefect_handed hrest) (hdefect hhanded)
    · cases (Prog.traces_throw.mp hrest).2
  | ok record =>
    obtain ⟨d, m, t, hval, hm, hargs⟩ := hbuilt record rfl
    obtain ⟨a, tr', rfl, -⟩ := Prog.traces_op.mp hrest
    have hsame : record = r := (List.cons.inj hhanded).1
    exact ⟨d, m, t, record, line, hval, hm, hargs, hsame ▸ hline⟩

end

end OperationalLog

/-! ## Audit events -/

section

variable {loc : CodeLocation} {α : Type} {V : Type} {M : Semantics auditSig V} {v v' : V} {a : α}

theorem inFrame_ok {p : AuditProg α} (h : (inFrame loc p).Runs M v (.ok a) v') :
    p.Runs M v (.ok a) v' := by
  obtain ⟨res, w, hrun, hrest⟩ := Prog.runs_elim h
  cases res with
  | ok b =>
    cases hrest
    exact hrun
  | error e =>
    obtain ⟨u, w', -, hthrow⟩ := Prog.runs_bind_ok hrest
    cases hthrow

theorem pureCall_ok {call : PureCall} {handled : Option Exc} {r : Except PyError α}
    (h : (pureCall call handled r).Runs M v (.ok a) v') : r = .ok a ∧ v' = v := by
  cases r with
  | ok b =>
    cases h
    exact ⟨rfl, rfl⟩
  | error e =>
    obtain ⟨x, w, -, hthrow⟩ := Prog.runs_bind_ok h
    cases hthrow

theorem not_raiseExc_ok {e : Exc} {cause : RaiseFrom} {handled : Option Exc} :
    ¬(raiseExc e cause handled loc : AuditProg α).Runs M v (.ok a) v' := by
  intro h
  obtain ⟨u, w, -, hthrow⟩ := Prog.runs_bind_ok h
  cases hthrow

end

/-- A log on a working sink: the clock is right, ids come from the default factory, and the file
takes and syncs everything. -/
def workingExternals [PyRuntime] (trace : PureCall → PureTrace) : Externals SinkFile where
  clock _ m r m' := (∃ t, r = .ok t ∧ t.utcoffset = some 0) ∧ m' = m
  factory _ m r m' := (∃ id, r = .ok id ∧ DefaultOperationId id) ∧ m' = m
  sink record _ m r m' := m'.1 = m.1 ∧ FileAppend m.2 record r m'.2
  atomic _ b := b = false
  trace := trace

namespace AuditLog

section

variable [PyRuntime] (log : AuditLog) (event : PyAtom)

/-- Alice's intent, and the success of it. -/
def audited (kw : Keywords methodParams) (kw' : Keywords AuditOperation.methodParams)
    (handled : Option Exc) : AuditProg Unit := do
  let op ← log.intent event (.str (lit "alice")) kw handled
  op.success log kw' handled

/-- On a sink that works, the keyword calls of an intent and of its success return, and the line
of a record of each is appended to the file. -/
def Records (fields outcomeFields : Dict PyAtom PyObj) : Prop :=
  ∃ kw kw', bindKeywords (lit "AuditLog.intent") methodParams fields = .ok kw ∧
    bindKeywords (lit "AuditOperation.success") AuditOperation.methodParams outcomeFields =
      .ok kw' ∧
    ∀ trace k handled s, s.cells k = none → s.memory.2.closed = false →
      s.memory.2.latched = false →
      (∃ res s', (log.audited event kw kw' handled).Runs (auditSem (workingExternals trace) k) s
        res s') ∧
      ∀ res s', (log.audited event kw kw' handled).Runs (auditSem (workingExternals trace) k) s
        res s' →
        res = .ok () ∧ ∃ intent outcome line line',
          s'.appends = s.appends ++ [⟨k, intent, .ok ()⟩, ⟨k, outcome, .ok ()⟩] ∧
          intent.event = event ∧ intent.stage = .intent ∧
          outcome.event = event ∧ outcome.outcome = some .success ∧
          auditLineBytes (.audit intent) = .ok line ∧ auditLineBytes (.audit outcome) = .ok line' ∧
          s'.memory.2 = { s.memory.2 with content := s.memory.2.content ++ line ++ line' }

end

section

variable [PyRuntime] {log : AuditLog} {event actor : PyAtom} {schema : EventSchema}
  {trace : PureCall → PureTrace} {k : Nat} {s s' : AuditState SinkFile} {handled : Option Exc}

/-- An intent that returned was of guarded fields, and its record has a line. -/
theorem line_of_intent {kw : Keywords methodParams} {op : AuditOperation}
    (h : (log.intent event actor kw handled).Runs (auditSem (workingExternals trace) k) s
      (.ok op) s') :
    log.registry.get event = .ok op.schema ∧
      ∃ (d : Dict PyAtom PyObj) (m : PyAtom) (record : AuditRecord) (line : Bytes),
        op.schema.validateAudit kw.fields .intent = .ok d ∧ op.schema.renderMessage d = .ok m ∧
        record.message = m ∧ auditLineBytes (.audit record) = .ok line := by
  obtain ⟨schema, s₁, h₁, h⟩ := Prog.runs_bind_ok h
  obtain ⟨hget, -⟩ := pureCall_ok (inFrame_ok h₁)
  obtain ⟨d, s₂, h₂, h⟩ := Prog.runs_bind_ok h
  obtain ⟨hval, -⟩ := pureCall_ok (inFrame_ok h₂)
  obtain ⟨m, s₃, h₃, h⟩ := Prog.runs_bind_ok h
  obtain ⟨hm, -⟩ := pureCall_ok (inFrame_ok h₃)
  obtain ⟨id, s₄, -, h⟩ := Prog.runs_bind_ok h
  obtain ⟨record, s₅, h₅, h⟩ := Prog.runs_bind_ok h
  obtain ⟨t, s₆, -, hbuild⟩ := Prog.runs_bind_ok (inFrame_ok h₅)
  obtain ⟨hbuilt, -⟩ := pureCall_ok (inFrame_ok hbuild)
  have hmessage : record.message = m := by
    rw [AuditArgs.construct_ok.mp hbuilt]
    rfl
  obtain ⟨res, s₇, happend, hrest⟩ := Prog.runs_elim h
  cases res with
  | error x =>
    simp only at hrest
    split at hrest
    · obtain ⟨y, s₈, -, hraise⟩ := Prog.runs_bind_ok hrest
      exact absurd hraise not_raiseExc_ok
    · cases hrest
  | ok u =>
    have hschema : op.schema = schema := by
      cases hrest with
      | op hs hret =>
        cases hret
        obtain ⟨cell, hcell, -⟩ := hs
        revert hcell
        cases s₇.cells (HandleOp.ref k (.newHandle event schema actor id)) with
        | none =>
          intro hcell
          cases hcell
          rfl
        | some c =>
          intro hcell
          cases hcell
    have hwritten : (sinkAppend record handled).Runs (auditSem (workingExternals trace) k) s₅
      (.ok u) s₇ := inFrame_ok happend
    cases hwritten with
    | @op _ _ _ _ _ r _ hs hret =>
      obtain ⟨m', ⟨-, hfile⟩, -⟩ := hs
      cases (r : Except Exc Unit) with
      | error x => cases hret
      | ok u =>
        obtain ⟨-, -, line, hline⟩ := hfile.ok_iff.mp rfl
        rw [hschema]
        exact ⟨hget, d, m, record, line, hval, hm, hmessage, hline⟩

/-- An outcome that was recorded was of guarded fields. -/
theorem validated_of_success {op : AuditOperation} {kw : Keywords AuditOperation.methodParams}
    (h : (op.success log kw handled).Runs (auditSem (workingExternals trace) k) s (.ok ()) s') :
    ∃ d, op.schema.validateAudit kw.fields .outcome = .ok d := by
  obtain ⟨state, s₁, -, h₁⟩ := Prog.runs_bind_ok (inFrame_ok h)
  split at h₁
  · obtain ⟨x, s₂, -, hraise⟩ := Prog.runs_bind_ok h₁
    exact absurd hraise not_raiseExc_ok
  · obtain ⟨res, s₂, h₂, hrest⟩ := Prog.runs_elim h₁
    cases res with
    | error x =>
      obtain ⟨u₁, s₃, -, h₃⟩ := Prog.runs_bind_ok hrest
      obtain ⟨u₂, s₄, -, h₄⟩ := Prog.runs_bind_ok h₃
      split at h₄
      · obtain ⟨y, s₅, -, h₅⟩ := Prog.runs_bind_ok h₄
        obtain ⟨u₃, s₆, -, hraise⟩ := Prog.runs_bind_ok h₅
        exact absurd hraise not_raiseExc_ok
      · cases h₄
    | ok u =>
      obtain ⟨d, s₃, h₃, -⟩ := Prog.runs_bind_ok (inFrame_ok h₂)
      obtain ⟨hval, -⟩ := pureCall_ok (inFrame_ok h₃)
      exact ⟨d, hval⟩

end

end AuditLog

section

variable [PyRuntime] {log : AuditLog} {event : PyAtom} {schema : EventSchema}
  {fields d : Dict PyAtom PyObj} {m : PyAtom}

omit [PyRuntime] in
theorem DefaultOperationId.plain {s : PyStr} (h : DefaultOperationId (.str s)) :
    PlainText 32 s := by
  obtain ⟨_, ⟨⟩, hlen, hhex⟩ := h
  have hall : ∀ c ∈ lit "0123456789abcdef", Plain c := by decide
  exact ⟨fun c hc => hall c (hhex c hc), hlen.le⟩

omit [PyRuntime] in
theorem DefaultOperationId.valid {id : PyAtom} (h : DefaultOperationId id) {stage : Stage}
    (hstage : stage ≠ .complete) : validateOperationId stage id = .ok () := by
  obtain ⟨s, rfl, hlen, hhex⟩ := h
  have hspace : ∀ c ∈ lit "0123456789abcdef", isSpace c = false := by decide
  have hstrip : strip s ≠ [] := by
    rw [strip_eq_self fun c hc => hspace c (hhex c hc)]
    exact List.ne_nil_of_length_pos (by omega)
  cases stage with
  | complete => exact absurd rfl hstage
  | intent | outcome => simp [validateOperationId, check_eq_ok, hstrip]

/-- An outcome, if there is one. -/
theorem outcome_fits (outcome : Option Outcome) : Fits 26 (match outcome with
    | none => []
    | some o => [(key "outcome", .atom (.str o.value))]) := by
  cases outcome with
  | none => exact Fits.nil.mono (Nat.zero_le _)
  | some o =>
    have hvalue : PlainText 13 o.value := by
      cases o <;> decide
    exact Fits.str (m := 7) (by decide) hvalue

/-- What an audit record of alice's has of its kind. -/
theorem alice_fits {r : AuditRecord} (hactor : r.actor = .str (lit "alice"))
    (hid : DefaultOperationId r.operationId) : Fits 141 (kindEntries (.audit r)) := by
  obtain ⟨i, hi⟩ : ∃ i, r.operationId = .str i := ⟨_, hid.choose_spec.1⟩
  rw [hi] at hid
  have hcategory : PlainText 16 r.category.value := by
    cases r.category <;> decide
  have hstage : PlainText 8 r.stage.value := by
    cases r.stage <;> decide
  have howner : Fits (30 + (16 + 19)) [(key "category", .atom (.str r.category.value)),
      (key "actor", .atom (.str (lit "alice"))), (key "stage", .atom (.str r.stage.value))] :=
    (Fits.str (m := 8) (by decide) hcategory).append
      ((Fits.str (m := 5) (n := 5) (by decide) (by decide)).append
        (Fits.str (m := 5) (by decide) hstage))
  have hoperation : Fits 50 [(key "operation_id", .atom (.str i))] :=
    Fits.str (m := 12) (by decide) hid.plain
  rw [kindEntries, hactor, hi, if_neg (by rintro ⟨⟩)]
  exact ((howner.append hoperation).append (outcome_fits r.outcome)).mono (by decide)

omit [PyRuntime] in
/-- A record of alice's, of guarded fields, is accepted. -/
theorem construct_alice (hevent : schema.eventId = event) (hd : schema.Guarded fields d)
    (hm : m = .none ∨ ∃ s, m = .str s) {category : Category} {stage : Stage} {id : PyAtom}
    {outcome : Option Outcome} {t : Datetime} (ht : t.utcoffset = some 0)
    (hid : DefaultOperationId id) (hstage : stage ≠ .complete)
    (houtcome : validateOutcome stage outcome = .ok ()) :
    ∃ r, (log.recordArgs event category (.str (lit "alice")) stage d m id outcome t).construct =
      .ok r := by
  have henvelope : Envelope.postInit (log.recordArgs event category (.str (lit "alice")) stage d
      m id outcome t).toEnvelope = .ok () := by
    simp only [AuditLog.recordArgs, Envelope.postInit, check_eq_ok, log.applicationOk,
      log.emitterOk, validateEvent_ok, validateTimestamp_ok, ht, require_eq_ok, true_and]
    obtain ⟨⟨e, he, hlen, hre⟩, -⟩ := schema.postInit_ok
    refine ⟨⟨e, hevent ▸ he, hlen, hre⟩, ?_, ?_, List.all_eq_true.mpr hd.fieldValues.2⟩
    · rcases hm with rfl | ⟨s, rfl⟩ <;> rfl
    · rw [Bool.not_eq_true', List.any_eq_false]
      exact fun k hk => Bool.eq_false_iff.mp (hd.fieldValues.1 k hk)
  have hpost : (log.recordArgs event category (.str (lit "alice")) stage d m id outcome
      t).postInit = .ok () :=
    check_eq_ok.mpr ⟨henvelope, check_eq_ok.mpr ⟨(by decide +kernel :
      validateActor (.str (lit "alice")) = .ok ()), check_eq_ok.mpr ⟨hid.valid hstage, houtcome⟩⟩⟩
  exact ⟨⟨_, hpost⟩, AuditArgs.construct_ok.mpr rfl⟩

end

namespace AuditLog

/-! ### The calls -/

/-- The operations of a log, which are allowed where they have an answer. -/
def answering {ω : Type} (X : Externals ω) (k : Nat) : Semantics auditSig (AuditState ω) where
  step := auditStep X k
  pre s o := ∃ r s', auditStep X k s o r s'

section

variable [PyRuntime] {log : AuditLog} {event : PyAtom} {schema : EventSchema}
  {trace : PureCall → PureTrace} {k : Nat} {s : AuditState SinkFile} {handled : Option Exc}
  {d : Dict PyAtom PyObj} {m : PyAtom} {α : Type}

omit [PyRuntime] in
theorem wp_inFrame_ok {ω : Type} {X : Externals ω} {s : AuditState ω} {loc : CodeLocation}
    {p : AuditProg α} {Q : Except Exc α → AuditState ω → Prop}
    (h : p.wp (answering X k) s fun res s' => ∃ a, res = .ok a ∧ Q (.ok a) s') :
    (inFrame loc p).wp (answering X k) s Q := by
  rw [inFrame, Prog.wp_elim]
  refine Prog.wp_mono h ?_
  rintro _ s' ⟨a, rfl, hq⟩
  exact hq

omit [PyRuntime] in
theorem wp_handle_answering {ω : Type} {X : Externals ω} {s : AuditState ω} {o : HandleOp}
    {r : o.Ret} {cell : OperationCell} {Q : Except Exc o.Ret → AuditState ω → Prop}
    (happly : o.apply k (s.cells (o.ref k)) = some (r, cell))
    (h : Q (.ok r) { s with cells := Function.update s.cells (o.ref k) (some cell) }) :
    (AuditProg.handle o).wp (answering X k) s Q := by
  refine ⟨⟨r, _, cell, happly, rfl⟩, ?_⟩
  rintro r' _ ⟨cell', happly', rfl⟩
  have hsame := Option.some.inj (happly.symm.trans happly')
  obtain ⟨rfl, rfl⟩ := Prod.mk.inj hsame
  exact h

theorem wp_build {category : Category} {stage : Stage} {id : PyAtom} {outcome : Option Outcome}
    {actor : PyAtom} {Q : Except Exc AuditRecord → AuditState SinkFile → Prop}
    (h : ∀ t : Datetime, t.utcoffset = some 0 → ∃ record,
      (log.recordArgs event category actor stage d m id outcome t).construct = .ok record ∧
        Q (.ok record) s) :
    (log.build event category actor stage d m id outcome handled).wp
      (answering (workingExternals trace) k) s Q := by
  refine ⟨⟨.ok firstHour, _, _, ⟨⟨_, rfl, rfl⟩, rfl⟩, rfl⟩, ?_⟩
  rintro _ _ ⟨_, ⟨⟨t, rfl, ht⟩, rfl⟩, rfl⟩
  obtain ⟨record, hr, hq⟩ := h t ht
  show Prog.wp _ (inFrame _ (pureCall _ _
    (log.recordArgs event category actor stage d m id outcome t).construct)) _ _
  rw [hr]
  exact hq

theorem wp_sinkAppend {record : AuditRecord} {line : Bytes} (hc : s.memory.2.closed = false)
    (hl : s.memory.2.latched = false) (hline : auditLineBytes (.audit record) = .ok line)
    {Q : Except Exc Unit → AuditState SinkFile → Prop}
    (h : ∀ s', s'.memory.2 = { s.memory.2 with content := s.memory.2.content ++ line } →
      s'.appends = s.appends ++ [⟨k, record, .ok ()⟩] → s'.cells = s.cells → Q (.ok ()) s') :
    (sinkAppend record handled).wp (answering (workingExternals trace) k) s Q := by
  constructor
  · obtain ⟨res, f', hrun⟩ := Prog.Runs.exists (M := allowing storing) storing_total
      (JsonlAuditSink.append (.audit record)) s.memory.2
    have hpost := hrun.post jsonlAuditSink_append_storing
    rw [hline] at hpost
    have hopen : ¬(s.memory.2.closed = true ∨ s.memory.2.latched = true) := by simp [hc, hl]
    simp only [if_neg hopen] at hpost
    exact ⟨.ok (), _, (s.memory.1, f'), ⟨rfl, res, hrun, fun _ => hpost.1, fun _ => rfl⟩, rfl⟩
  · rintro r _ ⟨m', ⟨-, hfile⟩, rfl⟩
    obtain rfl := hfile.ok_iff.mpr ⟨hc, hl, line, hline⟩
    exact h _ (hfile.content_eq hline) rfl rfl

/-- A handle of alice's whose intent is in the file. -/
structure Opened (event : PyAtom) (schema : EventSchema) (k : Nat) (s : AuditState SinkFile)
    (op : AuditOperation) (s' : AuditState SinkFile) : Prop where
  handle : ∃ id, op = ⟨k, event, schema, .str (lit "alice"), id⟩ ∧ DefaultOperationId id
  cell : s'.cells k = some { op := op }
  stored : ∃ record line, record.event = event ∧ record.stage = .intent ∧
    auditLineBytes (.audit record) = .ok line ∧
    s'.appends = s.appends ++ [⟨k, record, .ok ()⟩] ∧
    s'.memory.2 = { s.memory.2 with content := s.memory.2.content ++ line }

theorem wp_intent_working {kw : Keywords methodParams} (hnew : s.cells k = none)
    (hc : s.memory.2.closed = false) (hl : s.memory.2.latched = false)
    (hget : log.registry.get event = .ok schema)
    (hval : schema.validateAudit kw.fields .intent = .ok d)
    (hm : schema.renderMessage d = .ok m)
    (hline : ∀ id t, DefaultOperationId id → t.utcoffset = some 0 → ∃ r line,
      (log.recordArgs event (schema.category.getD .admin) (.str (lit "alice")) .intent d m id none
        t).construct = .ok r ∧ auditLineBytes (.audit r) = .ok line) :
    (log.intent event (.str (lit "alice")) kw handled).wp (answering (workingExternals trace) k) s
      fun res s' => ∃ op, res = .ok op ∧ Opened event schema k s op s' := by
  rw [AuditLog.intent, hget]
  show Prog.wp _ (inFrame _ (pureCall _ _ (schema.validateAudit kw.fields .intent)) >>= _) _ _
  rw [hval]
  show Prog.wp _ (inFrame _ (pureCall _ _ (schema.renderMessage d)) >>= _) _ _
  rw [hm]
  have hsome : DefaultOperationId (.str (List.replicate 32 0x30)) :=
    ⟨_, rfl, by decide, by decide⟩
  refine ⟨⟨.ok _, _, _, ⟨⟨_, rfl, hsome⟩, rfl⟩, rfl⟩, ?_⟩
  rintro _ _ ⟨_, ⟨⟨id, rfl, hid⟩, rfl⟩, rfl⟩
  show Prog.wp _ (inFrame _ (log.build _ _ _ _ _ _ _ _ _) >>= _) _ _
  rw [Prog.wp_bind]
  refine wp_inFrame_ok (wp_build fun t ht => ?_)
  obtain ⟨record, line, hr, hline⟩ := hline id t hid ht
  have hargs := AuditArgs.construct_ok.mp hr
  refine ⟨record, hr, record, rfl, ?_⟩
  show Prog.wp _ ((inFrame _ (sinkAppend record handled)).elim _ _) _ _
  rw [Prog.wp_elim]
  refine wp_inFrame_ok (wp_sinkAppend (s := { s with ids := s.ids ++ issued k (.ok id) }) hc hl
    hline fun s₂ hfile happends hcells => ⟨(), rfl, ?_⟩)
  have hcell : s₂.cells k = none := by
    rw [hcells]
    exact hnew
  refine wp_handle_answering (o := .newHandle event schema (.str (lit "alice")) id)
    (congrArg (HandleOp.apply k (.newHandle event schema (.str (lit "alice")) id)) hcell) ?_
  refine ⟨_, rfl, ⟨id, rfl, hid⟩, Function.update_self _ _ _, record, line, ?_, ?_, hline,
    happends, hfile⟩
  · rw [hargs]
    rfl
  · rw [hargs]
    rfl

theorem wp_success {event : PyAtom} {id : PyAtom} {kw : Keywords AuditOperation.methodParams}
    (hcell : s.cells k = some { op := ⟨k, event, schema, .str (lit "alice"), id⟩ })
    (hc : s.memory.2.closed = false) (hl : s.memory.2.latched = false)
    (hval : schema.validateAudit kw.fields .outcome = .ok d)
    (hm : schema.renderMessage d = .ok m)
    (hline : ∀ t : Datetime, t.utcoffset = some 0 → ∃ r line,
      (log.recordArgs event (schema.category.getD .admin) (.str (lit "alice")) .outcome d m id
        (some .success) t).construct = .ok r ∧ auditLineBytes (.audit r) = .ok line) :
    ((⟨k, event, schema, .str (lit "alice"), id⟩ : AuditOperation).success log kw handled).wp
      (answering (workingExternals trace) k) s fun res s' => res = .ok () ∧ ∃ record line,
        record.event = event ∧ record.outcome = some .success ∧
        auditLineBytes (.audit record) = .ok line ∧
        s'.appends = s.appends ++ [⟨k, record, .ok ()⟩] ∧
        s'.memory.2 = { s.memory.2 with content := s.memory.2.content ++ line } := by
  refine wp_inFrame_ok ?_
  rw [AuditOperation.finalise, Prog.wp_bind]
  refine wp_handle_answering (o := .getState k) (r := OperationState.OPEN)
    (congrArg (HandleOp.apply k (.getState k)) hcell) ?_
  show Prog.wp _ (if OperationState.OPEN ≠ .OPEN then _ else _) _ _
  rw [if_neg (not_not_intro rfl), Prog.wp_elim]
  refine wp_inFrame_ok ?_
  rw [AuditLog.appendOutcome]
  show Prog.wp _ (inFrame _ (pureCall _ _ (schema.validateAudit kw.fields .outcome)) >>= _) _ _
  rw [hval]
  show Prog.wp _ (inFrame _ (pureCall _ _ (schema.renderMessage d)) >>= _) _ _
  rw [hm]
  show Prog.wp _ (inFrame _ (log.build _ _ _ _ _ _ _ _ _) >>= _) _ _
  rw [Prog.wp_bind]
  refine wp_inFrame_ok (wp_build fun t ht => ?_)
  obtain ⟨record, line, hr, hline⟩ := hline t ht
  have hargs := AuditArgs.construct_ok.mp hr
  refine ⟨record, hr, record, rfl, ?_⟩
  let op : AuditOperation := ⟨k, event, schema, .str (lit "alice"), id⟩
  let s₁ : AuditState SinkFile := { s with cells := Function.update s.cells k (some { op := op }) }
  refine wp_inFrame_ok (wp_sinkAppend (s := s₁) hc hl hline
    fun s₂ hfile happends hcells => ⟨(), rfl, (), rfl, ?_⟩)
  have hcell₂ : s₂.cells k = some { op := op } := by
    rw [hcells]
    exact Function.update_self _ _ _
  refine wp_handle_answering (o := .setState k .FINALISED) (r := ())
    (congrArg (HandleOp.apply k (.setState k .FINALISED)) hcell₂) ?_
  refine ⟨(), rfl, rfl, record, line, ?_, ?_, hline, happends, hfile⟩
  · rw [hargs]
    rfl
  · rw [hargs]
    rfl

/-- Calls whose records have lines at any time, and with any id, are recorded. -/
theorem records_of_lines {fields outcomeFields d' : Dict PyAtom PyObj} {m' : PyAtom}
    (hfree : ∀ k ∈ fields.keys, ∃ s, k = .str s ∧ s ∉ methodParams)
    (hfree' : ∀ k ∈ outcomeFields.keys, ∃ s, k = .str s ∧ s ∉ AuditOperation.methodParams)
    (hget : log.registry.get event = .ok schema)
    (hval : schema.validateAudit fields .intent = .ok d)
    (hm : schema.renderMessage d = .ok m)
    (hval' : schema.validateAudit outcomeFields .outcome = .ok d')
    (hm' : schema.renderMessage d' = .ok m')
    (hline : ∀ id t, DefaultOperationId id → t.utcoffset = some 0 →
      (∃ r line, (log.recordArgs event (schema.category.getD .admin) (.str (lit "alice")) .intent d
        m id none t).construct = .ok r ∧ auditLineBytes (.audit r) = .ok line) ∧
      ∃ r line, (log.recordArgs event (schema.category.getD .admin) (.str (lit "alice")) .outcome d'
        m' id (some .success) t).construct = .ok r ∧ auditLineBytes (.audit r) = .ok line) :
    log.Records event fields outcomeFields := by
  obtain ⟨kw, hkw, rfl, -⟩ | ⟨e, -, hnot⟩ :=
    bindKeywords_cases (lit "AuditLog.intent") methodParams fields
  swap
  · exact absurd hfree hnot
  obtain ⟨kw', hkw', rfl, -⟩ | ⟨e, -, hnot⟩ :=
    bindKeywords_cases (lit "AuditOperation.success") AuditOperation.methodParams outcomeFields
  swap
  · exact absurd hfree' hnot
  refine ⟨kw, kw', hkw, hkw', fun trace k handled s hnew hc hl => ?_⟩
  have hwp : (log.audited event kw kw' handled).wp (answering (workingExternals trace) k) s
      fun res s' => res = .ok () ∧ ∃ intent outcome line line',
        s'.appends = s.appends ++ [⟨k, intent, .ok ()⟩, ⟨k, outcome, .ok ()⟩] ∧
        intent.event = event ∧ intent.stage = .intent ∧
        outcome.event = event ∧ outcome.outcome = some .success ∧
        auditLineBytes (.audit intent) = .ok line ∧ auditLineBytes (.audit outcome) = .ok line' ∧
        s'.memory.2 = { s.memory.2 with content := s.memory.2.content ++ line ++ line' } := by
    rw [audited, Prog.wp_bind]
    refine Prog.wp_mono (wp_intent_working hnew hc hl hget hval hm
      fun id t hid ht => (hline id t hid ht).1) ?_
    rintro _ s₁ ⟨op, rfl, hopened⟩
    obtain ⟨⟨id, rfl, hid⟩, hcell, intent, line, hevent, hstage, hl₁, happ₁, hfile₁⟩ := hopened
    have hc₁ : s₁.memory.2.closed = false := by
      rw [hfile₁]
      exact hc
    have hlatch₁ : s₁.memory.2.latched = false := by
      rw [hfile₁]
      exact hl
    refine Prog.wp_mono (wp_success hcell hc₁ hlatch₁ hval' hm'
      fun t ht => (hline id t hid ht).2) ?_
    rintro _ s₂ ⟨rfl, outcome, line', hevent', houtcome, hl₂, happ₂, hfile₂⟩
    refine ⟨rfl, intent, outcome, line, line', ?_, hevent, hstage, hevent', houtcome, hl₁, hl₂, ?_⟩
    · rw [happ₂, happ₁, List.append_assoc]
      rfl
    · rw [hfile₂, hfile₁]
  constructor
  · refine Prog.Runs.exists_of_wp ?_ hwp
    rintro s o ⟨r, s', hstep⟩
    exact ⟨r, s', hstep, hstep⟩
  · intro res s' hrun
    have hpre : ∀ s o, (answering (workingExternals trace) k).pre s o →
        (auditSem (workingExternals trace) k).pre s o := fun _ _ _ => trivial
    exact hrun.post (Prog.wp_weaken hpre (fun hs => hs) hwp)

end

end AuditLog

/-! ## Schemas -/

/-- At most 64 fields, and a template of at most 1024 characters. -/
structure EventSchemaArgs.Moderate (schema : EventSchemaArgs) : Prop where
  fields : schema.fields.length ≤ 64
  template : ∀ t, schema.messageTemplate = .str t → t.length ≤ 1024

/-- No field that a call has to give is named `self`, and the template has an encoding. -/
structure EventSchemaArgs.Callable (schema : EventSchemaArgs) : Prop where
  required : ∀ spec ∈ schema.fields, spec.required = true → spec.name ≠ .str (lit "self")
  requiredOnOutcome : schema.isAudit = true →
    ∀ spec ∈ schema.fields, spec.requiredOnOutcome = true → spec.name ≠ .str (lit "self")
  template : ∀ t, schema.messageTemplate = .str t → (encodeUtf8 t).isSome = true

/-- Some fields make a call of the event that is recorded: of the method of its severity, or of
`intent` and then `success`. -/
def Usable [PyRuntime] (operational : OperationalLog) (audit : AuditLog) (schema : EventSchema) :
    Prop :=
  match schema.severity with
  | some severity => ∃ fields, operational.Records severity schema.eventId fields
  | none => ∃ fields outcomeFields, audit.Records schema.eventId fields outcomeFields

section

variable {schema : EventSchema}

/-- The names that must be given are free to be keywords. -/
theorem samples_free {p : FieldSpec → Bool} {params : List PyStr}
    (hself : ∀ spec ∈ schema.fields, p spec = true → spec.name ≠ .str (lit "self"))
    (hparams : ∀ s ∈ params, s = lit "self" ∨ isReserved (.str s) = true) :
    ∀ k ∈ (schema.samples p).keys, ∃ s, k = .str s ∧ s ∉ params := by
  intro k hk
  obtain ⟨e, he, rfl⟩ := List.mem_map.mp hk
  obtain ⟨spec, hspec, rfl⟩ := List.mem_map.mp he
  obtain ⟨hmem, hp⟩ := List.mem_filter.mp hspec
  obtain ⟨⟨s, hs⟩, hfree⟩ := spec.name_ok
  refine ⟨s, hs, fun hparam => ?_⟩
  rcases hparams s hparam with rfl | hres
  · exact hself spec hmem hp hs
  · rw [hs, hres] at hfree
    cases hfree

/-- What is supplied cannot be named as a parameter. -/
theorem name_ne_self {p : FieldSpec → Bool} {params : List PyStr} {fields d : Dict PyAtom PyObj}
    (hfree : ∀ k ∈ fields.keys, ∃ s, k = .str s ∧ s ∉ params) (hparams : lit "self" ∈ params)
    (hd : schema.guardFields fields ((schema.fields.filter p).map fun f => f.name) = .ok d) :
    ∀ spec ∈ schema.fields, p spec = true → spec.name ≠ .str (lit "self") := by
  intro spec hspec hp hname
  have hkey := ((guardFields_iff p).mp ⟨d, hd⟩).supplied spec hspec hp
  rw [hname] at hkey
  obtain ⟨s, hs, hnot⟩ := hfree _ hkey
  cases hs
  exact hnot hparams

variable [PyRuntime]

/-- A record of the shortest values has a line. -/
theorem sample_line (hzero : PyRuntime.floatRepr ⟨0⟩ = lit "0.0") (hsize : schema.Moderate)
    {p : FieldSpec → Bool} {d : Dict PyAtom PyObj} (hd : schema.Guarded (schema.samples p) d)
    {m : PyAtom} (hm : ShortMessage m) {u o : PyError} {r : Record}
    (hkind : Fits 141 (kindEntries r)) (hfields : r.envelope.fields = d)
    (hmessage : r.envelope.message = m) : ∃ line, lineBytes u o r = .ok line := by
  refine Fits.record hkind ?_ (message_fits hmessage hm)
  rw [hfields]
  exact EventSchema.samples_fit hzero hsize.fields hd

/-- An operational event that can be called is recorded. -/
theorem operational_usable (hzero : PyRuntime.floatRepr ⟨0⟩ = lit "0.0") (hsize : schema.Moderate)
    (h : schema.Callable) {log : OperationalLog}
    (hget : log.registry.get schema.eventId = .ok schema) {severity : Severity}
    (hseverity : schema.severity = some severity) :
    ∃ fields, log.Records severity schema.eventId fields := by
  obtain ⟨d, hd⟩ := (guardFields_iff fun spec => spec.required).mpr
    (schema.samples_accepted (p := fun spec => spec.required))
  have hguarded := guardFields_ok hd
  obtain ⟨m, hm, hshort⟩ := sample_message hzero
    (fun t ht => ⟨hsize.template t ht, h.template t ht⟩) hguarded
  refine ⟨schema.samples fun spec => spec.required, OperationalLog.records_of_line
    (samples_free h.required (by decide)) hget
    (OperationalLog.validateOperational_iff.mpr ⟨hseverity, hd⟩) hm fun t ht => ?_⟩
  obtain ⟨r, hr, hfields⟩ := OperationalLog.construct_guarded rfl hguarded hshort.none_or_str ht
  have hmessage : r.message = m := by
    rw [OperationalArgs.construct_ok.mp hr]
    rfl
  obtain ⟨line, hline⟩ := sample_line hzero hsize hguarded hshort (severity_fits r) hfields hmessage
  exact ⟨r, line, hr, hline⟩

/-- A record of alice's, of the shortest values, is accepted and has a line. -/
theorem alice_line (hzero : PyRuntime.floatRepr ⟨0⟩ = lit "0.0") (hsize : schema.Moderate)
    {log : AuditLog} {p : FieldSpec → Bool} {d : Dict PyAtom PyObj}
    (hd : schema.Guarded (schema.samples p) d) {m : PyAtom} (hm : ShortMessage m)
    {category : Category} {stage : Stage} (hstage : stage ≠ .complete) {outcome : Option Outcome}
    (houtcome : validateOutcome stage outcome = .ok ()) {id : PyAtom} (hid : DefaultOperationId id)
    {t : Datetime} (ht : t.utcoffset = some 0) : ∃ r line,
      (log.recordArgs schema.eventId category (.str (lit "alice")) stage d m id outcome
        t).construct = .ok r ∧ auditLineBytes (.audit r) = .ok line := by
  obtain ⟨r, hr⟩ : ∃ r, (log.recordArgs schema.eventId category (.str (lit "alice")) stage d m id
      outcome t).construct = .ok r := construct_alice rfl hd hm.none_or_str ht hid hstage houtcome
  have hargs := AuditArgs.construct_ok.mp hr
  have hkind : Fits 141 (kindEntries (.audit r)) := by
    refine alice_fits ?_ ?_
    · rw [hargs]
      rfl
    · rw [hargs]
      exact hid
  have hfields : (Record.audit r).envelope.fields = d := by
    rw [Record.envelope, hargs]
    rfl
  have hmessage : (Record.audit r).envelope.message = m := by
    rw [Record.envelope, hargs]
    rfl
  obtain ⟨line, hline⟩ := sample_line hzero hsize hd hm hkind hfields hmessage
  exact ⟨r, line, hr, hline⟩

/-- An audit event that can be called is recorded, and so is its success. -/
theorem audit_usable (hzero : PyRuntime.floatRepr ⟨0⟩ = lit "0.0") (hsize : schema.Moderate)
    (h : schema.Callable) {log : AuditLog} (hget : log.registry.get schema.eventId = .ok schema)
    (haudit : schema.isAudit = true) :
    ∃ fields outcomeFields, log.Records schema.eventId fields outcomeFields := by
  have hmessages : ∀ {p d}, schema.Guarded (schema.samples p) d →
      ∃ m, schema.renderMessage d = .ok m ∧ ShortMessage m :=
    fun hd => sample_message hzero (fun t ht => ⟨hsize.template t ht, h.template t ht⟩) hd
  obtain ⟨d, hd⟩ := (guardFields_iff fun spec => spec.required).mpr
    (schema.samples_accepted (p := fun spec => spec.required))
  obtain ⟨d', hd'⟩ := (guardFields_iff fun spec => spec.requiredOnOutcome).mpr
    (schema.samples_accepted (p := fun spec => spec.requiredOnOutcome))
  have hguarded := guardFields_ok hd
  have hguarded' := guardFields_ok hd'
  obtain ⟨m, hm, hshort⟩ := hmessages hguarded
  obtain ⟨m', hm', hshort'⟩ := hmessages hguarded'
  refine ⟨schema.samples fun spec => spec.required,
    schema.samples fun spec => spec.requiredOnOutcome,
    AuditLog.records_of_lines (samples_free h.required (by decide))
      (samples_free (h.requiredOnOutcome haudit) (by decide)) hget
      (check_eq_ok.mpr ⟨require_eq_ok.mpr haudit, hd⟩) hm
      (check_eq_ok.mpr ⟨require_eq_ok.mpr haudit, hd'⟩) hm' fun id t hid ht => ⟨?_, ?_⟩⟩
  · exact alice_line hzero hsize hguarded hshort (by decide) rfl hid ht
  · exact alice_line hzero hsize hguarded' hshort' (by decide) rfl hid ht

/-- An operational event that is recorded can be called. -/
theorem callable_of_operational {log : OperationalLog}
    (hget : log.registry.get schema.eventId = .ok schema) (hevent : schema.eventId ≠ DEFECT_EVENT)
    {severity : Severity} (hseverity : schema.severity = some severity)
    {fields : Dict PyAtom PyObj} (h : log.Records severity schema.eventId fields) :
    schema.Callable := by
  obtain ⟨hfree, d, m, t, r, line, hval, hm, hr, hline⟩ :=
    OperationalLog.line_of_records hget hevent h
  obtain ⟨-, hd⟩ := OperationalLog.validateOperational_iff.mp hval
  have hmessage : r.message = m := by
    rw [OperationalArgs.construct_ok.mp hr]
    rfl
  refine ⟨name_ne_self (p := fun spec => spec.required) hfree (by decide) hd, fun haudit => ?_,
    fun t ht => ?_⟩
  · have hkind := schema.postInit_ok.2.1.mp (by rw [hseverity]; rfl)
    rw [EventSchemaArgs.isAudit, hkind] at haudit
    cases haudit
  · by_contra hbad
    obtain ⟨s, c, rfl, hc, hv⟩ := message_not_valid ht hbad hd hm
    exact no_line (r := .operational r) hmessage hc hv line hline

/-- An audit event that is recorded, with a success, can be called. -/
theorem callable_of_audit {log : AuditLog} (hget : log.registry.get schema.eventId = .ok schema)
    {fields outcomeFields : Dict PyAtom PyObj}
    (h : log.Records schema.eventId fields outcomeFields) : schema.Callable := by
  obtain ⟨kw, kw', -, -, hruns⟩ := h
  obtain ⟨⟨res, s', hrun⟩, hall⟩ := hruns (fun _ => {}) 0 none emptyFile rfl rfl rfl
  obtain ⟨rfl, -⟩ := hall res s' hrun
  obtain ⟨op, s₁, hintent, hsuccess⟩ := Prog.runs_bind_ok hrun
  obtain ⟨hop, d, m, r, line, hval, hm, hmessage, hline⟩ := AuditLog.line_of_intent hintent
  obtain ⟨d', hval'⟩ := AuditLog.validated_of_success hsuccess
  have hsame : op.schema = schema := Except.ok.inj (hop.symm.trans hget)
  rw [hsame] at hval hm hval'
  have hd := (check_eq_ok.mp hval).2
  have hd' := (check_eq_ok.mp hval').2
  refine ⟨name_ne_self (p := fun spec => spec.required) kw.free (by decide) hd,
    fun _ => name_ne_self (p := fun spec => spec.requiredOnOutcome) kw'.free (by decide) hd',
    fun t ht => ?_⟩
  by_contra hbad
  obtain ⟨s, c, rfl, hc, hv⟩ := message_not_valid ht hbad hd hm
  exact no_line (r := .audit r) hmessage hc hv line hline

omit [PyRuntime] in
/-- A schema that `register` admits is not the package's own. -/
theorem ne_defect_of_register {registry registry' : EventRegistry}
    (h : registry.register schema = .ok registry') : schema.eventId ≠ DEFECT_EVENT := by
  intro hid
  obtain ⟨hns, -⟩ := check_eq_ok.mp h
  rw [require_eq_ok, hid] at hns
  revert hns
  decide

/-- Whatever is not callable is not recorded by any call. -/
theorem callable_of_usable {operational : OperationalLog} {audit : AuditLog}
    (hevent : schema.eventId ≠ DEFECT_EVENT)
    (ho : operational.registry.get schema.eventId = .ok schema)
    (ha : audit.registry.get schema.eventId = .ok schema) (h : Usable operational audit schema) :
    schema.Callable := by
  rw [Usable] at h
  cases hs : schema.severity with
  | some severity =>
    rw [hs] at h
    obtain ⟨fields, h⟩ := h
    exact callable_of_operational ho hevent hs h
  | none =>
    rw [hs] at h
    obtain ⟨fields, outcomeFields, h⟩ := h
    exact callable_of_audit ha h

/-- **What can be used.** A schema that `register` admits, not too large, has a call that is
recorded if and only if no field that a call has to give is named `self`, and its template has an
encoding. The text of the float zero is taken to be `0.0`. -/
theorem usable_iff (hzero : PyRuntime.floatRepr ⟨0⟩ = lit "0.0")
    {registry registry' : EventRegistry} (hreg : registry.register schema = .ok registry')
    (hsize : schema.Moderate) {operational : OperationalLog} {audit : AuditLog}
    (ho : operational.registry.get schema.eventId = .ok schema)
    (ha : audit.registry.get schema.eventId = .ok schema) :
    Usable operational audit schema ↔ schema.Callable := by
  refine ⟨callable_of_usable (ne_defect_of_register hreg) ho ha, fun h => ?_⟩
  rw [Usable]
  cases hs : schema.severity with
  | some severity => exact operational_usable hzero hsize h ho hs
  | none =>
    have haudit : schema.isAudit = true := by
      have hkind := schema.postInit_ok.2.1
      rw [EventSchemaArgs.isAudit]
      cases hc : schema.category with
      | some category => rfl
      | none =>
        rw [hs, hc] at hkind
        exact absurd (hkind.mpr rfl) Bool.false_ne_true
    exact audit_usable hzero hsize h ha haudit

end

/-! ## A field that no call can give -/

/-- An event with a required field that is named `self`. -/
def selfNamed : EventSchema where
  eventId := .str (lit "user.named")
  severity := some .info
  fields := [{ name := .str (lit "self"), type := .str, required := true, ok := by decide +kernel }]
  ok := by decide +kernel

/-- A registry with that event, with `greeting`, and with the event of defects. -/
def userRegistry : EventRegistry :=
  ⟨⟨[(.str (lit "user.greeted"), greeting), (.str (lit "user.named"), selfNamed),
    (DEFECT_EVENT, DEFECT_SCHEMA)], by decide⟩, by simp [greeting, selfNamed, DEFECT_SCHEMA]⟩

def userOperations : OperationalLog where
  application := .str (lit "app")
  emitter := .str (lit "app")
  registry := userRegistry
  defectSchema := DEFECT_SCHEMA
  strict := false
  applicationOk := validateApplication_app
  emitterOk := validateEmitter_app
  defectOk := by decide +kernel

def userAudit : AuditLog where
  application := .str (lit "app")
  emitter := .str (lit "app")
  registry := userRegistry
  applicationOk := validateApplication_app
  emitterOk := validateEmitter_app

theorem greeting_moderate : greeting.Moderate := by
  refine ⟨by decide, fun t ht => ?_⟩
  cases ht
  decide

theorem usable_iff_greeting :
    @Usable PyRuntime.plain userOperations userAudit greeting ↔ greeting.Callable :=
  @usable_iff greeting PyRuntime.plain (by decide +kernel) EventRegistry.empty _ rfl
    greeting_moderate userOperations userAudit (by decide +kernel) (by decide +kernel)

/-- It is admitted, and no call of it is recorded. -/
theorem not_usable : (∃ registry, EventRegistry.empty.register selfNamed = .ok registry) ∧
    selfNamed.Moderate ∧
    userOperations.registry.get selfNamed.eventId = .ok selfNamed ∧
    userAudit.registry.get selfNamed.eventId = .ok selfNamed ∧
    ¬@Usable PyRuntime.plain userOperations userAudit selfNamed := by
  refine ⟨⟨_, rfl⟩, ⟨by decide, nofun⟩, by decide +kernel, by decide +kernel, fun h => ?_⟩
  have hcallable := @callable_of_usable selfNamed PyRuntime.plain userOperations userAudit
    (by decide +kernel) (by decide +kernel) (by decide +kernel) h
  exact hcallable.required _ List.mem_cons_self rfl rfl

end NmLogging
