import NmLogging.AuditMethods
import NmLogging.Containment
import NmLogging.OneLine

/-!
# Envelopes

The shape of an encrypted envelope in what the facades hand to their sinks. The guard and
the actor's check refuse a string of that shape, but a message is put together from the text
of a template and the values of fields, and is not looked at (`renderMessage_envelope_iff`).
Where no template is filled in to that shape, no string of any record has it
(`LoggingRun.no_envelope`).
-/

namespace NmLogging

/-! ## Texts in pieces -/

/-- Whether pieces, one after the other, begin by spelling a text. -/
def spells : PyStr → List PyStr → Bool
  | [], _ => true
  | _ :: _, [] => false
  | c :: w, p :: ps =>
    if (c :: w).length ≤ p.length then (c :: w).isPrefixOf p
    else p.isPrefixOf (c :: w) && spells ((c :: w).drop p.length) ps

/-- The last character of pieces. -/
def lastOf (ps : List PyStr) : Option Nat := ps.reverse.findSome? List.getLast?

theorem spells_iff {w : PyStr} {ps : List PyStr} : spells w ps = true ↔ w <+: ps.flatten := by
  induction ps generalizing w with
  | nil => cases w <;> simp [spells]
  | cons p ps ih =>
    cases w with
    | nil => simp [spells]
    | cons c w =>
      rw [spells, List.flatten_cons]
      split
      · rename_i hle
        rw [List.isPrefixOf_iff_prefix]
        exact ⟨fun h => h.trans (List.prefix_append _ _), fun h =>
          List.prefix_of_prefix_length_le h (List.prefix_append _ _) hle⟩
      · rename_i hlt
        rw [Bool.and_eq_true, ih, List.isPrefixOf_iff_prefix]
        constructor
        · rintro ⟨⟨t, ht⟩, hrest⟩
          rw [← ht, List.drop_left] at hrest
          rw [← ht]
          exact (List.prefix_append_right_inj p).mpr hrest
        · intro h
          obtain ⟨t, ht⟩ := List.prefix_of_prefix_length_le (List.prefix_append p ps.flatten) h
            (by omega)
          rw [← ht] at h ⊢
          rw [List.drop_left]
          exact ⟨List.prefix_append _ _, (List.prefix_append_right_inj p).mp h⟩

/-- Pieces make up an envelope when they begin by spelling `ENC[` and end in `]`. -/
theorem looksLikeEncEnvelope_flatten {ps : List PyStr} :
    looksLikeEncEnvelope ps.flatten = true ↔
      spells (lit "ENC[") ps = true ∧ lastOf ps = some 0x5d := by
  have hend : endsWith ps.flatten (lit "]") = true ↔ lastOf ps = some 0x5d := by
    rw [endsWith, List.isSuffixOf_iff_suffix, lastOf, ← List.getLast?_flatten]
    exact List.singleton_suffix_iff_getLast?_eq_some
  rw [looksLikeEncEnvelope, Bool.and_eq_true, hend, startsWith, List.isPrefixOf_iff_prefix,
    spells_iff]

/-- A text without an opening bracket is no envelope. -/
theorem not_envelope_of_notMem {s : PyStr} (h : 0x5b ∉ s) : looksLikeEncEnvelope s = false := by
  rw [← Bool.not_eq_true, looksLikeEncEnvelope, Bool.and_eq_true, startsWith,
    List.isPrefixOf_iff_prefix]
  rintro ⟨hp, -⟩
  exact h (hp.subset (by decide))

/-! ## Messages -/

/-- The pieces that the items of a template are filled in to. -/
inductive Pieces {ε : Type} (value : PyStr → Except ε PyStr) :
    List FormatItem → List PyStr → Prop where
  | nil : Pieces value [] []
  | literal {text : PyStr} {items : List FormatItem} {ps : List PyStr} :
    Pieces value items ps → Pieces value (⟨text, none⟩ :: items) (text :: ps)
  | field {text t : PyStr} {f : FormatField} {items : List FormatItem} {ps : List PyStr} :
    value f.name = .ok t → Pieces value items ps →
    Pieces value (⟨text, some f⟩ :: items) (text :: t :: ps)

theorem substitute_ok_iff {ε : Type} {value : PyStr → Except ε PyStr} {items : List FormatItem}
    {s : PyStr} :
    substitute value items = .ok s ↔ ∃ ps, Pieces value items ps ∧ s = ps.flatten := by
  induction items generalizing s with
  | nil =>
    constructor
    · rintro ⟨⟩
      exact ⟨[], .nil, rfl⟩
    · rintro ⟨_, ⟨⟩, rfl⟩
      rfl
  | cons item items ih =>
    obtain ⟨text, _ | f⟩ := item
    · simp only [substitute, map_eq_ok, ih]
      constructor
      · rintro ⟨_, ⟨ps, hps, rfl⟩, rfl⟩
        exact ⟨_, .literal hps, rfl⟩
      · rintro ⟨_, _ | hps, rfl⟩
        exact ⟨_, ⟨_, hps, rfl⟩, rfl⟩
    · constructor
      · intro h
        simp only [substitute] at h
        split at h
        · cases h
        · rename_i t ht
          simp only [map_eq_ok, ih] at h
          obtain ⟨_, ⟨ps, hps, rfl⟩, rfl⟩ := h
          exact ⟨_, .field ht hps, rfl⟩
      · rintro ⟨_, _ | _ | ⟨ht, hps⟩, rfl⟩
        simp only [substitute, ht, map_eq_ok, ih]
        exact ⟨_, ⟨_, hps, rfl⟩, rfl⟩

section

variable [PyRuntime]

/-- Filled in with fields, the template of an event begins with `ENC[` and ends with `]`,
though no piece of it, neither its own text nor a value, need have that shape. -/
def EventSchemaArgs.FillsEnvelope (schema : EventSchemaArgs) (fields : Dict PyAtom PyObj) : Prop :=
  ∃ t ps, schema.messageTemplate = .str t ∧
    Pieces (EventSchemaArgs.fieldText fields) (formatParse t).1 ps ∧
    spells (lit "ENC[") ps = true ∧ lastOf ps = some 0x5d

/-- An event without a template has no message. -/
theorem not_fillsEnvelope {schema : EventSchemaArgs} {fields : Dict PyAtom PyObj}
    (h : schema.messageTemplate = .none) : ¬schema.FillsEnvelope fields := by
  rintro ⟨t, ps, ht, -⟩
  rw [h] at ht
  cases ht

/-- A message is an envelope where the template fills in to one. -/
theorem renderMessage_envelope_iff {schema : EventSchemaArgs} {fields : Dict PyAtom PyObj} :
    (∃ s, schema.renderMessage fields = .ok (.str s) ∧ looksLikeEncEnvelope s = true) ↔
      schema.FillsEnvelope fields := by
  constructor
  · rintro ⟨s, hs, henv⟩
    unfold EventSchemaArgs.renderMessage at hs
    split at hs
    · rename_i t ht
      split at hs
      · rename_i s' hf
        cases hs
        obtain ⟨ps, hps, rfl⟩ := substitute_ok_iff.mp hf
        exact ⟨t, ps, ht, hps, looksLikeEncEnvelope_flatten.mp henv⟩
      · split at hs
        · cases hs
        · cases hs
    · cases hs
  · rintro ⟨t, ps, ht, hps, henv⟩
    refine ⟨ps.flatten, ?_, looksLikeEncEnvelope_flatten.mpr henv⟩
    have hf : EventSchemaArgs.formatFields t fields = .ok ps.flatten :=
      substitute_ok_iff.mpr ⟨ps, hps, rfl⟩
    simp only [EventSchemaArgs.renderMessage, ht, hf]

end

/-! ## The strings of a record -/

/-- No string among the values of a record's mapping is an envelope. -/
def Record.Unenveloped (r : Record) : Prop :=
  ∀ e ∈ mappingEntries r, ∀ s, .str s ∈ e.2.atoms → looksLikeEncEnvelope s = false

/-- An operation id of the default factory: 32 hexadecimal digits. -/
def DefaultOperationId (id : PyAtom) : Prop :=
  ∃ s, id = .str s ∧ s.length = 32 ∧ ∀ c ∈ s, c ∈ lit "0123456789abcdef"

theorem DefaultOperationId.not_envelope {s : PyStr} (h : DefaultOperationId (.str s)) :
    looksLikeEncEnvelope s = false := by
  obtain ⟨_, ⟨⟩, -, hhex⟩ := h
  exact not_envelope_of_notMem fun hm => absurd (hhex _ hm) (by decide)

theorem application_not_envelope {s : PyStr} (h : applicationRe.fullmatch s = true) :
    looksLikeEncEnvelope s = false := by
  have hwithin : applicationRe.Within (· ≠ 0x5b) := by
    refine ⟨fun c hc => ?_, fun c hc => ?_⟩
    all_goals
      simp only [isLower, isDigit, Bool.or_eq_true, Bool.and_eq_true, decide_eq_true_eq,
        beq_iff_eq] at hc
      omega
  exact not_envelope_of_notMem fun hm => Regex.forall_of_fullmatch hwithin h _ hm rfl

/-- The text of a UTC timestamp ends with its offset. -/
theorem isoformat_not_envelope {t : Datetime} (h : t.utcoffset = some 0) :
    looksLikeEncEnvelope t.isoformat = false := by
  have hlast : t.isoformat.getLast? = some 0x30 := by
    rw [Datetime.isoformat, h]
    exact List.getLast?_append_of_ne_nil _ (by decide)
  rw [← Bool.not_eq_true, looksLikeEncEnvelope, Bool.and_eq_true, endsWith,
    List.isSuffixOf_iff_suffix]
  rintro ⟨-, hs⟩
  cases hlast.symm.trans (List.singleton_suffix_iff_getLast?_eq_some.mp hs)

theorem atom_not_envelope {x : PyStr} (hx : looksLikeEncEnvelope x = false) :
    ∀ s, .str s ∈ (PyObj.atom (.str x)).atoms → looksLikeEncEnvelope s = false := by
  intro s hs
  rw [PyAtom.str.inj (List.mem_singleton.mp hs)]
  exact hx

/-- The envelope of a record: only the event fields and the message can be at fault. -/
theorem Envelope.Valid.unenveloped {r : Envelope} (h : r.Valid) :
    ∀ e ∈ envelopeEntries r, ∀ s, .str s ∈ e.2.atoms → looksLikeEncEnvelope s = false := by
  obtain ⟨⟨app, happ, hre⟩, ⟨em, hem, hemitter⟩, ⟨ev, hev, -, hevent⟩, htime, -⟩ := h
  have hems : ∀ s ∈ EMITTERS, looksLikeEncEnvelope s = false := by decide
  simp only [envelopeEntries, happ, hemitter, hev, List.forall_mem_cons]
  refine ⟨?_, atom_not_envelope (isoformat_not_envelope htime),
    atom_not_envelope (application_not_envelope hre), atom_not_envelope (hems em hem),
    atom_not_envelope (OperationalLog.event_not_envelope hevent), nofun⟩
  intro s hs
  cases List.mem_singleton.mp hs

/-- A record is as its own entries, its fields and its message are. -/
theorem Record.unenveloped {r : Record}
    (hkind : ∀ e ∈ kindEntries r, ∀ s, .str s ∈ e.2.atoms → looksLikeEncEnvelope s = false)
    (hfields : ∀ v ∈ r.envelope.fields.values, ∀ a ∈ v.atoms, Admitted a)
    (hmessage : ∀ s, r.envelope.message = .str s → looksLikeEncEnvelope s = false) :
    r.Unenveloped := by
  intro e he s hs
  simp only [mappingEntries, List.mem_append] at he
  rcases he with ((he | he) | he) | he
  · exact r.valid.unenveloped e he s hs
  · exact hkind e he s hs
  · exact (hfields e.2 (List.mem_map_of_mem he) _ hs).2.1
  · rw [messageEntries] at he
    split at he
    · cases he
    · cases List.mem_singleton.mp he
      exact hmessage s (List.mem_singleton.mp hs).symm

section

variable [PyRuntime]

/-- A record whose fields a schema accepted, and whose message is the schema's. -/
theorem Record.unenveloped_of_schema {r : Record} {schema : EventSchema}
    {fields d : Dict PyAtom PyObj}
    (hkind : ∀ e ∈ kindEntries r, ∀ s, .str s ∈ e.2.atoms → looksLikeEncEnvelope s = false)
    (hguard : schema.Guarded fields d) (hd : r.envelope.fields = d)
    (hm : schema.renderMessage d = .ok r.envelope.message) (hfill : ¬schema.FillsEnvelope d) :
    r.Unenveloped := by
  refine unenveloped hkind (hd ▸ hguard.scalars) fun s hs => ?_
  rw [← Bool.not_eq_true]
  intro henv
  rw [hs] at hm
  exact hfill (renderMessage_envelope_iff.mp ⟨s, hm, henv⟩)

end

/-! ## Operational records -/

section

variable [PyRuntime]

/-- Any environment of an operational log, in which only records without envelopes may be
handed to the sink. -/
def handing : Semantics logSig Unit where
  pre _
    | .sinkWrite record => Record.Unenveloped (.operational record)
    | _ => True
  step _ _ _ _ := True

namespace OperationalLog

/-- The template of the defect event fills in to an envelope, for a report of the event. -/
def FillsDefect (log : OperationalLog) (event : PyAtom) : Prop :=
  ∃ kind ∈ violationKinds, ∃ d,
    log.defectSchema.validateOperational .error (defectFields event kind) = .ok d ∧
      log.defectSchema.FillsEnvelope d

variable {log : OperationalLog} {event : PyAtom} {severity : Severity} {schema : EventSchema}
  {fields : Dict PyAtom PyObj}

theorem buildRecord_handing
    (hfill : ∀ d, schema.validateOperational severity fields = .ok d → ¬schema.FillsEnvelope d)
    {Q : Except PyError OperationalRecord → Unit → Prop} (herr : ∀ e, Q (.error e) ())
    (hok : ∀ record, Record.Unenveloped (.operational record) → Q (.ok record) ()) :
    (log.buildRecord event severity schema fields).wp handing () Q := by
  cases hval : schema.validateOperational severity fields with
  | error e =>
    rw [buildRecord_of_invalid hval]
    exact herr e
  | ok d =>
    cases hm : schema.renderMessage d with
    | error e =>
      rw [buildRecord_of_unrendered hval hm]
      exact herr e
    | ok m =>
      rw [buildRecord_of_rendered hval hm]
      refine ⟨trivial, fun r _ _ => ?_⟩
      cases (r : Except PyError Datetime) with
      | error e => exact herr e
      | ok t =>
        show (Prog.ofExcept (log.recordArgs event severity d m t).construct).wp handing () Q
        cases hc : (log.recordArgs event severity d m t).construct with
        | error e => exact herr e
        | ok record =>
          have hargs := OperationalArgs.construct_ok.mp hc
          have hd : record.fields = d := by rw [hargs]; rfl
          have hmessage : record.message = m := by rw [hargs]; rfl
          refine hok record (Record.unenveloped_of_schema ?_
            (guardFields_ok (validateOperational_iff.mp hval).2) hd (hmessage ▸ hm)
            (hfill d hval))
          simp only [kindEntries, List.forall_mem_cons]
          refine ⟨atom_not_envelope ?_, List.forall_mem_nil _⟩
          cases record.severity <;> decide

omit [PyRuntime] in
theorem markHealthy_handing : markHealthy.wp handing () fun _ _ => True :=
  ⟨trivial, fun _ _ _ => trivial⟩

omit [PyRuntime] in
theorem sinkWrite_handing {record : OperationalRecord}
    (h : Record.Unenveloped (.operational record)) :
    (sinkWrite record).wp handing () fun _ _ => True := by
  refine ⟨h, fun r _ _ => ?_⟩
  cases (r : Except PyError Unit) <;> trivial

omit [PyRuntime] in
theorem degrade_handing {kind : PyStr} : (degrade kind).wp handing () fun _ _ => True := by
  refine ⟨trivial, fun _ _ _ => ⟨trivial, fun r _ _ => ?_⟩⟩
  cases (r : Except PyError Unit) with
  | ok _ => trivial
  | error e =>
    show Prog.wp _ (if _ then _ else _ : LogProg Unit) _ _
    split <;> trivial

theorem emitDefectRecord_handing {kind : PyStr} (hk : kind ∈ violationKinds)
    (h : ¬log.FillsDefect event) :
    (log.emitDefectRecord event kind).wp handing () fun _ _ => True := by
  refine Prog.wp_elim_true ?_ (fun _ => markHealthy_handing) fun e => ?_
  · rw [Prog.wp_bind]
    exact buildRecord_handing (fun d hd hfill => h ⟨kind, hk, d, hd, hfill⟩) (fun _ => trivial)
      fun _ => sinkWrite_handing
  · split
    · exact degrade_handing
    · trivial

theorem handleDefect_handing {exc : PyError} {kind : PyStr} (hk : kind ∈ violationKinds)
    (h : ¬log.FillsDefect event) :
    (log.handleDefect event exc kind).wp handing () fun _ _ => True := by
  rw [handleDefect]
  split
  · trivial
  · exact emitDefectRecord_handing hk h

theorem write_handing {record : OperationalRecord} (hr : Record.Unenveloped (.operational record))
    (h : ¬log.FillsDefect event) : (log.write record event).wp handing () fun _ _ => True := by
  refine Prog.wp_elim_true (sinkWrite_handing hr) (fun _ => markHealthy_handing) fun e => ?_
  split
  · exact handleDefect_handing (by decide) h
  · split
    · exact degrade_handing
    · trivial

theorem emit_handing (h : ¬log.FillsDefect event) (hfill : ∀ schema d,
      log.registry.get event = .ok schema → schema.validateOperational severity fields = .ok d →
        ¬schema.FillsEnvelope d) :
    (log.emit severity event fields).wp handing () fun _ _ => True := by
  rw [emit]
  cases hget : log.registry.get event with
  | error e =>
    show Prog.wp _ (if _ then _ else _ : LogProg Unit) _ _
    split
    · exact handleDefect_handing (by decide) h
    · trivial
  | ok schema =>
    show Prog.wp _ (Prog.elim _ _ _) _ _
    rw [Prog.wp_elim]
    refine buildRecord_handing (fun d hd => hfill schema d hget hd) (fun e => ?_) fun record hr =>
      write_handing hr h
    show Prog.wp _ (if _ then _ else _ : LogProg Unit) _ _
    split
    · exact handleDefect_handing (by decide) h
    · split
      · exact handleDefect_handing (by decide) h
      · trivial

/-- The records that a call hands to its sink. -/
theorem call_handing (h : ¬log.FillsDefect event) (hfill : ∀ schema d,
      log.registry.get event = .ok schema → schema.validateOperational severity fields = .ok d →
        ¬schema.FillsEnvelope d) :
    (log.call severity event fields).wp handing () fun _ _ => True := by
  rw [call, Prog.wp_bind]
  rcases bindKeywords_cases (methodName severity) methodParams fields with
    ⟨kw, hkw, hfields, -⟩ | ⟨e, hkw, -⟩
  · rw [hkw]
    rw [← hfields] at hfill
    show (log.method severity event kw).wp handing () fun _ _ => True
    cases severity
    all_goals exact emit_handing h hfill
  · rw [hkw]
    trivial

end OperationalLog

/-! ## Audit records -/

omit [PyRuntime] in
/-- Any environment of an audit log with the default factory, in which only records without
envelopes may be handed to the sink. -/
def appending : Semantics auditSig Unit where
  pre _
    | .append record _ => Record.Unenveloped (.audit record)
    | _ => True
  step _
    | .newOperationId _, r, _ => ∀ id, r = .ok id → DefaultOperationId id
    | .heap o, r, _ => o.Answers r
    | .handle (.newHandle _ _ _ id), op, _ => AuditOperation.operationId op = id
    | _, _, _ => True

section

variable {α : Type}

omit [PyRuntime] in
theorem quiet_appending : Quiet appending fun _ => True where
  heap_pre _ _ := trivial
  heap_step h := ⟨rfl, h⟩
  now_pre _ _ := trivial
  now_step _ := ⟨rfl, trivial⟩
  atomic_pre _ := trivial
  atomic_step _ := rfl

omit [PyRuntime] in
theorem handle_appending {o : HandleOp} {Q : Except Exc o.Ret → Unit → Prop}
    (h : ∀ r, Q (.ok r) ()) : (AuditProg.handle o).wp appending () Q :=
  ⟨trivial, fun r _ _ => h r⟩

omit [PyRuntime] in
theorem sinkAppend_appending {record : AuditRecord} {handled : Option Exc}
    {Q : Except Exc Unit → Unit → Prop} (hr : Record.Unenveloped (.audit record))
    (h : ∀ r, Q r ()) : (sinkAppend record handled).wp appending () Q := by
  refine ⟨hr, fun r _ _ => ?_⟩
  cases (r : Except Exc Unit) with
  | ok u => exact h _
  | error e => exact h _

variable {log : AuditLog} {event actor : PyAtom} {handled : Option Exc}

/-- A record of fields that a schema accepted, with an operation id of the factory. -/
theorem AuditRecord.unenveloped {record : AuditRecord} {schema : EventSchema}
    {fields d : Dict PyAtom PyObj} {category : Category} {stage : Stage} {message id : PyAtom}
    {outcome : Option Outcome} {t : Datetime}
    (hargs : record.toAuditArgs =
      log.recordArgs event category actor stage d message id outcome t)
    (hval : schema.validateAudit fields stage = .ok d) (hm : schema.renderMessage d = .ok message)
    (hid : DefaultOperationId id) (hfill : ¬schema.FillsEnvelope d) :
    Record.Unenveloped (.audit record) := by
  have hd : record.fields = d := by rw [hargs]; rfl
  have hmessage : record.message = message := by rw [hargs]; rfl
  have hrid : record.operationId = id := by rw [hargs]; rfl
  refine Record.unenveloped_of_schema ?_ (guardFields_ok (check_eq_ok.mp hval).2) hd
    (hmessage ▸ hm) hfill
  obtain ⟨-, ⟨a, hactor, -, -, ha⟩, -⟩ := AuditArgs.postInit_ok.mp record.ok
  obtain ⟨i, rfl, hi⟩ := hid
  have hid : (PyAtom.str i = .none) = False := eq_false (by rintro ⟨⟩)
  simp only [kindEntries, List.forall_mem_append, List.forall_mem_cons, hactor, hrid, hid, if_false]
  refine ⟨⟨⟨atom_not_envelope ?_, atom_not_envelope ha, atom_not_envelope ?_,
    List.forall_mem_nil _⟩, atom_not_envelope (DefaultOperationId.not_envelope ⟨i, rfl, hi⟩),
    List.forall_mem_nil _⟩, ?_⟩
  · cases record.category <;> decide
  · cases record.stage <;> decide
  · cases record.outcome with
    | none => exact List.forall_mem_nil _
    | some o =>
      refine List.forall_mem_cons.mpr ⟨atom_not_envelope ?_, List.forall_mem_nil _⟩
      cases o <;> decide

/-- The template of an event of the log fills in to an envelope for an INTENT. -/
def AuditLog.FillsIntent (log : AuditLog) (event : PyAtom) (fields : Dict PyAtom PyObj) : Prop :=
  ∃ schema d, log.registry.get event = .ok schema ∧ schema.validateAudit fields .intent = .ok d ∧
    schema.FillsEnvelope d

/-- And that of an operation's event for its OUTCOME. -/
def AuditOperation.FillsOutcome (op : AuditOperation) (fields : Dict PyAtom PyObj) : Prop :=
  ∃ d, op.schema.validateAudit fields .outcome = .ok d ∧ op.schema.FillsEnvelope d

/-- What is said of the handle that a call returns. -/
def ReturnsHandle (res : Except Exc AuditOperation) : Prop :=
  ∀ op, res = .ok op → DefaultOperationId op.operationId

omit [PyRuntime] in
theorem returnsHandle_error {e : Exc} : ReturnsHandle (.error e) := by
  intro op h
  cases h

theorem intent_appending {kw : Keywords AuditLog.methodParams}
    (h : ¬log.FillsIntent event kw.fields) :
    (log.intent event actor kw handled).wp appending () fun res _ => ReturnsHandle res := by
  have hM : Quiet appending fun _ => True := quiet_appending
  rw [AuditLog.intent, Prog.wp_bind]
  refine hM.inFrame (hM.pureCall (fun schema hschema => ?_) fun _ _ _ _ => returnsHandle_error)
  show Prog.wp _ (_ >>= _) _ _
  rw [Prog.wp_bind]
  refine hM.inFrame (hM.pureCall (fun d hd => ?_) fun _ _ _ _ => returnsHandle_error)
  show Prog.wp _ (_ >>= _) _ _
  rw [Prog.wp_bind]
  refine hM.inFrame (hM.pureCall (fun message hm => ?_) fun _ _ _ _ => returnsHandle_error)
  show Prog.wp _ (_ >>= _) _ _
  rw [Prog.wp_bind]
  refine hM.inFrame ⟨trivial, fun r _ hr => ?_⟩
  cases (r : Except Exc PyAtom) with
  | error e => exact returnsHandle_error
  | ok id =>
    have hid : DefaultOperationId id := hr id rfl
    show Prog.wp _ (_ >>= _) _ _
    rw [Prog.wp_bind]
    refine hM.inFrame (hM.build (fun _ _ => returnsHandle_error) (fun t record _ hargs => ?_)
      fun _ _ _ _ _ _ => returnsHandle_error)
    show Prog.wp _ (Prog.elim _ _ _) _ _
    rw [Prog.wp_elim]
    have hrecord := AuditRecord.unenveloped hargs hd hm hid fun hf => h ⟨schema, d, hschema, hd, hf⟩
    refine hM.inFrame (sinkAppend_appending hrecord fun r => ?_)
    cases r with
    | ok u =>
      refine ⟨trivial, fun op _ hop => ?_⟩
      rintro _ ⟨⟩
      exact hop ▸ hid
    | error x =>
      show Prog.wp _ (if _ then _ else _) _ _
      split
      · rw [Prog.wp_bind]
        exact hM.normalizedPersistenceError fun _ _ => hM.raiseExc returnsHandle_error
      · exact returnsHandle_error

theorem operation_appending {kw : Keywords AuditLog.methodParams}
    (h : ¬log.FillsIntent event kw.fields) :
    (log.operation event actor kw handled).wp appending () fun res _ => ReturnsHandle res := by
  have hM : Quiet appending fun _ => True := quiet_appending
  rw [AuditLog.operation, Prog.wp_bind]
  refine hM.inFrame (hM.pureCall (fun schema _ => ?_) fun _ _ _ _ => returnsHandle_error)
  show Prog.wp _ (if _ then _ else _) _ _
  split
  · exact hM.raiseNew fun _ _ => returnsHandle_error
  · rw [Prog.wp_bind]
    refine hM.inFrame (Prog.wp_mono (intent_appending h) fun res _ hres => ?_)
    cases res with
    | error e => exact returnsHandle_error
    | ok op =>
      show Prog.wp _ (_ >>= _) _ _
      rw [Prog.wp_bind]
      exact handle_appending fun _ => hres

variable {op : AuditOperation}

theorem appendOutcome_appending {outcome : Outcome} {fields : Dict PyAtom PyObj}
    (hid : DefaultOperationId op.operationId) (h : ¬op.FillsOutcome fields) :
    (log.appendOutcome op outcome fields handled).wp appending () fun _ _ => True := by
  have hM : Quiet appending fun _ => True := quiet_appending
  rw [AuditLog.appendOutcome, Prog.wp_bind]
  refine hM.inFrame (hM.pureCall (fun d hd => ?_) fun _ _ _ _ => trivial)
  show Prog.wp _ (_ >>= _) _ _
  rw [Prog.wp_bind]
  refine hM.inFrame (hM.pureCall (fun message hm => ?_) fun _ _ _ _ => trivial)
  show Prog.wp _ (_ >>= _) _ _
  rw [Prog.wp_bind]
  refine hM.inFrame (hM.build (fun _ _ => trivial) (fun t record _ hargs => ?_)
    fun _ _ _ _ _ _ => trivial)
  exact hM.inFrame (sinkAppend_appending
    (AuditRecord.unenveloped hargs hd hm hid fun hf => h ⟨d, hd, hf⟩) fun _ => trivial)

theorem finalise_appending {outcome : Outcome} {fields : Dict PyAtom PyObj}
    (hid : DefaultOperationId op.operationId) (h : ¬op.FillsOutcome fields) :
    (op.finalise log outcome fields handled).wp appending () fun _ _ => True := by
  have hM : Quiet appending fun _ => True := quiet_appending
  rw [AuditOperation.finalise, Prog.wp_bind]
  refine handle_appending fun state => ?_
  show Prog.wp _ (if _ then _ else _) _ _
  split
  · exact hM.raiseNew fun _ _ => trivial
  · refine Prog.wp_elim_true (hM.inFrame (appendOutcome_appending hid h))
      (fun _ => handle_appending fun _ => trivial) fun e => ?_
    rw [Prog.wp_bind]
    refine handle_appending fun _ => ?_
    show Prog.wp _ (_ >>= _) _ _
    rw [Prog.wp_bind]
    refine handle_appending fun _ => ?_
    show Prog.wp _ (if _ then _ else _) _ _
    split
    · rw [Prog.wp_bind]
      refine hM.normalizedPersistenceError fun _ _ => ?_
      show Prog.wp _ (_ >>= _) _ _
      rw [Prog.wp_bind]
      exact handle_appending fun _ => hM.raiseExc trivial
    · trivial

theorem record_appending {outcome : Outcome} {kw : Keywords AuditOperation.methodParams}
    (hid : DefaultOperationId op.operationId) (h : ¬op.FillsOutcome kw.fields) :
    (op.record log outcome kw handled).wp appending () fun _ _ => True := by
  cases outcome
  all_goals exact quiet_appending.inFrame (finalise_appending hid h)

omit [PyRuntime] in
theorem raiseFinalisationError_appending {e : Exc} :
    (op.raiseFinalisationError e handled : AuditProg α).wp appending () fun _ _ => True := by
  have hM : Quiet appending fun _ => True := quiet_appending
  rw [AuditOperation.raiseFinalisationError, Prog.wp_bind]
  refine handle_appending fun failure => ?_
  show Prog.wp _ (_ >>= _) _ _
  rw [Prog.wp_bind]
  refine hM.heap fun x _ => ?_
  cases failure with
  | none => exact hM.raiseExc trivial
  | some cause =>
    show Prog.wp _ (if _ then _ else _) _ _
    split
    · exact hM.raiseExc trivial
    · exact hM.raiseExc trivial

theorem exit_appending {exc : Option Exc} (hid : DefaultOperationId op.operationId)
    (h : ¬op.FillsOutcome Dict.empty) :
    (op.exit log exc handled).wp appending () fun _ _ => True := by
  have hM : Quiet appending fun _ => True := quiet_appending
  rw [AuditOperation.exit, Prog.wp_bind]
  refine handle_appending fun state => ?_
  cases (state : OperationState) with
  | FINALISED => trivial
  | FINALISATION_FAILED =>
    cases exc with
    | none =>
      show Prog.wp _ (_ >>= _) _ _
      rw [Prog.wp_bind]
      refine handle_appending fun failure => ?_
      cases (failure : Option Exc) with
      | none => exact hM.raiseNew fun _ _ => trivial
      | some f => exact hM.raiseExc trivial
    | some e =>
      show Prog.wp _ (_ >>= _) _ _
      rw [Prog.wp_bind]
      refine handle_appending fun failure => ?_
      show Prog.wp _ (if _ then _ else _) _ _
      split
      · trivial
      · exact hM.inFrame raiseFinalisationError_appending
  | OPEN =>
    cases exc with
    | none => exact hM.raiseNew fun _ _ => trivial
    | some e =>
      show Prog.wp _ (Prog.elim _ _ _) _ _
      refine Prog.wp_elim_true (hM.inFrame (hM.inFrame (finalise_appending hid h)))
        (fun _ => trivial) fun f => ?_
      split
      · exact hM.inFrame raiseFinalisationError_appending
      · trivial

/-- The template of a call's event fills in to an envelope. -/
def AuditCall.Fills (log : AuditLog) : AuditCall → Prop
  | .complete _ => False
  | .intent event _ kw _ => log.FillsIntent event kw.fields
  | .operation event _ kw _ => log.FillsIntent event kw.fields
  | .record op _ kw _ => op.FillsOutcome kw.fields
  | .exit op _ _ => op.FillsOutcome Dict.empty

theorem call_appending {c : AuditCall} (h : ¬c.Fills log)
    (hid : ∀ op, c.on = some op → DefaultOperationId op.operationId) :
    (log.call c).wp appending () fun res _ =>
      ∀ op, res = .ok (.handle op) → DefaultOperationId op.operationId := by
  have hM : Quiet appending fun _ => True := quiet_appending
  have hhandle : ∀ {p : AuditProg AuditOperation},
      p.wp appending () (fun res _ => ReturnsHandle res) →
      (do return AuditValue.handle (← p) : AuditProg AuditValue).wp appending () fun res _ =>
        ∀ op, res = .ok (.handle op) → DefaultOperationId op.operationId := by
    intro p hp
    rw [Prog.wp_bind]
    refine Prog.wp_mono hp fun res _ hres => ?_
    cases res with
    | error e =>
      intro op he
      cases he
    | ok op =>
      rintro _ ⟨⟩
      exact hres op rfl
  have hnone : ∀ {α : Type} {p : AuditProg α} {f : α → AuditValue}, (∀ a op, f a ≠ .handle op) →
      p.wp appending () (fun _ _ => True) →
      (do return f (← p) : AuditProg AuditValue).wp appending () fun res _ =>
        ∀ op, res = .ok (.handle op) → DefaultOperationId op.operationId := by
    intro α p f hf hp
    rw [Prog.wp_bind]
    refine Prog.wp_mono hp fun res _ _ => ?_
    cases res with
    | error e =>
      intro op he
      cases he
    | ok a =>
      intro op he
      exact absurd (Except.ok.inj he) (hf a op)
  cases c with
  | complete handled =>
    exact hnone (f := fun _ => .none) (fun _ _ he => by cases he) (hM.complete fun _ _ => trivial)
  | intent event actor kw handled => exact hhandle (intent_appending h)
  | operation event actor kw handled => exact hhandle (operation_appending h)
  | record op outcome kw handled =>
    exact hnone (f := fun _ => .none) (fun _ _ he => by cases he) (record_appending (hid op rfl) h)
  | exit op exc handled =>
    exact hnone (f := .suppress) (fun _ _ he => by cases he) (exit_appending (hid op rfl) h)

end

/-! ## Calls of both facades -/

/-- Ids come from the default factory. -/
def Externals.DefaultFactory {ω : Type} (X : Externals ω) : Prop :=
  ∀ {handled m id m'}, X.factory handled m (.ok id) m' → DefaultOperationId id

section

variable {ω : Type} {X : Externals ω} {k : Nat} {s s' : AuditState ω}

omit [PyRuntime] in
theorem appending_step (hX : X.DefaultFactory) {o : AuditOp} {r : auditSig.Ret o}
    (h : auditStep X k s o r s') : appending.step () o r () := by
  cases o with
  | now handled => trivial
  | newOperationId handled =>
    obtain ⟨m, hm, -⟩ := h
    rintro id rfl
    exact hX hm
  | append record handled => trivial
  | supportsAtomic => trivial
  | heap o =>
    obtain ⟨rfl, -⟩ := h
    exact o.answers_apply _ _
  | handle o =>
    obtain ⟨cell, hcell, -⟩ := h
    cases o with
    | newHandle event schema actor id =>
      cases hc : s.cells (HandleOp.ref k (.newHandle event schema actor id)) with
      | none =>
        rw [hc] at hcell
        cases hcell
        rfl
      | some c =>
        rw [hc] at hcell
        cases hcell
    | _ => trivial

omit [PyRuntime] in
/-- The records that a run hands to the sink have no envelopes, where the call says so. -/
theorem runs_appending {α : Type} {p : AuditProg α} {res : Except Exc α}
    {Q : Except Exc α → Unit → Prop} (hX : X.DefaultFactory)
    (h : p.Runs (auditSem X k) s res s') (hp : p.wp appending () Q) :
    Q res () ∧ ∃ es, s'.appends = s.appends ++ es ∧
      ∀ a ∈ es, Record.Unenveloped (.audit a.record) := by
  induction h with
  | ret => exact ⟨hp, [], (List.append_nil _).symm, List.forall_mem_nil _⟩
  | throw => exact ⟨hp, [], (List.append_nil _).symm, List.forall_mem_nil _⟩
  | @op o _ s t u r _ hs _ ih =>
    obtain ⟨hq, es, hes, hall⟩ := ih (hp.2 _ _ (appending_step hX hs))
    refine ⟨hq, ?_⟩
    have silent : t.appends = s.appends → ∃ es, u.appends = s.appends ++ es ∧
        ∀ a ∈ es, Record.Unenveloped (.audit a.record) := fun happ => ⟨es, happ ▸ hes, hall⟩
    cases o with
    | now handled =>
      obtain ⟨m, -, rfl⟩ := hs
      exact silent rfl
    | newOperationId handled =>
      obtain ⟨m, -, rfl⟩ := hs
      exact silent rfl
    | append record handled =>
      obtain ⟨m, -, rfl⟩ := hs
      exact ⟨⟨k, record, r⟩ :: es, by rw [hes, List.append_assoc, List.singleton_append],
        List.forall_mem_cons.mpr ⟨hp.1, hall⟩⟩
    | supportsAtomic =>
      obtain ⟨-, rfl⟩ := hs
      exact silent rfl
    | heap o =>
      obtain ⟨-, rfl⟩ := hs
      exact silent rfl
    | handle o =>
      obtain ⟨cell, -, rfl⟩ := hs
      exact silent rfl

end

/-- A call of one of the facades. -/
inductive LoggingCall where
  | operational (log : OperationalLog) (c : OperationalLog.LogCall)
  | audit (log : AuditLog) (c : AuditCall)

/-- A template fills in to an envelope: that of the event, for the fields of the call, or that
of the defect event, for the report of a defect of the call. -/
def LoggingCall.Fills : LoggingCall → Prop
  | .operational log c =>
    (∃ schema d, log.registry.get c.event = .ok schema ∧
      schema.validateOperational c.severity c.fields = .ok d ∧ schema.FillsEnvelope d) ∨
    log.FillsDefect c.event
  | .audit log c => c.Fills log

omit [PyRuntime] in
/-- The handle that a call returned, with its log. -/
def returned (log : AuditLog) : Except Exc AuditValue → List (AuditLog × AuditOperation)
  | .ok (.handle op) => [(log, op)]
  | _ => []

/-- Calls one after the other, with the records that they hand to sinks and the handles that
they return. Whatever the clocks and the sinks do, ids come from the default factory, and a
call on a handle is made on one that a log returned. -/
inductive LoggingRun {ω : Type} : List LoggingCall → AuditState ω → List Record →
    List (AuditLog × AuditOperation) → Prop where
  | start {m : Heap × ω} : LoggingRun [] { memory := m } [] []
  | operational {cs : List LoggingCall} {s : AuditState ω} {rs : List Record}
    {hs : List (AuditLog × AuditOperation)} {log : OperationalLog} {c : OperationalLog.LogCall}
    {tr : LogTrace} {res : Except PyError Unit} {m : Heap × ω} :
    LoggingRun cs s rs hs → (log.call c.severity c.event c.fields).Traces tr res →
    LoggingRun (cs ++ [.operational log c]) { s with memory := m }
      (rs ++ tr.handed.map .operational) hs
  | audit {cs : List LoggingCall} {s s' : AuditState ω} {rs : List Record}
    {hs : List (AuditLog × AuditOperation)} {log : AuditLog} {c : AuditCall} {X : Externals ω}
    {res : Except Exc AuditValue} {es : List AppendEntry} :
    LoggingRun cs s rs hs → X.DefaultFactory → (∀ op, c.on = some op → (log, op) ∈ hs) →
    (log.call c).Runs (auditSem X (c.key cs.length)) s res s' → s'.appends = s.appends ++ es →
    LoggingRun (cs ++ [.audit log c]) s' (rs ++ es.map fun a => .audit a.record)
      (hs ++ returned log res)

/-- In a run whose calls fill in no template to an envelope, no string of the mapping of any
record that is handed to a sink is one. -/
theorem LoggingRun.no_envelope {ω : Type} {cs : List LoggingCall} {s : AuditState ω}
    {rs : List Record} {hs : List (AuditLog × AuditOperation)} (h : LoggingRun cs s rs hs)
    (hfill : ∀ c ∈ cs, ¬c.Fills) :
    ∀ r ∈ rs, ∀ m, toMapping r = .ok m → ∀ v ∈ m.values, ∀ t, .str t ∈ v.atoms →
      looksLikeEncEnvelope t = false := by
  suffices (∀ p ∈ hs, DefaultOperationId p.2.operationId) ∧ ∀ r ∈ rs, r.Unenveloped by
    intro r hr m hm v hv
    obtain ⟨m', hm', he⟩ := toMapping_eq r
    cases hm.symm.trans hm'
    obtain ⟨e, hmem, rfl⟩ := List.mem_map.mp hv
    exact this.2 r hr e (he ▸ hmem)
  induction h with
  | start => exact ⟨List.forall_mem_nil _, List.forall_mem_nil _⟩
  | @operational cs s rs hs log c tr res m _ hrun ih =>
    obtain ⟨hids, hall⟩ := ih fun c hc => hfill c (List.mem_append_left _ hc)
    have hc := hfill _ (List.mem_append_right _ List.mem_cons_self)
    obtain ⟨hpre, -⟩ := hrun.pre (M := handing) (fun _ _ => trivial)
      (OperationalLog.call_handing (fun hd => hc (.inr hd)) fun schema d hget hval hf =>
        hc (.inl ⟨schema, d, hget, hval, hf⟩))
    refine ⟨hids, List.forall_mem_append.mpr ⟨hall, fun r hr => ?_⟩⟩
    obtain ⟨record, hrecord, rfl⟩ := List.mem_map.mp hr
    obtain ⟨⟨o, x⟩, hx, hsome⟩ := List.mem_filterMap.mp hrecord
    cases o with
    | sinkWrite record' =>
      cases hsome
      exact hpre _ hx
    | _ => cases hsome
  | @audit cs s s' rs hs log c X res es _ hX hon hrun hes ih =>
    obtain ⟨hids, hall⟩ := ih fun c hc => hfill c (List.mem_append_left _ hc)
    have hc := hfill _ (List.mem_append_right _ List.mem_cons_self)
    obtain ⟨hres, es', hes', hnew⟩ := runs_appending hX hrun
      (call_appending hc fun op hop => hids _ (hon op hop))
    cases List.append_cancel_left (hes.symm.trans hes')
    refine ⟨List.forall_mem_append.mpr ⟨hids, ?_⟩, List.forall_mem_append.mpr ⟨hall, ?_⟩⟩
    · intro p hp
      cases res with
      | error e => cases hp
      | ok value =>
        cases value with
        | handle op =>
          cases List.mem_singleton.mp hp
          exact hres op rfl
        | none => cases hp
        | suppress b => cases hp
    · intro r hr
      obtain ⟨a, ha, rfl⟩ := List.mem_map.mp hr
      exact hnew a ha

end

/-- An event whose template has brackets around its field. -/
def keySchema : EventSchema where
  eventId := .str (lit "key.loaded")
  severity := some .info
  fields := [{ name := .str (lit "name"), type := .str, required := true, ok := name_postInit }]
  messageTemplate := .str (lit "ENC[\x7bname\x7d]")
  ok := by decide +kernel

/-- A log with that event. -/
def keyLog : OperationalLog where
  application := .str (lit "app")
  emitter := .str (lit "app")
  registry := ⟨⟨[(.str (lit "key.loaded"), keySchema), (DEFECT_EVENT, DEFECT_SCHEMA)],
    by decide⟩, by simp [keySchema, DEFECT_SCHEMA]⟩
  defectSchema := DEFECT_SCHEMA
  strict := false
  applicationOk := validateApplication_app
  emitterOk := validateEmitter_app
  defectOk := by rfl

/-- Its field. -/
def nameField (name : PyStr) : Dict PyAtom PyObj :=
  Dict.empty.set (.str (lit "name")) (.atom (.str name))

/-- A sink that takes everything, at some time. -/
def willing : (o : LogOp) → logSig.Ret o
  | .now => .ok firstHour
  | .sinkWrite _ => .ok ()
  | .markHealthy => ()
  | .markDegraded _ => ()
  | .fallbackEmit _ => .ok ()

/-- What it hands to its sink for a name. -/
def keyRecord : OperationalRecord :=
  ⟨keyLog.recordArgs (.str (lit "key.loaded")) .info (nameField (lit "backup"))
    (.str (lit "ENC[backup]")) firstHour, by decide +kernel⟩

/-- The promise is broken: the text of the template and the value of the field are no envelopes,
and the message that is handed to the sink is one. -/
theorem not_no_envelope : ∃ (s : AuditState Unit) (rs : List Record),
    @LoggingRun PyRuntime.plain Unit
      [.operational keyLog ⟨.info, .str (lit "key.loaded"), nameField (lit "backup")⟩] s rs [] ∧
    ∃ r ∈ rs, ∃ m, toMapping r = .ok m ∧ ∃ v ∈ m.values, ∃ t, .str t ∈ v.atoms ∧
      looksLikeEncEnvelope t = true := by
  let _ := PyRuntime.plain
  have htrace := (keyLog.call .info (.str (lit "key.loaded"))
    (nameField (lit "backup"))).traces_trace willing
  refine ⟨_, _, .operational (m := ([], ())) (.start (m := ([], ()))) htrace,
    .operational keyRecord, List.mem_singleton.mpr rfl, ?_⟩
  obtain ⟨m, hm, he⟩ := toMapping_eq (.operational keyRecord)
  refine ⟨m, hm, .atom (.str (lit "ENC[backup]")), ?_, _, List.mem_singleton_self _, by decide⟩
  rw [Dict.values, he]
  decide +kernel

/-- An event whose template has none. -/
def loadedSchema : EventSchema where
  eventId := .str (lit "key.loaded")
  severity := some .info
  fields := [{ name := .str (lit "name"), type := .str, required := true, ok := name_postInit }]
  messageTemplate := .str (lit "ENC: \x7bname\x7d]")
  ok := by decide +kernel

/-- A log with that event. -/
def loadedLog : OperationalLog :=
  { keyLog with
    registry := ⟨⟨[(.str (lit "key.loaded"), loadedSchema), (DEFECT_EVENT, DEFECT_SCHEMA)],
      by decide⟩, by simp [loadedSchema, DEFECT_SCHEMA]⟩ }

/-- A call whose message is no envelope. -/
theorem no_envelope_loadedLog : ∃ (s : AuditState Unit) (r : Record),
    @LoggingRun PyRuntime.plain Unit
      [.operational loadedLog ⟨.info, .str (lit "key.loaded"), nameField (lit "backup")⟩] s [r] [] ∧
    r.envelope.message = .str (lit "ENC: backup]") ∧
    ∀ m, toMapping r = .ok m → ∀ v ∈ m.values, ∀ t, .str t ∈ v.atoms →
      looksLikeEncEnvelope t = false := by
  let _ := PyRuntime.plain
  have htrace := (loadedLog.call .info (.str (lit "key.loaded"))
    (nameField (lit "backup"))).traces_trace willing
  have hrun := LoggingRun.operational
    (c := ⟨.info, .str (lit "key.loaded"), nameField (lit "backup")⟩)
    (m := ([], ())) (.start (m := ([], ()))) htrace
  refine ⟨_, _, hrun, rfl, hrun.no_envelope (fun c hc => ?_) _ List.mem_cons_self⟩
  cases List.mem_singleton.mp hc
  rintro (⟨schema, d, hget, hval, hfill⟩ | ⟨kind, -, d, -, hfill⟩)
  · cases hget
    cases hval
    obtain ⟨s, hs, henvelope⟩ := renderMessage_envelope_iff.mpr hfill
    cases hs
    exact absurd henvelope (by decide)
  · exact not_fillsEnvelope rfl hfill

end NmLogging
