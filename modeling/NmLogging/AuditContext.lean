import NmLogging.AuditMethods

/-!
# The with statement over an operation

`with log.operation(…) as op:` runs a body and then `__exit__`. A body (`Body`) is any way to
go on with what attempts to record an outcome return or raise: it can catch their exceptions,
and it ends normally or with any exception.

The automatic outcome of `__exit__` has no fields, and its record can always be built
(`not_prevented`): an event whose outcomes need fields is refused by `operation`, and the
names in the record were accepted with the INTENT. So all that can keep the automatic outcome
from being stored is the sink. `AuditLog.with_table` is the state table of the with statement.
-/

namespace NmLogging

variable [PyRuntime]

/-! ## The automatic outcome -/

/-- A clock that returns aware UTC times. -/
def utcClock : Except Exc Datetime → Prop
  | .ok t => t.utcoffset = some 0
  | .error _ => False

section

variable {schema : EventSchema} {log : AuditLog} {op : AuditOperation}

omit [PyRuntime] in
theorem guardSpecs_empty (specs : List FieldSpec) (acc : Dict PyAtom PyObj) :
    guardSpecs Dict.empty [] specs acc = .ok acc := by
  induction specs with
  | nil => rfl
  | cons spec specs ih => simpa [guardSpecs] using ih

omit [PyRuntime] in
/-- An audit event whose outcomes need no fields accepts an outcome without fields. -/
theorem validateAudit_empty (haudit : schema.isAudit = true)
    (hcm : schema.supportsContextManager = true) :
    schema.validateAudit Dict.empty .outcome = .ok Dict.empty := by
  have hrequired : schema.requiredFieldNames true = [] := by
    simpa [EventSchemaArgs.supportsContextManager, EventSchemaArgs.requiredFieldNames] using hcm
  refine check_eq_ok.mpr ⟨require_eq_ok.mpr haudit, check_eq_ok.mpr ⟨by simp, ?_⟩⟩
  rw [decide_eq_true rfl, hrequired]
  exact guardSpecs_empty _ _

/-- And it has a message, or none. -/
theorem renderMessage_empty (schema : EventSchema) :
    ∃ m, schema.renderMessage Dict.empty = .ok m ∧ (m = .none ∨ ∃ s, m = .str s) := by
  cases h : schema.renderMessage Dict.empty with
  | ok m => exact ⟨m, rfl, renderMessage_ok h⟩
  | error e =>
    obtain ⟨⟨v, hv, -⟩, -⟩ := renderMessage_error h
    simp at hv

omit [PyRuntime] in
/-- The outcome record of an operation whose INTENT was built can be built. -/
theorem construct_outcome {record : AuditRecord} (hstage : record.stage = .intent)
    (hb : record.BelongsTo op) {d : Dict PyAtom PyObj} {m : PyAtom} {outcome : Outcome}
    {t : Datetime} (hnames : ∀ k ∈ d.keys, isReserved k = false)
    (hvalues : ∀ v ∈ d.values, isFieldValue v = true) (hm : m = .none ∨ ∃ s, m = .str s)
    (ht : t.utcoffset = some 0) :
    ∃ r, (log.recordArgs op.event (op.schema.category.getD .admin) op.actor .outcome d m
      op.operationId (some outcome) t).construct = .ok r := by
  have hrecord := record.ok
  simp only [AuditArgs.postInit, Envelope.postInit, check_eq_ok, hstage, hb.event, hb.actor,
    hb.operationId] at hrecord
  obtain ⟨⟨-, -, hevent, -⟩, hactor, hid, -⟩ := hrecord
  have hmsg : (m = .none || m.isStr) = true := by
    rcases hm with rfl | ⟨s, rfl⟩
    · rfl
    · rfl
  have hpost : (log.recordArgs op.event (op.schema.category.getD .admin) op.actor .outcome d m
      op.operationId (some outcome) t).postInit = .ok () := by
    simp only [AuditArgs.postInit, Envelope.postInit, check_eq_ok]
    refine ⟨⟨log.applicationOk, log.emitterOk, hevent, validateTimestamp_ok.mpr ht,
      require_eq_ok.mpr hmsg, require_eq_ok.mpr ?_, require_eq_ok.mpr ?_⟩, hactor, hid, rfl⟩
    · rw [Bool.not_eq_true', List.any_eq_false]
      exact fun k hk => Bool.eq_false_iff.mp (hnames k hk)
    · exact List.all_eq_true.mpr hvalues
  exact ⟨⟨_, hpost⟩, AuditArgs.construct_ok.mpr rfl⟩

/-- With a UTC clock, only the sink can keep the automatic outcome from being stored. -/
theorem not_prevented {record : AuditRecord} (hstage : record.stage = .intent)
    (hb : record.BelongsTo op) (haudit : op.schema.isAudit = true)
    (hcm : op.schema.supportsContextManager = true) (x : Exc) :
    ¬Prevented log op .indeterminate Dict.empty utcClock x := by
  have hvalid := validateAudit_empty haudit hcm
  intro h
  cases h with
  | invalid h => rw [hvalid] at h; cases h
  | unrendered validated h =>
    rw [hvalid] at validated
    cases validated
    obtain ⟨m, hm, -⟩ := renderMessage_empty op.schema
    rw [hm] at h
    cases h
  | clock h => exact h
  | unbuilt validated rendered now h =>
    rw [hvalid] at validated
    cases validated
    obtain ⟨m, hm, hshape⟩ := renderMessage_empty op.schema
    rw [hm] at rendered
    cases rendered
    obtain ⟨r, hr⟩ := @construct_outcome log op record hstage hb Dict.empty _ .indeterminate _
      (by simp) (by simp) hshape now
    rw [hr] at h
    cases h

end

/-! ## Bodies -/

/-- An attempt to record an outcome, and the exception that is handled where it is made. -/
structure Attempt where
  outcome : Outcome
  kw : Keywords AuditOperation.methodParams
  handled : Option Exc

def bodySig : Sig := ⟨Attempt, fun _ => Except Exc Unit⟩

/-- The body of a with statement. What it does next depends on what an attempt returned or
raised; it ends normally, or with an exception that leaves it. -/
abbrev Body := Prog bodySig Exc Unit

/-- An attempt that was made, whether the operation was open then, and how it ended. -/
structure Made where
  attempt : Attempt
  wasOpen : Bool
  result : Except Exc Unit

/-- A failed attempt: it was made on the open operation, and raised. -/
def Made.FailedWith (m : Made) (f : Exc) : Prop := m.wasOpen = true ∧ m.result = .error f

/-- Whether an attempt is a failed one. -/
def Made.failed (m : Made) : Bool :=
  match m.result with
  | .ok () => false
  | .error _ => m.wasOpen

section

variable {ω : Type}

omit [PyRuntime] in
/-- Whether an operation is open. -/
def AuditState.isOpen (s : AuditState ω) (ref : Nat) : Bool :=
  match s.cells ref with
  | some cell => cell.state = .OPEN
  | none => false

/-- The run of a body, with the attempts that it made. -/
inductive BodyRuns (log : AuditLog) (X : Externals ω) (op : AuditOperation) :
    Body → AuditState ω → List Made → Except Exc Unit → AuditState ω → Prop where
  | ret {s : AuditState ω} : BodyRuns log X op (.ret ()) s [] (.ok ()) s
  | throw {e : Exc} {s : AuditState ω} : BodyRuns log X op (.throw e) s [] (.error e) s
  | attempt {a : Attempt} {k : Except Exc Unit → Body} {s t s' : AuditState ω}
    {r res : Except Exc Unit} {made : List Made}
    (call : (op.record log a.outcome a.kw a.handled).Runs (auditSem X op.ref) s r t)
    (rest : BodyRuns log X op (k r) t made res s') :
    BodyRuns log X op (.op a k) s (⟨a, s.isOpen op.ref, r⟩ :: made) res s'

/-- The exception that `__exit__` is given. -/
def escaped : Except Exc Unit → Option Exc
  | .ok () => none
  | .error e => some e

/-- How the with statement ends, by how its body and `__exit__` ended. -/
def withResult : Except Exc Unit → Except Exc Bool → Except Exc Unit
  | _, .error x => .error x
  | .ok (), .ok _ => .ok ()
  | .error e, .ok suppress => if suppress then .ok () else .error e

/-- The run of a with statement over an operation, where `handled` is being handled: the
attempts, how the body ended and the state then, and how the statement ended and the state
then. -/
inductive WithRuns (log : AuditLog) (X : Externals ω) (op : AuditOperation) (body : Body)
    (handled : Option Exc) (s : AuditState ω) :
    List Made → Except Exc Unit → AuditState ω → Except Exc Unit → AuditState ω → Prop where
  | mk {made : List Made} {ended : Except Exc Unit} {t s' : AuditState ω} {r : Except Exc Bool}
    (run : BodyRuns log X op body s made ended t)
    (exit : (op.exit log (escaped ended) ((escaped ended).or handled)).Runs (auditSem X op.ref)
      t r s') :
    WithRuns log X op body handled s made ended t (withResult ended r) s'

/-! ## The state table -/

variable {log : AuditLog} {X : Externals ω} {op : AuditOperation} {s t s' : AuditState ω}

omit [PyRuntime] in
/-- The OUTCOME records that the sink was given for an operation. -/
def AuditState.outcomes (s : AuditState ω) (ref : Nat) : List AppendEntry :=
  (s.view ref).appends.filter fun a => a.record.stage = .outcome

omit [PyRuntime] in
theorem AuditState.isOpen_eq (s : AuditState ω) {ref : Nat} {cell : OperationCell}
    (hc : (s.view ref).cell = some cell) : s.isOpen ref = decide (cell.state = .OPEN) := by
  have hc : s.cells ref = some cell := hc
  simp only [AuditState.isOpen, hc]

omit [PyRuntime] in
/-- What a run ends with, by what is seen of its operation. -/
theorem runs_view {α : Type} {clock : Except Exc Datetime → Prop}
    (hclock : ∀ {handled m r m'}, X.clock handled m r m' → clock r) {k : Nat} {p : AuditProg α}
    {res : Except Exc α} {Q : Except Exc α → OperationView → Prop}
    (hr : p.Runs (auditSem X k) s res s') (h : p.wp (cellSem clock k) (s.view k) Q) :
    Q res (s'.view k) := by
  have hstep : ∀ {s s' : AuditState ω} {o : AuditOp} {r : auditSig.Ret o},
      (cellSem clock k).pre (s.view k) o → (auditSem X k).step s o r s' →
        (cellSem clock k).step (s.view k) o r (s'.view k) :=
    fun hp hs => auditStep_view hclock hp hs
  exact hr.post_of_view hstep h

variable {cell : OperationCell} {appends : List AppendEntry} {ids : List (Nat × PyAtom)}
  {body : Body} {made : List Made} {ended : Except Exc Unit}

/-- Attempts on an operation that is no longer open change nothing and raise. -/
theorem BodyRuns.closed (h : BodyRuns log X op body s made ended t)
    (hview : s.view op.ref = ⟨some cell, appends, ids⟩) (hne : cell.state ≠ .OPEN) :
    t.view op.ref = s.view op.ref ∧
      ∀ m ∈ made, m.wasOpen = false ∧ ∃ e, m.result = .error e := by
  induction h with
  | ret => exact ⟨rfl, nofun⟩
  | throw => exact ⟨rfl, nofun⟩
  | @attempt a k s t s' r res made call rest ih =>
    have hwp : (op.record log a.outcome a.kw a.handled).wp (cellSem (fun _ => True) op.ref)
        (s.view op.ref) fun r v => v = s.view op.ref ∧ ∃ e, r = .error e := by
      rw [hview]
      exact wp_record (wp_finalise_closed rfl hne fun e _ => ⟨rfl, e, rfl⟩)
    have hpost := runs_view (fun _ => trivial) call hwp
    obtain ⟨ht, hmade⟩ := ih (hpost.1.trans hview)
    refine ⟨ht.trans hpost.1, fun m hm => ?_⟩
    rcases List.mem_cons.mp hm with rfl | hm
    · refine ⟨?_, hpost.2⟩
      rw [s.isOpen_eq (by rw [hview])]
      exact decide_eq_false hne
    · exact hmade m hm

/-- A body makes no attempt on the open operation, or its first attempt closes it. -/
theorem BodyRuns.open (hclock : ∀ {handled m r m'}, X.clock handled m r m' → utcClock r)
    (h : BodyRuns log X op body s made ended t)
    (hview : s.view op.ref = ⟨some cell, appends, ids⟩) (hop : cell.op = op)
    (hopen : cell.state = .OPEN) (hlen : appends.length = 1) :
    made = [] ∧ t.view op.ref = s.view op.ref ∨
      ∃ (a : Attempt) (r : Except Exc Unit) (rest : List Made), made = ⟨a, true, r⟩ :: rest ∧
        Finalised log op a.outcome a.kw.fields utcClock op.ref cell appends ids r
          (t.view op.ref) ∧ ∀ m ∈ rest, m.wasOpen = false ∧ ∃ e, m.result = .error e := by
  cases h with
  | ret => exact .inl ⟨rfl, rfl⟩
  | throw => exact .inl ⟨rfl, rfl⟩
  | @attempt a k _ u _ r _ made call rest =>
    have hfin : Finalised log op a.outcome a.kw.fields utcClock op.ref cell appends ids r
        (u.view op.ref) := by
      refine runs_view hclock call ?_
      rw [hview]
      exact wp_record (wp_finalise_open hop rfl hopen hlen)
    obtain ⟨cell', appends', hu, hne⟩ : ∃ cell' appends',
        u.view op.ref = ⟨some cell', appends', ids⟩ ∧ cell'.state ≠ .OPEN := by
      revert hfin
      generalize u.view op.ref = v
      intro hfin
      cases hfin with
      | recorded => exact ⟨_, _, rfl, nofun⟩
      | prevented => exact ⟨_, _, rfl, nofun⟩
      | refused => exact ⟨_, _, rfl, nofun⟩
    obtain ⟨ht, hrest⟩ := rest.closed hu hne
    refine .inr ⟨a, r, made, ?_, ht ▸ hfin, hrest⟩
    rw [s.isOpen_eq (by rw [hview])]
    rw [decide_eq_true hopen]

/-- How a with statement ends. -/
structure WithTable (ref : Nat) (made : List Made) (ended : Except Exc Unit) (t : AuditState ω)
    (result : Except Exc Unit) (s' : AuditState ω) : Prop where
  /-- There is at most one failed attempt. -/
  failed_le : (made.filter Made.failed).length ≤ 1
  /-- It completes where the body ends normally, after one OUTCOME that an attempt stored. -/
  completes_iff : result = .ok () ↔ ended = .ok () ∧ ∃ a, t.outcomes ref = [a] ∧ a.result = .ok ()
  /-- A forgotten outcome. -/
  forgotten : ended = .ok () → made = [] → (∃ x, result = .error x ∧ x.cls = AuditUsageError) ∧
    ∃ a, (s'.view ref).appends = [a] ∧ a.record.stage = .intent ∧ a.result = .ok ()
  /-- A failed attempt whose exception the body caught. -/
  reraised : ended = .ok () → ∀ m ∈ made, ∀ f, m.FailedWith f → result = .error f
  /-- An exception after a recorded outcome. -/
  recorded : ∀ e, ended = .error e → (∃ m ∈ made, m.result = .ok ()) →
    result = .error e ∧ (s'.view ref).appends = (t.view ref).appends
  /-- An exception with no attempt made: the automatic outcome. -/
  automatic : ∀ e, ended = .error e → made = [] → ∃ a, s'.outcomes ref = [a] ∧
    a.record.outcome = some .indeterminate ∧
      match a.result with
      | .ok () => result = .error e
      | .error x =>
        if x.isA .exception then ∃ y, result = .error y ∧ y.cls = AuditFinalisationError
        else result = .error x
  /-- An exception after a failed attempt. -/
  failed : ∀ e, ended = .error e → ∀ m ∈ made, ∀ f, m.FailedWith f →
    (s'.view ref).appends = (t.view ref).appends ∧
      if e = f then result = .error e
      else ∃ y, result = .error y ∧ y.cls = AuditFinalisationError

omit [PyRuntime] in
theorem failed_of_rest {rest : List Made}
    (h : ∀ m ∈ rest, m.wasOpen = false ∧ ∃ e, m.result = .error e) :
    rest.filter Made.failed = [] := by
  refine List.filter_eq_nil_iff.mpr fun m hm => ?_
  obtain ⟨hopen, e, he⟩ := h m hm
  simp only [Made.failed, he, hopen, Bool.false_eq_true, not_false_eq_true]

section

variable {k : Nat} {record : AuditRecord} {r : Except Exc Bool}

/-- `__exit__` never suppresses an exception. -/
theorem Exited.ne_true {state : OperationState} {e : Exc} {v : OperationView}
    (h : Exited log op utcClock k state cell appends ids (some e) r v) : r ≠ .ok true := by
  cases state with
  | FINALISED =>
    obtain ⟨rfl, -⟩ := h
    nofun
  | FINALISATION_FAILED =>
    obtain ⟨h, -⟩ := h
    split at h
    · cases h; nofun
    · obtain ⟨x, rfl, -⟩ := h; nofun
  | OPEN =>
    obtain ⟨u, -, hr⟩ := h
    cases u with
    | ok u => cases hr; nofun
    | error f =>
      change if _ then _ else _ at hr
      split at hr
      · obtain ⟨x, rfl, -⟩ := hr; nofun
      · cases hr; nofun

omit [PyRuntime] in
theorem withResult_error {e : Exc} (h : r ≠ .ok true) : withResult (.error e) r ≠ .ok () := by
  match r, h with
  | .error x, _ => nofun
  | .ok false, _ => nofun
  | .ok true, h => exact absurd rfl h

/-- The INTENT of an operation. -/
def intentEntry (op : AuditOperation) (record : AuditRecord) : AppendEntry :=
  ⟨op.ref, record, .ok ()⟩

/-- No attempt was made. -/
theorem WithTable.of_none (hstage : record.stage = .intent)
    (hprev : ∀ x, ¬Prevented log op .indeterminate Dict.empty utcClock x)
    (ht : t.view op.ref = ⟨some cell, [intentEntry op record], ids⟩)
    (hexit : Exited log op utcClock op.ref .OPEN cell [intentEntry op record] ids (escaped ended) r
      (s'.view op.ref)) : WithTable op.ref [] ended t (withResult ended r) s' := by
  have houtcomes : t.outcomes op.ref = [] := by
    simp [AuditState.outcomes, ht, intentEntry, hstage]
  cases ended with
  | ok u =>
    obtain ⟨⟨x, rfl, hx⟩, hs'⟩ := hexit
    refine ⟨by simp, ⟨nofun, ?_⟩, fun _ _ => ⟨⟨x, rfl, hx⟩, _, by rw [hs'], hstage, rfl⟩,
      fun _ m hm => (by cases hm), nofun, nofun, nofun⟩
    rintro ⟨-, a, ha, -⟩
    rw [houtcomes] at ha
    cases ha
  | error e =>
    have hne := withResult_error (e := e) hexit.ne_true
    obtain ⟨u, hfin, hr⟩ := hexit
    refine ⟨by simp, ⟨fun h => absurd h hne, nofun⟩, nofun, nofun,
      fun _ _ ⟨m, hm, _⟩ => (by cases hm), fun e' he' _ => ?_, fun _ _ m hm => (by cases hm)⟩
    cases he'
    have hout : ∀ {a : AppendEntry}, a.record.stage = .outcome →
        (s'.view op.ref).appends = [intentEntry op record] ++ [a] → s'.outcomes op.ref = [a] := by
      intro a ha h
      simp [AuditState.outcomes, h, intentEntry, hstage, ha]
    generalize hv : s'.view op.ref = v at hfin
    cases hfin with
    | prevented h => exact absurd h (hprev _)
    | recorded h =>
      cases hr
      exact ⟨_, hout h.stage (by rw [hv]), h.outcome_eq, rfl⟩
    | @refused record' x f h raised =>
      refine ⟨⟨op.ref, record', .error x⟩, hout h.stage (by rw [hv]), h.outcome_eq, ?_⟩
      change if _ then _ else _ at hr
      show if _ then _ else _
      unfold Surfaces at raised
      split at raised
      · rename_i hx
        have hf : f.isA .exception = true := by rw [Exc.isA, raised]; rfl
        have hexc : x.isA .exception = true := ExcClass.isA_parent
          (ExcClass.isA_parent (b := .auditPersistenceError) hx rfl) rfl
        rw [if_pos hf] at hr
        rw [if_pos hexc]
        obtain ⟨y, rfl, hy⟩ := hr
        exact ⟨y, rfl, hy⟩
      · subst raised
        split at hr
        · rename_i hf
          rw [if_pos hf]
          obtain ⟨y, rfl, hy⟩ := hr
          exact ⟨y, rfl, hy⟩
        · rename_i hf
          rw [if_neg hf, hr]
          rfl

/-- An attempt recorded the outcome. -/
theorem WithTable.of_recorded {a : Attempt} {rest : List Made} {record' : AuditRecord}
    (hstage : record.stage = .intent) (hstage' : record'.stage = .outcome)
    (hrest : ∀ m ∈ rest, m.wasOpen = false ∧ ∃ e, m.result = .error e)
    (ht : t.view op.ref = ⟨some cell, [intentEntry op record, ⟨op.ref, record', .ok ()⟩], ids⟩)
    (hexit : Exited log op utcClock op.ref .FINALISED cell
      [intentEntry op record, ⟨op.ref, record', .ok ()⟩] ids (escaped ended) r (s'.view op.ref)) :
    WithTable op.ref (⟨a, true, .ok ()⟩ :: rest) ended t (withResult ended r) s' := by
  have houtcomes : t.outcomes op.ref = [⟨op.ref, record', .ok ()⟩] := by
    simp [AuditState.outcomes, ht, intentEntry, hstage, hstage']
  have hnot : ∀ m ∈ (⟨a, true, .ok ()⟩ : Made) :: rest, ∀ f, ¬m.FailedWith f := by
    rintro m hm f ⟨hopen, hf⟩
    rcases List.mem_cons.mp hm with rfl | hm
    · cases hf
    · rw [(hrest m hm).1] at hopen
      cases hopen
  obtain ⟨rfl, hs'⟩ : r = .ok false ∧ s'.view op.ref = t.view op.ref := by
    rw [ht]
    exact hexit
  refine ⟨by simp [Made.failed, failed_of_rest hrest], ?_, nofun, fun _ m hm f hf =>
    absurd hf (hnot m hm f), fun e he _ => ?_, nofun, fun _ _ m hm f hf => absurd hf (hnot m hm f)⟩
  · cases ended with
    | ok u => exact ⟨fun _ => ⟨rfl, _, houtcomes, rfl⟩, fun _ => rfl⟩
    | error e => exact ⟨nofun, nofun⟩
  · cases he
    exact ⟨rfl, by rw [hs']⟩

/-- The first attempt failed. -/
theorem WithTable.of_failed {a : Attempt} {rest : List Made} {f : Exc}
    (hrest : ∀ m ∈ rest, m.wasOpen = false ∧ ∃ e, m.result = .error e)
    (ht : t.view op.ref = ⟨some cell, appends, ids⟩) (hfail : cell.failure = some f)
    (hout : ∀ a ∈ t.outcomes op.ref, a.result ≠ .ok ())
    (hexit : Exited log op utcClock op.ref .FINALISATION_FAILED cell appends ids (escaped ended) r
      (s'.view op.ref)) :
    WithTable op.ref (⟨a, true, .error f⟩ :: rest) ended t (withResult ended r) s' := by
  have hwith : ∀ m ∈ (⟨a, true, .error f⟩ : Made) :: rest, ∀ g, m.FailedWith g → g = f := by
    rintro m hm g ⟨hopen, hg⟩
    rcases List.mem_cons.mp hm with rfl | hm
    · cases hg; rfl
    · rw [(hrest m hm).1] at hopen
      cases hopen
  have hle : (((⟨a, true, .error f⟩ : Made) :: rest).filter Made.failed).length ≤ 1 := by
    rw [List.filter_cons_of_pos rfl, failed_of_rest hrest]
    exact Nat.le_refl 1
  have hno : ¬∃ b, t.outcomes op.ref = [b] ∧ b.result = .ok () := by
    rintro ⟨b, hb, hok⟩
    exact hout b (by rw [hb]; exact List.mem_singleton_self b) hok
  have hrec : ¬∃ m ∈ (⟨a, true, .error f⟩ : Made) :: rest, m.result = .ok () := by
    rintro ⟨m, hm, hok⟩
    rcases List.mem_cons.mp hm with rfl | hm
    · cases hok
    · obtain ⟨-, e, he⟩ := hrest m hm
      rw [he] at hok
      cases hok
  cases ended with
  | ok u =>
    obtain ⟨hr, hs'⟩ := hexit
    rw [hr f hfail]
    exact ⟨hle, ⟨nofun, fun h => absurd h.2 hno⟩, nofun,
      fun _ m hm g hg => by rw [hwith m hm g hg]; rfl, nofun, nofun, nofun⟩
  | error e =>
    have hne := withResult_error (e := e) hexit.ne_true
    obtain ⟨hr, hs'⟩ := hexit
    refine ⟨hle, ⟨fun h => absurd h hne, nofun⟩, nofun, nofun, fun _ _ h => absurd h hrec, nofun,
      fun e' he' m hm g hg => ⟨by rw [hs', ht], ?_⟩⟩
    cases he'
    rw [hwith m hm g hg]
    rw [hfail] at hr
    split at hr
    · rename_i h
      cases h
      rw [if_pos rfl, hr]
      rfl
    · rename_i h
      obtain ⟨x, rfl, hx⟩ := hr
      rw [if_neg fun h' => h (by rw [h'])]
      exact ⟨x, rfl, hx⟩

end

variable {result : Except Exc Unit}
  {s₀ : AuditState ω} {event actor : PyAtom} {kw : Keywords AuditLog.methodParams}
  {handled handled' : Option Exc} {k : Nat}

/-- The with statement over an operation that was returned, for every body, sink and UTC
clock. -/
theorem AuditLog.with_table
    (hclock : ∀ {handled m r m'}, X.clock handled m r m' → utcClock r)
    (hnew : s₀.view k = ⟨none, [], []⟩)
    (hop : (log.operation event actor kw handled).Runs (auditSem X k) s₀ (.ok op) s)
    (hw : WithRuns log X op body handled' s made ended t result s') :
    WithTable op.ref made ended t result s' := by
  have hint := runs_view hclock hop (hnew ▸ wp_operation)
  obtain ⟨hcm, rfl, -, -, -, haudit, record, hstage, hbelongs, hview⟩ := hint
  obtain ⟨hbody, hexit⟩ := hw
  have hexited : ∀ {cell : OperationCell} {appends : List AppendEntry}
      {ids : List (Nat × PyAtom)}, t.view op.ref = ⟨some cell, appends, ids⟩ → cell.op = op →
      (cell.state = .OPEN → appends.length = 1) →
        Exited log op utcClock op.ref cell.state cell appends ids (escaped ended) _
          (s'.view op.ref) :=
    fun ht hop hlen => runs_view hclock hexit (ht ▸ wp_exit hop rfl hlen)
  have hprev : ∀ x, ¬Prevented log op .indeterminate Dict.empty utcClock x :=
    not_prevented hstage hbelongs haudit hcm
  rcases hbody.open hclock hview rfl rfl rfl with
    ⟨rfl, ht⟩ | ⟨a, r₀, rest, rfl, hfin, hrest⟩
  · rw [hview] at ht
    exact .of_none hstage hprev ht (hexited ht rfl fun _ => rfl)
  · generalize ht : t.view op.ref = v at hfin
    cases hfin with
    | recorded h => exact .of_recorded hstage h.stage hrest ht (hexited ht rfl nofun)
    | prevented =>
      refine .of_failed hrest ht rfl (fun b hb => ?_) (hexited ht rfl nofun)
      rw [AuditState.outcomes, ht] at hb
      simp [hstage] at hb
    | refused h =>
      refine .of_failed hrest ht rfl (fun b hb => ?_) (hexited ht rfl nofun)
      rw [AuditState.outcomes, ht] at hb
      simp only [List.cons_append, List.nil_append, List.mem_filter, List.mem_cons,
        List.not_mem_nil, or_false] at hb
      obtain ⟨rfl | rfl, hs⟩ := hb
      · rw [hstage] at hs
        cases hs
      · nofun

omit [PyRuntime]

/-- An attempt whose note is no string. -/
def wrongNote : Attempt :=
  ⟨.success, ⟨Dict.empty.set (.str (lit "note")) (.atom (.int 3)),
    fun k hk => ⟨_, List.mem_singleton.mp hk, by decide⟩⟩, none⟩

/-- A body that catches what a failed attempt raises, and ends normally: the statement raises
it. -/
theorem with_table_wrongNote :
    let _ := PyRuntime.plain
    ∃ (op : AuditOperation) (s t s' : AuditState Nat) (f : Exc) (result : Except Exc Unit),
      WithRuns userLog obliging.externals op (.op wrongNote fun _ => .ret ()) none s
        [⟨wrongNote, true, .error f⟩] (.ok ()) t result s' ∧
      WithTable op.ref [⟨wrongNote, true, .error f⟩] (.ok ()) t result s' ∧
      result = .error f := by
  intro _
  let event : PyAtom := .str (lit "user.created")
  let op : AuditOperation := ⟨0, event, userCreated, .str (lit "alice"), .str (lit "0")⟩
  obtain ⟨s, t, s', f, r, h, hopen, hattempt, hexit⟩ :
      ∃ (s t s' : AuditState Nat) (f : Exc) (r : Except Exc Bool),
        (userLog.operation event op.actor .empty none).run? (obliging.answer 0)
          { memory := ([], 0) } = some (.ok op, s) ∧
        s.isOpen 0 = true ∧
        (op.record userLog .success wrongNote.kw none).run? (obliging.answer 0) s =
          some (.error f, t) ∧
        (op.exit userLog none none).run? (obliging.answer 0) t = some (r, s') :=
    ⟨_, _, _, _, _, rfl, rfl, rfl, rfl⟩
  have hbody : BodyRuns userLog obliging.externals op (.op wrongNote fun _ => .ret ()) s
      [⟨wrongNote, true, .error f⟩] (.ok ()) t := by
    have hrun := BodyRuns.attempt (a := wrongNote) (k := fun _ => .ret ())
      (Prog.runs_run? ScriptedExternals.step_of_answer hattempt) .ret
    rwa [show s.isOpen op.ref = true from hopen] at hrun
  have hw : WithRuns userLog obliging.externals op (.op wrongNote fun _ => .ret ()) none s
      [⟨wrongNote, true, .error f⟩] (.ok ()) t _ s' :=
    .mk hbody (Prog.runs_run? ScriptedExternals.step_of_answer hexit)
  have htable := AuditLog.with_table (fun {_ _ _ _} h => by cases h; rfl) rfl
    (Prog.runs_run? ScriptedExternals.step_of_answer h) hw
  exact ⟨op, s, t, s', f, _, hw, htable,
    htable.reraised rfl _ List.mem_cons_self f ⟨rfl, rfl⟩⟩

end

end NmLogging
