import NmLogging.AuditContext
import NmLogging.OneLine

/-!
# An audit log on a file

An audit log whose sink is a `JsonlAuditSink`, over a file that takes every write and
every sync. An exception that leaves the block of `operation` has its automatic outcome
recorded exactly where the operation is still open, the sink is not closed, and the record
of the outcome has a line within the size limit (`AuditLog.exit_records_iff`). That the
line of the INTENT was within it says nothing about the last: the two differ in length.
-/

namespace NmLogging

/-! ## A file that takes and syncs everything -/

/-- What the operations of a sink do where every `os.write` takes some bytes and every
`os.fsync` succeeds. -/
def storing (f : SinkFile) :
    (o : (lockSig streamSig).Op) → (lockSig streamSig).Ret o → SinkFile → Prop
  | .act .osFsync, r, f' => r = .returned () ∧ f' = f
  | o, r, f' => accepting f o r f'

theorem accepting_of_storing {f f' : SinkFile} {o : (lockSig streamSig).Op}
    {r : (lockSig streamSig).Ret o} (h : storing f o r f') : accepting f o r f' := by
  cases o with
  | acquire => exact h
  | release => exact h
  | act o =>
    cases o with
    | osFsync => exact h.2
    | isClosed => exact h
    | isLatched => exact h
    | setClosed => exact h
    | setLatched => exact h
    | osWrite data => exact h
    | osClose => exact h

section

variable {f : SinkFile} {data : Bytes}

theorem writeCompletely_storing :
    (writeCompletely data true).wp (allowing storing) f fun res f' =>
      res = .ok .WRITE_COMPLETE ∧ f' = { f with content := f.content ++ data } := by
  rw [writeCompletely, Prog.wp_bind]
  have hloop : (writeLoop data data.length 0).wp (allowing storing) f fun res f' =>
      res = .ok data.length ∧ f' = { f with content := f.content ++ data.drop 0 } :=
    Prog.wp_weaken (M := allowing accepting) (fun _ _ _ => trivial)
      (fun h => accepting_of_storing h) (writeLoop_accepting (by omega) (Nat.zero_le _))
  refine Prog.wp_mono hloop ?_
  rintro _ f' ⟨rfl, rfl⟩
  show Prog.wp _ (if data.length ≠ data.length then _ else _) _ _
  rw [if_neg (not_not_intro rfl)]
  refine ⟨trivial, ?_⟩
  rintro _ f' ⟨rfl, hf⟩
  subst f'
  exact ⟨rfl, rfl⟩

variable [PyRuntime]

/-- An append stores the line of a record, unless it has none, the sink is closed or its
stream is latched. -/
theorem jsonlAuditSink_append_storing {r : AuditRecord} :
    (JsonlAuditSink.append (.audit r)).wp (allowing storing) f fun res f' =>
      match auditLineBytes (.audit r) with
      | .ok line =>
        if f.closed ∨ f.latched then res ≠ .ok () ∧ f' = f
        else res = .ok () ∧ f' = { f with content := f.content ++ line }
      | .error e => res = .error e ∧ f' = f := by
  show (Prog.ofExcept (auditLineBytes (.audit r)) >>= _).wp _ _ _
  cases auditLineBytes (.audit r) with
  | error e => exact ⟨rfl, rfl⟩
  | ok line =>
    refine ⟨trivial, ?_⟩
    rintro _ f' hf
    subst f'
    refine (Prog.wp_elim _ _ _ _ _).mpr ⟨trivial, ?_⟩
    rintro _ f' ⟨rfl, hf⟩
    subst f'
    show Prog.wp _ (if f.closed = true then _ else _ : SinkProg Unit) _ _
    by_cases hc : f.closed = true
    · rw [if_pos hc]
      refine ⟨trivial, ?_⟩
      rintro _ f' hf
      subst f'
      show if f.closed = true ∨ f.latched = true then _ else _
      rw [if_pos (Or.inl hc)]
      exact ⟨nofun, rfl⟩
    rw [if_neg hc]
    refine ⟨trivial, ?_⟩
    rintro _ f' ⟨rfl, hf⟩
    subst f'
    show Prog.wp _ (if f.latched = true then _ else _ : SinkProg Unit) _ _
    by_cases hl : f.latched = true
    · rw [if_pos hl]
      refine ⟨trivial, ?_⟩
      rintro _ f' hf
      subst f'
      show if f.closed = true ∨ f.latched = true then _ else _
      rw [if_pos (Or.inr hl)]
      exact ⟨nofun, rfl⟩
    rw [if_neg hl, Prog.wp_bind]
    refine Prog.wp_mono writeCompletely_storing ?_
    rintro _ _ ⟨rfl, rfl⟩
    refine ⟨trivial, ?_⟩
    rintro _ _ rfl
    show if f.closed = true ∨ f.latched = true then _ else _
    rw [if_neg (not_or.mpr ⟨hc, hl⟩)]
    exact ⟨rfl, rfl⟩

omit [PyRuntime] in
/-- Closing the sink latches nothing. -/
theorem jsonlAuditSink_close_storing :
    (JsonlAuditSink.close).wp (allowing storing) f fun _ f' => f'.latched = f.latched := by
  refine ⟨trivial, ?_⟩
  rintro _ f' hf
  subst f'
  refine (Prog.wp_elim _ _ _ _ _).mpr ⟨trivial, ?_⟩
  rintro _ f' ⟨rfl, hf⟩
  subst f'
  show Prog.wp _ (if f.closed = true then _ else _ : SinkProg Unit) _ _
  split
  · refine ⟨trivial, ?_⟩
    rintro _ f' hf
    subst f'
    rfl
  · refine ⟨trivial, ?_⟩
    rintro _ f' hf
    subst f'
    refine ⟨trivial, ?_⟩
    rintro r f' hf
    subst f'
    cases (r : OsResult Unit) with
    | returned _ => exact ⟨trivial, fun _ f' hf => by cases hf; rfl⟩
    | osError => exact ⟨trivial, fun _ f' hf => by cases hf; rfl⟩
    | raised e => exact ⟨trivial, fun _ f' hf => by cases hf; rfl⟩

/-- What a call of the sink does to its file, and what comes of it. -/
def FileAppend (f : SinkFile) (record : AuditRecord) (r : Except Exc Unit) (f' : SinkFile) : Prop :=
  ∃ res, (JsonlAuditSink.append (.audit record)).Runs (allowing storing) f res f' ∧
    (r = .ok () ↔ res = .ok ())

theorem FileAppend.latched_eq {record : AuditRecord} {r : Except Exc Unit} {f' : SinkFile}
    (h : FileAppend f record r f') : f'.latched = f.latched := by
  obtain ⟨res, hrun, -⟩ := h
  have hpost := hrun.post jsonlAuditSink_append_storing
  split at hpost
  · split at hpost
    · rw [hpost.2]
    · rw [hpost.2]
  · rw [hpost.2]

/-- An append is stored where the sink is open, its stream sound, and the record has a line. -/
theorem FileAppend.ok_iff {record : AuditRecord} {r : Except Exc Unit} {f' : SinkFile}
    (h : FileAppend f record r f') :
    r = .ok () ↔ f.closed = false ∧ f.latched = false ∧
      ∃ line, auditLineBytes (.audit record) = .ok line := by
  obtain ⟨res, hrun, hr⟩ := h
  have hpost := hrun.post jsonlAuditSink_append_storing
  rw [hr]
  split at hpost
  · rename_i line hline
    split at hpost
    · rename_i hc
      refine iff_of_false hpost.1 ?_
      rintro ⟨h₁, h₂, -⟩
      simp [h₁, h₂] at hc
    · rename_i hc
      simp only [not_or, Bool.not_eq_true] at hc
      exact iff_of_true hpost.1 ⟨hc.1, hc.2, line, hline⟩
  · rename_i e hline
    refine iff_of_false ?_ ?_
    · rw [hpost.1]
      nofun
    · rintro ⟨-, -, line, hl⟩
      rw [hline] at hl
      cases hl

theorem FileAppend.content_eq {record : AuditRecord} {f' : SinkFile} {line : Bytes}
    (h : FileAppend f record (.ok ()) f') (hline : auditLineBytes (.audit record) = .ok line) :
    f' = { f with content := f.content ++ line } := by
  have hopen := h.ok_iff.mp rfl
  obtain ⟨res, hrun, -⟩ := h
  have hpost := hrun.post jsonlAuditSink_append_storing
  rw [hline] at hpost
  have hc : ¬(f.closed = true ∨ f.latched = true) := by simp [hopen.1, hopen.2.1]
  simp only [if_neg hc] at hpost
  exact hpost.2

/-! ## The facade over the file -/

/-- A clock that gives the time `now`, and a sink over a file. The factory of operation ids
leaves the file alone, and a failure of the sink is some exception. -/
def fileExternals (now : Datetime) (trace : PureCall → PureTrace) : Externals SinkFile where
  clock _ m r m' := r = .ok now ∧ m' = m
  factory _ m _ m' := m'.2 = m.2
  sink record _ m r m' := FileAppend m.2 record r m'.2
  atomic _ b := b = false
  trace := trace

/-- What appends did to a file, one after the other. -/
inductive Stored (k : Nat) : SinkFile → List AppendEntry → SinkFile → Prop where
  | nil {f : SinkFile} : Stored k f [] f
  | cons {f f' f'' : SinkFile} {record : AuditRecord} {r : Except Exc Unit}
    {es : List AppendEntry} (append : FileAppend f record r f') (rest : Stored k f' es f'') :
    Stored k f (⟨k, record, r⟩ :: es) f''

section

variable {now : Datetime} {trace : PureCall → PureTrace} {k : Nat} {α : Type}
  {s s' : AuditState SinkFile}

theorem Stored.latched_eq {f f' : SinkFile} {es : List AppendEntry} (h : Stored k f es f') :
    f'.latched = f.latched := by
  induction h with
  | nil => rfl
  | cons append _ ih => rw [ih, append.latched_eq]

theorem Stored.owner {f f' : SinkFile} {es : List AppendEntry} (h : Stored k f es f') :
    ∀ a ∈ es, a.owner = k := by
  induction h with
  | nil =>
    intro a ha
    cases ha
  | cons _ _ ih => exact List.forall_mem_cons.mpr ⟨rfl, ih⟩

/-- Only appends change the file. -/
theorem runs_stored {p : AuditProg α} {res : Except Exc α}
    (h : p.Runs (auditSem (fileExternals now trace) k) s res s') :
    ∃ es, s'.appends = s.appends ++ es ∧ Stored k s.memory.2 es s'.memory.2 := by
  induction h with
  | ret => exact ⟨[], (List.append_nil _).symm, .nil⟩
  | throw => exact ⟨[], (List.append_nil _).symm, .nil⟩
  | @op o _ s t u r _ hs _ ih =>
    have silent : t.appends = s.appends → t.memory.2 = s.memory.2 →
        ∃ es, u.appends = s.appends ++ es ∧ Stored k s.memory.2 es u.memory.2 := by
      intro happ hfile
      rw [← happ, ← hfile]
      exact ih
    cases o with
    | now handled =>
      obtain ⟨m, ⟨-, rfl⟩, rfl⟩ := hs
      exact silent rfl rfl
    | newOperationId handled =>
      obtain ⟨m, hm, rfl⟩ := hs
      exact silent rfl hm
    | append record handled =>
      obtain ⟨m, hm, rfl⟩ := hs
      obtain ⟨es, hes, hstored⟩ := ih
      exact ⟨⟨k, record, r⟩ :: es, by rw [hes, List.append_assoc, List.singleton_append],
        .cons hm hstored⟩
    | supportsAtomic =>
      obtain ⟨-, rfl⟩ := hs
      exact silent rfl rfl
    | heap o =>
      obtain ⟨-, rfl⟩ := hs
      exact silent rfl rfl
    | handle o =>
      obtain ⟨cell, -, rfl⟩ := hs
      exact silent rfl rfl

/-- And the appends of a run are seen of its own operation. -/
theorem runs_stored_view {p : AuditProg α} {res : Except Exc α}
    (h : p.Runs (auditSem (fileExternals now trace) k) s res s') :
    ∃ es, s'.appends = s.appends ++ es ∧ (s'.view k).appends = (s.view k).appends ++ es ∧
      Stored k s.memory.2 es s'.memory.2 := by
  obtain ⟨es, hes, hstored⟩ := runs_stored h
  refine ⟨es, hes, ?_, hstored⟩
  have hown : es.filter (fun a => a.owner = k) = es :=
    List.filter_eq_self.mpr fun a ha => decide_eq_true (hstored.owner a ha)
  simp only [AuditState.view, hes, List.filter_append, hown]

end

/-! ## The block of an operation -/

/-- What calls of the methods of the sink do to its file. -/
inductive SinkCalls : SinkFile → SinkFile → Prop where
  | none {f : SinkFile} : SinkCalls f f
  | append {f f' f'' : SinkFile} {record : Record} {res : Except PyError Unit} :
    SinkCalls f f' → (JsonlAuditSink.append record).Runs (allowing storing) f' res f'' →
    SinkCalls f f''
  | close {f f' f'' : SinkFile} {res : Except PyError Unit} :
    SinkCalls f f' → (JsonlAuditSink.close).Runs (allowing storing) f' res f'' → SinkCalls f f''

/-- What is done between `operation` and `__exit__`: attempts to record an outcome, at some
time, and anything that leaves the handle alone and uses the sink by its methods. -/
inductive Meanwhile (log : AuditLog) (trace : PureCall → PureTrace) (op : AuditOperation) :
    AuditState SinkFile → AuditState SinkFile → Prop where
  | none {s : AuditState SinkFile} : Meanwhile log trace op s s
  | attempt {s t u : AuditState SinkFile} {now : Datetime} {a : Attempt} {r : Except Exc Unit} :
    Meanwhile log trace op s t → now.utcoffset = some 0 →
    (op.record log a.outcome a.kw a.handled).Runs (auditSem (fileExternals now trace) op.ref)
      t r u →
    Meanwhile log trace op s u
  | other {s t u : AuditState SinkFile} : Meanwhile log trace op s t →
    u.view op.ref = t.view op.ref → SinkCalls t.memory.2 u.memory.2 → Meanwhile log trace op s u

/-- What the mapping of the automatic outcome of an operation holds, with its message. -/
def AuditLog.automaticEntries (log : AuditLog) (op : AuditOperation) (now : Datetime)
    (message : PyAtom) : List (PyAtom × PyObj) :=
  [(key "schema_version", .atom (.int SCHEMA_VERSION)),
    (key "timestamp", .atom (.str now.isoformat)),
    (key "application", .atom log.application),
    (key "emitter", .atom log.emitter),
    (key "event", .atom op.event),
    (key "category", .atom (.str (op.schema.category.getD .admin).value)),
    (key "actor", .atom op.actor),
    (key "stage", .atom (.str Stage.outcome.value)),
    (key "operation_id", .atom op.operationId),
    (key "outcome", .atom (.str Outcome.indeterminate.value))] ++
  if message = .none then [] else [(key "message", .atom message)]

/-- The automatic outcome of an operation fits a line: it is the text of its mapping as JSON,
with the message that the template gives without fields, and that text has an encoding,
which leaves room for the newline. -/
def AuditLog.AutomaticFits (log : AuditLog) (op : AuditOperation) (now : Datetime) : Prop :=
  ∃ message kvs data, op.schema.renderMessage Dict.empty = .ok message ∧
    (log.automaticEntries op now message).mapM memberJson = .ok kvs ∧
    encodeUtf8 (Json.render PyRuntime.floatRepr (.obj kvs)) = some data ∧
    data.length < MAX_RECORD_BYTES

/-- The automatic outcome is recorded: one record with the outcome `indeterminate`, whose line
is appended to the file, and the exception of the block is not suppressed. -/
def RecordsOutcome (op : AuditOperation) (s : AuditState SinkFile) (res : Except Exc Bool)
    (s' : AuditState SinkFile) : Prop :=
  res = .ok false ∧ ∃ record line, s'.appends = s.appends ++ [⟨op.ref, record, .ok ()⟩] ∧
    record.stage = .outcome ∧ record.outcome = some .indeterminate ∧ record.BelongsTo op ∧
    auditLineBytes (.audit record) = .ok line ∧
    s'.memory.2.content = s.memory.2.content ++ line

section

variable {log : AuditLog} {trace : PureCall → PureTrace} {op : AuditOperation}
  {s t : AuditState SinkFile}

theorem SinkCalls.latched_eq {f f' : SinkFile} (h : SinkCalls f f') : f'.latched = f.latched := by
  induction h with
  | none => rfl
  | @append f' f'' record res _ hrun ih =>
    rw [← ih]
    cases record with
    | audit r =>
      refine FileAppend.latched_eq (r := res.mapError fun _ => ⟨0, ValueError⟩) ⟨res, hrun, ?_⟩
      cases res <;> simp [Except.mapError]
    | base e h =>
      have hwp : (JsonlAuditSink.append (.base e h)).wp (allowing storing) f' fun _ f'' =>
          f''.latched = f'.latched := rfl
      exact hrun.post hwp
    | operational r =>
      have hwp : (JsonlAuditSink.append (.operational r)).wp (allowing storing) f' fun _ f'' =>
          f''.latched = f'.latched := rfl
      exact hrun.post hwp
  | close _ hrun ih =>
    rw [← ih]
    exact hrun.post jsonlAuditSink_close_storing

/-- What is known of an operation until its block is left: the handle is there, one that is
open has its INTENT only, and the stream is not latched. -/
structure InBlock (op : AuditOperation) (s : AuditState SinkFile) : Prop where
  sound : s.memory.2.latched = false
  history : ∃ cell appends ids, s.view op.ref = ⟨some cell, appends, ids⟩ ∧ cell.op = op ∧
    (cell.state = .OPEN → appends.length = 1) ∧
    (cell.state = .FINALISED → ∃ a ∈ s.outcomes op.ref, a.result = .ok ())

theorem clock_fileExternals {now : Datetime} {handled : Option Exc} {m m' : Heap × SinkFile}
    {r : Except Exc Datetime} (h : (fileExternals now trace).clock handled m r m') : r = .ok now :=
  h.1

/-- It stays known. -/
theorem Meanwhile.inBlock (h : Meanwhile log trace op s t) (hs : InBlock op s) : InBlock op t := by
  induction h with
  | none => exact hs
  | @other t u _ hview hcalls ih =>
    obtain ⟨hsound, hhistory⟩ := ih
    refine ⟨hcalls.latched_eq.trans hsound, ?_⟩
    simp only [AuditState.outcomes, hview] at hhistory ⊢
    exact hhistory
  | @attempt t u now a r _ hutc hrun ih =>
    obtain ⟨hsound, cell, appends, ids, hview, hop, hlen, hfin⟩ := ih
    obtain ⟨es, -, -, hstored⟩ := runs_stored_view hrun
    refine ⟨hstored.latched_eq.trans hsound, ?_⟩
    by_cases hopen : cell.state = .OPEN
    · have hpost : Finalised log op a.outcome a.kw.fields (· = .ok now) op.ref cell appends ids r
          (u.view op.ref) := by
        refine runs_view clock_fileExternals hrun ?_
        rw [hview]
        exact wp_record (wp_finalise_open hop rfl hopen (hlen hopen))
      generalize hv : u.view op.ref = v at hpost
      cases hpost with
      | @recorded record h =>
        refine ⟨_, _, _, rfl, hop, by rintro ⟨⟩, fun _ => ⟨⟨op.ref, record, .ok ()⟩, ?_, rfl⟩⟩
        rw [AuditState.outcomes, hv]
        simp [h.stage]
      | prevented => exact ⟨_, _, _, rfl, hop, by rintro ⟨⟩, by rintro ⟨⟩⟩
      | refused => exact ⟨_, _, _, rfl, hop, by rintro ⟨⟩, by rintro ⟨⟩⟩
    · have hpost : u.view op.ref = t.view op.ref := by
        refine runs_view (Q := fun _ v => v = t.view op.ref) clock_fileExternals hrun ?_
        rw [hview]
        exact wp_record (wp_finalise_closed rfl hopen fun e _ => rfl)
      rw [hpost, hview]
      refine ⟨_, _, _, rfl, hop, hlen, ?_⟩
      simp only [AuditState.outcomes, hpost] at hfin ⊢
      exact hfin

/-- A handle that `operation` returned is at the start of its block. -/
theorem inBlock_of_operation {now : Datetime} {k : Nat} {s₀ : AuditState SinkFile}
    {event actor : PyAtom} {kw : Keywords AuditLog.methodParams} {handled : Option Exc}
    (hnew : s₀.view k = ⟨none, [], []⟩)
    (hop : (log.operation event actor kw handled).Runs (auditSem (fileExternals now trace) k) s₀
      (.ok op) s) : InBlock op s := by
  obtain ⟨-, rfl, -, -, -, -, record, hstage, -, hview⟩ :=
    runs_view clock_fileExternals hop (hnew ▸ wp_operation)
  obtain ⟨es, -, happ, hstored⟩ := runs_stored_view hop
  rw [hview, hnew, List.nil_append] at happ
  simp only at happ
  subst happ
  refine ⟨?_, _, _, _, hview, rfl, fun _ => rfl, nofun⟩
  cases hstored with
  | cons append rest =>
    rw [rest.latched_eq, append.latched_eq]
    exact (append.ok_iff.mp rfl).2.1

/-- An automatic outcome has a line where it fits one. -/
theorem IsOutcome.line_iff {now : Datetime} {record : AuditRecord}
    (h : IsOutcome log op .indeterminate Dict.empty (· = .ok now) record)
    (haudit : op.schema.isAudit = true) (hcm : op.schema.supportsContextManager = true) :
    (∃ line, auditLineBytes (.audit record) = .ok line) ↔ log.AutomaticFits op now := by
  have hid : record.operationId ≠ .none := by
    have hok := record.ok
    simp only [AuditArgs.postInit, check_eq_ok, h.stage, validateOperationId, require_eq_ok] at hok
    intro hnone
    simp [hnone] at hok
  obtain @⟨_, message, _, hvalidated, hmessage, ht, hargs⟩ := h
  cases ht
  cases (validateAudit_empty haudit hcm).symm.trans hvalidated
  have hentries : mappingEntries (.audit record) = log.automaticEntries op now message := by
    rw [hargs] at hid
    simp only [mappingEntries, kindEntries, Record.envelope, hargs]
    rw [if_neg hid]
    rfl
  constructor
  · rintro ⟨line, hline⟩
    obtain ⟨s, data, hs, hd, rfl, hle⟩ := lineBytes_ok.mp hline
    obtain ⟨kvs, hk, rfl⟩ := encode_ok.mp hs
    exact ⟨message, kvs, data, hmessage, hentries ▸ hk, hd, Nat.lt_of_succ_le (by simpa using hle)⟩
  · rintro ⟨_, kvs, data, hm, hk, hd, hlt⟩
    cases hmessage.symm.trans hm
    rw [← hentries] at hk
    refine ⟨_, lineBytes_ok.mpr ⟨_, data, encode_ok.mpr ⟨kvs, hk, rfl⟩, hd, rfl, ?_⟩⟩
    simpa using Nat.succ_le_of_lt hlt

theorem Prevented.mono {outcome : Outcome} {fields : Dict PyAtom PyObj}
    {clock clock' : Except Exc Datetime → Prop} {x : Exc} (hc : ∀ r, clock r → clock' r)
    (h : Prevented log op outcome fields clock x) : Prevented log op outcome fields clock' x := by
  cases h with
  | invalid h cls => exact .invalid h cls
  | unrendered validated h cls => exact .unrendered validated h cls
  | clock h => exact .clock (hc _ h)
  | unbuilt validated rendered now h cls => exact .unbuilt validated rendered (hc _ now) h cls

/-- **Where the automatic outcome is recorded.** An exception leaves the block of an operation
for which no outcome was recorded: `__exit__` stores the outcome and lets the exception pass
exactly where no attempt has failed, the sink is open, and the record has a line. -/
theorem AuditLog.exit_records_iff {now₀ now : Datetime} {k : Nat}
    {s₀ s₁ s₂ s₃ : AuditState SinkFile} {event actor : PyAtom}
    {kw : Keywords AuditLog.methodParams} {handled handled' : Option Exc} {e : Exc}
    {res : Except Exc Bool} (hnew : s₀.view k = ⟨none, [], []⟩)
    (hop : (log.operation event actor kw handled).Runs (auditSem (fileExternals now₀ trace) k) s₀
      (.ok op) s₁) (hbody : Meanwhile log trace op s₁ s₂)
    (hno : ∀ a ∈ s₂.outcomes op.ref, a.result ≠ .ok ()) (hutc : now.utcoffset = some 0)
    (hexit : (op.exit log (some e) handled').Runs (auditSem (fileExternals now trace) op.ref) s₂
      res s₃) :
    RecordsOutcome op s₂ res s₃ ↔ s₂.isOpen op.ref = true ∧ s₂.memory.2.closed = false ∧
      log.AutomaticFits op now := by
  obtain ⟨hcm, -, -, -, -, haudit, record₀, hstage, hbelongs, -⟩ :=
    runs_view clock_fileExternals hop (hnew ▸ wp_operation)
  obtain ⟨hsound, cell, appends, ids, hview, hcell, hlen, hfin⟩ :=
    hbody.inBlock (inBlock_of_operation hnew hop)
  have hexited := runs_view clock_fileExternals hexit
    (hview ▸ wp_exit hcell rfl hlen)
  obtain ⟨es, hes, hviewed, hstored⟩ := runs_stored_view hexit
  rw [s₂.isOpen_eq (by rw [hview])]
  have hprev : ∀ x, ¬Prevented log op .indeterminate Dict.empty (· = .ok now) x := by
    intro x hx
    refine not_prevented hstage hbelongs haudit hcm x (hx.mono ?_)
    rintro _ rfl
    exact hutc
  cases hstate : cell.state with
  | FINALISED =>
    obtain ⟨a, ha, hok⟩ := hfin hstate
    exact absurd hok (hno a ha)
  | FINALISATION_FAILED =>
    rw [hstate] at hexited
    obtain ⟨-, hv⟩ := hexited
    refine iff_of_false ?_ (by simp)
    rintro ⟨-, record, line, happ, -⟩
    rw [hv, hview] at hviewed
    have hnil : es = [] := by simpa using hviewed
    rw [hes, hnil] at happ
    simp at happ
  | OPEN =>
    rw [hstate] at hexited
    obtain ⟨r, hfinalised, hres⟩ := hexited
    generalize hv : s₃.view op.ref = v at hfinalised
    rw [hv, hview] at hviewed
    cases hfinalised with
    | prevented h => exact absurd h (hprev _)
    | @recorded record h =>
      have hone : es = [⟨op.ref, record, .ok ()⟩] := (List.append_cancel_left hviewed).symm
      subst hone
      cases hstored with
      | cons append rest =>
        cases rest
        obtain ⟨hclosed, -, line, hline⟩ := append.ok_iff.mp rfl
        refine iff_of_true ⟨hres, record, line, hes, h.stage, h.outcome_eq, h.belongs, hline, ?_⟩
          ⟨rfl, hclosed, (h.line_iff haudit hcm).mp ⟨line, hline⟩⟩
        rw [append.content_eq hline]
    | @refused record x f h raised =>
      have hone : es = [⟨op.ref, record, .error x⟩] := (List.append_cancel_left hviewed).symm
      subst hone
      refine iff_of_false ?_ ?_
      · rintro ⟨-, record', line, happ, -⟩
        rw [hes] at happ
        cases List.append_cancel_left happ
      · rintro ⟨-, hclosed, hfits⟩
        cases hstored with
        | cons append rest =>
          cases rest
          have hok := append.ok_iff.mpr ⟨hclosed, hsound, (h.line_iff haudit hcm).mpr hfits⟩
          cases hok

end

end

/-! ## An outcome longer than its INTENT -/

/-- An actor of 16190 letters. -/
def longActor : PyStr := List.replicate 16190 0x61

theorem strip_replicate (n : Nat) : strip (List.replicate n 0x61) = List.replicate n 0x61 :=
  strip_eq_self fun c hc => List.eq_of_mem_replicate hc ▸ by decide

theorem casefoldAscii_replicate (n : Nat) :
    casefoldAscii (List.replicate n 0x61) = List.replicate n 0x61 := by
  induction n with
  | zero => rfl
  | succ n ih =>
    rw [List.replicate_succ, casefoldAscii, List.flatMap_cons]
    have : casefoldChar 0x61 = [0x61] := by decide
    rw [this]
    exact congrArg (0x61 :: ·) ih

/-- A long text of one letter is an actor. -/
theorem validateActor_replicate {n : Nat} (hn : 6 < n) :
    validateActor (.str (List.replicate n 0x61)) = .ok () := by
  refine validateActor_ok.mpr ⟨_, rfl, ?_, ?_, ?_⟩
  · rw [strip_replicate]
    simp; omega
  · rw [strip_replicate, casefoldAscii_replicate]
    intro hm
    have hlen : ∀ s ∈ nonAccountableActors, s.length ≤ 6 := by decide
    have := hlen _ hm
    rw [List.length_replicate] at this
    omega
  · obtain ⟨m, rfl⟩ : ∃ m, n = m + 1 := ⟨n - 1, by omega⟩
    rw [List.replicate_succ, looksLikeEncEnvelope]
    simp [startsWith, lit]

/-- The arguments of a record of an actor, at that time and with the id `0`. -/
def createdArgs (actor : PyStr) (stage : Stage) (outcome : Option Outcome) : AuditArgs :=
  userLog.recordArgs (.str (lit "user.created")) .admin (.str actor) stage Dict.empty .none
    (.str (lit "0")) outcome firstHour

/-- What is checked besides the actor. -/
theorem createdArgs_postInit {actor : PyStr} {stage : Stage} {outcome : Option Outcome}
    (ha : validateActor (.str actor) = .ok ())
    (h : (createdArgs [] stage outcome).toEnvelope.postInit = .ok () ∧
      validateOperationId stage (.str (lit "0")) = .ok () ∧
      validateOutcome stage outcome = .ok ()) :
    (createdArgs actor stage outcome).postInit = .ok () := by
  have henv : (createdArgs actor stage outcome).toEnvelope =
    (createdArgs [] stage outcome).toEnvelope := rfl
  simp only [AuditArgs.postInit, henv, h.1, check_eq_ok, true_and]
  exact ⟨ha, h.2.1, h.2.2⟩

def createdIntent : AuditRecord :=
  ⟨createdArgs longActor .intent none,
    createdArgs_postInit (validateActor_replicate (by decide)) (by decide +kernel)⟩

def createdOutcome : AuditRecord :=
  ⟨createdArgs longActor .outcome (some .indeterminate),
    createdArgs_postInit (validateActor_replicate (by decide)) (by decide +kernel)⟩

theorem longActor_plain : PlainText 16190 longActor where
  length := by rw [longActor, List.length_replicate]
  plain c hc := by
    rw [longActor] at hc
    rw [List.eq_of_mem_replicate hc]
    decide

section

variable [PyRuntime]

/-- The INTENT fills its line. -/
theorem createdIntent_line : ∃ line, auditLineBytes (.audit createdIntent) = .ok line := by
  have hversion : Json.PlainMember PyRuntime.floatRepr (14 + 1 + 4)
      (lit "schema_version", .int SCHEMA_VERSION) :=
    ⟨by decide, by rw [Json.render]; decide, by rw [Json.render]; decide⟩
  have hreport : OperationalLog.PlainReport [14 + 1 + 4, 9 + 25 + 6, 11 + 3 + 6, 7 + 3 + 6,
      5 + 12 + 6, 8 + 5 + 6, 5 + 16190 + 6, 5 + 6 + 6, 12 + 1 + 6]
      (mappingEntries (.audit createdIntent)) := by
    refine OperationalLog.PlainReport.cons rfl hversion ?_
    refine OperationalLog.PlainReport.str (m := 9) (n := 25) (by decide) (by decide) ?_
    refine OperationalLog.PlainReport.str (m := 11) (n := 3) (by decide) (by decide) ?_
    refine OperationalLog.PlainReport.str (m := 7) (n := 3) (by decide) (by decide) ?_
    refine OperationalLog.PlainReport.str (m := 5) (n := 12) (by decide) (by decide) ?_
    refine OperationalLog.PlainReport.str (m := 8) (n := 5) (by decide) (by decide) ?_
    refine OperationalLog.PlainReport.str (m := 5) (by decide) longActor_plain ?_
    refine OperationalLog.PlainReport.str (m := 5) (n := 6) (by decide) (by decide) ?_
    refine OperationalLog.PlainReport.str (m := 12) (n := 1) (by decide) (by decide) ?_
    exact OperationalLog.PlainReport.nil
  exact hreport.line (by decide)

/-- What the mapping of the outcome holds. -/
def createdOutcomeJson : List (PyStr × Json.Value PyFloat) :=
  [(lit "schema_version", .int SCHEMA_VERSION),
    (lit "timestamp", .str (lit "2024-01-02T03:04:05+00:00")),
    (lit "application", .str (lit "app")), (lit "emitter", .str (lit "app")),
    (lit "event", .str (lit "user.created")), (lit "category", .str (lit "ADMIN")),
    (lit "actor", .str longActor), (lit "stage", .str (lit "outcome")),
    (lit "operation_id", .str (lit "0")), (lit "outcome", .str (lit "indeterminate"))]

/-- The line of the outcome would be longer than a line may be. -/
theorem createdOutcome_line : ∃ e, auditLineBytes (.audit createdOutcome) = .error e := by
  have hk : recordJson (.audit createdOutcome) = .ok createdOutcomeJson := rfl
  cases hline : auditLineBytes (.audit createdOutcome) with
  | ok line =>
    obtain ⟨s, data, hs, hd, rfl, hle⟩ := lineBytes_ok.mp hline
    obtain ⟨kvs, hk', rfl⟩ := encode_ok.mp hs
    cases hk.symm.trans hk'
    have hdata := length_le_encodeUtf8 hd
    have hsum := @Json.sum_minSize_le _ PyRuntime.floatRepr createdOutcomeJson
    have hsize : (createdOutcomeJson.map Json.minSize).sum = 16400 := by
      simp only [createdOutcomeJson, List.map_cons, List.map_nil, Json.minSize, List.sum_cons,
        List.sum_nil, longActor, List.length_replicate]
      rfl
    have hmax : MAX_RECORD_BYTES = 16384 := rfl
    simp only [Json.render, List.length_cons, List.length_append, List.length_nil] at hdata hle
    omega
  | error e => exact ⟨e, rfl⟩

end

/-- A clock, a factory of one id, and a sink on the file that writes whole lines. -/
def fileScript [PyRuntime] (now : Datetime) : ScriptedExternals SinkFile where
  clock _ m := (.ok now, m)
  factory _ m := (.ok (.str (lit "0")), m)
  sink record _ m :=
    match auditLineBytes (.audit record) with
    | .ok line =>
      if m.2.closed = true ∨ m.2.latched = true then (.error ⟨0, AuditPersistenceError⟩, m)
      else (.ok (), m.1, { m.2 with content := m.2.content ++ line })
    | .error _ => (.error ⟨0, EventSchemaError⟩, m)

theorem storing_total (f : SinkFile) (o : (lockSig streamSig).Op) : ∃ r f', storing f o r f' := by
  cases o with
  | acquire => exact ⟨(), _, rfl⟩
  | release => exact ⟨(), _, rfl⟩
  | act o =>
    cases o with
    | isClosed => exact ⟨_, _, rfl, rfl⟩
    | isLatched => exact ⟨_, _, rfl, rfl⟩
    | setClosed => exact ⟨(), _, rfl⟩
    | setLatched => exact ⟨(), _, rfl⟩
    | osWrite data =>
      exact ⟨_, _, data.length, Nat.le_refl _, fun h => List.eq_nil_of_length_eq_zero h, rfl, rfl⟩
    | osFsync => exact ⟨_, _, rfl, rfl⟩
    | osClose => exact ⟨.returned (), _, rfl⟩

theorem fileScript_step [PyRuntime] {now : Datetime} {k : Nat} {s s' : AuditState SinkFile}
    {o : AuditOp} {r : auditSig.Ret o} (h : (fileScript now).answer k s o = some (r, s')) :
    (auditSem (fileExternals now fun _ => {}) k).step s o r s' := by
  have hs := ScriptedExternals.step_of_answer h
  cases o with
  | now handled =>
    obtain ⟨m, hm, rfl⟩ := hs
    cases hm
    exact ⟨_, ⟨rfl, rfl⟩, rfl⟩
  | newOperationId handled =>
    obtain ⟨m, hm, rfl⟩ := hs
    cases hm
    exact ⟨_, rfl, rfl⟩
  | append record handled =>
    obtain ⟨m, hm, rfl⟩ := hs
    refine ⟨m, ?_, rfl⟩
    obtain ⟨res, f', hrun⟩ := Prog.Runs.exists (M := allowing storing) storing_total
      (JsonlAuditSink.append (.audit record)) s.memory.2
    have hpost := hrun.post jsonlAuditSink_append_storing
    refine ⟨res, ?_⟩
    simp only [ScriptedExternals.externals, fileScript] at hm
    cases hline : auditLineBytes (.audit record) with
    | ok line =>
      rw [hline] at hm hpost
      simp only at hm hpost
      split at hpost
      · rename_i hc
        rw [if_pos hc] at hm
        cases hm
        obtain ⟨hres, rfl⟩ := hpost
        exact ⟨hrun, ⟨nofun, fun h => absurd h hres⟩⟩
      · rename_i hc
        rw [if_neg hc] at hm
        cases hm
        obtain ⟨rfl, rfl⟩ := hpost
        exact ⟨hrun, ⟨fun _ => rfl, fun _ => rfl⟩⟩
    | error e =>
      rw [hline] at hm hpost
      simp only at hm hpost
      cases hm
      obtain ⟨rfl, rfl⟩ := hpost
      exact ⟨hrun, ⟨nofun, nofun⟩⟩
  | supportsAtomic => exact ⟨hs.1.symm, hs.2⟩
  | heap o => exact hs
  | handle o => exact hs

/-- An empty file. -/
def emptyFile : AuditState SinkFile := { memory := ([], ⟨[], false, false⟩) }

/-- The operation of that actor. -/
def createdOp : AuditOperation :=
  ⟨0, .str (lit "user.created"), userCreated, .str longActor, .str (lit "0")⟩

theorem construct_createdIntent :
    (createdArgs longActor .intent none).construct = .ok createdIntent :=
  AuditArgs.construct_ok.mpr rfl

theorem construct_createdOutcome :
    (createdArgs longActor .outcome (some .indeterminate)).construct = .ok createdOutcome :=
  AuditArgs.construct_ok.mpr rfl

section
variable [PyRuntime] {now : Datetime} {k : Nat} {α β : Type} {s s' : AuditState SinkFile}

theorem run?_bind {p : AuditProg α} {f : α → AuditProg β} {a : α}
    {q : Option (Except Exc β × AuditState SinkFile)}
    (h : p.run? ((fileScript now).answer k) s = some (.ok a, s'))
    (h' : (f a).run? ((fileScript now).answer k) s' = q) :
    (p >>= f).run? ((fileScript now).answer k) s = q := Prog.run?_elim_ok h h'

theorem run?_inFrame {loc : CodeLocation} {p : AuditProg α} {a : α} 
    (h : p.run? ((fileScript now).answer k) s = some (.ok a, s')) :
    (inFrame loc p).run? ((fileScript now).answer k) s = some (.ok a, s') := Prog.run?_elim_ok h rfl

theorem run?_inFrame_error {loc : CodeLocation} {p : AuditProg α} {e : Exc}
    (h : p.run? ((fileScript now).answer k) s = some (.error e, s')) :
    (inFrame loc p).run? ((fileScript now).answer k) s =
      some (.error e, { s' with memory := (s'.memory.1.addFrame e loc, s'.memory.2) }) :=
  Prog.run?_elim_error h rfl

/-- An append is what the sink says. -/
theorem run?_sinkAppend {record : AuditRecord} {handled : Option Exc} {r : Except Exc Unit}
    {m : Heap × SinkFile} (hsink : (fileScript now).sink record handled s.memory = (r, m)) :
    (sinkAppend record handled).run? ((fileScript now).answer k) s =
      some (r, { s with memory := m, appends := s.appends ++ [⟨k, record, r⟩] }) := by
  show (match (match (fileScript now).sink record handled s.memory with
      | (r, m) => some (r, { s with
          memory := m, appends := s.appends ++ [(⟨k, record, r⟩ : AppendEntry)] })) with
    | none => none
    | some (r, s') => (Prog.ofExcept r : AuditProg Unit).run? _ s') = _
  rw [hsink]
  cases r with
  | ok u => rfl
  | error e => rfl

theorem run?_append {record : AuditRecord} {handled : Option Exc} {line : Bytes}
    (hline : auditLineBytes (.audit record) = .ok line) (hc : s.memory.2.closed = false)
    (hl : s.memory.2.latched = false) :
    (sinkAppend record handled).run? ((fileScript now).answer k) s = some (.ok (),
      { s with memory := (s.memory.1, { s.memory.2 with content := s.memory.2.content ++ line }),
               appends := s.appends ++ [⟨k, record, .ok ()⟩] }) := by
  have hsink : (fileScript now).sink record handled s.memory =
      (.ok (), s.memory.1, { s.memory.2 with content := s.memory.2.content ++ line }) := by
    simp only [fileScript, hline]
    rw [if_neg (by simp [hc, hl])]
  exact run?_sinkAppend hsink

theorem run?_append_error {record : AuditRecord} {handled : Option Exc} {e : PyError}
    (hline : auditLineBytes (.audit record) = .error e) :
    (sinkAppend record handled).run? ((fileScript now).answer k) s =
      some (.error ⟨0, EventSchemaError⟩,
        { s with appends := s.appends ++ [⟨k, record, .error ⟨0, EventSchemaError⟩⟩] }) := by
  have hsink : (fileScript now).sink record handled s.memory =
      (.error ⟨0, EventSchemaError⟩, s.memory) := by
    simp only [fileScript, hline]
  exact run?_sinkAppend hsink

theorem run?_pureCall {call : PureCall} {handled : Option Exc} {r : Except PyError α} {a : α}
    (h : r = .ok a) :
    (pureCall call handled r).run? ((fileScript now).answer k) s = some (.ok a, s) := by
  rw [h]
  rfl

/-- What the INTENT leaves. -/
def storedIntent (line : Bytes) : AuditState SinkFile :=
  { memory := ([], ⟨line, false, false⟩), appends := [⟨0, createdIntent, .ok ()⟩],
    ids := [(0, .str (lit "0"))],
    cells := Function.update (fun _ => none) 0 (some { op := createdOp }) }

theorem run_intent {line : Bytes} (hline : auditLineBytes (.audit createdIntent) = .ok line) :
    (userLog.intent (.str (lit "user.created")) (.str longActor) .empty none).run?
      ((fileScript firstHour).answer 0) emptyFile = some (.ok createdOp, storedIntent line) := by
  refine run?_bind (run?_inFrame (run?_pureCall rfl)) ?_
  refine run?_bind (run?_inFrame (run?_pureCall (a := Dict.empty) rfl)) ?_
  refine run?_bind (run?_inFrame (run?_pureCall (a := PyAtom.none) rfl)) ?_
  refine run?_bind (run?_inFrame rfl) ?_
  refine run?_bind (run?_inFrame
    (run?_bind (run?_inFrame rfl) (run?_inFrame (run?_pureCall construct_createdIntent)))) ?_
  exact Prog.run?_elim_ok (run?_inFrame (run?_append hline rfl rfl)) rfl

/-- What `operation` leaves. -/
def blockState (line : Bytes) : AuditState SinkFile :=
  { storedIntent line with
    cells := Function.update (storedIntent line).cells 0
      (some { op := createdOp, asContextManager := true }) }

theorem run_operation {line : Bytes} (hline : auditLineBytes (.audit createdIntent) = .ok line) :
    (userLog.operation (.str (lit "user.created")) (.str longActor) .empty none).run?
      ((fileScript firstHour).answer 0) emptyFile = some (.ok createdOp, blockState line) := by
  refine run?_bind (run?_inFrame (run?_pureCall rfl)) ?_
  exact run?_bind (run?_inFrame (run_intent hline)) rfl

/-- What the sink raises of the outcome. -/
def refused : Exc := ⟨0, EventSchemaError⟩

theorem run_appendOutcome {e : PyError} {s : AuditState SinkFile} {handled : Option Exc}
    (hline : auditLineBytes (.audit createdOutcome) = .error e) :
    (userLog.appendOutcome createdOp .indeterminate Dict.empty handled).run?
        ((fileScript firstHour).answer 0) s = some (.error refused,
      { s with
        memory := (s.memory.1.addFrame refused (auditFrame "_append_outcome" 199), s.memory.2)
        appends := s.appends ++ [⟨0, createdOutcome, .error refused⟩] }) := by
  refine run?_bind (run?_inFrame (run?_pureCall (a := Dict.empty) rfl)) ?_
  refine run?_bind (run?_inFrame (run?_pureCall (a := PyAtom.none) rfl)) ?_
  refine run?_bind (run?_inFrame
    (run?_bind (run?_inFrame rfl) (run?_inFrame (run?_pureCall construct_createdOutcome)))) ?_
  exact run?_inFrame_error (run?_append_error hline)

/-- A call comes to a result, and leaves the handle in a state. -/
def Comes (p : AuditProg α) (s : AuditState SinkFile) (res : Except Exc α)
    (c : OperationCell) : Prop :=
  ∃ s', p.run? ((fileScript firstHour).answer 0) s = some (res, s') ∧ s'.cells 0 = some c

variable {c c' : OperationCell}

theorem Comes.bind {p : AuditProg α} {f : α → AuditProg β} {a : α} {res : Except Exc β}
    (h : Comes p s (.ok a) c) (h' : ∀ s', s'.cells 0 = some c → Comes (f a) s' res c') :
    Comes (p >>= f) s res c' := by
  obtain ⟨s₁, h₁, hc⟩ := h
  obtain ⟨s₂, h₂, hc'⟩ := h' s₁ hc
  exact ⟨s₂, run?_bind h₁ h₂, hc'⟩

theorem Comes.elim_error {p : AuditProg α} {ok : α → AuditProg β} {err : Exc → AuditProg β}
    {e : Exc} {res : Except Exc β} (h : Comes p s (.error e) c)
    (h' : ∀ s', s'.cells 0 = some c → Comes (err e) s' res c') :
    Comes (p.elim ok err) s res c' := by
  obtain ⟨s₁, h₁, hc⟩ := h
  obtain ⟨s₂, h₂, hc'⟩ := h' s₁ hc
  exact ⟨s₂, Prog.run?_elim_error h₁ h₂, hc'⟩

theorem Comes.inFrame (loc : CodeLocation) {p : AuditProg α} {e : Exc}
    (h : Comes p s (.error e) c) : Comes (inFrame loc p) s (.error e) c := by
  obtain ⟨s₁, h₁, hc⟩ := h
  exact ⟨_, run?_inFrame_error h₁, hc⟩

theorem comes_handle {o : HandleOp} {r : o.Ret} (hs : s.cells 0 = some c) (href : o.ref 0 = 0)
    (h : o.apply 0 (some c) = some (r, c')) : Comes (AuditProg.handle o) s (.ok r) c' := by
  refine ⟨{ s with cells := Function.update s.cells 0 (some c') }, ?_, by simp⟩
  have hans : (fileScript firstHour).answer 0 s (.handle o) =
      some (r, { s with cells := Function.update s.cells 0 (some c') }) := by
    simp only [ScriptedExternals.answer, href, hs, h, Option.map_some]
    rfl
  exact Prog.run?_op hans

theorem comes_finalise {e : PyError} (handled : Option Exc)
    (hline : auditLineBytes (.audit createdOutcome) = .error e)
    (hs : s.cells 0 = some c) (hopen : c.state = .OPEN) :
    Comes (createdOp.finalise userLog .indeterminate Dict.empty handled) s (.error refused)
      { c with state := .FINALISATION_FAILED, failure := some refused } := by
  refine (comes_handle hs rfl (o := .getState 0) rfl).bind fun s₁ hs₁ => ?_
  rw [hopen]
  have happend : Comes (userLog.appendOutcome createdOp .indeterminate Dict.empty handled) s₁
      (.error refused) c := ⟨_, run_appendOutcome hline, hs₁⟩
  refine (happend.inFrame _).elim_error fun s₂ hs₂ => ?_
  refine (comes_handle hs₂ rfl (o := .setState 0 .FINALISATION_FAILED) rfl).bind fun s₃ hs₃ => ?_
  refine (comes_handle hs₃ rfl (o := .setFailure 0 refused) rfl).bind fun s₄ hs₄ => ?_
  exact ⟨s₄, rfl, hs₄⟩

theorem comes_raiseFinalisationError (body : Exc) (handled : Option Exc)
    (hs : s.cells 0 = some c) (hf : c.failure = some refused) :
    ∃ x, Comes (createdOp.raiseFinalisationError body handled : AuditProg α) s (.error x) c := by
  obtain ⟨s', h, hs'⟩ := comes_handle hs rfl (o := .getFailure 0) rfl
  rw [hf] at h
  exact ⟨⟨s'.memory.1.length, AuditFinalisationError⟩, _,
    run?_bind h (run?_bind (p := AuditProg.heap _) rfl rfl), hs'⟩

theorem comes_exit {e : PyError} (body : Exc)
    (hline : auditLineBytes (.audit createdOutcome) = .error e)
    (hs : s.cells 0 = some c) (hopen : c.state = .OPEN) :
    ∃ x, Comes (createdOp.exit userLog (some body) (some body)) s (.error x)
      { c with state := .FINALISATION_FAILED, failure := some refused } := by
  obtain ⟨s₁, h₁, hs₁⟩ := comes_handle hs rfl (o := .getState 0) rfl
  obtain ⟨s₂, h₂, hs₂⟩ := ((comes_finalise (some body) hline hs₁ hopen).inFrame
    (auditFrame "indeterminate" 305)).inFrame (auditFrame "__exit__" 383)
  obtain ⟨x, s₃, h₃, hs₃⟩ := comes_raiseFinalisationError (α := Bool) body (some refused) hs₂ rfl
  rw [hopen] at h₁
  exact ⟨x, _, run?_bind h₁ (Prog.run?_elim_error h₂ (run?_inFrame_error h₃)), hs₃⟩

end

/-- The promise is broken: the INTENT of that actor is stored, the exception of the block finds
the operation and the sink open, and the outcome is not recorded. -/
theorem exit_not_records_longActor :
    let _ := PyRuntime.plain
    ∃ s₁ res s₂, (userLog.operation (.str (lit "user.created")) (.str longActor) .empty none).Runs
        (auditSem (fileExternals firstHour fun _ => {}) 0) emptyFile (.ok createdOp) s₁ ∧
      s₁.outcomes 0 = [] ∧ s₁.isOpen 0 = true ∧ s₁.memory.2.closed = false ∧
      (createdOp.exit userLog (some ⟨7, ValueError⟩) (some ⟨7, ValueError⟩)).Runs
        (auditSem (fileExternals firstHour fun _ => {}) 0) s₁ res s₂ ∧
      ¬RecordsOutcome createdOp s₁ res s₂ := by
  intro _
  obtain ⟨line, hline⟩ := createdIntent_line
  obtain ⟨e, he⟩ := createdOutcome_line
  obtain ⟨x, s₂, hexit, -⟩ := comes_exit (s := blockState line) ⟨7, ValueError⟩ he rfl rfl
  refine ⟨blockState line, _, s₂, Prog.runs_run? fileScript_step (run_operation hline), rfl, rfl,
    rfl, Prog.runs_run? fileScript_step hexit, ?_⟩
  rintro ⟨h, -⟩
  cases h

/-- The automatic outcome of that operation does not fit a line. -/
theorem exit_records_iff_longActor :
    let _ := PyRuntime.plain
    ¬userLog.AutomaticFits createdOp firstHour := by
  intro _ hfits
  obtain ⟨line, hline⟩ := createdIntent_line
  obtain ⟨e, he⟩ := createdOutcome_line
  obtain ⟨x, s₂, hexit, -⟩ := comes_exit (s := blockState line) ⟨7, ValueError⟩ he rfl rfl
  have hno : ∀ a ∈ (blockState line).outcomes createdOp.ref, a.result ≠ .ok () := by
    intro a ha
    cases ha
  have hnew : emptyFile.view 0 = ⟨none, [], []⟩ := rfl
  have hiff := AuditLog.exit_records_iff hnew
    (Prog.runs_run? fileScript_step (run_operation hline)) .none hno rfl
    (Prog.runs_run? fileScript_step hexit)
  obtain ⟨h, -⟩ := hiff.mpr ⟨rfl, rfl, hfits⟩
  cases h

end NmLogging
