import NmLogging.FailOpen
import NmLogging.Framework.Trace

/-!
# What a contained defect tells

A production call that meets a defect reports it in a record of its own. The call up to
the defect is `OperationalLog.attempt`, which `OperationalLog.call` continues with the
report (`OperationalLog.call_eq`). What the report hands to the sink, and what the whole call
does to the health and the fallback (`OperationalLog.ToldBy`), depends on nothing of the call
but the kind of the violation and an event that is fit to be named
(`OperationalLog.contained_alike`).
-/

namespace NmLogging

/-! ## Traces of a log -/

/-- What the operations of a log performed. -/
abbrev LogTrace := List (Performed logSig)

namespace LogTrace

/-- What the clock answered. -/
def clockReadings (tr : LogTrace) : List (Except PyError Datetime) :=
  tr.filterMap fun
    | ⟨.now, r⟩ => some r
    | _ => none

/-- The records handed to the sink. -/
def handed (tr : LogTrace) : List OperationalRecord :=
  tr.filterMap fun
    | ⟨.sinkWrite record, _⟩ => some record
    | _ => none

/-- What the sink answered. -/
def sinkResponses (tr : LogTrace) : List (Except PyError Unit) :=
  tr.filterMap fun
    | ⟨.sinkWrite _, r⟩ => some r
    | _ => none

/-- The changes of the health: recoveries and the kinds of failures. -/
def healthChanges (tr : LogTrace) : List (Option PyStr) :=
  tr.filterMap fun
    | ⟨.markHealthy, _⟩ => some none
    | ⟨.markDegraded kind, _⟩ => some (some kind)
    | _ => none

/-- The texts written to the fallback. -/
def fallbackTexts (tr : LogTrace) : List PyStr :=
  tr.filterMap fun
    | ⟨.fallbackEmit text, _⟩ => some text
    | _ => none

end LogTrace

namespace OperationalLog

variable [PyRuntime] (log : OperationalLog)

/-! ## The call up to its defect -/

/-- A call of a severity method. -/
structure LogCall where
  severity : Severity
  event : PyAtom
  fields : Dict PyAtom PyObj

/-- A call up to the defect it is contained for, with the exception and the kind of
the violation, if there is one. -/
def attempt (c : LogCall) : LogProg (Option (PyError × PyStr)) := do
  let kw ← .ofExcept (bindKeywords (methodName c.severity) methodParams c.fields)
  match log.registry.get c.event with
  | .error exc =>
    if exc.isA .eventSchemaError then return some (exc, lit "unknown_event") else .throw exc
  | .ok schema =>
    (log.buildRecord c.event c.severity schema kw.fields).elim
      (fun record => (sinkWrite record).elim (fun _ => do markHealthy; return none) fun exc =>
        if exc.isA .eventSchemaError then return some (exc, lit "oversize")
        else if exc.isA .sinkError then do degrade (lit "sink_write"); return none
        else .throw exc)
      fun exc =>
        if exc.isA .eventSchemaError then return some (exc, lit "schema_violation")
        else if exc.isA .loggingConfigurationError then
          return some (exc, lit "record_construction")
        else .throw exc

/-- What follows the attempt. -/
def contain (c : LogCall) : Option (PyError × PyStr) → LogProg Unit
  | none => .ret ()
  | some (exc, kind) => log.handleDefect c.event exc kind

/-- A call is its attempt and the containment of its defect. -/
theorem call_eq (c : LogCall) :
    log.call c.severity c.event c.fields = log.attempt c >>= log.contain c := by
  have hmethod : ∀ kw, log.method c.severity c.event kw = log.emit c.severity c.event kw.fields := by
    intro kw
    cases h : c.severity <;> rfl
  have hend : ∀ p : LogProg Unit,
      (p.elim (fun _ => .ret none) .throw).elim (log.contain c) .throw = p := by
    intro p
    rw [Prog.elim_elim]
    exact Prog.elim_self p
  rw [call, attempt, bind_assoc]
  refine congrArg (Prog.ofExcept _ >>= ·) (funext fun kw => ?_)
  rw [hmethod, emit]
  cases log.registry.get c.event with
  | error exc =>
    simp only
    split <;> rfl
  | ok schema =>
    simp only [Prog.bind_eq, Prog.elim_elim]
    refine congr (congrArg _ (funext fun record => ?_)) (funext fun exc => ?_)
    · rw [write]
      refine congr (congrArg _ rfl) (funext fun exc => ?_)
      split
      · rfl
      · split
        · exact (hend (degrade _)).symm
        · rfl
    · split
      · rfl
      · split <;> rfl

/-! ## The report of a defect -/

variable {log} {c c₁ c₂ : LogCall} {kind : PyStr}

omit [PyRuntime] in
/-- The fields of the report name the event only where it is fit to be named. -/
theorem defectFields_congr {e₁ e₂ : PyAtom}
    (h : e₁ = e₂ ∨ isSafeEventRef e₁ = false ∧ isSafeEventRef e₂ = false) :
    defectFields e₁ kind = defectFields e₂ kind := by
  rcases h with rfl | ⟨h₁, h₂⟩
  · rfl
  · simp only [defectFields, h₁, h₂, Bool.false_eq_true, if_false]

/-- What a production log does about a defect depends on no more than that. -/
theorem handleDefect_congr (hs : log.strict = false) {e₁ e₂ : PyAtom} {exc₁ exc₂ : PyError}
    (h : e₁ = e₂ ∨ isSafeEventRef e₁ = false ∧ isSafeEventRef e₂ = false) :
    log.handleDefect e₁ exc₁ kind = log.handleDefect e₂ exc₂ kind := by
  simp only [handleDefect, hs, Bool.false_eq_true, if_false, emitDefectRecord,
    defectFields_congr h]

omit [PyRuntime] in
theorem degrade_traces {tr : LogTrace} {res : Except PyError Unit}
    (h : (degrade kind).Traces tr res) :
    ∃ r, tr = [⟨.markDegraded kind, ()⟩,
      ⟨.fallbackEmit (lit "operational sink degraded (" ++ kind ++ lit ")"), r⟩] := by
  obtain ⟨_, tr', rfl, h'⟩ := Prog.traces_op.mp h
  change ((fallbackEmit _).elim .ret fun e =>
    if e.isA .exception then .ret () else .throw e : LogProg Unit).Traces tr' res at h'
  obtain ⟨tr₁, tr₂, r, rfl, h₁, h₂⟩ := Prog.traces_elim.mp h'
  obtain ⟨r', tr₃, rfl, h₃⟩ := Prog.traces_op.mp h₁
  refine ⟨r', ?_⟩
  cases r' with
  | ok a =>
    obtain ⟨rfl, rfl⟩ := Prog.traces_ret.mp h₃
    obtain ⟨rfl, -⟩ := Prog.traces_ret.mp h₂
    rfl
  | error e =>
    obtain ⟨rfl, rfl⟩ := Prog.traces_throw.mp h₃
    simp only at h₂
    split at h₂
    · obtain ⟨rfl, -⟩ := Prog.traces_ret.mp h₂
      rfl
    · obtain ⟨rfl, -⟩ := Prog.traces_throw.mp h₂
      rfl

/-- What follows a report that fails. -/
def unwritable (e : PyError) : LogProg Unit :=
  if e.isA .exception then degrade (lit "defect_unwritable") else .throw e

/-- What follows the sink's answer to a report. -/
def reported : Except PyError Unit → LogProg Unit
  | .ok _ => markHealthy
  | .error e => unwritable e

omit [PyRuntime] in
/-- A report that fails has the same effects whatever the fallback answers. -/
theorem unwritable_traces {e : PyError} {tr : LogTrace} {res : Except PyError Unit}
    (h : (unwritable e).Traces tr res) :
    tr.clockReadings = [] ∧ tr.handed = [] ∧ tr.sinkResponses = [] ∧
      tr.healthChanges = (if e.isA .exception then [some (lit "defect_unwritable")] else []) ∧
      tr.fallbackTexts = (if e.isA .exception then
        [lit "operational sink degraded (" ++ lit "defect_unwritable" ++ lit ")"] else []) := by
  unfold unwritable at h
  split at h
  · rename_i he
    obtain ⟨r, rfl⟩ := degrade_traces h
    rw [if_pos he, if_pos he]
    exact ⟨rfl, rfl, rfl, rfl, rfl⟩
  · rename_i he
    obtain ⟨rfl, -⟩ := Prog.traces_throw.mp h
    rw [if_neg he, if_neg he]
    exact ⟨rfl, rfl, rfl, rfl, rfl⟩

/-- A record is built before the clock is read or from what it says. -/
theorem buildRecord_cases (log : OperationalLog) (event : PyAtom) (severity : Severity)
    (schema : EventSchema) (fields : Dict PyAtom PyObj) :
    (∃ e, log.buildRecord event severity schema fields = .throw e) ∨
      ∃ f : Datetime → Except PyError OperationalRecord,
        log.buildRecord event severity schema fields = now >>= fun t => .ofExcept (f t) := by
  cases hval : schema.validateOperational severity fields with
  | error e => exact .inl ⟨e, buildRecord_of_invalid hval⟩
  | ok d =>
    cases hm : schema.renderMessage d with
    | error e => exact .inl ⟨e, buildRecord_of_unrendered hval hm⟩
    | ok m => exact .inr ⟨_, buildRecord_of_rendered hval hm⟩

/-- To build one, the clock is read at most. -/
theorem buildRecord_traces {event : PyAtom} {severity : Severity} {schema : EventSchema}
    {fields : Dict PyAtom PyObj} {tr : LogTrace} {res : Except PyError OperationalRecord}
    (h : (log.buildRecord event severity schema fields).Traces tr res) :
    tr = [] ∨ ∃ r, tr = [⟨.now, r⟩] := by
  rcases buildRecord_cases log event severity schema fields with ⟨e, hb⟩ | ⟨f, hb⟩
  · rw [hb] at h
    exact .inl (Prog.traces_throw.mp h).1
  · rw [hb] at h
    obtain ⟨r, tr', rfl, h'⟩ := Prog.traces_op.mp h
    cases r with
    | error e =>
      obtain ⟨rfl, -⟩ := Prog.traces_throw.mp h'
      exact .inr ⟨_, rfl⟩
    | ok t =>
      have h' : (Prog.ofExcept (f t) : LogProg OperationalRecord).Traces tr' res := h'
      cases hf : f t with
      | error e =>
        rw [hf] at h'
        obtain ⟨rfl, -⟩ := Prog.traces_throw.mp h'
        exact .inr ⟨_, rfl⟩
      | ok record =>
        rw [hf] at h'
        obtain ⟨rfl, -⟩ := Prog.traces_ret.mp h'
        exact .inr ⟨_, rfl⟩

/-- Up to its defect a call hands over its record at most, and only if the sink refuses it. -/
theorem attempt_traces {tr : LogTrace} {exc : PyError}
    (h : (log.attempt c).Traces tr (.ok (some (exc, kind)))) :
    tr.healthChanges = [] ∧ tr.fallbackTexts = [] ∧
      (tr.handed = [] ∧ tr.sinkResponses = [] ∨
        kind = lit "oversize" ∧ tr.sinkResponses = [.error exc] ∧
          ∃ record, tr.handed = [record]) := by
  rw [attempt] at h
  cases hkw : bindKeywords (methodName c.severity) methodParams c.fields with
  | error e =>
    rw [hkw] at h
    obtain ⟨-, hres⟩ := Prog.traces_throw.mp h
    cases hres
  | ok kw =>
    rw [hkw, Prog.ofExcept_ok, Prog.ret_bind] at h
    cases hget : log.registry.get c.event with
    | error e =>
      simp only [hget] at h
      split at h
      · obtain ⟨rfl, -⟩ := Prog.traces_ret.mp h
        exact ⟨rfl, rfl, .inl ⟨rfl, rfl⟩⟩
      · obtain ⟨-, hres⟩ := Prog.traces_throw.mp h
        cases hres
    | ok schema =>
      simp only [hget] at h
      obtain ⟨tr₁, tr₂, built, rfl, hbuild, h⟩ := Prog.traces_elim.mp h
      -- What the clock answered tells nothing.
      have hsame : ∀ tr : LogTrace, LogTrace.healthChanges (tr₁ ++ tr) = tr.healthChanges ∧
          LogTrace.fallbackTexts (tr₁ ++ tr) = tr.fallbackTexts ∧
          LogTrace.handed (tr₁ ++ tr) = tr.handed ∧
          LogTrace.sinkResponses (tr₁ ++ tr) = tr.sinkResponses := by
        intro tr
        rcases buildRecord_traces hbuild with rfl | ⟨r, rfl⟩
        · exact ⟨rfl, rfl, rfl, rfl⟩
        · exact ⟨rfl, rfl, rfl, rfl⟩
      obtain ⟨hhealth, htexts, hhanded, hsink⟩ := hsame tr₂
      rw [hhealth, htexts, hhanded, hsink]
      cases built with
      | error e =>
        simp only at h
        split at h
        · obtain ⟨rfl, -⟩ := Prog.traces_ret.mp h
          exact ⟨rfl, rfl, .inl ⟨rfl, rfl⟩⟩
        · split at h
          · obtain ⟨rfl, -⟩ := Prog.traces_ret.mp h
            exact ⟨rfl, rfl, .inl ⟨rfl, rfl⟩⟩
          · obtain ⟨-, hres⟩ := Prog.traces_throw.mp h
            cases hres
      | ok record =>
        obtain ⟨answer, tr₃, rfl, hrest⟩ := Prog.traces_op.mp h
        cases answer with
        | ok _ =>
          have h : (markHealthy >>= fun _ => .ret none :
            LogProg (Option (PyError × PyStr))).Traces tr₃ _ := hrest
          obtain ⟨_, tr₄, -, h⟩ := Prog.traces_op.mp h
          obtain ⟨-, hres⟩ := Prog.traces_ret.mp h
          cases hres
        | error e =>
          have h : (if e.isA .eventSchemaError then .ret (some (e, lit "oversize"))
            else if e.isA .sinkError then do degrade (lit "sink_write"); return none
            else .throw e : LogProg (Option (PyError × PyStr))).Traces tr₃ _ := hrest
          split at h
          · obtain ⟨rfl, hres⟩ := Prog.traces_ret.mp h
            cases hres
            exact ⟨rfl, rfl, .inr ⟨rfl, rfl, record, rfl⟩⟩
          · split at h
            · obtain ⟨tr₄, tr₅, res, rfl, -, h⟩ := Prog.traces_elim.mp h
              cases res with
              | ok _ =>
                obtain ⟨-, hres⟩ := Prog.traces_ret.mp h
                cases hres
              | error e' =>
                obtain ⟨-, hres⟩ := Prog.traces_throw.mp h
                cases hres
            · obtain ⟨-, hres⟩ := Prog.traces_throw.mp h
              cases hres

theorem emitDefectRecord_of_throw {event : PyAtom} {e : PyError}
    (h : log.buildRecord DEFECT_EVENT .error log.defectSchema (defectFields event kind) = .throw e) :
    log.emitDefectRecord event kind = unwritable e := by
  rw [emitDefectRecord, h]
  rfl

theorem emitDefectRecord_of_now {event : PyAtom} {f : Datetime → Except PyError OperationalRecord}
    (h : log.buildRecord DEFECT_EVENT .error log.defectSchema (defectFields event kind) =
      now >>= fun t => .ofExcept (f t)) :
    log.emitDefectRecord event kind = .op .now fun r =>
      match r >>= f with
      | .error e => unwritable e
      | .ok record => .op (.sinkWrite record) reported := by
  rw [emitDefectRecord, h]
  refine congrArg (Prog.op (S := logSig) LogOp.now) (funext fun r => ?_)
  cases r with
  | error e => rfl
  | ok t =>
    show ((Prog.ofExcept (f t) >>= fun record => sinkWrite record).elim _ _ : LogProg Unit) =
      match f t with | .error e => _ | .ok record => _
    cases f t with
    | error e => rfl
    | ok record =>
      refine congrArg (Prog.op (S := logSig) (LogOp.sinkWrite record)) (funext fun a => ?_)
      cases a <;> rfl

/-- Two reports of one defect hand the same record to the sink where the clock reads the same,
and have the same effects where the sink answers the same. -/
theorem emitDefectRecord_traces {event : PyAtom} {tr₁ tr₂ : LogTrace}
    {res₁ res₂ : Except PyError Unit} (h₁ : (log.emitDefectRecord event kind).Traces tr₁ res₁)
    (h₂ : (log.emitDefectRecord event kind).Traces tr₂ res₂)
    (hclock : tr₁.clockReadings = tr₂.clockReadings) :
    tr₁.handed = tr₂.handed ∧ (tr₁.sinkResponses = tr₂.sinkResponses →
      tr₁.healthChanges = tr₂.healthChanges ∧ tr₁.fallbackTexts = tr₂.fallbackTexts) := by
  have alike : ∀ {e : PyError} {tr₁ tr₂ : LogTrace}, (unwritable e).Traces tr₁ res₁ →
      (unwritable e).Traces tr₂ res₂ → tr₁.handed = tr₂.handed ∧
        tr₁.healthChanges = tr₂.healthChanges ∧ tr₁.fallbackTexts = tr₂.fallbackTexts := by
    intro e tr₁ tr₂ h₁ h₂
    obtain ⟨-, hh₁, -, hc₁, hf₁⟩ := unwritable_traces h₁
    obtain ⟨-, hh₂, -, hc₂, hf₂⟩ := unwritable_traces h₂
    exact ⟨hh₁.trans hh₂.symm, hc₁.trans hc₂.symm, hf₁.trans hf₂.symm⟩
  rcases buildRecord_cases log DEFECT_EVENT .error log.defectSchema (defectFields event kind) with
    ⟨e, hb⟩ | ⟨f, hb⟩
  · rw [emitDefectRecord_of_throw hb] at h₁ h₂
    obtain ⟨hh, heff⟩ := alike h₁ h₂
    exact ⟨hh, fun _ => heff⟩
  · rw [emitDefectRecord_of_now hb] at h₁ h₂
    obtain ⟨r, tr₁, rfl, hr₁⟩ := Prog.traces_op.mp h₁
    obtain ⟨r', tr₂, rfl, hr₂⟩ := Prog.traces_op.mp h₂
    obtain rfl : r = r' := (List.cons.inj hclock).1
    cases hbuilt : r >>= f with
    | error e =>
      rw [hbuilt] at hr₁ hr₂
      obtain ⟨hh, heff⟩ := alike hr₁ hr₂
      exact ⟨hh, fun _ => heff⟩
    | ok record =>
      rw [hbuilt] at hr₁ hr₂
      obtain ⟨a, tr₁, rfl, ha₁⟩ := Prog.traces_op.mp hr₁
      obtain ⟨a', tr₂, rfl, ha₂⟩ := Prog.traces_op.mp hr₂
      have written : ∀ {a : Except PyError Unit} {tr : LogTrace} {res : Except PyError Unit},
          (reported a).Traces tr res → tr.handed = [] := by
        intro a tr res h
        cases a with
        | error e => exact (unwritable_traces h).2.1
        | ok _ =>
          obtain ⟨_, tr', rfl, h'⟩ := Prog.traces_op.mp h
          obtain ⟨rfl, -⟩ := Prog.traces_ret.mp h'
          rfl
      refine ⟨congrArg (record :: ·) ((written ha₁).trans (written ha₂).symm), fun hsink => ?_⟩
      obtain rfl : a = a' := (List.cons.inj hsink).1
      cases a with
      | error e => exact (alike ha₁ ha₂).2
      | ok _ =>
        obtain ⟨_, tr₃, rfl, h₃⟩ := Prog.traces_op.mp ha₁
        obtain ⟨_, tr₄, rfl, h₄⟩ := Prog.traces_op.mp ha₂
        obtain ⟨rfl, -⟩ := Prog.traces_ret.mp h₃
        obtain ⟨rfl, -⟩ := Prog.traces_ret.mp h₄
        exact ⟨rfl, rfl⟩

/-! ## Two contained calls -/

/-- The trace `tr` of a call that is contained for a violation of the kind, with its
part `report` from the defect on. -/
def ContainedAs (log : OperationalLog) (c : LogCall) (kind : PyStr) (report tr : LogTrace)
    (res : Except PyError Unit) : Prop :=
  ∃ before exc, tr = before ++ report ∧ (log.attempt c).Traces before (.ok (some (exc, kind))) ∧
    (log.handleDefect c.event exc kind).Traces report res

/-- It is a trace of the call. -/
theorem ContainedAs.traces {report tr : LogTrace} {res : Except PyError Unit}
    (h : log.ContainedAs c kind report tr res) :
    (log.call c.severity c.event c.fields).Traces tr res := by
  obtain ⟨before, exc, rfl, hb, hr⟩ := h
  rw [call_eq]
  exact hb.bind hr

/-- Of the whole call the report is all that is told: what it hands to the sink before that is
its own record, if the sink refuses it. -/
structure ToldBy (kind : PyStr) (report tr : LogTrace) : Prop where
  handed : tr.handed = report.handed ∨
    kind = lit "oversize" ∧ ∃ record, tr.handed = record :: report.handed
  healthChanges : tr.healthChanges = report.healthChanges
  fallbackTexts : tr.fallbackTexts = report.fallbackTexts

theorem ContainedAs.toldBy {report tr : LogTrace} {res : Except PyError Unit}
    (h : log.ContainedAs c kind report tr res) : ToldBy kind report tr := by
  obtain ⟨before, exc, rfl, hb, -⟩ := h
  obtain ⟨hhealth, htexts, hhanded⟩ := attempt_traces hb
  refine ⟨?_, ?_, ?_⟩
  · rw [LogTrace.handed, List.filterMap_append]
    rcases hhanded with ⟨hnone, -⟩ | ⟨hkind, -, record, hone⟩
    · exact .inl (congrArg (· ++ report.handed) hnone)
    · exact .inr ⟨hkind, record, congrArg (· ++ report.handed) hone⟩
  · rw [LogTrace.healthChanges, List.filterMap_append]
    exact congrArg (· ++ report.healthChanges) hhealth
  · rw [LogTrace.fallbackTexts, List.filterMap_append]
    exact congrArg (· ++ report.fallbackTexts) htexts

/-- **Contained defects tell nothing more** of a call than their kind and an event that is
fit to be named. -/
theorem contained_alike (hs : log.strict = false)
    (hevent : c₁.event = c₂.event ∨
      isSafeEventRef c₁.event = false ∧ isSafeEventRef c₂.event = false)
    {report₁ report₂ tr₁ tr₂ : LogTrace} {res₁ res₂ : Except PyError Unit}
    (h₁ : log.ContainedAs c₁ kind report₁ tr₁ res₁) (h₂ : log.ContainedAs c₂ kind report₂ tr₂ res₂)
    (hclock : report₁.clockReadings = report₂.clockReadings) :
    ToldBy kind report₁ tr₁ ∧ ToldBy kind report₂ tr₂ ∧
    report₁.handed = report₂.handed ∧ (report₁.sinkResponses = report₂.sinkResponses →
      tr₁.healthChanges = tr₂.healthChanges ∧ tr₁.fallbackTexts = tr₂.fallbackTexts) := by
  have htold₁ := h₁.toldBy
  have htold₂ := h₂.toldBy
  obtain ⟨-, exc₁, -, -, hr₁⟩ := h₁
  obtain ⟨-, exc₂, -, -, hr₂⟩ := h₂
  rw [@handleDefect_congr _ log kind hs _ _ exc₁ exc₂ hevent] at hr₁
  rw [handleDefect, hs, if_neg Bool.false_ne_true] at hr₁ hr₂
  obtain ⟨hhanded, heffects⟩ := emitDefectRecord_traces hr₁ hr₂ hclock
  refine ⟨htold₁, htold₂, hhanded, fun hsink => ?_⟩
  obtain ⟨hhealth, htexts⟩ := heffects hsink
  rw [htold₁.healthChanges, htold₂.healthChanges, htold₁.fallbackTexts, htold₂.fallbackTexts]
  exact ⟨hhealth, htexts⟩

/-- A call of an event that is not registered is contained for that. -/
theorem containedAs_unknown (hs : log.strict = false) {kw : Keywords methodParams}
    (hkw : bindKeywords (methodName c.severity) methodParams c.fields = .ok kw) {exc : PyError}
    (hget : log.registry.get c.event = .error exc) {report : LogTrace} {res : Except PyError Unit}
    (h : (log.emitDefectRecord c.event (lit "unknown_event")).Traces report res) :
    log.ContainedAs c (lit "unknown_event") report report res := by
  refine ⟨[], exc, rfl, ?_, ?_⟩
  · rw [attempt, hkw, Prog.ofExcept_ok, Prog.ret_bind, hget]
    simp only
    rw [if_pos (by rw [PyError.isA, EventRegistry.get_error hget]; decide)]
    exact .ret
  · rwa [handleDefect, hs, if_neg Bool.false_ne_true]

/-- Answers to a call: those of a sink, and of a clock and a fallback that work. -/
def answering (sink : Except PyError Unit) : (o : LogOp) → logSig.Ret o
  | .now => .ok firstHour
  | .sinkWrite _ => sink
  | .markHealthy => ()
  | .markDegraded _ => ()
  | .fallbackEmit _ => .ok ()

omit [PyRuntime] in
/-- Two calls with events that are no strings. -/
theorem contained_alike_sampleLog : ∃ report₁ report₂ res,
    @ContainedAs PyRuntime.plain sampleLog ⟨.info, .none, Dict.empty⟩ (lit "unknown_event")
      report₁ report₁ res ∧
    @ContainedAs PyRuntime.plain sampleLog ⟨.error, .int 3, countField 1⟩ (lit "unknown_event")
      report₂ report₂ res ∧
    report₁.handed = report₂.handed ∧ report₁.healthChanges = report₂.healthChanges := by
  let _ := PyRuntime.plain
  have h := (sampleLog.emitDefectRecord .none (lit "unknown_event")).traces_trace
    (answering (.ok ()))
  have h₁ := @containedAs_unknown _ sampleLog ⟨.info, .none, Dict.empty⟩ rfl _ rfl _ rfl _ _ h
  have h₂ := @containedAs_unknown _ sampleLog ⟨.error, .int 3, countField 1⟩ rfl _ rfl _ rfl _ _ h
  obtain ⟨-, -, hhanded, heffects⟩ := contained_alike rfl (.inr ⟨rfl, rfl⟩) h₁ h₂ rfl
  exact ⟨_, _, _, h₁, h₂, hhanded, (heffects rfl).1⟩

end OperationalLog

end NmLogging
