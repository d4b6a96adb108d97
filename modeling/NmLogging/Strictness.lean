import NmLogging.Framework.Contract
import NmLogging.Framework.Cut
import NmLogging.OperationalStream

/-!
# Strict logs

What a log in strict mode, as it is used in development, tells of the same log in production. Its
calls are those of the production log, cut short where a defect is met: there the strict call
raises, and the production call reports the defect. Until then the two do the same, whatever the
sink, the clock and the fallback do. So every run of strict calls, interleaved in any order, is
one of production calls (`OperationalLog.strict_refines`).
-/

namespace NmLogging

variable [PyRuntime]

namespace OperationalLog

/-- The log, strict or not. -/
def inMode (log : OperationalLog) (strict : Bool) : OperationalLog := { log with strict := strict }

/-- What a call raises of which a production log makes a report: a defect. -/
structure IsDefect (e : PyError) (kind : PyStr) : Prop where
  cls : e.isA .eventSchemaError = true ∨ e.isA .loggingConfigurationError = true
  kind : kind ∈ violationKinds

/-- A strict call has raised `e` where that of the production log begins its report. -/
def Reporting (log : OperationalLog) (c : LogCall) (e : PyError) (p : LogProg Unit) : Prop :=
  ∃ kind, IsDefect e kind ∧ p = (log.inMode false).emitDefectRecord c.event kind

variable (log : OperationalLog) {c : LogCall}

theorem handleDefect_cut {exc : PyError} {kind : PyStr} (h : IsDefect exc kind) :
    ((log.inMode true).handleDefect c.event exc kind).CutBy (log.Reporting c)
      ((log.inMode false).handleDefect c.event exc kind) :=
  .cut ⟨kind, h, rfl⟩

theorem write_cut (record : OperationalRecord) :
    ((log.inMode true).write record c.event).CutBy (log.Reporting c)
      ((log.inMode false).write record c.event) := by
  refine .elim _ (fun _ => .refl _) fun exc => ?_
  split
  · exact log.handleDefect_cut ⟨.inl ‹_›, by decide⟩
  · exact .refl _

theorem emit_cut (fields : Dict PyAtom PyObj) :
    ((log.inMode true).emit c.severity c.event fields).CutBy (log.Reporting c)
      ((log.inMode false).emit c.severity c.event fields) := by
  have hget : ∀ strict, (log.inMode strict).registry.get c.event = log.registry.get c.event :=
    fun _ => rfl
  rw [emit, emit, hget, hget]
  cases log.registry.get c.event with
  | error exc =>
    simp only
    split
    · exact log.handleDefect_cut ⟨.inl ‹_›, by decide⟩
    · exact .throw
  | ok schema =>
    refine .elim (log.buildRecord c.event c.severity schema fields)
      (fun record => log.write_cut record) fun exc => ?_
    split
    · exact log.handleDefect_cut ⟨.inl ‹_›, by decide⟩
    · split
      · exact log.handleDefect_cut ⟨.inr ‹_›, by decide⟩
      · exact .throw

/-- A strict call is that of the production log, cut short. -/
theorem call_cut :
    ((log.inMode true).call c.severity c.event c.fields).CutBy (log.Reporting c)
      ((log.inMode false).call c.severity c.event c.fields) := by
  refine .bind _ fun kw => ?_
  have hmethod : ∀ log' : OperationalLog, log'.method c.severity c.event kw =
      log'.emit c.severity c.event kw.fields := by
    intro log'
    cases c.severity <;> rfl
  rw [hmethod, hmethod]
  exact log.emit_cut kw.fields

theorem cuts : System.Cuts (log.inMode true).interleaved (log.inMode false).interleaved
    log.Reporting where
  canStart _ _ _ := trivial
  prog _ := log.call_cut
  step h := h

variable {log} {s : SharedLog} {cfg : Config logSig PyError Unit LogCall SharedLog}

/-- **Strict mode hides nothing.** Every run of strict calls is one of the same calls of the
production log, with the same file and the same health. A strict call that has ended has ended as
that of the production log, unless it has raised a defect, which the other one is about to
report. -/
theorem strict_refines (h : (log.inMode true).interleaved.Reachable s cfg) :
    ∃ high, (log.inMode false).interleaved.Reachable s high ∧ high.shared = cfg.shared ∧
      high.calls.map Prod.fst = cfg.calls.map Prod.fst ∧
      ∀ i c res, cfg.Ended i c res → high.Ended i c res ∨
        ∃ e kind, res = .error e ∧ IsDefect e kind ∧
          high.calls[i]? = some (c, (log.inMode false).emitDefectRecord c.event kind) := by
  obtain ⟨calls, hreach, hcalls⟩ := System.exists_cut log.cuts h
  refine ⟨_, hreach, rfl, System.map_fst_of_extends hcalls, ?_⟩
  rintro i c res ⟨p, hi, hres⟩
  obtain ⟨⟨c', p'⟩, hi', rfl, hcut⟩ := forall₂_getElem? hcalls hi
  cases hcut with
  | ret => exact .inl ⟨_, hi', hres⟩
  | throw => exact .inl ⟨_, hi', hres⟩
  | op => cases hres
  | cut hp =>
    obtain ⟨kind, hdefect, rfl⟩ := hp
    cases hres
    exact .inr ⟨_, kind, rfl, hdefect, hi'⟩

/-! ## A report -/

/-- Any operation, and any answer. -/
def anything : Contract logSig := ⟨fun _ => True, fun _ _ => True⟩

omit [PyRuntime] in
theorem keeps_anything {α : Type} (p : LogProg α) : p.Keeps anything fun _ => True := by
  induction p with
  | ret a => trivial
  | throw e => trivial
  | op o k ih => exact Prog.keeps_op.mpr ⟨trivial, fun r _ => ih r⟩

/-- Nothing that derives from `Exception` is raised. -/
def Contained (res : Except PyError Unit) : Prop :=
  ∀ e, res = .error e → e.isA .exception = false

omit [PyRuntime] in
theorem contained_throw {e : PyError} (h : ¬e.isA .exception = true) : Contained (.error e) := by
  rintro _ ⟨⟩
  exact Bool.eq_false_iff.mpr h

omit [PyRuntime] in
theorem degrade_contained (kind : PyStr) : (degrade kind).Keeps anything Contained := by
  refine Prog.keeps_op.mpr ⟨trivial, fun _ _ => ?_⟩
  show (Prog.tryCatch (fallbackEmit _) _).Keeps anything Contained
  refine (keeps_anything _).elim (fun _ _ => ?_) fun e _ => ?_
  · rintro _ ⟨⟩
  · split
    · rintro _ ⟨⟩
    · exact contained_throw ‹_›

theorem emitDefectRecord_contained (event : PyAtom) (kind : PyStr) :
    (log.emitDefectRecord event kind).Keeps anything Contained := by
  refine (keeps_anything _).elim (fun _ _ => ?_) fun e _ => ?_
  · exact Prog.keeps_op.mpr ⟨trivial, fun _ _ => by rintro _ ⟨⟩⟩
  · split
    · exact degrade_contained _
    · exact contained_throw ‹_›

/-- A call that does nothing but report raises no such thing. -/
theorem keepsTo_contained : System.KeepsTo (log.inMode false).interleaved anything fun c res =>
    ∀ kind, (log.inMode false).call c.severity c.event c.fields =
      (log.inMode false).emitDefectRecord c.event kind → Contained res where
  answers _ := trivial
  start {_ _ c} _ _ := by
    by_cases hreport : ∃ kind, (log.inMode false).call c.severity c.event c.fields =
        (log.inMode false).emitDefectRecord c.event kind
    · obtain ⟨kind, hcall⟩ := hreport
      show Prog.Keeps anything ((log.inMode false).call c.severity c.event c.fields) _
      rw [hcall]
      exact ((log.inMode false).emitDefectRecord_contained c.event kind).mono
        fun res h _ _ => h
    · exact (keeps_anything _).mono fun res _ kind h => absurd ⟨kind, h⟩ hreport

section

omit [PyRuntime]

/-- A call with an event that is no string. -/
def noEvent : LogCall := ⟨.info, .none, Dict.empty⟩

/-- In production it is a report. -/
theorem strict_refines_noEvent :
    let _ := PyRuntime.plain
    ∃ cfg high e kind, (sampleLog.inMode true).interleaved.Reachable freshLog cfg ∧
      cfg.Ended 0 noEvent (.error e) ∧ IsDefect e kind ∧
      (sampleLog.inMode false).interleaved.Reachable freshLog high ∧ high.shared = freshLog ∧
      high.calls[0]? =
        some (noEvent, (sampleLog.inMode false).emitDefectRecord noEvent.event kind) := by
  intro _
  have hraised : (sampleLog.inMode true).interleaved.Reachable freshLog
      ⟨freshLog, [(noEvent, .throw (schemaError "event is not a string"))]⟩ :=
    .single (.start (c := noEvent) trivial)
  obtain ⟨high, hhigh, hshared, -, hends⟩ := strict_refines hraised
  rcases hends 0 noEvent _ ⟨_, rfl, rfl⟩ with ⟨p, hp, hres⟩ | ⟨e, kind, he, hdefect, hnext⟩
  · have hcontained := (hhigh.keeps sampleLog.keepsTo_contained).ended hp hres
      (lit "unknown_event") rfl _ rfl
    cases hcontained
  · cases he
    exact ⟨_, high, _, kind, hraised, ⟨_, rfl, rfl⟩, hdefect, hhigh, hshared, hnext⟩

end

end OperationalLog

end NmLogging
