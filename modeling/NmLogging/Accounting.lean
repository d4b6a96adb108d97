import NmLogging.Containment

/-!
# What calls add up to

Every call of a production log that returns is accounted for (`OperationalLog.accounted`): it
writes to the sink at most twice, and marks its health exactly once, as healthy after a write
that returned, and else as degraded with one text for the fallback. Over calls made one after
the other, the health then adds up to what they did (`OperationalLog.calls_account`).
-/

namespace NmLogging

/-! ## The counters -/

namespace LoggingHealth

/-- A mark: the kind of a failure, or none for a recovery. -/
def mark (health : LoggingHealth) : Option PyStr → LoggingHealth
  | none => health.markHealthy
  | some kind => health.markDegraded kind

/-- A health that took the marks `ms` (whether each is of a failure) after `health` has counted
the failures among them, and each recovery that came right after a failure. -/
structure Counts (health health' : LoggingHealth) (ms : List Bool) : Prop where
  degraded : health'.degraded = ms.getLastD health.degraded
  failures : health'.totalFailures = health.totalFailures + ms.count true
  recoveries : health'.totalRecoveries =
    health.totalRecoveries + ((health.degraded :: ms).zip ms).count (true, false)

theorem degraded_mark (health : LoggingHealth) (m : Option PyStr) :
    (health.mark m).degraded = m.isSome := by
  cases m with
  | some kind => rfl
  | none =>
    rw [mark, markHealthy]
    split
    · rfl
    · rename_i h
      exact Bool.eq_false_iff.mpr h

theorem counts_foldl (ms : List (Option PyStr)) (health : LoggingHealth) :
    Counts health (ms.foldl mark health) (ms.map Option.isSome) := by
  induction ms generalizing health with
  | nil => exact ⟨rfl, rfl, rfl⟩
  | cons m ms ih =>
    obtain ⟨hd, hf, hr⟩ := ih (health.mark m)
    rw [degraded_mark] at hd hr
    refine ⟨?_, ?_, ?_⟩
    · rw [List.foldl_cons, hd, List.map_cons, List.getLastD_cons]
    · rw [List.foldl_cons, hf]
      cases m with
      | some kind =>
        simp only [mark, markDegraded, List.map_cons, Option.isSome_some, List.count_cons_self]
        omega
      | none =>
        have hsame : (health.mark none).totalFailures = health.totalFailures := by
          rw [mark, markHealthy]
          split <;> rfl
        rw [hsame, List.map_cons, Option.isSome_none, List.count_cons_of_ne (by decide)]
    · rw [List.foldl_cons, hr, List.map_cons, List.zip_cons_cons, List.count_cons]
      cases m with
      | some kind =>
        simp [mark, markDegraded]
      | none =>
        rw [mark, markHealthy]
        cases health.degraded with
        | true => simp; omega
        | false => simp

/-- There is a failure for every recovery, and one more while the health is degraded. -/
theorem recoveries_le (ms : List (Option PyStr)) {health : LoggingHealth}
    (h : health.totalRecoveries + health.degraded.toNat ≤ health.totalFailures) :
    (ms.foldl mark health).totalRecoveries + (ms.foldl mark health).degraded.toNat ≤
      (ms.foldl mark health).totalFailures := by
  induction ms generalizing health with
  | nil => exact h
  | cons m ms ih =>
    refine ih ?_
    cases m with
    | some kind =>
      have : health.degraded.toNat ≤ 1 := Bool.toNat_le _
      simp only [mark, markDegraded, Bool.toNat_true]
      omega
    | none =>
      rw [mark, markHealthy]
      split
      · rename_i hdegraded
        rw [hdegraded] at h
        exact h
      · exact h

end LoggingHealth

/-! ## One call -/

namespace LogTrace

/-- What a part of a call did: the answers of the sink, the marks, and how many texts went to
the fallback. -/
structure Did (tr : LogTrace) (writes : List (Except PyError Unit)) (marks : List (Option PyStr))
    (texts : Nat) : Prop where
  writes : tr.sinkResponses = writes
  marks : tr.healthChanges = marks
  texts : tr.fallbackTexts.length = texts

variable {tr tr₁ tr₂ : LogTrace} {writes writes₁ writes₂ : List (Except PyError Unit)}
  {marks marks₁ marks₂ : List (Option PyStr)} {texts texts₁ texts₂ : Nat}

theorem Did.nil : Did [] [] [] 0 := ⟨rfl, rfl, rfl⟩

theorem Did.append (h₁ : tr₁.Did writes₁ marks₁ texts₁) (h₂ : tr₂.Did writes₂ marks₂ texts₂) :
    Did (tr₁ ++ tr₂) (writes₁ ++ writes₂) (marks₁ ++ marks₂) (texts₁ + texts₂) := by
  refine ⟨?_, ?_, ?_⟩
  · rw [← h₁.writes, ← h₂.writes]
    exact List.filterMap_append
  · rw [← h₁.marks, ← h₂.marks]
    exact List.filterMap_append
  · rw [← h₁.texts, ← h₂.texts, ← List.length_append]
    exact congrArg List.length List.filterMap_append

/-- Whether a failure was marked. -/
def degrades (tr : LogTrace) : Bool := tr.healthChanges.any Option.isSome

end LogTrace

namespace OperationalLog

variable [PyRuntime] {log : OperationalLog} {c : LogCall} {kind : PyStr} {tr : LogTrace}

omit [PyRuntime] in
theorem degrade_did {res : Except PyError Unit} (h : (degrade kind).Traces tr res) :
    tr.Did [] [some kind] 1 := by
  obtain ⟨r, rfl⟩ := degrade_traces h
  exact ⟨rfl, rfl, rfl⟩

omit [PyRuntime] in
theorem markHealthy_did {res : Except PyError Unit} (h : markHealthy.Traces tr res) :
    tr.Did [] [none] 0 := by
  obtain ⟨_, tr', rfl, h'⟩ := Prog.traces_op.mp h
  obtain ⟨rfl, -⟩ := Prog.traces_ret.mp h'
  exact ⟨rfl, rfl, rfl⟩

omit [PyRuntime] in
/-- Handing a record over is one write. -/
theorem sinkWrite_did {record : OperationalRecord} {r : Except PyError Unit}
    (h : (sinkWrite record).Traces tr r) : tr.Did [r] [] 0 := by
  obtain ⟨a, tr', rfl, h'⟩ := Prog.traces_op.mp h
  cases a with
  | ok u =>
    obtain ⟨rfl, rfl⟩ := Prog.traces_ret.mp h'
    exact ⟨rfl, rfl, rfl⟩
  | error e =>
    obtain ⟨rfl, rfl⟩ := Prog.traces_throw.mp h'
    exact ⟨rfl, rfl, rfl⟩

/-- Building a record does nothing of all that. -/
theorem buildRecord_did {event : PyAtom} {severity : Severity} {schema : EventSchema}
    {fields : Dict PyAtom PyObj} {r : Except PyError OperationalRecord}
    (h : (log.buildRecord event severity schema fields).Traces tr r) : tr.Did [] [] 0 := by
  rcases buildRecord_cases log event severity schema fields with ⟨e, hb⟩ | ⟨f, hb⟩
  · rw [hb] at h
    obtain ⟨rfl, -⟩ := Prog.traces_throw.mp h
    exact .nil
  · rw [hb] at h
    obtain ⟨tr₁, tr₂, a, rfl, h₁, h₂⟩ := Prog.traces_elim.mp h
    obtain ⟨r', tr₃, rfl, h₃⟩ := Prog.traces_op.mp h₁
    have hquiet : ∀ {α : Type} {x : Except PyError α} {tr : LogTrace} {r : Except PyError α},
        (Prog.ofExcept x : LogProg α).Traces tr r → tr = [] := by
      intro α x tr r h
      cases x with
      | ok a => exact (Prog.traces_ret.mp h).1
      | error e => exact (Prog.traces_throw.mp h).1
    obtain rfl := hquiet h₃
    cases a with
    | ok t =>
      obtain rfl := hquiet h₂
      exact ⟨rfl, rfl, rfl⟩
    | error e =>
      obtain ⟨rfl, -⟩ := Prog.traces_throw.mp h₂
      exact ⟨rfl, rfl, rfl⟩

/-- What a call did up to its defect, or to its end. -/
def AttemptDid (tr : LogTrace) : Except PyError (Option (PyError × PyStr)) → Prop
  | .ok none => tr.Did [.ok ()] [none] 0 ∨ ∃ e kind, tr.Did [.error e] [some kind] 1
  | .ok (some _) => tr.Did [] [] 0 ∨ ∃ e, tr.Did [.error e] [] 0
  | .error _ => True

theorem attempt_did {r : Except PyError (Option (PyError × PyStr))}
    (h : (log.attempt c).Traces tr r) : AttemptDid tr r := by
  have hreturn : ∀ {x : PyError × PyStr} {tr : LogTrace},
      (Prog.ret (some x) : LogProg (Option (PyError × PyStr))).Traces tr r →
        tr = [] ∧ r = .ok (some x) := Prog.traces_ret.mp
  rw [attempt] at h
  cases hkw : bindKeywords (methodName c.severity) methodParams c.fields with
  | error e =>
    rw [hkw] at h
    obtain ⟨rfl, rfl⟩ := Prog.traces_throw.mp h
    trivial
  | ok kw =>
    rw [hkw, Prog.ofExcept_ok, Prog.ret_bind] at h
    cases hget : log.registry.get c.event with
    | error exc =>
      rw [hget] at h
      simp only at h
      split at h
      · obtain ⟨rfl, rfl⟩ := hreturn h
        exact .inl .nil
      · obtain ⟨rfl, rfl⟩ := Prog.traces_throw.mp h
        trivial
    | ok schema =>
      rw [hget] at h
      obtain ⟨tr₁, tr₂, built, rfl, h₁, h₂⟩ := Prog.traces_elim.mp h
      have hbuild := buildRecord_did h₁
      cases built with
      | error exc =>
        simp only at h₂
        split at h₂
        · obtain ⟨rfl, rfl⟩ := hreturn h₂
          exact .inl (hbuild.append .nil)
        · split at h₂
          · obtain ⟨rfl, rfl⟩ := hreturn h₂
            exact .inl (hbuild.append .nil)
          · obtain ⟨rfl, rfl⟩ := Prog.traces_throw.mp h₂
            trivial
      | ok record =>
        obtain ⟨tr₃, tr₄, written, rfl, h₃, h₄⟩ := Prog.traces_elim.mp h₂
        have hwrite := hbuild.append (sinkWrite_did h₃)
        rw [← List.append_assoc]
        cases written with
        | ok u =>
          obtain ⟨tr₅, tr₆, marked, rfl, h₅, h₆⟩ := Prog.traces_elim.mp h₄
          have hmark := hwrite.append (markHealthy_did h₅)
          cases marked with
          | ok u =>
            obtain ⟨rfl, rfl⟩ := Prog.traces_ret.mp h₆
            rw [List.append_nil]
            exact .inl hmark
          | error e =>
            obtain ⟨rfl, rfl⟩ := Prog.traces_throw.mp h₆
            trivial
        | error exc =>
          simp only at h₄
          split at h₄
          · obtain ⟨rfl, rfl⟩ := hreturn h₄
            exact .inr ⟨exc, hwrite.append .nil⟩
          · split at h₄
            · obtain ⟨tr₅, tr₆, marked, rfl, h₅, h₆⟩ := Prog.traces_elim.mp h₄
              have hmark := hwrite.append (degrade_did h₅)
              cases marked with
              | ok u =>
                obtain ⟨rfl, rfl⟩ := Prog.traces_ret.mp h₆
                rw [List.append_nil]
                exact .inr ⟨exc, _, hmark⟩
              | error e =>
                obtain ⟨rfl, rfl⟩ := Prog.traces_throw.mp h₆
                trivial
            · obtain ⟨rfl, rfl⟩ := Prog.traces_throw.mp h₄
              trivial

/-- No record could be built for the defect that a call met. -/
def Unreported (log : OperationalLog) (c : LogCall) (tr : LogTrace) : Prop :=
  ∃ before built rest exc kind e, tr = before ++ (built ++ rest) ∧
    (log.attempt c).Traces before (.ok (some (exc, kind))) ∧
    (log.buildRecord DEFECT_EVENT .error log.defectSchema (defectFields c.event kind)).Traces built
      (.error e)

/-- The last write of a call did not return, or there was no record for its defect. -/
def Fails (log : OperationalLog) (c : LogCall) (tr : LogTrace) : Prop :=
  (∃ e, tr.sinkResponses.getLast? = some (.error e)) ∨ log.Unreported c tr

/-- A report is built, written and marked. -/
theorem emitDefectRecord_eq (log : OperationalLog) (event : PyAtom) (kind : PyStr) :
    log.emitDefectRecord event kind =
      (log.buildRecord DEFECT_EVENT .error log.defectSchema (defectFields event kind)).elim
        (fun record => (sinkWrite record).elim (fun _ => markHealthy) unwritable) unwritable := by
  rw [emitDefectRecord, Prog.bind_eq, Prog.elim_elim]
  rfl

omit [PyRuntime] in
theorem unwritable_did {e : PyError} (h : (unwritable e).Traces tr (.ok ())) :
    ∃ kind, tr.Did [] [some kind] 1 := by
  rw [unwritable] at h
  split at h
  · exact ⟨_, degrade_did h⟩
  · cases (Prog.traces_throw.mp h).2

/-- What a report did: it is built and written once, or it is not built. -/
theorem emitDefectRecord_did {event : PyAtom}
    (h : (log.emitDefectRecord event kind).Traces tr (.ok ())) :
    ∃ built rest r, tr = built ++ rest ∧
      (log.buildRecord DEFECT_EVENT .error log.defectSchema (defectFields event kind)).Traces
        built r ∧
      match r with
      | .ok _ => tr.Did [.ok ()] [none] 0 ∨ ∃ e kind', tr.Did [.error e] [some kind'] 1
      | .error _ => ∃ kind', tr.Did [] [some kind'] 1 := by
  rw [emitDefectRecord_eq] at h
  obtain ⟨built, rest, r, rfl, hb, hrest⟩ := Prog.traces_elim.mp h
  refine ⟨built, rest, r, rfl, hb, ?_⟩
  have hbuild := buildRecord_did hb
  cases r with
  | error e =>
    obtain ⟨kind', hdid⟩ := unwritable_did hrest
    exact ⟨kind', hbuild.append hdid⟩
  | ok record =>
    obtain ⟨tr₁, tr₂, written, rfl, h₁, h₂⟩ := Prog.traces_elim.mp hrest
    have hwrite := sinkWrite_did h₁
    cases written with
    | ok u => exact .inl (hbuild.append (hwrite.append (markHealthy_did h₂)))
    | error e =>
      obtain ⟨kind', hdid⟩ := unwritable_did h₂
      exact .inr ⟨e, kind', hbuild.append (hwrite.append hdid)⟩

/-- The account of a call: two writes at most, one text for the fallback at most, and one mark,
which is of a failure, with a text, where its last write did not return or there was no
record for its defect, and else of a recovery, without one. -/
structure Accounted (log : OperationalLog) (c : LogCall) (tr : LogTrace) : Prop where
  writes : tr.sinkResponses.length ≤ 2
  texts : tr.fallbackTexts.length ≤ 1
  marks : tr.healthChanges.length = 1
  degraded : log.Fails c tr →
    (∃ kind, tr.healthChanges = [some kind]) ∧ tr.fallbackTexts.length = 1
  healthy : ¬log.Fails c tr → tr.healthChanges = [none] ∧ tr.fallbackTexts = []

theorem Accounted.of_fails {writes : List (Except PyError Unit)}
    (h : tr.Did writes [some kind] 1)
    (hwrites : writes.length ≤ 2) (hf : log.Fails c tr) : log.Accounted c tr where
  writes := h.writes ▸ hwrites
  texts := h.texts.le
  marks := congrArg List.length h.marks
  degraded _ := ⟨⟨kind, h.marks⟩, h.texts⟩
  healthy hn := absurd hf hn

theorem Accounted.of_not_fails {writes : List (Except PyError Unit)} (h : tr.Did writes [none] 0)
    (hwrites : writes.length ≤ 2) (hf : ¬log.Fails c tr) : log.Accounted c tr where
  writes := h.writes ▸ hwrites
  texts := h.texts.le.trans (Nat.zero_le 1)
  marks := congrArg List.length h.marks
  degraded hn := absurd hn hf
  healthy _ := ⟨h.marks, List.length_eq_zero_iff.mp h.texts⟩

/-- A call of a production log that returns is accounted for. -/
theorem accounted (hs : log.strict = false)
    (h : (log.call c.severity c.event c.fields).Traces tr (.ok ())) : log.Accounted c tr := by
  rw [call_eq] at h
  obtain ⟨before, report, r, rfl, hb, hr⟩ := Prog.traces_elim.mp h
  have hattempt := attempt_did hb
  cases r with
  | error e => cases (Prog.traces_throw.mp hr).2
  | ok defect =>
    cases defect with
    | none =>
      obtain ⟨rfl, -⟩ := Prog.traces_ret.mp hr
      rw [List.append_nil]
      -- what was attempted met no defect, so none is unreported
      have hreported : ¬log.Unreported c before := by
        rintro ⟨before', built, rest, exc, kind, e, happend, hb', -⟩
        obtain ⟨-, -, hres⟩ := hb.unique_prefix hb' ((List.append_nil _).trans happend)
        cases hres
      rcases hattempt with hdid | ⟨e, kind, hdid⟩
      · refine .of_not_fails hdid (by decide) ?_
        rintro (⟨e, hlast⟩ | hn)
        · rw [hdid.writes] at hlast
          cases hlast
        · exact hreported hn
      · exact .of_fails hdid (Nat.le_succ 1) (.inl ⟨e, by rw [hdid.writes]; rfl⟩)
    | some x =>
      obtain ⟨exc, kind⟩ := x
      have hr : (log.handleDefect c.event exc kind).Traces report (.ok ()) := hr
      rw [handleDefect, hs, if_neg Bool.false_ne_true] at hr
      obtain ⟨built, rest, r, rfl, hbuilt, hdid⟩ := emitDefectRecord_did hr
      obtain ⟨writes, hwrites, hbefore⟩ :
          ∃ writes : List (Except PyError Unit),
            writes.length ≤ 1 ∧ LogTrace.Did before writes [] 0 := by
        rcases hattempt with hbefore | ⟨e, hbefore⟩
        · exact ⟨[], by decide, hbefore⟩
        · exact ⟨[.error e], Nat.le_refl 1, hbefore⟩
      have hlength : ∀ w : Except PyError Unit, (writes ++ [w]).length ≤ 2 := fun w => by
        rw [List.length_append]
        exact Nat.add_le_add_right hwrites 1
      cases r with
      | error e =>
        obtain ⟨kind', hdid⟩ := hdid
        refine .of_fails (hbefore.append hdid) ?_
          (.inr ⟨before, built, rest, exc, kind, e, rfl, hb, hbuilt⟩)
        rw [List.append_nil]
        exact hwrites.trans (by decide)
      | ok record =>
        rcases hdid with hdid | ⟨e, kind', hdid⟩
        · refine .of_not_fails (hbefore.append hdid) (hlength _) ?_
          rintro (⟨e, hlast⟩ | ⟨before', built', rest', exc', kind'', e, happend, hb', hbuilt'⟩)
          · rw [(hbefore.append hdid).writes, List.getLast?_concat] at hlast
            cases hlast
          · obtain ⟨rfl, happend, hres⟩ := hb.unique_prefix hb' happend
            cases hres
            obtain ⟨-, -, hres⟩ := hbuilt.unique_prefix hbuilt' happend
            cases hres
        · refine .of_fails (hbefore.append hdid) (hlength _) (.inl ⟨e, ?_⟩)
          rw [(hbefore.append hdid).writes, List.getLast?_concat]

/-! ## Calls one after the other -/

/-- The health of a log, as its operations mark it. Sink, clock and fallback may answer anything. -/
def marking : Semantics logSig LoggingHealth where
  step health o _ health' :=
    match o with
    | .markHealthy => health' = health.markHealthy
    | .markDegraded kind => health' = health.markDegraded kind
    | .now | .sinkWrite _ | .fallbackEmit _ => health' = health

/-- Calls made one after the other that all return, with what each performed. -/
inductive Calls (log : OperationalLog) :
    LoggingHealth → List (LogCall × LogTrace) → LoggingHealth → Prop where
  | nil {health : LoggingHealth} : Calls log health [] health
  | cons {health health₁ health' : LoggingHealth} {c : LogCall} {tr : LogTrace}
    {cs : List (LogCall × LogTrace)} :
    (log.call c.severity c.event c.fields).Traces tr (.ok ()) → marking.Follows health tr health₁ →
    Calls log health₁ cs health' → Calls log health ((c, tr) :: cs) health'

omit [PyRuntime] in
/-- The health takes the marks of a trace in their order. -/
theorem follows_iff {health health' : LoggingHealth} :
    marking.Follows health tr health' ↔
      health' = tr.healthChanges.foldl LoggingHealth.mark health := by
  constructor
  · intro h
    induction h with
    | nil => rfl
    | @cons s t s' o r tr hstep _ ih =>
      rw [ih]
      cases o with
      | now | sinkWrite record | fallbackEmit text | markHealthy | markDegraded kind =>
        rw [show t = _ from hstep]
        rfl
  · rintro rfl
    induction tr generalizing health with
    | nil => exact .nil
    | cons x tr ih =>
      obtain ⟨o, r⟩ := x
      cases o with
      | now | sinkWrite record | fallbackEmit text | markHealthy | markDegraded kind =>
        exact .cons rfl ih

/-- The marks of calls, in their order. -/
def marksOf (cs : List (LogCall × LogTrace)) : List (Option PyStr) :=
  cs.flatMap fun x => x.2.healthChanges

theorem Calls.health_eq {health health' : LoggingHealth} {cs : List (LogCall × LogTrace)}
    (h : log.Calls health cs health') :
    health' = (marksOf cs).foldl LoggingHealth.mark health := by
  induction h with
  | nil => rfl
  | cons _ hfollows _ ih =>
    rw [ih, follows_iff.mp hfollows, marksOf, marksOf, List.flatMap_cons, List.foldl_append]

theorem Calls.accounted (hs : log.strict = false) {health health' : LoggingHealth}
    {cs : List (LogCall × LogTrace)} (h : log.Calls health cs health') :
    ∀ x ∈ cs, log.Accounted x.1 x.2 := by
  induction h with
  | nil => exact nofun
  | cons htr _ _ ih => exact List.forall_mem_cons.mpr ⟨OperationalLog.accounted hs htr, ih⟩

omit [PyRuntime] in
/-- One mark a call: the marks of calls are what each of them marked. -/
theorem marksOf_degrades {cs : List (LogCall × LogTrace)}
    (h : ∀ x ∈ cs, x.2.healthChanges.length = 1) :
    (marksOf cs).map Option.isSome = cs.map fun x => x.2.degrades := by
  induction cs with
  | nil => rfl
  | cons x cs ih =>
    obtain ⟨hx, hcs⟩ := List.forall_mem_cons.mp h
    obtain ⟨m, hm⟩ := List.length_eq_one_iff.mp hx
    rw [marksOf, List.flatMap_cons, List.map_append, ← marksOf, ih hcs, List.map_cons,
      LogTrace.degrades, hm]
    simp

/-- The health of a log after calls, `ms` telling which of them marked it as degraded. -/
structure Totals (health : LoggingHealth) (ms : List Bool) : Prop where
  degraded : health.degraded = ms.getLastD false
  failures : health.totalFailures = ms.count true
  recoveries : health.totalRecoveries = (ms.zip ms.tail).count (true, false)
  balance : health.totalRecoveries + (if health.degraded then 1 else 0) ≤ health.totalFailures

omit [PyRuntime] in
/-- A new health adds up all marks. -/
theorem totals_foldl (marks : List (Option PyStr)) :
    Totals (marks.foldl LoggingHealth.mark .init) (marks.map Option.isSome) := by
  obtain ⟨hdegraded, hfailures, hrecoveries⟩ := LoggingHealth.counts_foldl marks .init
  refine ⟨hdegraded, hfailures.trans (Nat.zero_add _), ?_, ?_⟩
  · rw [hrecoveries]
    cases marks with
    | nil => rfl
    | cons m marks =>
      rw [List.map_cons, List.zip_cons_cons, List.count_cons_of_ne (by simp [LoggingHealth.init]),
        List.tail_cons]
      exact Nat.zero_add _
  · have h := @LoggingHealth.recoveries_le marks .init (Nat.le_refl 0)
    rwa [Bool.toNat, Bool.cond_eq_ite] at h

/-- Calls of a production log that all return, made one after the other from a new health, are
accounted for each by itself, and the health adds up what they marked. -/
theorem calls_account (hs : log.strict = false) {cs : List (LogCall × LogTrace)}
    {health : LoggingHealth} (h : log.Calls .init cs health) :
    (∀ x ∈ cs, log.Accounted x.1 x.2) ∧ Totals health (cs.map fun x => x.2.degrades) := by
  have haccounted := h.accounted hs
  refine ⟨haccounted, ?_⟩
  rw [h.health_eq, ← marksOf_degrades fun x hx => (haccounted x hx).marks]
  exact totals_foldl _

omit [PyRuntime] in
/-- A call with an event that is no string, while the sink fails, and one when it works again. -/
theorem calls_account_sampleLog : ∃ cs health, @Calls PyRuntime.plain sampleLog .init cs health ∧
    Totals health [true, false] := by
  let _ := PyRuntime.plain
  let call := sampleLog.call .info .none Dict.empty
  have traces : ∀ sink, call.Traces (call.trace (answering sink)).1 (call.trace (answering sink)).2 :=
    fun sink => call.traces_trace _
  let c : LogCall := ⟨.info, .none, Dict.empty⟩
  have hcalls : Calls sampleLog .init [(c, _), (c, _)] _ :=
    .cons (traces (.error ⟨SinkError, lit "disk full"⟩)) (follows_iff.mpr rfl)
      (.cons (traces (.ok ())) (follows_iff.mpr rfl) .nil)
  exact ⟨_, _, hcalls, (calls_account rfl hcalls).2⟩

end OperationalLog

end NmLogging
