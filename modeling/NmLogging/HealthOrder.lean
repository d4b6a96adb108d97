import NmLogging.Accounting
import NmLogging.Framework.Interleave
import NmLogging.OneLine

/-!
# The order of health marks

Calls of one log over one `JsonlSink`, interleaved: a call's write holds the lock of the
stream, and its mark, later, that of the health. Where every mark is made by the call that made
the last attempt to write, the health says in the end how that attempt ended
(`health_agrees`). Without that it need not: a success that is marked late hides that the
stream was latched meanwhile (`not_health_agrees`).

What the calls have in common is that they are `Orderly`: an attempt is followed by the mark that
it asks for, and by nothing of the kind after it.
-/

namespace NmLogging

variable [PyRuntime]

/-! ## The file -/

/-- What the operations of a sink do where an `os.write` takes any part of what it is given, or
raises `OSError`, and no other exception. -/
def faulty (f : SinkFile) :
    (o : (lockSig streamSig).Op) → (lockSig streamSig).Ret o → SinkFile → Prop
  | .acquire, _, f' => f' = f
  | .release, _, f' => f' = f
  | .act .isClosed, b, f' => b = f.closed ∧ f' = f
  | .act .setClosed, _, f' => f' = { f with closed := true }
  | .act .isLatched, b, f' => b = f.latched ∧ f' = f
  | .act .setLatched, _, f' => f' = { f with latched := true }
  | .act (.osWrite data), r, f' => (r = .osError ∧ f' = f) ∨ ∃ n, n ≤ data.length ∧
    r = .returned (Int.ofNat n) ∧ f' = { f with content := f.content ++ data.take n }
  | .act .osFsync, _, f' => f' = f
  | .act .osClose, _, f' => f' = f

omit [PyRuntime] in
theorem faulty_writesOrFails : WritesOrFails faulty := by
  rintro f data e f' (⟨h, -⟩ | ⟨n, -, h, -⟩) <;> cases h

omit [PyRuntime] in
/-- A write does not change whether the stream is latched, and raises nothing. -/
theorem writeCompletely_faulty (data : Bytes) (f : SinkFile) :
    (writeCompletely data false).wp (allowing faulty) f fun res f' =>
      (∃ status, res = .ok status) ∧ f'.latched = f.latched := by
  have hkeep : ∀ rounds n f, (writeLoop data rounds n).wp (allowing faulty) f
      fun _ f' => f'.latched = f.latched := by
    intro rounds
    induction rounds with
    | zero => exact fun n f => rfl
    | succ rounds ih =>
      intro n f
      rw [writeLoop]
      split
      · refine ⟨trivial, ?_⟩
        rintro r f' (⟨rfl, rfl⟩ | ⟨k, -, rfl, rfl⟩)
        · rfl
        · show (if Int.ofNat k ≤ 0 then Prog.ret n else
            writeLoop data rounds (n + (Int.ofNat k).toNat) : SinkProg Nat).wp _ _ _
          split
          · rfl
          · exact ih _ _
      · rfl
  refine Prog.wp_conj (writeCompletely_returns faulty_writesOrFails data f) ?_
  rw [writeCompletely, Prog.wp_bind]
  refine Prog.wp_mono (hkeep _ _ f) fun res f' hf => ?_
  cases res with
  | error e => exact hf
  | ok n =>
    show Prog.wp _ (if n ≠ data.length then _ else _) _ _
    split
    · show Prog.wp _ (if n > 0 then _ else _) _ _
      split <;> exact hf
    · exact hf

omit [PyRuntime] in
/-- The lock of the stream is always free here: a write is one step. -/
theorem wp_withLock_faulty {body : SinkProg Unit} {f : SinkFile}
    {Q : Except PyError Unit → SinkFile → Prop} (h : body.wp (allowing faulty) f Q) :
    (Prog.withLock body).wp (allowing faulty) f Q := by
  refine ⟨trivial, ?_⟩
  rintro _ f₁ rfl
  rw [Prog.wp_elim]
  refine Prog.wp_mono h fun res f₂ hq => ?_
  cases res with
  | ok a => exact ⟨trivial, by rintro _ f₃ rfl; exact hq⟩
  | error e => exact ⟨trivial, by rintro _ f₃ rfl; exact hq⟩

/-- What an attempt to write comes to. After one that returns, the stream has no latch. -/
def Attempted (res : Except PyError Unit) (f' : SinkFile) : Prop :=
  (res = .ok () ∧ f'.latched = false) ∨ ∃ e, res = .error e ∧ e.cls = SinkError

omit [PyRuntime] in
theorem attempted_sinkError (text : String) (f' : SinkFile) :
    Attempted (.error (sinkError text)) f' := .inr ⟨_, rfl, rfl⟩

omit [PyRuntime] in
theorem appendLine_faulty {closed latched failed : String} {line : Bytes} {f : SinkFile} :
    (appendLine (sinkError closed) (sinkError latched) (sinkError failed) false line).wp
      (allowing faulty) f Attempted := by
  refine wp_withLock_faulty ⟨trivial, ?_⟩
  rintro _ f₁ ⟨rfl, rfl⟩
  show (if f₁.closed = true then _ else _ : SinkProg Unit).wp _ _ _
  split
  · exact attempted_sinkError _ _
  refine ⟨trivial, ?_⟩
  rintro _ f₂ ⟨rfl, rfl⟩
  show (if f₂.latched = true then _ else _ : SinkProg Unit).wp _ _ _
  split
  · exact attempted_sinkError _ _
  rename_i hlatched
  rw [Prog.wp_bind]
  refine Prog.wp_mono (writeCompletely_faulty line f₂) ?_
  rintro _ f₃ ⟨⟨status, rfl⟩, hkept⟩
  show (if status = .WRITE_PARTIAL then _ else _ : SinkProg Unit).wp _ _ _
  split
  · rename_i hstatus
    refine ⟨trivial, fun _ f₄ _ => ?_⟩
    show (if status ≠ .WRITE_COMPLETE then _ else _ : SinkProg Unit).wp _ _ _
    rw [if_pos (by rw [hstatus]; decide)]
    exact attempted_sinkError _ _
  · show (if status ≠ .WRITE_COMPLETE then _ else _ : SinkProg Unit).wp _ _ _
    split
    · exact attempted_sinkError _ _
    · exact .inl ⟨rfl, hkept.trans (Bool.eq_false_iff.mpr hlatched)⟩

/-- A write of a record that has a line is an attempt, and any other does nothing. -/
theorem jsonlSink_write_faulty {r : OperationalRecord} {f f' : SinkFile} {res : Except PyError Unit}
    (h : (JsonlSink.write (.operational r)).Runs (allowing faulty) f res f') :
    match encodeLineBytes (.operational r) with
    | .error e => res = .error e ∧ f' = f
    | .ok _ => Attempted res f' := by
  cases hline : encodeLineBytes (.operational r) with
  | error e =>
    have hwrite : JsonlSink.write (.operational r) = .throw e := by
      show Prog.ofExcept (encodeLineBytes (.operational r)) >>= _ = _
      rw [hline]
      rfl
    rw [hwrite] at h
    cases h
    exact ⟨rfl, rfl⟩
  | ok line =>
    refine h.post (Q := Attempted) ?_
    show (Prog.ofExcept (encodeLineBytes (.operational r)) >>= _).wp _ _ _
    rw [hline]
    exact appendLine_faulty

/-! ## Orderly programs -/

/-- An operation that neither writes nor marks. -/
def LogOp.Silent : LogOp → Prop
  | .now | .fallbackEmit _ => True
  | .sinkWrite _ | .markHealthy | .markDegraded _ => False

/-- A program that neither writes nor marks. -/
inductive Inert {α : Type} : LogProg α → Prop where
  | ret {a : α} : Inert (.ret a)
  | throw {e : PyError} : Inert (.throw e)
  | op {o : LogOp} {k : logSig.Ret o → LogProg α} :
    o.Silent → (∀ r, Inert (k r)) → Inert (.op (S := logSig) o k)

/-- A program that first of all marks, whether as degraded being told, and is then quiet. -/
inductive Marks : Bool → LogProg Unit → Prop where
  | healthy {k : Unit → LogProg Unit} :
    (∀ r, Inert (k r)) → Marks false (.op (S := logSig) .markHealthy k)
  | degraded {kind : PyStr} {k : Unit → LogProg Unit} :
    (∀ r, Inert (k r)) → Marks true (.op (S := logSig) (.markDegraded kind) k)

/-- A program that marks once, and right after its attempt to write if it makes one. -/
inductive Orderly : LogProg Unit → Prop where
  | inert {p : LogProg Unit} : Inert p → Orderly p
  | marks {b : Bool} {p : LogProg Unit} : Marks b p → Orderly p
  | silent {o : LogOp} {k : logSig.Ret o → LogProg Unit} :
    o.Silent → (∀ r, Orderly (k r)) → Orderly (.op (S := logSig) o k)
  | write {record : OperationalRecord} {k : Except PyError Unit → LogProg Unit} :
    Marks false (k (.ok ())) → (∀ e, e.cls = SinkError → Marks true (k (.error e))) →
    (∀ e, Orderly (k (.error e))) → Orderly (.op (S := logSig) (.sinkWrite record) k)

omit [PyRuntime] in
theorem Inert.elim {α : Type} {p : LogProg α} {ok : α → LogProg Unit}
    {err : PyError → LogProg Unit} (h : Inert p) (hok : ∀ a, Orderly (ok a))
    (herr : ∀ e, Orderly (err e)) : Orderly (p.elim ok err) := by
  induction h with
  | ret => exact hok _
  | throw => exact herr _
  | op ho _ ih => exact .silent ho ih

omit [PyRuntime] in
theorem inert_ofExcept {α : Type} (x : Except PyError α) : Inert (Prog.ofExcept x) := by
  cases x with
  | ok a => exact .ret
  | error e => exact .throw

omit [PyRuntime] in
theorem degrade_marks (kind : PyStr) : Marks true (OperationalLog.degrade kind) := by
  refine .degraded fun _ => .op trivial fun r => ?_
  cases r with
  | ok a => exact .ret
  | error e =>
    show Inert (if e.isA .exception then Prog.ret () else Prog.throw e : LogProg Unit)
    split
    · exact .ret
    · exact .throw

omit [PyRuntime] in
theorem markHealthy_marks : Marks false markHealthy := .healthy fun _ => .ret

omit [PyRuntime] in
/-- An attempt to write whose failures are marked. -/
theorem orderly_sinkWrite {record : OperationalRecord} {err : PyError → LogProg Unit}
    (hsink : ∀ e, e.cls = SinkError → Marks true (err e)) (herr : ∀ e, Orderly (err e)) :
    Orderly ((sinkWrite record).elim (fun _ => markHealthy) err) :=
  .write markHealthy_marks hsink herr

namespace OperationalLog

variable (log : OperationalLog) (event : PyAtom)

theorem inert_buildRecord (severity : Severity) (schema : EventSchema)
    (fields : Dict PyAtom PyObj) : Inert (log.buildRecord event severity schema fields) := by
  rcases buildRecord_cases log event severity schema fields with ⟨e, hb⟩ | ⟨f, hb⟩
  · rw [hb]
    exact .throw
  · rw [hb]
    refine .op trivial fun r => ?_
    cases r with
    | ok t => exact inert_ofExcept _
    | error e => exact .throw

omit [PyRuntime] in
theorem orderly_unwritable (e : PyError) : Orderly (unwritable e) := by
  rw [unwritable]
  split
  · exact .marks (degrade_marks _)
  · exact .inert .throw

omit [PyRuntime] in
theorem unwritable_marks {e : PyError} (h : e.cls = SinkError) : Marks true (unwritable e) := by
  rw [unwritable, if_pos (by rw [isA_of_cls h]; decide)]
  exact degrade_marks _

theorem orderly_handleDefect (exc : PyError) (kind : PyStr) :
    Orderly (log.handleDefect event exc kind) := by
  rw [handleDefect]
  split
  · exact .inert .throw
  · rw [emitDefectRecord_eq]
    exact (log.inert_buildRecord _ _ _ _).elim
      (fun record => orderly_sinkWrite (fun _ => unwritable_marks) orderly_unwritable)
      orderly_unwritable

theorem orderly_write (record : OperationalRecord) : Orderly (log.write record event) := by
  refine orderly_sinkWrite (fun e he => ?_) (fun e => ?_)
  · rw [if_neg (by rw [isA_of_cls he]; decide), if_pos (by rw [isA_of_cls he]; decide)]
    exact degrade_marks _
  · split
    · exact log.orderly_handleDefect _ _ _
    · split
      · exact .marks (degrade_marks _)
      · exact .inert .throw

theorem orderly_emit (severity : Severity) (fields : Dict PyAtom PyObj) :
    Orderly (log.emit severity event fields) := by
  rw [emit]
  cases log.registry.get event with
  | error exc =>
    simp only
    split
    · exact log.orderly_handleDefect _ _ _
    · exact .inert .throw
  | ok schema =>
    refine (log.inert_buildRecord event severity schema fields).elim
      (fun record => log.orderly_write event record) (fun exc => ?_)
    split
    · exact log.orderly_handleDefect _ _ _
    · split
      · exact log.orderly_handleDefect _ _ _
      · exact .inert .throw

/-- Every call is orderly. -/
theorem orderly_call (severity : Severity) (fields : Dict PyAtom PyObj) :
    Orderly (log.call severity event fields) := by
  refine (inert_ofExcept _).elim (fun kw => ?_) (fun e => .inert .throw)
  cases severity <;> exact log.orderly_emit event _ _

end OperationalLog

/-! ## Interleaved calls -/

/-- What calls share: the file, the health, and who made the last attempt to write, with whether
it failed. -/
structure SharedLog where
  file : SinkFile
  health : LoggingHealth
  last : Option (Nat × Bool)

/-- Whether an attempt failed. -/
def failed : Except PyError Unit → Bool
  | .ok _ => false
  | .error _ => true

/-- What the operations of the `i`-th call do. The clock and the fallback may answer anything. -/
def sharedStep (i : Nat) (s : SharedLog) : (o : LogOp) → logSig.Ret o → SharedLog → Prop
  | .now, _, s' => s' = s
  | .sinkWrite record, r, s' =>
    (JsonlSink.write (.operational record)).Runs (allowing faulty) s.file r s'.file ∧
      s'.health = s.health ∧
      s'.last = match encodeLineBytes (.operational record) with
        | .ok _ => some (i, failed r)
        | .error _ => s.last
  | .markHealthy, _, s' => s' = { s with health := s.health.markHealthy }
  | .markDegraded kind, _, s' => s' = { s with health := s.health.markDegraded kind }
  | .fallbackEmit _, _, s' => s' = s

/-- Calls of one log that meet at one file and one health, where the `i`-th call may perform an
operation. -/
def sharedLog (log : OperationalLog) (may : Nat → SharedLog → LogOp → Prop) :
    System logSig PyError Unit OperationalLog.LogCall SharedLog where
  prog c := log.call c.severity c.event c.fields
  sem i _ := allowing fun s o r s' => may i s o ∧ sharedStep i s o r s'

/-- A call marks the health only while the last attempt to write is its own. -/
def MarksOwn (i : Nat) (s : SharedLog) : LogOp → Prop
  | .markHealthy | .markDegraded _ => ∃ b, s.last = some (i, b)
  | .now | .sinkWrite _ | .fallbackEmit _ => True

/-- The health says how the last attempt to write ended, and that the stream is latched, if
it is after an attempt. -/
structure HealthAgrees (s : SharedLog) : Prop where
  degraded : s.health.degraded = true ↔ ∃ i, s.last = some (i, true)
  latched : s.file.latched = true → s.last.isSome → s.health.degraded = true

/-- All calls made have ended. -/
def AllEnded (cfg : Config logSig PyError Unit OperationalLog.LogCall SharedLog) : Prop :=
  ∀ x ∈ cfg.calls, x.2.result?.isSome

/-- What holds between the steps: calls are orderly; the one that made the last attempt marks next
what came of it, or has done so; and a latched stream was last attempted in vain. -/
structure Marked (cfg : Config logSig PyError Unit OperationalLog.LogCall SharedLog) : Prop where
  orderly : ∀ x ∈ cfg.calls, Orderly x.2
  unattempted : cfg.shared.last = none → cfg.shared.health.degraded = false
  attempted : ∀ i b, cfg.shared.last = some (i, b) → ∃ c p, cfg.calls[i]? = some (c, p) ∧
    (Marks b p ∨ Inert p ∧ cfg.shared.health.degraded = b)
  latched : cfg.shared.file.latched = true → ∀ i b, cfg.shared.last = some (i, b) → b = true

variable {log : OperationalLog}
  {cfg cfg' : Config logSig PyError Unit OperationalLog.LogCall SharedLog}

omit [PyRuntime] in
theorem Inert.of_op {o : LogOp} {k : logSig.Ret o → LogProg Unit}
    (h : Inert (.op (S := logSig) o k)) : o.Silent ∧ ∀ r, Inert (k r) := by
  cases h with
  | op ho hk => exact ⟨ho, hk⟩

omit [PyRuntime] in
theorem Marks.not_silent {b : Bool} {o : LogOp} {k : logSig.Ret o → LogProg Unit}
    (h : Marks b (.op (S := logSig) o k)) : ¬o.Silent := by
  cases h with
  | healthy _ => exact id
  | degraded _ => exact id

omit [PyRuntime] in
theorem Marks.inert {b : Bool} {o : LogOp} {k : logSig.Ret o → LogProg Unit}
    (h : Marks b (.op (S := logSig) o k)) (r : logSig.Ret o) : Inert (k r) := by
  cases h with
  | healthy hk => exact hk r
  | degraded hk => exact hk r

omit [PyRuntime] in
/-- What is left of an orderly program after an operation that is no attempt. -/
theorem Orderly.next {o : LogOp} {k : logSig.Ret o → LogProg Unit}
    (h : Orderly (.op (S := logSig) o k)) {r : logSig.Ret o}
    (hr : ∀ record, o ≠ .sinkWrite record) :
    Orderly (k r) := by
  cases h with
  | inert hq => exact .inert (hq.of_op.2 r)
  | marks hm => exact .inert (hm.inert r)
  | silent _ hk => exact hk r
  | write _ _ _ => exact absurd rfl (hr _)

variable {s s' : SharedLog} {cs : List (OperationalLog.LogCall × LogProg Unit)} {i : Nat}
  {c : OperationalLog.LogCall}

omit [PyRuntime] in
/-- Calls stay orderly where one of them goes on. -/
theorem Marked.orderly_set {p : LogProg Unit} (h : Marked ⟨s, cs⟩) (hp : Orderly p) :
    ∀ x ∈ cs.set i (c, p), Orderly x.2 := by
  intro x hx
  rcases List.mem_or_eq_of_mem_set hx with hx | rfl
  · exact h.orderly x hx
  · exact hp

omit [PyRuntime] in
/-- A call goes on in silence. -/
theorem Marked.silent {o : LogOp} {k : logSig.Ret o → LogProg Unit} (h : Marked ⟨s, cs⟩)
    (hi : cs[i]? = some (c, .op (S := logSig) o k)) (ho : o.Silent)
    (hwrite : ∀ record, o ≠ .sinkWrite record) (r : logSig.Ret o) :
    Marked ⟨s, cs.set i (c, k r)⟩ where
  orderly := h.orderly_set ((h.orderly _ (List.mem_of_getElem? hi)).next hwrite)
  unattempted := h.unattempted
  latched := h.latched
  attempted j b hlast := by
    obtain ⟨c', p, hj, hp⟩ := h.attempted j b hlast
    by_cases hij : i = j
    · subst hij
      cases hi.symm.trans hj
      refine ⟨c, k r, List.getElem?_set_self (List.getElem?_eq_some_iff.mp hi).1, ?_⟩
      rcases hp with hmarks | ⟨hinert, hhealth⟩
      · exact absurd ho hmarks.not_silent
      · exact .inr ⟨hinert.of_op.2 r, hhealth⟩
    · exact ⟨c', p, by rw [List.getElem?_set_ne hij]; exact hj, hp⟩

omit [PyRuntime] in
/-- The call that made the last attempt marks what came of it. -/
theorem Marked.mark {b : Bool} {o : LogOp} {k : logSig.Ret o → LogProg Unit} {health : LoggingHealth}
    (h : Marked ⟨s, cs⟩) (hi : cs[i]? = some (c, .op (S := logSig) o k)) (ho : ¬o.Silent)
    (hlast : s.last = some (i, b))
    (hhealth : Marks b (.op (S := logSig) o k) → health.degraded = b) (r : logSig.Ret o) :
    Marked ⟨{ s with health := health }, cs.set i (c, k r)⟩ := by
  have hmarks : Marks b (.op (S := logSig) o k) := by
    obtain ⟨c', p, hj, hp⟩ := h.attempted i b hlast
    cases hi.symm.trans hj
    rcases hp with hmarks | ⟨hinert, -⟩
    · exact hmarks
    · exact absurd hinert.of_op.1 ho
  refine ⟨h.orderly_set (.inert (hmarks.inert r)), fun hnone => ?_, fun j b' hlast' => ?_, h.latched⟩
  · rw [show s.last = _ from hnone] at hlast
    cases hlast
  · cases hlast.symm.trans hlast'
    exact ⟨c, k r, List.getElem?_set_self (List.getElem?_eq_some_iff.mp hi).1,
      .inr ⟨hmarks.inert r, hhealth hmarks⟩⟩

/-- A call writes. -/
theorem Marked.write {record : OperationalRecord} {k : Except PyError Unit → LogProg Unit}
    {r : Except PyError Unit} (h : Marked ⟨s, cs⟩)
    (hi : cs[i]? = some (c, .op (S := logSig) (.sinkWrite record) k))
    (hstep : sharedStep i s (.sinkWrite record) r s') : Marked ⟨s', cs.set i (c, k r)⟩ := by
  obtain ⟨hruns, hhealth, hlast⟩ := hstep
  have hresult := jsonlSink_write_faulty hruns
  have horderly := h.orderly _ (List.mem_of_getElem? hi)
  have hwrite : Marks false (k (.ok ())) ∧ (∀ e, e.cls = SinkError → Marks true (k (.error e))) ∧
      ∀ e, Orderly (k (.error e)) := by
    cases horderly with
    | inert hq => exact absurd hq.of_op.1 id
    | marks hm => cases hm
    | silent ho _ => exact absurd ho id
    | write hok hsink herr => exact ⟨hok, hsink, herr⟩
  obtain ⟨hok, hsink, herr⟩ := hwrite
  have hself : (cs.set i (c, k r))[i]? = some (c, k r) :=
    List.getElem?_set_self (List.getElem?_eq_some_iff.mp hi).1
  cases hline : encodeLineBytes (.operational record) with
  | error e =>
    rw [hline] at hresult hlast
    obtain ⟨rfl, hfile⟩ := hresult
    have hsame : s' = s := by
      cases s
      cases s'
      cases hfile
      cases hhealth
      cases hlast
      rfl
    subst hsame
    refine ⟨h.orderly_set (herr e), h.unattempted, fun j b hlast => ?_, h.latched⟩
    obtain ⟨c', p, hj, hp⟩ := h.attempted j b hlast
    have hij : i ≠ j := by
      rintro rfl
      cases hi.symm.trans hj
      rcases hp with hmarks | ⟨hinert, -⟩
      · cases hmarks
      · exact hinert.of_op.1
    exact ⟨c', p, by rw [List.getElem?_set_ne hij]; exact hj, hp⟩
  | ok line =>
    rw [hline] at hresult hlast
    have hmarks : Marks (failed r) (k r) := by
      rcases hresult with ⟨rfl, -⟩ | ⟨e, rfl, he⟩
      · exact hok
      · exact hsink e he
    refine ⟨h.orderly_set (.marks hmarks), fun hnone => ?_, fun j b hlast' => ?_,
      fun hlatched j b hlast' => ?_⟩
    · rw [show s'.last = _ from hnone] at hlast
      cases hlast
    · cases hlast.symm.trans hlast'
      exact ⟨c, k r, hself, .inl hmarks⟩
    · cases hlast.symm.trans hlast'
      rcases hresult with ⟨rfl, hfree⟩ | ⟨e, rfl, -⟩
      · rw [show s'.file.latched = true from hlatched] at hfree
        cases hfree
      · rfl

/-- What holds between the steps is kept by each, where calls mark for their own attempts. -/
theorem Marked.step (h : Marked cfg) (hs : (sharedLog log MarksOwn).Step cfg cfg') :
    Marked cfg' := by
  cases hs with
  | @start s cs c _ =>
    refine ⟨?_, h.unattempted, fun i b hlast => ?_, h.latched⟩
    · intro x hx
      rcases List.mem_append.mp hx with hx | hx
      · exact h.orderly x hx
      · rw [List.mem_singleton.mp hx]
        exact log.orderly_call c.event c.severity c.fields
    · obtain ⟨c', p, hi, hp⟩ := h.attempted i b hlast
      refine ⟨c', p, ?_, hp⟩
      rw [List.getElem?_append_left (List.getElem?_eq_some_iff.mp hi).1]
      exact hi
  | @perform s s' cs i c o k r hi hstep =>
    obtain ⟨hown, hstep⟩ := hstep
    cases o with
    | now =>
      obtain rfl : s' = s := hstep
      exact h.silent hi trivial (fun _ => nofun) r
    | fallbackEmit text =>
      obtain rfl : s' = s := hstep
      exact h.silent hi trivial (fun _ => nofun) r
    | sinkWrite record => exact h.write hi hstep
    | markHealthy =>
      obtain ⟨b, hlast⟩ := hown
      obtain rfl : s' = { s with health := s.health.markHealthy } := hstep
      refine h.mark hi id hlast (fun hmarks => ?_) r
      cases hmarks
      exact OperationalLog.degraded_markHealthy _
    | markDegraded kind =>
      obtain ⟨b, hlast⟩ := hown
      obtain rfl : s' = { s with health := s.health.markDegraded kind } := hstep
      refine h.mark hi id hlast (fun hmarks => ?_) r
      cases hmarks
      rfl

/-- In every run in which each mark is made by the call that made the last attempt to write, once
all calls have ended the health says whether that attempt failed. -/
theorem health_agrees {file : SinkFile}
    (h : (sharedLog log MarksOwn).Reachable ⟨file, .init, none⟩ cfg) (hended : AllEnded cfg) :
    HealthAgrees cfg.shared := by
  have hmarked : Marked cfg := h.inv
    ⟨nofun, fun _ => rfl, fun i b hlast => (by cases hlast), fun _ i b hlast => (by cases hlast)⟩
    fun _ _ => Marked.step
  have hdegraded : ∀ i b, cfg.shared.last = some (i, b) → cfg.shared.health.degraded = b := by
    intro i b hlast
    obtain ⟨c, p, hi, hp⟩ := hmarked.attempted i b hlast
    rcases hp with hmarks | ⟨-, hhealth⟩
    · have hend := hended _ (List.mem_of_getElem? hi)
      cases hmarks with
      | healthy _ => cases hend
      | degraded _ => cases hend
    · exact hhealth
  refine ⟨⟨fun hd => ?_, fun ⟨i, hlast⟩ => hdegraded i true hlast⟩, fun hlatched hsome => ?_⟩
  · cases hlast : cfg.shared.last with
    | none =>
      rw [hmarked.unattempted hlast] at hd
      cases hd
    | some x =>
      obtain ⟨i, b⟩ := x
      rw [hdegraded i b hlast] at hd
      exact ⟨i, by rw [hd]⟩
  · obtain ⟨⟨i, b⟩, hlast⟩ := Option.isSome_iff_exists.mp hsome
    rw [hdegraded i b hlast]
    exact hmarked.latched hlatched i b hlast

/-! ## A success that is marked late -/

section

omit [PyRuntime]

theorem runs_withLock_faulty {body : SinkProg Unit} {f f' : SinkFile} {res : Except PyError Unit}
    (h : body.Runs (allowing faulty) f res f') :
    (Prog.withLock body).Runs (allowing faulty) f res f' := by
  refine .op (r := ()) (t := f) rfl (h.elim ?_)
  cases res with
  | ok a => exact .op (r := ()) (t := f') rfl .ret
  | error e => exact .op (r := ()) (t := f') rfl .throw

/-- A write of a line, from what `write_completely` comes to. -/
theorem runs_write [PyRuntime] {r : OperationalRecord} {line : Bytes} {f f' : SinkFile}
    {status : WriteStatus} (hline : encodeLineBytes (.operational r) = .ok line)
    (hc : f.closed = false) (hl : f.latched = false)
    (h : (writeCompletely line false).Runs (allowing faulty) f (.ok status) f') :
    (JsonlSink.write (.operational r)).Runs (allowing faulty) f
      (if status ≠ .WRITE_COMPLETE then .error (sinkError "operational sink write failed")
        else .ok ())
      (if status = .WRITE_PARTIAL then { f' with latched := true } else f') := by
  have hbody : ∀ {f₁ : SinkFile}, (if status ≠ .WRITE_COMPLETE then
      Prog.throw (sinkError "operational sink write failed") else Prog.ret () : SinkProg Unit).Runs
      (allowing faulty) f₁ (if status ≠ .WRITE_COMPLETE then
        .error (sinkError "operational sink write failed") else .ok ()) f₁ := by
    intro f₁
    split
    · exact .throw
    · exact .ret
  show (Prog.ofExcept (encodeLineBytes (.operational r)) >>= _).Runs _ _ _ _
  rw [hline]
  refine runs_withLock_faulty (.op (r := f.closed) (t := f) ⟨rfl, rfl⟩ ?_)
  show (if f.closed = true then _ else _ : SinkProg Unit).Runs _ _ _ _
  rw [if_neg (by simp [hc])]
  refine .op (r := f.latched) (t := f) ⟨rfl, rfl⟩ ?_
  show (if f.latched = true then _ else _ : SinkProg Unit).Runs _ _ _ _
  rw [if_neg (by simp [hl])]
  refine .bind h ?_
  show (if status = .WRITE_PARTIAL then _ else _ : SinkProg Unit).Runs _ _ _ _
  split
  · exact .op (r := ()) rfl hbody
  · exact hbody

/-- An `os.write` that takes everything. -/
theorem runs_whole {a : UInt8} {l : Bytes} (f : SinkFile) :
    (writeCompletely (a :: l) false).Runs (allowing faulty) f (.ok .WRITE_COMPLETE)
      { f with content := f.content ++ (a :: l) } := by
  have hloop : (writeLoop (a :: l) (a :: l).length 0).Runs (allowing faulty) f
      (.ok (a :: l).length) { f with content := f.content ++ (a :: l) } := by
    rw [List.length_cons, writeLoop, if_pos (by simp)]
    refine .op (r := OsResult.returned (Int.ofNat (l.length + 1)))
      (t := { f with content := f.content ++ (a :: l) })
      (.inr ⟨l.length + 1, Nat.le_refl _, rfl, by simp⟩) ?_
    show (if Int.ofNat (l.length + 1) ≤ 0 then Prog.ret 0 else
      writeLoop (a :: l) l.length (0 + (l.length + 1)) : SinkProg Nat).Runs _ _ _ _
    rw [if_neg (by simp only [Int.ofNat_eq_natCast]; omega), Nat.zero_add]
    cases l with
    | nil => exact .ret
    | cons b l =>
      rw [List.length_cons, writeLoop, if_neg (by simp)]
      exact .ret
  rw [writeCompletely]
  refine .bind hloop ?_
  show (if (a :: l).length ≠ (a :: l).length then _ else _ : SinkProg WriteStatus).Runs _ _ _ _
  rw [if_neg (not_not_intro rfl)]
  exact .ret

/-- An `os.write` that takes one byte, and one that fails. -/
theorem runs_torn {a b : UInt8} {l : Bytes} (f : SinkFile) :
    (writeCompletely (a :: b :: l) false).Runs (allowing faulty) f (.ok .WRITE_PARTIAL)
      { f with content := f.content ++ [a] } := by
  have hloop : (writeLoop (a :: b :: l) (a :: b :: l).length 0).Runs (allowing faulty) f (.ok 1)
      { f with content := f.content ++ [a] } := by
    rw [List.length_cons, writeLoop, if_pos (by simp)]
    refine .op (r := OsResult.returned (Int.ofNat 1)) (t := { f with content := f.content ++ [a] })
      (.inr ⟨1, Nat.succ_le_succ (Nat.zero_le _), rfl, rfl⟩) ?_
    show (if Int.ofNat 1 ≤ 0 then Prog.ret 0 else
      writeLoop (a :: b :: l) (b :: l).length 1 : SinkProg Nat).Runs _ _ _ _
    rw [if_neg (by decide), List.length_cons, writeLoop, if_pos (by simp)]
    exact .op (r := OsResult.osError) (.inl ⟨rfl, rfl⟩) .ret
  rw [writeCompletely]
  refine .bind hloop ?_
  show (if 1 ≠ (a :: b :: l).length then _ else _ : SinkProg WriteStatus).Runs _ _ _ _
  rw [if_pos (by simp)]
  exact .ret

/-- The event of the sample log, with its field. -/
def drained : OperationalLog.LogCall := ⟨.info, .str (lit "queue.drained"), countField 1⟩

/-- Its record. -/
def drainedRecord : OperationalRecord where
  application := .str (lit "app")
  emitter := .str (lit "app")
  event := .str (lit "queue.drained")
  timestamp := firstHour
  severity := .info
  fields := countField 1
  message := .none
  ok := by decide +kernel

theorem exists_drainedLine : ∃ a b l,
    @encodeLineBytes PyRuntime.plain (.operational drainedRecord) = .ok (a :: b :: l) :=
  exists_eq_cons (by decide +kernel)

/-- What a call with it performs. -/
theorem exists_call_drained : ∃ k k' : _ → LogProg Unit,
    @OperationalLog.call PyRuntime.plain sampleLog drained.severity drained.event drained.fields =
      .op (S := logSig) .now k ∧
    k (.ok drainedRecord.timestamp) = .op (S := logSig) (.sinkWrite drainedRecord) k' ∧
    k' (.ok ()) = markHealthy ∧
    ∀ text, k' (.error (sinkError text)) = OperationalLog.degrade (lit "sink_write") :=
  ⟨_, _, rfl, rfl, rfl, fun _ => rfl⟩

/-- A write of it that goes through, and one that is torn. -/
theorem exists_runs_drained {f : SinkFile} (hc : f.closed = false) (hl : f.latched = false) :
    (∃ line, @encodeLineBytes PyRuntime.plain (.operational drainedRecord) = .ok line) ∧
    (∃ f', (@JsonlSink.write PyRuntime.plain (.operational drainedRecord)).Runs (allowing faulty) f
      (.ok ()) f' ∧ f'.closed = false ∧ f'.latched = false) ∧
    ∃ f', (@JsonlSink.write PyRuntime.plain (.operational drainedRecord)).Runs (allowing faulty) f
      (.error (sinkError "operational sink write failed")) f' ∧ f'.latched = true := by
  let _ := PyRuntime.plain
  obtain ⟨a, b, l, hline⟩ := exists_drainedLine
  exact ⟨⟨_, hline⟩, ⟨_, runs_write hline hc hl (runs_whole f), hc, hl⟩,
    ⟨_, runs_write hline hc hl (runs_torn f), rfl⟩⟩

theorem reachable_start [PyRuntime] {may : Nat → SharedLog → LogOp → Prop} {s₀ s : SharedLog}
    {cs : List (OperationalLog.LogCall × LogProg Unit)} {c : OperationalLog.LogCall}
    {p : LogProg Unit} (h : (sharedLog log may).Reachable s₀ ⟨s, cs⟩)
    (hp : log.call c.severity c.event c.fields = p) :
    (sharedLog log may).Reachable s₀ ⟨s, cs ++ [(c, p)]⟩ :=
  hp ▸ h.tail (.start trivial)

theorem reachable_perform [PyRuntime] {may : Nat → SharedLog → LogOp → Prop} {s₀ s : SharedLog}
    {cs : List (OperationalLog.LogCall × LogProg Unit)} {i : Nat} {c : OperationalLog.LogCall}
    {o : LogOp} {k : logSig.Ret o → LogProg Unit} {p : LogProg Unit}
    (h : (sharedLog log may).Reachable s₀ ⟨s, cs⟩)
    (hi : cs[i]? = some (c, .op (S := logSig) o k)) (r : logSig.Ret o) (s' : SharedLog)
    (hmay : may i s o) (hstep : sharedStep i s o r s') (hp : k r = p) :
    (sharedLog log may).Reachable s₀ ⟨s', cs.set i (c, p)⟩ :=
  hp ▸ h.tail (.perform hi ⟨hmay, hstep⟩)

/-- The shared state before the first call. -/
def freshLog : SharedLog := ⟨⟨[], false, false⟩, .init, none⟩

/-- Two calls: between the write of the first and its mark the second reads the clock; then the
second latches the stream, and marks that. -/
theorem health_agrees_drained : ∃ cfg,
    (@sharedLog PyRuntime.plain sampleLog MarksOwn).Reachable freshLog cfg ∧
      cfg.calls = [(drained, .ret ()), (drained, .ret ())] ∧ cfg.shared.last = some (1, true) ∧
      cfg.shared.file.latched = true ∧ HealthAgrees cfg.shared := by
  let _ := PyRuntime.plain
  obtain ⟨k, k', hcall, hwrite, hok, hsink⟩ := exists_call_drained
  obtain ⟨⟨line, hline⟩, ⟨f₁, hruns₁, hc, hl⟩, -⟩ := @exists_runs_drained freshLog.file rfl rfl
  obtain ⟨-, -, f₂, hruns₂, hlatched⟩ := exists_runs_drained hc hl
  have hnil : (sharedLog sampleLog MarksOwn).Reachable freshLog ⟨freshLog, []⟩ := .refl
  have h₀ := reachable_start (c := drained) (reachable_start (c := drained) hnil hcall) hcall
  have h₁ := reachable_perform h₀ (i := 0) rfl (.ok drainedRecord.timestamp) _ trivial rfl hwrite
  have h₂ := reachable_perform h₁ (i := 0) rfl (.ok ()) ⟨f₁, .init, some (0, false)⟩ trivial
    ⟨hruns₁, rfl, by rw [hline]; rfl⟩ hok
  have h₃ := reachable_perform h₂ (i := 1) rfl (.ok drainedRecord.timestamp) _ trivial rfl hwrite
  have h₄ := reachable_perform h₃ (i := 0) rfl () _ ⟨_, rfl⟩ rfl rfl
  have h₅ := reachable_perform h₄ (i := 1) rfl (.error _) ⟨f₂, .init, some (1, true)⟩ trivial
    ⟨hruns₂, rfl, by rw [hline]; rfl⟩ (hsink _)
  have h₆ := reachable_perform (reachable_perform h₅ (i := 1) rfl () _ ⟨_, rfl⟩ rfl rfl)
    (i := 1) rfl (.ok ()) _ trivial rfl rfl
  refine ⟨_, h₆, rfl, rfl, hlatched, health_agrees h₆ fun x hx => ?_⟩
  have hx : x ∈ [(drained, .ret ()), (drained, (.ret () : LogProg Unit))] := hx
  simp only [List.mem_cons, List.not_mem_nil, or_false, or_self] at hx
  rw [hx]
  rfl

/-- Two calls: the first writes, the second latches the stream and marks that, and then the first
marks its success. -/
theorem not_health_agrees : ¬∀ cfg,
    (@sharedLog PyRuntime.plain sampleLog fun _ _ _ => True).Reachable freshLog cfg →
      AllEnded cfg → HealthAgrees cfg.shared := by
  let _ := PyRuntime.plain
  intro hall
  obtain ⟨k, k', hcall, hwrite, hok, hsink⟩ := exists_call_drained
  obtain ⟨⟨line, hline⟩, ⟨f₁, hruns₁, hc, hl⟩, -⟩ := @exists_runs_drained freshLog.file rfl rfl
  obtain ⟨-, -, f₂, hruns₂, hlatched⟩ := exists_runs_drained hc hl
  have hnil : (sharedLog sampleLog fun _ _ _ => True).Reachable freshLog ⟨freshLog, []⟩ := .refl
  have h₀ := reachable_start (c := drained) (reachable_start (c := drained) hnil hcall) hcall
  -- both calls read the clock
  have h₁ := reachable_perform
    (reachable_perform h₀ (i := 0) rfl (.ok drainedRecord.timestamp) _ trivial rfl hwrite)
    (i := 1) rfl (.ok drainedRecord.timestamp) _ trivial rfl hwrite
  -- the first writes, and the second latches the stream
  have h₂ := reachable_perform h₁ (i := 0) rfl (.ok ()) ⟨f₁, .init, some (0, false)⟩ trivial
    ⟨hruns₁, rfl, by rw [hline]; rfl⟩ hok
  have h₃ := reachable_perform h₂ (i := 1) rfl (.error _) ⟨f₂, .init, some (1, true)⟩ trivial
    ⟨hruns₂, rfl, by rw [hline]; rfl⟩ (hsink _)
  -- the second marks its failure, and then the first its success
  have h₄ := reachable_perform (reachable_perform h₃ (i := 1) rfl () _ trivial rfl rfl)
    (i := 1) rfl (.ok ()) _ trivial rfl rfl
  have h₅ := reachable_perform h₄ (i := 0) rfl () _ trivial rfl rfl
  have hagrees := hall _ h₅ fun x hx => by
    have hx : x ∈ [(drained, .ret ()), (drained, (.ret () : LogProg Unit))] := hx
    simp only [List.mem_cons, List.not_mem_nil, or_false, or_self] at hx
    rw [hx]
    rfl
  have hdegraded := hagrees.latched hlatched rfl
  cases hdegraded

end

end NmLogging
