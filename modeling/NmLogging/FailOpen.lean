import NmLogging.Operational
import NmLogging.Sinks.Jsonl

/-!
# Failing open over the file sink

A production log (`strict` false) whose sink is a `JsonlSink`: what the operations of a
call do is said by `fileLog`, over any state of the sink and any answers of the operating
system. The one way for a call to raise, once its keywords are bound, is an integer of
more than 4300 digits in fields that the event accepts (`OperationalLog.call_returns_iff`):
`ValueError` is in none of the `except` clauses around rendering and around the sink.
-/

namespace NmLogging

variable [PyRuntime]

/-! ## The sink -/

section

variable {σ : Type} {os : σ → (o : (lockSig streamSig).Op) → (lockSig streamSig).Ret o → σ → Prop}

/-- The operating system behind a sink: `os.write` raises nothing but `OSError`. -/
def WritesOrFails (os : σ → (o : (lockSig streamSig).Op) → (lockSig streamSig).Ret o → σ → Prop) :
    Prop :=
  ∀ s data e s', ¬os s (.act (.osWrite data)) (.raised e) s'

omit [PyRuntime] in
theorem wp_withLock_allowing {α : Type} {body : SinkProg α} {Q : Except PyError α → Prop} {s : σ}
    (h : ∀ s, body.wp (allowing os) s fun res _ => Q res) :
    (Prog.withLock body).wp (allowing os) s fun res _ => Q res := by
  refine ⟨trivial, fun _ s₁ _ => ?_⟩
  rw [Prog.wp_elim]
  refine Prog.wp_mono (h s₁) fun res s₂ hq => ?_
  cases res with
  | ok a => exact ⟨trivial, fun _ _ _ => hq⟩
  | error e => exact ⟨trivial, fun _ _ _ => hq⟩

omit [PyRuntime] in
/-- Without a sync, `write_completely` raises only what `os.write` raises. -/
theorem writeCompletely_returns (hos : WritesOrFails os) (data : Bytes) (s : σ) :
    (writeCompletely data false).wp (allowing os) s fun res _ => ∃ status, res = .ok status := by
  have hloop : ∀ rounds n s, (writeLoop data rounds n).wp (allowing os) s
      fun res _ => ∃ k, res = .ok k := by
    intro rounds
    induction rounds with
    | zero => exact fun n s => ⟨n, rfl⟩
    | succ rounds ih =>
      intro n s
      rw [writeLoop]
      split
      · refine ⟨trivial, fun r s' hs => ?_⟩
        cases r with
        | returned k =>
          show (if k ≤ 0 then Prog.ret n else writeLoop data rounds (n + k.toNat)).wp _ _ _
          split
          · exact ⟨n, rfl⟩
          · exact ih _ _
        | osError => exact ⟨n, rfl⟩
        | raised e => exact absurd hs (hos _ _ _ _)
      · exact ⟨n, rfl⟩
  unfold writeCompletely
  rw [Prog.wp_bind]
  refine Prog.wp_mono (hloop _ _ s) ?_
  rintro _ s' ⟨n, rfl⟩
  show Prog.wp _ (if n ≠ data.length then _ else _) _ _
  split
  · show Prog.wp _ (if n > 0 then _ else _) _ _
    split <;> exact ⟨_, rfl⟩
  · exact ⟨_, rfl⟩

/-- What a write to the sink can raise: a defect of the record, a failure of the sink, or
what the encoder raised. -/
theorem jsonlSink_write_error (hos : WritesOrFails os) {r : OperationalRecord} {s s' : σ}
    {e : PyError}
    (h : (JsonlSink.write (.operational r)).Runs (allowing os) s (.error e) s') :
    e.cls = EventSchemaError ∨ e.cls = SinkError ∨ encode (.operational r) = .error e := by
  let Q : Except PyError Unit → Prop := fun res =>
    ∀ e, res = .error e → e.cls = EventSchemaError ∨ e.cls = SinkError ∨
      encode (.operational r) = .error e
  have hsink : ∀ text, Q (.error (sinkError text)) := by
    rintro text _ ⟨⟩
    exact .inr (.inl rfl)
  suffices hwp : (JsonlSink.write (.operational r)).wp (allowing os) s fun res _ => Q res from
    h.post hwp e rfl
  show (Prog.ofExcept (encodeLineBytes (.operational r)) >>= _).wp _ _ _
  cases hl : encodeLineBytes (.operational r) with
  | error e' =>
    rintro _ ⟨⟩
    rcases lineBytes_error hl with hl | ⟨-, rfl | rfl⟩
    · exact .inr (.inr hl)
    · exact .inl rfl
    · exact .inl rfl
  | ok data =>
    refine wp_withLock_allowing fun s => ⟨trivial, fun (closed : Bool) s₁ _ => ?_⟩
    show (if closed = true then _ else _ : SinkProg Unit).wp _ _ _
    split
    · exact hsink _
    refine ⟨trivial, fun (latched : Bool) s₂ _ => ?_⟩
    show (if latched = true then _ else _ : SinkProg Unit).wp _ _ _
    split
    · exact hsink _
    rw [Prog.wp_bind]
    refine Prog.wp_mono (writeCompletely_returns hos data s₂) ?_
    rintro _ s₃ ⟨status, rfl⟩
    have hlast : ∀ s, (if status ≠ .WRITE_COMPLETE then
        Prog.throw (sinkError "operational sink write failed") else Prog.ret () :
          SinkProg Unit).wp (allowing os) s fun res _ => Q res := by
      intro s
      split
      · exact hsink _
      · rintro _ ⟨⟩
    show (if status = .WRITE_PARTIAL then _ else _ : SinkProg Unit).wp _ _ _
    split
    · exact ⟨trivial, fun _ s₄ _ => hlast s₄⟩
    · exact hlast s₃

/-- What the encoder raises is what the write raises. -/
theorem jsonlSink_write_of_encode_error {r : OperationalRecord} {s s' : σ} {e : PyError}
    {res : Except PyError Unit} (he : encode (.operational r) = .error e)
    (h : (JsonlSink.write (.operational r)).Runs (allowing os) s res s') : res = .error e := by
  have hl : encodeLineBytes (.operational r) = .error e := by
    simp only [encodeLineBytes, lineBytes, he]
    rfl
  have : JsonlSink.write (.operational r) = .throw e := by
    show Prog.ofExcept (encodeLineBytes (.operational r)) >>= _ = _
    rw [hl]
    rfl
  rw [this] at h
  cases h
  rfl

end

/-! ## The log -/

/-- What the operations of a log do, over a `JsonlSink` and its health: the clock gives the
time in UTC, and the fallback returns or raises an `Exception`. -/
def logStep {σ : Type}
    (os : σ → (o : (lockSig streamSig).Op) → (lockSig streamSig).Ret o → σ → Prop)
    (s : σ × LoggingHealth) : (o : LogOp) → logSig.Ret o → σ × LoggingHealth → Prop
  | .now, r, s' => (∃ t : Datetime, t.utcoffset = some 0 ∧ r = .ok t) ∧ s' = s
  | .sinkWrite record, r, s' =>
    (JsonlSink.write (.operational record)).Runs (allowing os) s.1 r s'.1 ∧ s'.2 = s.2
  | .markHealthy, _, s' => s' = (s.1, s.2.markHealthy)
  | .markDegraded kind, _, s' => s' = (s.1, s.2.markDegraded kind)
  | .fallbackEmit _, r, s' => (∀ e : PyError, r = .error e → e.isA .exception = true) ∧ s' = s

def fileLog {σ : Type}
    (os : σ → (o : (lockSig streamSig).Op) → (lockSig streamSig).Ret o → σ → Prop) :
    Semantics logSig (σ × LoggingHealth) :=
  allowing (logStep os)

variable {σ : Type} {os : σ → (o : (lockSig streamSig).Op) → (lockSig streamSig).Ret o → σ → Prop}
  {log : OperationalLog} {severity : Severity} {event : PyAtom} {fields : Dict PyAtom PyObj}

namespace OperationalLog

/-- The event accepts the call, and one of its integers has no text. -/
def AcceptsOverlong (log : OperationalLog) (severity : Severity) (event : PyAtom)
    (fields : Dict PyAtom PyObj) : Prop :=
  (∃ schema d, log.registry.get event = .ok schema ∧
    schema.validateOperational severity fields = .ok d) ∧ HasOverlong fields.values

/-- Building a record raises on the fields that the schema does not accept, and on an integer
without a text. -/
theorem buildRecord_wp {schema : EventSchema} (hid : schema.eventId = event)
    (s : σ × LoggingHealth) :
    (log.buildRecord event severity schema fields).wp (fileLog os) s fun res s' =>
      s' = s ∧ match res with
        | .ok r => ∃ d, schema.validateOperational severity fields = .ok d ∧ r.fields = d
        | .error e => (e.cls = EventSchemaError ∧ schema.validateOperational severity fields = .error e) ∨
          (e.cls = ValueError ∧ HasOverlong fields.values ∧
            ∃ d, schema.validateOperational severity fields = .ok d) := by
  cases hval : schema.validateOperational severity fields with
  | error e =>
    rw [buildRecord_of_invalid hval]
    exact ⟨rfl, .inl ⟨validateOperational_error hval, rfl⟩⟩
  | ok d =>
    have hd := validateOperational_ok hval
    cases hm : schema.renderMessage d with
    | error e =>
      obtain ⟨⟨v, hv, i, hi, ho⟩, hcls⟩ := renderMessage_error hm
      obtain ⟨v', hv', hi'⟩ := hd.scalar_iff.mp ⟨v, hv, hi⟩
      rw [buildRecord_of_unrendered hval hm]
      exact ⟨rfl, .inr ⟨hcls, ⟨v', hv', i, hi', ho⟩, d, rfl⟩⟩
    | ok m =>
      rw [buildRecord_of_rendered hval hm]
      refine ⟨trivial, ?_⟩
      rintro _ s' ⟨⟨t, ht, rfl⟩, rfl⟩
      obtain ⟨r, hr, hf⟩ := construct_guarded hid hd (renderMessage_ok hm) ht
      show Prog.wp _ (Prog.ofExcept (log.recordArgs event severity d m t).construct) _ _
      rw [hr]
      exact ⟨rfl, d, rfl, hf⟩

omit [PyRuntime] in
theorem isA_of_cls {e : PyError} {c : ExcClass} (h : e.cls = c) (b : Base) :
    e.isA b = c.isA b := by rw [PyError.isA, h]

theorem degrade_wp (kind : PyStr) (s : σ × LoggingHealth) :
    (degrade kind).wp (fileLog os) s fun res _ => res = .ok () := by
  refine ⟨trivial, fun _ s' _ => ?_⟩
  refine ⟨trivial, fun r s'' hs => ?_⟩
  cases r with
  | ok a => rfl
  | error e =>
    show (if e.isA .exception then Prog.ret () else Prog.throw e : LogProg Unit).wp _ _ _
    rw [if_pos (hs.1 e rfl)]
    rfl

omit [PyRuntime] in
/-- The fields of a record of guarded fields are what JSON has. -/
theorem jsonFields_of_guarded {schema : EventSchema} {r : OperationalRecord}
    (hd : schema.Guarded fields r.fields) : (Record.operational r).envelope.JsonFields := by
  refine ⟨fun k hk => ?_, fun v hv a ha => ?_⟩
  · obtain ⟨⟨k, w⟩, hkw, rfl⟩ := List.mem_map.mp hk
    obtain ⟨v, hv, -⟩ := hd.mem_iff.mp hkw
    obtain ⟨spec, -, hname⟩ := List.mem_map.mp (hd.declared k (List.mem_map_of_mem hv))
    obtain ⟨s, hs⟩ := spec.name_ok.1
    rw [← hname, hs]
    rfl
  · have := hd.scalars v hv a ha
    cases a with
    | float f => exact this
    | other t => exact absurd this id
    | _ => trivial

/-- What the encoder raises for a record of guarded fields. -/
theorem encode_guarded_error {schema : EventSchema} {r : OperationalRecord}
    (hd : schema.Guarded fields r.fields) {e : PyError}
    (h : encode (.operational r) = .error e) : HasOverlong fields.values ∧ e.cls = ValueError := by
  obtain ⟨⟨v, hv, i, hi, ho⟩, hcls⟩ := encode_error (jsonFields_of_guarded hd) h
  obtain ⟨v', hv', hi'⟩ := hd.scalar_iff.mp ⟨v, hv, hi⟩
  exact ⟨⟨v', hv', i, hi', ho⟩, hcls⟩

theorem emitDefectRecord_wp (hos : WritesOrFails os) (event : PyAtom) (kind : PyStr)
    (s : σ × LoggingHealth) :
    (log.emitDefectRecord event kind).wp (fileLog os) s fun res _ => res = .ok () := by
  have contained : ∀ (e : PyError) s, e.isA .exception = true →
      (if e.isA .exception then degrade (lit "defect_unwritable") else Prog.throw e :
        LogProg Unit).wp (fileLog os) s fun res _ => res = .ok () := by
    intro e s he
    rw [if_pos he]
    exact degrade_wp _ s
  unfold emitDefectRecord
  rw [Prog.wp_elim, Prog.wp_bind]
  refine Prog.wp_mono (buildRecord_wp (EventRegistry.get_ok log.defectOk) s) ?_
  rintro (e | r) s' ⟨rfl, hres⟩
  · refine contained e s' ?_
    rcases hres with ⟨hcls, -⟩ | ⟨hcls, -, -⟩ <;> rw [isA_of_cls hcls] <;> decide
  · obtain ⟨d, hval, rfl⟩ := hres
    refine ⟨trivial, fun res s'' hs => ?_⟩
    cases res with
    | ok a => exact ⟨trivial, fun _ _ _ => rfl⟩
    | error e =>
      refine contained e s'' ?_
      rcases jsonlSink_write_error hos hs.1 with hcls | hcls | henc
      · rw [isA_of_cls hcls]; decide
      · rw [isA_of_cls hcls]; decide
      · rw [isA_of_cls (encode_guarded_error (validateOperational_ok hval) henc).2]; decide

/-- A defect is contained in production. -/
theorem handleDefect_wp (hs : log.strict = false) (hos : WritesOrFails os) (event : PyAtom)
    (exc : PyError) (kind : PyStr) (s : σ × LoggingHealth) :
    (log.handleDefect event exc kind).wp (fileLog os) s fun res _ => res = .ok () := by
  rw [handleDefect, hs, if_neg Bool.false_ne_true]
  exact emitDefectRecord_wp hos event kind s

/-- Writing a record of guarded fields raises on an integer without a text only. -/
theorem write_wp (hs : log.strict = false) (hos : WritesOrFails os) {schema : EventSchema}
    {r : OperationalRecord} (hd : schema.Guarded fields r.fields) (s : σ × LoggingHealth) :
    (log.write r event).wp (fileLog os) s fun res _ =>
      res = .ok () ↔ ¬HasOverlong fields.values := by
  have quiet : ∀ {e : PyError} {s₁ s₂ : σ}, encode (.operational r) ≠ .error e →
      (JsonlSink.write (.operational r)).Runs (allowing os) s₁ (.error e) s₂ →
      ¬HasOverlong fields.values := by
    rintro e s₁ s₂ hne hrun ⟨v, hv, i, hi, ho⟩
    obtain ⟨w, hw, hi'⟩ := hd.scalar_iff.mpr ⟨v, hv, hi⟩
    obtain ⟨e', he'⟩ := exists_encode_error (r := .operational r) ⟨w, hw, i, hi', ho⟩
    cases jsonlSink_write_of_encode_error he' hrun
    exact hne he'
  refine ⟨trivial, fun res s' hstep => ?_⟩
  obtain ⟨hrun, -⟩ := hstep
  cases res with
  | ok a =>
    refine ⟨trivial, fun _ _ _ => iff_of_true rfl ?_⟩
    rintro ⟨v, hv, i, hi, ho⟩
    obtain ⟨w, hw, hi'⟩ := hd.scalar_iff.mpr ⟨v, hv, hi⟩
    obtain ⟨e, he⟩ := exists_encode_error (r := .operational r) ⟨w, hw, i, hi', ho⟩
    cases jsonlSink_write_of_encode_error he hrun
  | error e =>
    show (if e.isA .eventSchemaError then _ else if e.isA .sinkError then _ else Prog.throw e :
      LogProg Unit).wp _ _ _
    have hfield : ∀ {c : ExcClass}, e.cls = c → c ≠ ValueError → ¬HasOverlong fields.values := by
      intro c hc hne
      refine quiet (fun henc => ?_) hrun
      exact hne (hc ▸ (encode_guarded_error hd henc).2)
    rcases jsonlSink_write_error hos hrun with hcls | hcls | henc
    · rw [if_pos (by rw [isA_of_cls hcls]; decide)]
      refine Prog.wp_mono (handleDefect_wp hs hos event e _ s') ?_
      rintro _ _ rfl
      exact iff_of_true rfl (hfield hcls (by decide))
    · rw [if_neg (by rw [isA_of_cls hcls]; decide), if_pos (by rw [isA_of_cls hcls]; decide)]
      refine Prog.wp_mono (degrade_wp _ s') ?_
      rintro _ _ rfl
      exact iff_of_true rfl (hfield hcls (by decide))
    · obtain ⟨hover, hcls⟩ := encode_guarded_error hd henc
      rw [if_neg (by rw [isA_of_cls hcls]; decide), if_neg (by rw [isA_of_cls hcls]; decide)]
      exact iff_of_false (by simp) (not_not_intro hover)

theorem emit_wp (hs : log.strict = false) (hos : WritesOrFails os) (s : σ × LoggingHealth) :
    (log.emit severity event fields).wp (fileLog os) s fun res _ =>
      res = .ok () ↔ ¬log.AcceptsOverlong severity event fields := by
  unfold emit
  cases hget : log.registry.get event with
  | error e =>
    show (if e.isA .eventSchemaError then _ else Prog.throw e : LogProg Unit).wp _ _ _
    rw [if_pos (by rw [isA_of_cls (EventRegistry.get_error hget)]; decide)]
    refine Prog.wp_mono (handleDefect_wp hs hos event e _ s) ?_
    rintro _ _ rfl
    refine iff_of_true rfl ?_
    rintro ⟨⟨schema, d, hg, -⟩, -⟩
    rw [hget] at hg
    cases hg
  | ok schema =>
    have haccepts : log.AcceptsOverlong severity event fields ↔
        (∃ d, schema.validateOperational severity fields = .ok d) ∧ HasOverlong fields.values := by
      simp only [AcceptsOverlong, hget, Except.ok.injEq, exists_and_left, exists_eq_left']
    show Prog.wp _ (Prog.elim _ _ _) _ _
    rw [Prog.wp_elim]
    refine Prog.wp_mono (buildRecord_wp (EventRegistry.get_ok hget) s) ?_
    rintro (e | r) s' ⟨rfl, hres⟩
    · show (if e.isA .eventSchemaError then _ else if e.isA .loggingConfigurationError then _ else
        Prog.throw e : LogProg Unit).wp _ _ _
      rcases hres with ⟨hcls, hval⟩ | ⟨hcls, hover, hval⟩
      · rw [if_pos (by rw [isA_of_cls hcls]; decide)]
        refine Prog.wp_mono (handleDefect_wp hs hos event e _ s') ?_
        rintro _ _ rfl
        refine iff_of_true rfl ?_
        rw [haccepts, hval]
        rintro ⟨⟨d, hd⟩, -⟩
        cases hd
      · rw [if_neg (by rw [isA_of_cls hcls]; decide), if_neg (by rw [isA_of_cls hcls]; decide)]
        exact iff_of_false (by simp) (not_not_intro (haccepts.mpr ⟨hval, hover⟩))
    · obtain ⟨d, hval, rfl⟩ := hres
      refine Prog.wp_mono (write_wp hs hos (validateOperational_ok hval) s') fun res _ h => ?_
      rw [h, haccepts]
      simp only [hval, Except.ok.injEq, exists_eq', true_and]

/-- The fields of a call can be its keywords. -/
def Bindable (fields : Dict PyAtom PyObj) : Prop :=
  ∀ k ∈ fields.keys, ∃ s, k = .str s ∧ s ∉ methodParams

theorem call_wp (hs : log.strict = false) (hos : WritesOrFails os) (s : σ × LoggingHealth) :
    (log.call severity event fields).wp (fileLog os) s fun res _ =>
      res = .ok () ↔ Bindable fields ∧ ¬log.AcceptsOverlong severity event fields := by
  unfold call
  rcases bindKeywords_cases (methodName severity) methodParams fields with
    ⟨kw, hkw, hf, hbind⟩ | ⟨e, he, hbind⟩
  · have hmethod : log.method severity event kw = log.emit severity event fields := by
      rw [← hf]
      cases severity <;> rfl
    rw [hkw, Prog.ofExcept_ok, Prog.ret_bind, hmethod]
    refine Prog.wp_mono (emit_wp hs hos s) fun res _ h => ?_
    rw [h]
    exact ⟨fun hq => ⟨hbind, hq⟩, fun hq => hq.2⟩
  · rw [he]
    exact iff_of_false (by simp) fun hq => hbind hq.1

/-- A call in production returns, unless its keywords do not bind, or an integer of the
fields that its event accepts has more than 4300 digits. -/
theorem call_returns_iff (hs : log.strict = false) (hos : WritesOrFails os) {s s' : σ × LoggingHealth}
    {res : Except PyError Unit}
    (h : (log.call severity event fields).Runs (fileLog os) s res s') :
    res = .ok () ↔ Bindable fields ∧ ¬log.AcceptsOverlong severity event fields :=
  h.post (call_wp hs hos s)

end OperationalLog

/-! ## A log and a disk -/

/-- A file that takes whatever is written to it, its sink open and its stream not latched. -/
def takesAll (f : Bytes) : (o : (lockSig streamSig).Op) → (lockSig streamSig).Ret o × Bytes
  | .acquire => ((), f)
  | .release => ((), f)
  | .act .isClosed => (false, f)
  | .act .setClosed => ((), f)
  | .act .isLatched => (false, f)
  | .act .setLatched => ((), f)
  | .act (.osWrite data) => (.returned data.length, f ++ data)
  | .act .osFsync => (.returned (), f)
  | .act .osClose => (.returned (), f)

def disk (f : Bytes) (o : (lockSig streamSig).Op) (r : (lockSig streamSig).Ret o) (f' : Bytes) : Prop :=
  takesAll f o = (r, f')

omit [PyRuntime] in
theorem disk_writesOrFails : WritesOrFails disk := by
  intro f data e f' h
  cases h

theorem exists_runs_disk {α : Type} (p : LogProg α) (s : Bytes × LoggingHealth) :
    ∃ res s', p.Runs (fileLog disk) s res s' := by
  refine Prog.Runs.exists (fun s o => ?_) p s
  cases o with
  | now => exact ⟨.ok ⟨2024, 1, 2, 3, 4, 5, 0, some 0⟩, s, ⟨_, rfl, rfl⟩, rfl⟩
  | sinkWrite record =>
    obtain ⟨res, f', h⟩ := Prog.Runs.exists (M := allowing disk)
      (fun f o => ⟨_, _, (rfl : disk f o _ _)⟩) (JsonlSink.write (.operational record)) s.1
    exact ⟨res, (f', s.2), h, rfl⟩
  | markHealthy => exact ⟨(), _, rfl⟩
  | markDegraded kind => exact ⟨(), _, rfl⟩
  | fallbackEmit text => exact ⟨.ok (), s, fun _ h => (by cases h), rfl⟩

/-- An event with one integer. -/
def sampleSchema : EventSchema where
  eventId := .str (lit "queue.drained")
  severity := some .info
  fields := [{ name := .str (lit "count"), type := .int, required := true, ok := by decide +kernel }]
  ok := by decide +kernel

/-- A production log with that event. -/
def sampleLog : OperationalLog where
  application := .str (lit "app")
  emitter := .str (lit "app")
  registry := ⟨⟨[(.str (lit "queue.drained"), sampleSchema), (DEFECT_EVENT, DEFECT_SCHEMA)],
    by decide⟩, by simp [sampleSchema, DEFECT_SCHEMA]⟩
  defectSchema := DEFECT_SCHEMA
  strict := false
  applicationOk := validateApplication_app
  emitterOk := validateEmitter_app
  defectOk := by rfl

/-- Its field. -/
def countField (i : Int) : Dict PyAtom PyObj := Dict.empty.set (.str (lit "count")) (.atom (.int i))

omit [PyRuntime] in
theorem accepts_countField (i : Int) :
    sampleLog.AcceptsOverlong .info (.str (lit "queue.drained")) (countField i) ↔
      overlong i = true := by
  have hover : HasOverlong (countField i).values ↔ overlong i = true := by
    simp [HasOverlong, countField, Dict.values, Dict.set, Dict.empty, assocSet, PyObj.atoms]
  rw [OperationalLog.AcceptsOverlong, hover]
  exact and_iff_right ⟨sampleSchema, _, rfl, rfl⟩

omit [PyRuntime] in
theorem bindable_countField (i : Int) : OperationalLog.Bindable (countField i) := by
  intro k hk
  obtain rfl : k = .str (lit "count") := by
    simpa [countField, Dict.keys, Dict.set, Dict.empty, assocSet] using hk
  exact ⟨_, rfl, by decide⟩

omit [PyRuntime] in
theorem call_returns_iff_countField : ∃ res s',
    (@OperationalLog.call PyRuntime.plain sampleLog .info (.str (lit "queue.drained"))
      (countField 1)).Runs (@fileLog PyRuntime.plain _ disk) ([], .init) res s' ∧ res = .ok () := by
  obtain ⟨res, s', h⟩ := @exists_runs_disk PyRuntime.plain _
    (@OperationalLog.call PyRuntime.plain sampleLog .info (.str (lit "queue.drained"))
      (countField 1)) ([], .init)
  refine ⟨res, s', h, ?_⟩
  refine (@OperationalLog.call_returns_iff PyRuntime.plain _ _ _ _ _ _ rfl disk_writesOrFails
    _ _ _ h).mpr ⟨bindable_countField 1, ?_⟩
  rw [accepts_countField]
  decide

omit [PyRuntime] in
/-- An accepted integer of 4301 digits: the call raises. -/
theorem not_call_returns_countField : ¬∀ res s',
    (@OperationalLog.call PyRuntime.plain sampleLog .info (.str (lit "queue.drained"))
      (countField (10 ^ 4300))).Runs (@fileLog PyRuntime.plain _ disk) ([], .init) res s' →
      res = .ok () := by
  intro hall
  obtain ⟨res, s', h⟩ := @exists_runs_disk PyRuntime.plain _
    (@OperationalLog.call PyRuntime.plain sampleLog .info (.str (lit "queue.drained"))
      (countField (10 ^ 4300))) ([], .init)
  have hpost := h.post (@OperationalLog.call_wp PyRuntime.plain _ _ _ _ _ _ rfl disk_writesOrFails
    ([], .init))
  refine (hpost.mp (hall res s' h)).2 ((accepts_countField _).mpr
    (overlong_pow (Nat.le_refl _)))

end NmLogging
