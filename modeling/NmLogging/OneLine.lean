import NmLogging.FailOpen
import NmLogging.Framework.Plain
import NmLogging.Guard

/-!
# One line for every call

A production log over an open `JsonlSink` whose writes go through: every call appends one
line to the file, the requested record where it can be written and otherwise a record of
the defect (`OperationalLog.method_one_line`). The record of a defect is never refused:
its fields pass the guard of the package's own schema, and its line is within the size
limit (`OperationalLog.exists_defectLine`).
-/

namespace NmLogging

/-! ## A file that takes everything -/

/-- The file of a sink, whether the sink is closed and whether its stream is latched. -/
structure SinkFile where
  content : Bytes
  closed : Bool
  latched : Bool

/-- What the operations of a sink do where every `os.write` takes some bytes. -/
def accepting (f : SinkFile) : (o : (lockSig streamSig).Op) → (lockSig streamSig).Ret o → SinkFile → Prop
  | .acquire, _, f' => f' = f
  | .release, _, f' => f' = f
  | .act .isClosed, b, f' => b = f.closed ∧ f' = f
  | .act .setClosed, _, f' => f' = { f with closed := true }
  | .act .isLatched, b, f' => b = f.latched ∧ f' = f
  | .act .setLatched, _, f' => f' = { f with latched := true }
  | .act (.osWrite data), r, f' => ∃ n, n ≤ data.length ∧ (n = 0 → data = []) ∧
    r = .returned (Int.ofNat n) ∧ f' = { f with content := f.content ++ data.take n }
  | .act .osFsync, _, f' => f' = f
  | .act .osClose, _, f' => f' = f

variable {f : SinkFile} {data : Bytes}

/-- The completion loop writes what is left. -/
theorem writeLoop_accepting {rounds n : Nat} (h : data.length ≤ n + rounds) (hn : n ≤ data.length) :
    (writeLoop data rounds n).wp (allowing accepting) f fun res f' =>
      res = .ok data.length ∧ f' = { f with content := f.content ++ data.drop n } := by
  have done : n = data.length → (Prog.ret n : SinkProg Nat).wp (allowing accepting) f fun res f' =>
      res = .ok data.length ∧ f' = { f with content := f.content ++ data.drop n } := by
    rintro rfl
    exact ⟨rfl, by rw [List.drop_length, List.append_nil]⟩
  induction rounds generalizing n f with
  | zero => exact done (by omega)
  | succ rounds ih =>
    rw [writeLoop]
    split
    · refine ⟨trivial, ?_⟩
      rintro r f' ⟨k, hk, hpos, rfl, rfl⟩
      rw [List.length_drop] at hk
      have hpos : 0 < k := by
        refine Nat.pos_of_ne_zero fun hzero => ?_
        have := List.drop_eq_nil_iff.mp (hpos hzero)
        omega
      show (if (Int.ofNat k) ≤ 0 then Prog.ret n else
        writeLoop data rounds (n + (Int.ofNat k).toNat) : SinkProg Nat).wp _ _ _
      rw [if_neg (by simp only [Int.ofNat_eq_natCast]; omega)]
      have := @ih { f with content := f.content ++ (data.drop n).take k } (n + k) (by omega) (by omega) ?_
      · refine Prog.wp_mono this ?_
        rintro _ _ ⟨rfl, rfl⟩
        refine ⟨rfl, ?_⟩
        rw [List.append_assoc, ← List.drop_drop, List.take_append_drop]
      · intro hlen
        exact ⟨congrArg Except.ok hlen, by rw [hlen, List.drop_length, List.append_nil]⟩
    · exact done (by omega)

theorem writeCompletely_accepting :
    (writeCompletely data false).wp (allowing accepting) f fun res f' =>
      res = .ok .WRITE_COMPLETE ∧ f' = { f with content := f.content ++ data } := by
  rw [writeCompletely, Prog.wp_bind]
  refine Prog.wp_mono (writeLoop_accepting (by omega) (Nat.zero_le _)) ?_
  rintro _ f' ⟨rfl, rfl⟩
  show Prog.wp _ (if data.length ≠ data.length then _ else _) _ _
  rw [if_neg (not_not_intro rfl)]
  exact ⟨rfl, rfl⟩

variable [PyRuntime]

/-- A write of a record appends its line, if it has one. -/
theorem jsonlSink_write_accepting {r : OperationalRecord} (hc : f.closed = false)
    (hl : f.latched = false) :
    (JsonlSink.write (.operational r)).wp (allowing accepting) f fun res f' =>
      match encodeLineBytes (.operational r) with
      | .ok line => res = .ok () ∧ f' = { f with content := f.content ++ line }
      | .error e => res = .error e ∧ f' = f := by
  show (Prog.ofExcept (encodeLineBytes (.operational r)) >>= _).wp _ _ _
  cases encodeLineBytes (.operational r) with
  | error e => exact ⟨rfl, rfl⟩
  | ok line =>
    refine ⟨trivial, ?_⟩
    rintro _ f' hf
    subst f'
    refine (Prog.wp_elim _ _ _ _ _).mpr ⟨trivial, ?_⟩
    rintro _ f' ⟨rfl, hf⟩
    subst f'
    show Prog.wp _ (if f.closed = true then _ else _ : SinkProg Unit) _ _
    rw [if_neg (by simp [hc])]
    refine ⟨trivial, ?_⟩
    rintro _ f' ⟨rfl, hf⟩
    subst f'
    show Prog.wp _ (if f.latched = true then _ else _ : SinkProg Unit) _ _
    rw [if_neg (by simp [hl]), Prog.wp_bind]
    refine Prog.wp_mono writeCompletely_accepting ?_
    rintro _ _ ⟨rfl, rfl⟩
    exact ⟨trivial, by rintro _ _ rfl; exact ⟨rfl, rfl⟩⟩

namespace OperationalLog

/-! ## The record of a defect -/

/-- The kinds of violations that a report names. -/
def violationKinds : List PyStr :=
  [lit "unknown_event", lit "schema_violation", lit "record_construction", lit "oversize"]

omit [PyRuntime] in
/-- An event that is fit to be named. -/
theorem isSafeEventRef_iff {event : PyAtom} : isSafeEventRef event = true ↔
    ∃ s, event = .str s ∧ s.length ≤ MAX_EVENT_ID_CHARS ∧ eventIdRe.fullmatch s = true := by
  cases event <;> simp [isSafeEventRef]

omit [PyRuntime] in
theorem eventIdRe_within : eventIdRe.Within Plain := by
  have hchar : ∀ c, (isLower c || isDigit c) = true → Plain c := by
    intro c hc
    simp only [isLower, isDigit, Bool.or_eq_true, Bool.and_eq_true, decide_eq_true_eq] at hc
    exact ⟨by omega, by omega, by omega, by omega⟩
  have hlower : ∀ c, isLower c = true → Plain c := fun c hc => hchar c (by simp [hc])
  have hchr : ∀ d, Plain d → ∀ c, (c == d) = true → Plain c := fun d hd c hc => beq_iff_eq.mp hc ▸ hd
  have hseg : eventSegment.Within Plain :=
    ⟨hlower, hchar, hchr 0x5f (by decide), hchar, hchar⟩
  exact ⟨hseg, ⟨hchr 0x2e (by decide), hseg⟩, hchr 0x2e (by decide), hseg⟩

omit [PyRuntime] in
theorem event_plain {s : PyStr} (hlen : s.length ≤ MAX_EVENT_ID_CHARS)
    (hre : eventIdRe.fullmatch s = true) : PlainText 128 s :=
  ⟨Regex.forall_of_fullmatch eventIdRe_within hre, hlen⟩

omit [PyRuntime] in
theorem application_plain {s : PyStr} (h : applicationRe.fullmatch s = true) : PlainText 64 s := by
  have hwithin : applicationRe.Within Plain := by
    refine ⟨fun c hc => ?_, fun c hc => ?_⟩
    all_goals
      simp only [isLower, isDigit, Bool.or_eq_true, Bool.and_eq_true, decide_eq_true_eq,
        beq_iff_eq] at hc
      exact ⟨by omega, by omega, by omega, by omega⟩
  exact ⟨Regex.forall_of_fullmatch hwithin h, Regex.length_le_of_fullmatch h⟩

omit [PyRuntime] in
/-- A plain text with no capital letter in front passes the scalar guard. -/
theorem guardScalar_plain {s : PyStr} (hs : PlainText 128 s) (henv : looksLikeEncEnvelope s = false) :
    guardScalar .str (.str s) = .ok (.str s) := by
  refine guardScalar_iff.mpr ⟨rfl, hs.length.trans (by decide), henv, ?_⟩
  rw [encodeUtf8_ascii fun c hc => (hs.plain c hc).2.1]
  rfl

omit [PyRuntime] in
/-- An event id starts with a lower-case letter. -/
theorem event_not_envelope {s : PyStr} (hre : eventIdRe.fullmatch s = true) :
    looksLikeEncEnvelope s = false := by
  obtain ⟨_, hseg, _, -, rfl⟩ := Language.mem_mul.mp (Regex.fullmatch_iff.mp hre)
  obtain ⟨_, ⟨c, hc, rfl⟩, _, -, rfl⟩ := Language.mem_mul.mp hseg
  rw [looksLikeEncEnvelope, Bool.and_eq_false_iff]
  left
  simp only [isLower, Bool.and_eq_true, decide_eq_true_eq] at hc
  have hne : (0x45 == c) = false := beq_false_of_ne (by omega)
  show ((0x45 == c) && _) = false
  rw [hne, Bool.false_and]

omit [PyRuntime] in
/-- The fields of a report are what the package's own schema accepts. -/
theorem validate_defectFields {event : PyAtom} {kind : PyStr} (hk : kind ∈ violationKinds) :
    DEFECT_SCHEMA.validateOperational .error (defectFields event kind) =
      .ok (defectFields event kind) := by
  have hkind : guardScalar .str (.str kind) = .ok (.str kind) := by
    refine guardScalar_plain ?_ ?_ <;> revert hk <;> revert kind <;> decide
  cases hsafe : isSafeEventRef event with
  | false =>
    simp only [defectFields, hsafe, Bool.false_eq_true, if_false]
    show (do
      let v ← (guardScalar .str (.str kind)).map PyObj.atom
      (.ok (Dict.empty.set (.str (lit "violation")) v) : Except PyError (Dict PyAtom PyObj))) = _
    rw [hkind]
    rfl
  | true =>
    obtain ⟨s, rfl, hlen, hre⟩ := isSafeEventRef_iff.mp hsafe
    have hevent := guardScalar_plain (event_plain hlen hre) (event_not_envelope hre)
    simp only [defectFields, hsafe, if_true]
    show (do
      let v ← (guardScalar .str (.str kind)).map PyObj.atom
      let w ← (guardScalar .str (.str s)).map PyObj.atom
      let d := (Dict.empty : Dict PyAtom PyObj).set (.str (lit "violation")) v
      (.ok (d.set (.str (lit "offending_event")) w) : Except PyError (Dict PyAtom PyObj))) = _
    rw [hkind, hevent]
    rfl

/-- What JSON makes of the members of a report: each is plain, and of the given size. -/
def PlainReport (ns : List Nat) (es : List (PyAtom × PyObj)) : Prop :=
  ∃ kvs, es.mapM memberJson = .ok kvs ∧ List.Forall₂ (Json.PlainMember PyRuntime.floatRepr) ns kvs

theorem PlainReport.nil : PlainReport [] [] := ⟨[], rfl, .nil⟩

theorem PlainReport.cons {n : Nat} {ns : List Nat} {e : PyAtom × PyObj}
    {es : List (PyAtom × PyObj)} {kv : PyStr × Json.Value PyFloat} (he : memberJson e = .ok kv)
    (hkv : Json.PlainMember PyRuntime.floatRepr n kv) (h : PlainReport ns es) :
    PlainReport (n :: ns) (e :: es) := by
  obtain ⟨kvs, hkvs, hall⟩ := h
  exact ⟨kv :: kvs, by rw [List.mapM_cons, he, hkvs]; rfl, .cons hkv hall⟩

theorem PlainReport.str {m n : Nat} {ns : List Nat} {k s : PyStr} {es : List (PyAtom × PyObj)}
    (hk : PlainText m k) (hs : PlainText n s) (h : PlainReport ns es) :
    PlainReport ((m + n + 6) :: ns) ((.str k, .atom (.str s)) :: es) :=
  h.cons rfl (Json.plainMember_str hk hs)

/-- A record whose members are plain, and not too many, has a line. -/
theorem PlainReport.line {u o : PyError} {r : Record} {ns : List Nat}
    (h : PlainReport ns (mappingEntries r)) (hsum : ns.sum + 3 ≤ MAX_RECORD_BYTES) :
    ∃ line, lineBytes u o r = .ok line := by
  obtain ⟨kvs, hkvs, hall⟩ := h
  obtain ⟨hascii, hlen⟩ := Json.renderMembers_plain hall
  have hrender : ∀ c ∈ Json.render PyRuntime.floatRepr (.obj kvs), c < 0x80 := by
    intro c hc
    rw [Json.render] at hc
    simp only [List.mem_cons, List.mem_append, List.not_mem_nil, or_false] at hc
    rcases hc with rfl | hc | rfl
    · decide
    · exact hascii c hc
    · decide
  refine ⟨_, lineBytes_ok.mpr ⟨_, _, encode_ok.mpr ⟨kvs, hkvs, rfl⟩, encodeUtf8_ascii hrender, rfl, ?_⟩⟩
  simp only [List.length_append, List.length_map, Json.render, List.length_cons, List.length_nil]
  omega

omit [PyRuntime] in
theorem violation_plain {kind : PyStr} (h : kind ∈ violationKinds) : PlainText 20 kind := by
  revert h
  revert kind
  decide

/-- **The record of a defect is never refused**: it has a line, whatever the time. -/
theorem exists_defectLine (log : OperationalLog) {event : PyAtom} {kind : PyStr} {t : Datetime}
    (ht : t.utcoffset = some 0) (hk : kind ∈ violationKinds) :
    ∃ r line, (log.recordArgs DEFECT_EVENT .error (defectFields event kind) .none t).construct =
      .ok r ∧ encodeLineBytes (.operational r) = .ok line := by
  have hvalidated : DEFECT_SCHEMA.validateOperational .error (defectFields event kind) = .ok _ :=
    validate_defectFields hk
  have hguarded := validateOperational_ok hvalidated
  have hbuilt : ∃ r, (log.recordArgs DEFECT_EVENT .error (defectFields event kind) .none t).construct =
      .ok r ∧ _ := construct_guarded rfl hguarded (.inl rfl) ht
  obtain ⟨r, hr, -⟩ := hbuilt
  have hargs := OperationalArgs.construct_ok.mp hr
  have hvalid := (Record.operational r).valid
  simp only [Record.envelope, hargs, recordArgs] at hvalid
  obtain ⟨app, happ, hre⟩ := hvalid.application
  obtain ⟨em, hem, hemitter⟩ := hvalid.emitter
  simp only at happ hemitter
  have hemPlain : PlainText 7 em := by
    have hall : ∀ s ∈ EMITTERS, PlainText 7 s := by decide
    exact hall em hem
  -- the fields come after the envelope and the severity
  have hfields : ∃ ns, ns.sum ≤ 200 ∧ PlainReport ns (defectFields event kind).entries := by
    have hviolation : PlainText 9 (lit "violation") := by decide
    cases hsafe : isSafeEventRef event with
    | false =>
      simp only [defectFields, hsafe, Bool.false_eq_true, if_false]
      exact ⟨[9 + 20 + 6], by decide, PlainReport.nil.str hviolation (violation_plain hk)⟩
    | true =>
      obtain ⟨s, rfl, hlen, hre⟩ := isSafeEventRef_iff.mp hsafe
      simp only [defectFields, hsafe, if_true]
      exact ⟨[9 + 20 + 6, 15 + 128 + 6], by decide,
        (PlainReport.nil.str (m := 15) (by decide) (event_plain hlen hre)).str hviolation
          (violation_plain hk)⟩
  obtain ⟨ns, hsum, hfields⟩ := hfields
  have hreport : PlainReport ((14 + 1 + 4) :: (9 + 32 + 6) :: (11 + 64 + 6) :: (7 + 7 + 6) ::
      (5 + 28 + 6) :: (8 + 5 + 6) :: ns) (mappingEntries (.operational r)) := by
    simp only [mappingEntries, envelopeEntries, kindEntries, messageEntries, Record.envelope, hargs,
      recordArgs, happ, hemitter, if_true, List.append_nil, List.cons_append, List.nil_append]
    have hversion : Json.PlainMember PyRuntime.floatRepr (14 + 1 + 4)
        (lit "schema_version", .int SCHEMA_VERSION) :=
      ⟨by decide, by rw [Json.render]; decide, by rw [Json.render]; decide⟩
    refine PlainReport.cons rfl hversion ?_
    refine PlainReport.str (m := 9) (by decide) (Datetime.isoformat_plain ht) ?_
    refine PlainReport.str (m := 11) (by decide) (application_plain hre) ?_
    refine PlainReport.str (m := 7) (by decide) hemPlain ?_
    refine PlainReport.str (m := 5) (n := 28) (by decide) (by decide) ?_
    exact PlainReport.str (m := 8) (n := 5) (by decide) (by decide) hfields
  have hsize : ((14 + 1 + 4) :: (9 + 32 + 6) :: (11 + 64 + 6) :: (7 + 7 + 6) :: (5 + 28 + 6) ::
      (8 + 5 + 6) :: ns).sum + 3 ≤ MAX_RECORD_BYTES := by
    have : MAX_RECORD_BYTES = 16384 := rfl
    simp only [List.sum_cons]
    omega
  obtain ⟨line, hline⟩ := hreport.line hsize
  exact ⟨r, line, hr, hline⟩

end OperationalLog

/-! ## Production -/

/-- A production log outside itself: the file of its sink, its health, how often the clock was
read, and what was written to the fallback. -/
structure Production where
  file : SinkFile
  health : LoggingHealth
  ticks : Nat
  fallback : List PyStr

/-- What the operations of a log do in production, with the times that the clock gives. -/
def productionStep (clock : Nat → Datetime) (s : Production) :
    (o : LogOp) → logSig.Ret o → Production → Prop
  | .now, r, s' => r = .ok (clock s.ticks) ∧ s' = { s with ticks := s.ticks + 1 }
  | .sinkWrite record, r, s' => ∃ f, s' = { s with file := f } ∧
    (JsonlSink.write (.operational record)).Runs (allowing accepting) s.file r f
  | .markHealthy, _, s' => s' = { s with health := s.health.markHealthy }
  | .markDegraded kind, _, s' => s' = { s with health := s.health.markDegraded kind }
  | .fallbackEmit text, _, s' => s' = { s with fallback := s.fallback ++ [text] }

def production (clock : Nat → Datetime) : Semantics logSig Production := allowing (productionStep clock)

namespace OperationalLog

/-- The line of the record that a call requests: the event is registered, operational and pinned
to the severity, the fields pass its guard, and the record can be encoded. -/
def Requests (log : OperationalLog) (severity : Severity) (event : PyAtom)
    (fields : Dict PyAtom PyObj) (t : Datetime) (line : Bytes) : Prop :=
  ∃ schema d m r, log.registry.get event = .ok schema ∧ schema.severity = some severity ∧
    schema.guardFields fields (schema.requiredFieldNames false) = .ok d ∧
    schema.renderMessage d = .ok m ∧
    (log.recordArgs event severity d m t).construct = .ok r ∧
    encodeLineBytes (.operational r) = .ok line

/-- The line of a record of a defect at the time `t`: it names the kind of the violation, and the
event where that has the form of an event id. -/
def Reports (log : OperationalLog) (event : PyAtom) (t : Datetime) (line : Bytes) : Prop :=
  ∃ r, encodeLineBytes (.operational r) = .ok line ∧ r.event = DEFECT_EVENT ∧ r.severity = .error ∧
    r.application = log.application ∧ r.emitter = log.emitter ∧ r.timestamp = t ∧
    r.message = .none ∧
    ∃ kind ∈ violationKinds, ∀ k v, (k, v) ∈ r.fields.entries ↔
      k = .str (lit "violation") ∧ v = .atom (.str kind) ∨
      k = .str (lit "offending_event") ∧ v = .atom event ∧
        ∃ s, event = .str s ∧ s.length ≤ MAX_EVENT_ID_CHARS ∧ eventIdRe.fullmatch s = true

/-- One line more in the file, with the health not degraded and the fallback not used. -/
structure OneLine (s s' : Production) (line : Bytes) : Prop where
  isLine : IsLine line
  file : s'.file = { s.file with content := s.file.content ++ line }
  health : s'.health.degraded = false
  fallback : s'.fallback = s.fallback

variable {log : OperationalLog} {clock : Nat → Datetime} {s : Production} {severity : Severity}
  {event : PyAtom} {fields : Dict PyAtom PyObj}

omit [PyRuntime] in
theorem mem_defectFields {kind : PyStr} (k : PyAtom) (v : PyObj) :
    (k, v) ∈ (defectFields event kind).entries ↔
      k = .str (lit "violation") ∧ v = .atom (.str kind) ∨
      k = .str (lit "offending_event") ∧ v = .atom event ∧
        ∃ s, event = .str s ∧ s.length ≤ MAX_EVENT_ID_CHARS ∧ eventIdRe.fullmatch s = true := by
  rw [← isSafeEventRef_iff]
  cases hsafe : isSafeEventRef event with
  | false =>
    have hentries : (defectFields event kind).entries =
        [(.str (lit "violation"), .atom (.str kind))] := by
      simp only [defectFields, hsafe, Bool.false_eq_true, if_false]
      rfl
    simp [hentries]
  | true =>
    have hentries : (defectFields event kind).entries =
        [(.str (lit "violation"), .atom (.str kind)), (.str (lit "offending_event"), .atom event)] := by
      simp only [defectFields, hsafe, if_true]
      rfl
    simp [hentries]

omit [PyRuntime] in
/-- An operational event accepts the fields that pass its guard. -/
theorem validateOperational_iff {schema : EventSchema} {d : Dict PyAtom PyObj} :
    schema.validateOperational severity fields = .ok d ↔ schema.severity = some severity ∧
      schema.guardFields fields (schema.requiredFieldNames false) = .ok d := by
  simp only [EventSchemaArgs.validateOperational, check_eq_ok, require_eq_ok, decide_eq_true_eq]
  constructor
  · exact fun h => ⟨h.2.1.symm, h.2.2⟩
  · exact fun h => ⟨by rw [EventSchemaArgs.isOperational, h.1]; rfl, h.1.symm, h.2⟩

omit [PyRuntime] in
theorem degraded_markHealthy (health : LoggingHealth) : health.markHealthy.degraded = false := by
  unfold LoggingHealth.markHealthy
  split
  · rfl
  · exact Bool.eq_false_iff.mpr ‹_›

/-- Handing over a record, and what follows. -/
theorem wp_sinkWrite {r : OperationalRecord} {ok : Unit → LogProg Unit} {err : PyError → LogProg Unit}
    {Q : Except PyError Unit → Production → Prop} (hc : s.file.closed = false)
    (hl : s.file.latched = false)
    (hok : ∀ line, encodeLineBytes (.operational r) = .ok line →
      (ok ()).wp (production clock)
        { s with file := { s.file with content := s.file.content ++ line } } Q)
    (herr : ∀ e, encodeLineBytes (.operational r) = .error e → (err e).wp (production clock) s Q) :
    ((sinkWrite r).elim ok err).wp (production clock) s Q := by
  refine ⟨trivial, ?_⟩
  rintro res _ ⟨f, rfl, hrun⟩
  have hpost := hrun.post (jsonlSink_write_accepting hc hl)
  cases hline : encodeLineBytes (.operational r) with
  | ok line =>
    rw [hline] at hpost
    obtain ⟨rfl, rfl⟩ := hpost
    exact hok line hline
  | error e =>
    rw [hline] at hpost
    obtain ⟨rfl, rfl⟩ := hpost
    exact herr e hline

/-- Building a record reads the clock once. -/
theorem wp_built {schema : EventSchema} {d : Dict PyAtom PyObj} {m : PyAtom} {r : OperationalRecord}
    {p : OperationalRecord → LogProg Unit} {err : PyError → LogProg Unit}
    {Q : Except PyError Unit → Production → Prop}
    (hval : schema.validateOperational severity fields = .ok d) (hm : schema.renderMessage d = .ok m)
    (hr : (log.recordArgs event severity d m (clock s.ticks)).construct = .ok r)
    (h : (p r).wp (production clock) { s with ticks := s.ticks + 1 } Q) :
    ((log.buildRecord event severity schema fields).elim p err).wp (production clock) s Q := by
  rw [buildRecord_of_rendered hval hm, Prog.wp_elim]
  refine ⟨trivial, ?_⟩
  rintro _ _ ⟨rfl, rfl⟩
  show Prog.wp _ (Prog.ofExcept (log.recordArgs event severity d m (clock s.ticks)).construct) _ _
  rw [hr]
  exact h

/-- The report of a defect is one line. -/
theorem emitDefectRecord_one_line (hd : log.defectSchema = DEFECT_SCHEMA)
    (hclock : ∀ n, (clock n).utcoffset = some 0) (hc : s.file.closed = false)
    (hl : s.file.latched = false) {kind : PyStr} (hk : kind ∈ violationKinds) :
    (log.emitDefectRecord event kind).wp (production clock) s fun res s' =>
      res = .ok () ∧ ∃ line, OneLine s s' line ∧ log.Reports event (clock s.ticks) line := by
  obtain ⟨r, line, hr, hline⟩ : ∃ r line,
      (log.recordArgs DEFECT_EVENT .error (defectFields event kind) .none (clock s.ticks)).construct =
        .ok r ∧ encodeLineBytes (.operational r) = .ok line :=
    log.exists_defectLine (hclock s.ticks) hk
  have hargs := OperationalArgs.construct_ok.mp hr
  rw [emitDefectRecord, hd, Prog.bind_eq, Prog.elim_elim]
  refine wp_built (validate_defectFields hk) rfl hr (wp_sinkWrite hc hl ?_ ?_)
  · intro line' hline'
    cases hline.symm.trans hline'
    refine ⟨trivial, ?_⟩
    rintro _ s' hs'
    subst hs'
    refine ⟨rfl, line, ⟨isLine_of_lineBytes hline, rfl, degraded_markHealthy _, rfl⟩, ?_⟩
    refine ⟨r, hline, ?_⟩
    simp only [hargs, recordArgs, true_and]
    exact ⟨kind, hk, mem_defectFields⟩
  · intro e he
    rw [hline] at he
    cases he

/-- A defect is contained in one line. -/
theorem handleDefect_one_line (hs : log.strict = false) (hd : log.defectSchema = DEFECT_SCHEMA)
    (hclock : ∀ n, (clock n).utcoffset = some 0) (hc : s.file.closed = false)
    (hl : s.file.latched = false) {exc : PyError} {kind : PyStr} (hk : kind ∈ violationKinds) :
    (log.handleDefect event exc kind).wp (production clock) s fun res s' =>
      res = .ok () ∧ ∃ line, OneLine s s' line ∧ log.Reports event (clock s.ticks) line := by
  rw [handleDefect, hs, if_neg Bool.false_ne_true]
  exact emitDefectRecord_one_line hd hclock hc hl hk

/-- What a call comes to: the requested line, or the report of a defect. -/
def Logged (log : OperationalLog) (clock : Nat → Datetime) (severity : Severity) (event : PyAtom)
    (fields : Dict PyAtom PyObj) (s s' : Production) : Prop :=
  ∃ line, OneLine s s' line ∧
    (log.Requests severity event fields (clock s.ticks) line ∨
      (¬∃ l, log.Requests severity event fields (clock s.ticks) l) ∧
        ∃ n, log.Reports event (clock n) line)

/-- Emitting a record leaves one line. -/
theorem emit_one_line (hs : log.strict = false) (hd : log.defectSchema = DEFECT_SCHEMA)
    (hclock : ∀ n, (clock n).utcoffset = some 0) (hc : s.file.closed = false)
    (hl : s.file.latched = false) (hints : ¬HasOverlong fields.values) :
    (log.emit severity event fields).wp (production clock) s fun res s' =>
      res = .ok () ∧ log.Logged clock severity event fields s s' := by
  have contained : ∀ {exc : PyError} {kind : PyStr} {s₁ : Production}, kind ∈ violationKinds →
      s₁.file = s.file → s₁.fallback = s.fallback →
      (¬∃ l, log.Requests severity event fields (clock s.ticks) l) →
      (log.handleDefect event exc kind).wp (production clock) s₁ fun res s' =>
        res = .ok () ∧ log.Logged clock severity event fields s s' := by
    intro exc kind s₁ hk hfile hfb hreq
    refine Prog.wp_mono (handleDefect_one_line hs hd hclock (hfile ▸ hc) (hfile ▸ hl) hk) ?_
    rintro _ s' ⟨rfl, line, hone, hrep⟩
    refine ⟨rfl, line, ⟨hone.isLine, ?_, hone.health, hone.fallback.trans hfb⟩, .inr ⟨hreq, _, hrep⟩⟩
    rw [hone.file, hfile]
  unfold emit
  cases hget : log.registry.get event with
  | error e =>
    show (if e.isA .eventSchemaError then _ else Prog.throw e : LogProg Unit).wp _ _ _
    rw [if_pos (by rw [isA_of_cls (EventRegistry.get_error hget)]; decide)]
    refine contained (by decide) rfl rfl ?_
    rintro ⟨l, schema, d, m, r, hg, -⟩
    rw [hget] at hg
    cases hg
  | ok schema =>
    show ((log.buildRecord event severity schema fields).elim _ _).wp _ _ _
    cases hval : schema.validateOperational severity fields with
    | error e =>
      rw [buildRecord_of_invalid hval]
      show (if e.isA .eventSchemaError then _ else _ : LogProg Unit).wp _ _ _
      rw [if_pos (by rw [isA_of_cls (validateOperational_error hval)]; decide)]
      refine contained (by decide) rfl rfl ?_
      rintro ⟨l, schema', d, m, r, hg, hsev, hguard, -⟩
      cases hget.symm.trans hg
      rw [validateOperational_iff.mpr ⟨hsev, hguard⟩] at hval
      cases hval
    | ok d =>
      obtain ⟨hpinned, hguard⟩ := validateOperational_iff.mp hval
      have hguarded := validateOperational_ok hval
      have hshort : ¬HasOverlong d.values := by
        rintro ⟨v, hv, i, hi, ho⟩
        obtain ⟨w, hw, hi'⟩ := hguarded.scalar_iff.mp ⟨v, hv, hi⟩
        exact hints ⟨w, hw, i, hi', ho⟩
      cases hm : schema.renderMessage d with
      | error e => exact absurd (renderMessage_error hm).1 hshort
      | ok m =>
        obtain ⟨r, hr, hf⟩ := construct_guarded (EventRegistry.get_ok hget) hguarded
          (renderMessage_ok hm) (hclock s.ticks)
        refine wp_built hval hm hr (wp_sinkWrite hc hl ?_ ?_)
        · intro line hline
          refine ⟨trivial, ?_⟩
          rintro _ s' hs'
          subst hs'
          exact ⟨rfl, line, ⟨isLine_of_lineBytes hline, rfl, degraded_markHealthy _, rfl⟩,
            .inl ⟨schema, d, m, r, hget, hpinned, hguard, hm, hr, hline⟩⟩
        · intro e he
          have hcls : e.cls = EventSchemaError := by
            rcases lineBytes_error he with he | ⟨-, rfl | rfl⟩
            · exact absurd (encode_guarded_error (hf ▸ hguarded) he).1 hints
            · rfl
            · rfl
          rw [if_pos (by rw [isA_of_cls hcls]; decide)]
          refine contained (by decide) rfl rfl ?_
          rintro ⟨l, schema', d', m', r', hg, -, hguard', hm', hr', hline⟩
          cases hget.symm.trans hg
          cases hguard.symm.trans hguard'
          cases hm.symm.trans hm'
          cases hr.symm.trans hr'
          rw [he] at hline
          cases hline

/-- **Every production call leaves exactly one line**: the record it requests, if that can be
written, and otherwise the record of its defect. -/
theorem method_one_line (hs : log.strict = false) (hd : log.defectSchema = DEFECT_SCHEMA)
    (hclock : ∀ n, (clock n).utcoffset = some 0) (hc : s.file.closed = false)
    (hl : s.file.latched = false) {kw : Keywords methodParams} (hints : ¬HasOverlong kw.fields.values)
    {res : Except PyError Unit} {s' : Production}
    (h : (log.method severity event kw).Runs (production clock) s res s') :
    res = .ok () ∧ log.Logged clock severity event kw.fields s s' := by
  have hmethod : log.method severity event kw = log.emit severity event kw.fields := by
    cases severity <;> rfl
  rw [hmethod] at h
  exact h.post (emit_one_line hs hd hclock hc hl hints)

end OperationalLog

/-! ## A log in production -/

omit [PyRuntime] in
theorem exists_accepting (f : SinkFile) (o : (lockSig streamSig).Op) :
    ∃ r f', accepting f o r f' := by
  cases o with
  | acquire => exact ⟨(), f, rfl⟩
  | release => exact ⟨(), f, rfl⟩
  | act a =>
    cases a with
    | isClosed => exact ⟨f.closed, f, rfl, rfl⟩
    | setClosed => exact ⟨(), _, rfl⟩
    | isLatched => exact ⟨f.latched, f, rfl, rfl⟩
    | setLatched => exact ⟨(), _, rfl⟩
    | osWrite data =>
      exact ⟨_, _, data.length, Nat.le_refl _, List.eq_nil_of_length_eq_zero, rfl, rfl⟩
    | osFsync => exact ⟨.returned (), f, rfl⟩
    | osClose => exact ⟨.returned (), f, rfl⟩

theorem exists_runs_production {α : Type} (clock : Nat → Datetime) (p : LogProg α) (s : Production) :
    ∃ res s', p.Runs (production clock) s res s' := by
  refine Prog.Runs.exists (fun s o => ?_) p s
  cases o with
  | now => exact ⟨_, _, rfl, rfl⟩
  | sinkWrite record =>
    obtain ⟨res, f, h⟩ := Prog.Runs.exists (M := allowing accepting) exists_accepting
      (JsonlSink.write (.operational record)) s.file
    exact ⟨res, _, f, rfl, h⟩
  | markHealthy => exact ⟨(), _, rfl⟩
  | markDegraded kind => exact ⟨(), _, rfl⟩
  | fallbackEmit text => exact ⟨.ok (), _, rfl⟩

omit [PyRuntime] in
/-- A call with an event that is no string. -/
theorem OperationalLog.method_one_line_sampleLog : ∃ res s',
    (@OperationalLog.method PyRuntime.plain sampleLog .info (.int 3) .empty).Runs
      (@production PyRuntime.plain fun _ => ⟨2024, 1, 2, 3, 4, 5, 0, some 0⟩)
      ⟨⟨[], false, false⟩, .init, 0, []⟩ res s' ∧ res = .ok () ∧
    @OperationalLog.Logged PyRuntime.plain sampleLog (fun _ => ⟨2024, 1, 2, 3, 4, 5, 0, some 0⟩) .info
      (.int 3) Dict.empty ⟨⟨[], false, false⟩, .init, 0, []⟩ s' := by
  let _ := PyRuntime.plain
  obtain ⟨res, s', h⟩ := exists_runs_production (fun _ => ⟨2024, 1, 2, 3, 4, 5, 0, some 0⟩)
    (sampleLog.method .info (.int 3) .empty) ⟨⟨[], false, false⟩, .init, 0, []⟩
  refine ⟨res, s', h, ?_⟩
  refine OperationalLog.method_one_line rfl rfl (fun _ => rfl) rfl rfl ?_ h
  rintro ⟨v, hv, -⟩
  cases hv

end NmLogging
