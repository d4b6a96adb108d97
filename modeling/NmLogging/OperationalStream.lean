import NmLogging.Framework.Tally
import NmLogging.HealthOrder
import NmLogging.Reader.Conforming
import NmLogging.Sinks.Disk

/-!
# What a stream of operational records holds

Calls of one log over one `JsonlSink`, interleaved in any order, with an `os.write` that takes
any part of what it is given or raises `OSError`, and no other exception (`faulty`). However they
are interleaved, the file consists of lines of records that conform to their schemas, and a torn
part once the stream is latched
(`OperationalLog.stream_conforms`). Nothing is lost unnoticed: of a production log, the records
that a reader gets and the failures that the health has counted are together at least as many
as the calls that returned, and at most as many as were made (`OperationalLog.stream_accounts`).
-/

namespace NmLogging

variable [PyRuntime]

/-! ## A write -/

/-- What a write of a line does to the file, and how it ends. -/
inductive LineAppend (line : Bytes) (f : SinkFile) : Except PyError Unit → SinkFile → Prop where
  | refused {e : PyError} : LineAppend line f (.error e) f
  | torn {e : PyError} {t : Bytes} (latched : f.latched = false) (piece : t <+: line)
    (strict : t ≠ line) :
    LineAppend line f (.error e) { f with content := f.content ++ t, latched := true }
  | whole (latched : f.latched = false) :
    LineAppend line f (.ok ()) { f with content := f.content ++ line }

omit [PyRuntime] in
theorem writesParts_faulty :
    WritesParts (allowing faulty) fun data f => { f with content := f.content ++ data } where
  pre _ _ := trivial
  nil f := by simp
  append f data data' := by simp
  step h := h

/-- What a write does to the file: nothing if the record has no line, and otherwise what a write
of its line does. -/
theorem jsonlSink_write_line {r : OperationalRecord} {f : SinkFile} :
    (JsonlSink.write (.operational r)).wp (allowing faulty) f fun res f' =>
      match encodeLineBytes (.operational r) with
      | .ok line => LineAppend line f res f'
      | .error e => res = .error e ∧ f' = f := by
  show (Prog.ofExcept (encodeLineBytes (.operational r)) >>= _).wp _ _ _
  cases encodeLineBytes (.operational r) with
  | error e => exact ⟨rfl, rfl⟩
  | ok line =>
    refine wp_withLock_faulty ⟨trivial, ?_⟩
    rintro _ _ ⟨rfl, rfl⟩
    show (if _ = true then _ else _ : SinkProg Unit).wp _ _ _
    split
    · exact .refused
    refine ⟨trivial, ?_⟩
    rintro _ _ ⟨rfl, rfl⟩
    show (if _ = true then _ else _ : SinkProg Unit).wp _ _ _
    split
    · exact .refused
    rename_i hl
    rw [Bool.not_eq_true] at hl
    rw [writeCompletely, Prog.wp_bind, Prog.wp_bind]
    refine Prog.wp_mono writesParts_faulty.writeLoop ?_
    rintro _ _ ⟨n, rfl, hn, rfl⟩
    show (if n ≠ line.length then _ else _ : SinkProg WriteStatus).wp _ _ _
    by_cases hlt : n = line.length
    · subst hlt
      rw [if_neg (not_not_intro rfl), List.take_length]
      exact .whole hl
    · rw [if_pos hlt]
      show (if n > 0 then _ else _ : SinkProg WriteStatus).wp _ _ _
      split
      · refine ⟨trivial, ?_⟩
        rintro _ _ rfl
        refine .torn hl (List.take_prefix _ _) fun he => ?_
        have := congrArg List.length he
        rw [List.length_take] at this
        omega
      · obtain rfl : n = 0 := by omega
        rw [List.take_zero, List.append_nil]
        exact .refused

/-! ## The stream -/

/-- Operational records, as records. -/
def operationals (rs : List OperationalRecord) : List Record := rs.map Record.operational

/-- The lines of operational records. -/
def streamLines (rs : List OperationalRecord) : List Bytes :=
  (operationals rs).map (Record.line .operational)

/-- The file as the lines of records that conform, and a torn part. -/
structure OperationalLog.Streams (log : OperationalLog) (f : SinkFile)
    (rs : List OperationalRecord) (torn : Bytes) : Prop where
  content : f.content = (streamLines rs).flatten ++ torn
  lines : ∀ r ∈ rs, (Record.operational r).HasLine .operational
  conforms : ∀ r ∈ rs, log.Conforms r
  latched : torn ≠ [] → f.latched = true
  newline_notMem : newline ∉ torn

variable {log : OperationalLog} {f f' : SinkFile} {rs : List OperationalRecord} {torn : Bytes}

theorem OperationalLog.Conforms.stringNames {r : OperationalRecord} (h : log.Conforms r) :
    StringNames (.operational r) := by
  obtain ⟨schema, -, -, hdescribes⟩ := h.schema
  exact hdescribes.accepts.isStr

namespace OperationalLog.Streams

theorem write (h : log.Streams f rs torn) {r : OperationalRecord} (hr : log.Conforms r)
    {line : Bytes} (hline : StreamKind.operational.encodeLine (.operational r) = .ok line)
    {res : Except PyError Unit} (hw : LineAppend line f res f') :
    ∃ rs' torn', log.Streams f' rs' torn' := by
  have sound : f.latched = false → torn = [] := by
    intro hl
    by_contra hne
    rw [h.latched hne] at hl
    cases hl
  cases hw with
  | refused => exact ⟨_, _, h⟩
  | @torn _ t latched piece strict =>
    obtain rfl := sound latched
    refine ⟨rs, t, ?_, h.lines, h.conforms, fun _ => rfl, ?_⟩
    · show f.content ++ t = _
      rw [h.content, List.append_nil]
    · exact (encodeLine_ok hline).1.newline_notMem_piece piece strict
  | whole latched =>
    obtain rfl := sound latched
    refine ⟨rs ++ [r], [], ?_, fun r' hr' => ?_, fun r' hr' => ?_, fun ht => absurd rfl ht,
      by simp⟩
    · show f.content ++ line = _
      rw [h.content, ← Record.line_eq hline]
      simp [streamLines, operationals]
    · rcases List.mem_append.mp hr' with hr' | hr'
      · exact h.lines r' hr'
      · rw [List.mem_singleton.mp hr']
        exact ⟨line, hline⟩
    · rcases List.mem_append.mp hr' with hr' | hr'
      · exact h.conforms r' hr'
      · rw [List.mem_singleton.mp hr']
        exact hr

theorem records (h : log.Streams f rs torn) :
    ∀ r ∈ operationals rs, r.HasLine .operational ∧ StringNames r := by
  intro r hr
  obtain ⟨r', hr', rfl⟩ := List.mem_map.mp hr
  exact ⟨h.lines r' hr', (h.conforms r' hr').stringNames⟩

end OperationalLog.Streams

/-- Calls interleaved in any order. -/
abbrev OperationalLog.interleaved (log : OperationalLog) :
    System logSig PyError Unit OperationalLog.LogCall SharedLog :=
  sharedLog log fun _ _ _ => True

theorem OperationalLog.keepsTo_conforming (log : OperationalLog) :
    log.interleaved.KeepsTo log.conforming fun _ _ => True where
  answers _ := trivial
  start _ _ := OperationalLog.keeps_call

variable {cfg : Config logSig PyError Unit OperationalLog.LogCall SharedLog}

/-- In every run from a new file, the file is a stream. -/
theorem OperationalLog.exists_streams {s : SharedLog} (h : log.interleaved.Reachable s cfg)
    (hs : s.file.content = []) : ∃ rs torn, log.Streams cfg.shared.file rs torn := by
  have hnew : log.Streams s.file [] [] :=
    ⟨hs, List.forall_mem_nil _, List.forall_mem_nil _, fun ht => absurd rfl ht, by simp⟩
  refine h.holds (J := fun s => ∃ rs torn, log.Streams s.file rs torn) log.keepsTo_conforming
    ⟨_, _, hnew⟩ ?_
  rintro i c s₁ o r s₂ hallowed ⟨-, hstep⟩ ⟨rs, torn, hJ⟩
  cases o with
  | now => rw [show s₂ = s₁ from hstep]; exact ⟨_, _, hJ⟩
  | fallbackEmit text => rw [show s₂ = s₁ from hstep]; exact ⟨_, _, hJ⟩
  | markHealthy => rw [show s₂ = _ from hstep]; exact ⟨_, _, hJ⟩
  | markDegraded kind => rw [show s₂ = _ from hstep]; exact ⟨_, _, hJ⟩
  | sinkWrite record =>
    have hpost := hstep.1.post jsonlSink_write_line
    cases hline : encodeLineBytes (.operational record) with
    | error e =>
      rw [hline] at hpost
      rw [hpost.2]
      exact ⟨_, _, hJ⟩
    | ok line =>
      rw [hline] at hpost
      exact hJ.write hallowed hline hpost

/-- A reader of the stream ends without an exception, and yields mappings of records that
conform. -/
theorem OperationalLog.reads_stream {s : SharedLog} (h : log.interleaved.Reachable s cfg)
    (hs : s.file.content = []) (k : Nat) :
    (iterate (cfg.shared.file.content.take k)).error = none ∧
    ∀ obj ∈ (iterate (cfg.shared.file.content.take k)).records,
      ∃ r, log.Conforms r ∧ (Record.operational r).ReadsAs obj := by
  obtain ⟨rs, torn, hstream⟩ := OperationalLog.exists_streams h hs
  obtain ⟨hread, herror⟩ := iterate_recordLines hstream.records hstream.newline_notMem k
  have hcontent : ((operationals rs).map (Record.line .operational)).flatten ++ torn =
      cfg.shared.file.content := hstream.content.symm
  rw [hcontent] at hread herror
  refine ⟨herror, fun obj hobj => ?_⟩
  obtain ⟨r, hr, hreads⟩ := exists_of_forall₂_right hread hobj
  obtain ⟨record, hrecord, rfl⟩ := List.mem_map.mp (List.mem_of_mem_take hr)
  exact ⟨record, hstream.conforms record hrecord, hreads⟩

/-- **What a reader of the stream can rely on.** In every run from a new file, wherever the file
is cut, the reader ends without an exception, and each object that it yields is about an event
that is registered, with the severity and the fields of its schema. -/
theorem OperationalLog.stream_conforms {s : SharedLog} (h : log.interleaved.Reachable s cfg)
    (hs : s.file.content = []) (k : Nat) :
    (iterate (cfg.shared.file.content.take k)).error = none ∧
    ∀ obj ∈ (iterate (cfg.shared.file.content.take k)).records,
      ∃ schema severity, schema.severity = some severity ∧
        valueAt obj "severity" = some (.atom (.str severity.value)) ∧
        ShowsEvent log.application log.emitter log.registry schema (fun spec => spec.required)
          obj := by
  obtain ⟨herror, hread⟩ := OperationalLog.reads_stream h hs k
  refine ⟨herror, fun obj hobj => ?_⟩
  obtain ⟨r, hconforms, hreads⟩ := hread obj hobj
  exact hconforms.shows hreads

/-! ## What is counted -/

/-- What an operation adds: one for a write that returns, and one for a failure that is marked. -/
def counted : (o : logSig.Op) → logSig.Ret o → Nat
  | .sinkWrite _, r => if failed r then 0 else 1
  | .markDegraded _, _ => 1
  | .now, _ | .markHealthy, _ | .fallbackEmit _, _ => 0

/-- A call that returned has added one, and one that raised no more. -/
def AddsOne (res : Except PyError Unit) (n : Nat) : Prop := n ≤ 1 ∧ (res = .ok () → n = 1)

section

variable {event : PyAtom} {severity : Severity} {schema : EventSchema}
  {fields : Dict PyAtom PyObj} {kind : PyStr} {m : Nat}

omit [PyRuntime]

theorem addsOne_raised {e : PyError} : AddsOne (.error e) 0 := ⟨Nat.zero_le 1, by rintro ⟨⟩⟩

theorem addsOne_one {res : Except PyError Unit} : AddsOne res 1 := ⟨Nat.le_refl 1, fun _ => rfl⟩

theorem adds_now {Q : Except PyError Datetime → Nat → Prop} (h : ∀ r, Q r m) :
    now.wp (tallying counted) m Q :=
  Prog.wp_tallying_op.mpr fun _ => Prog.wp_ofExcept.mpr (h _)

theorem adds_sinkWrite {record : OperationalRecord} {Q : Except PyError Unit → Nat → Prop}
    (hok : Q (.ok ()) (m + 1)) (herr : ∀ e, Q (.error e) m) :
    (sinkWrite record).wp (tallying counted) m Q := by
  refine Prog.wp_tallying_op.mpr fun r => ?_
  cases (r : Except PyError Unit) with
  | ok u => exact hok
  | error e => exact herr e

theorem adds_markHealthy {Q : Except PyError Unit → Nat → Prop} (h : Q (.ok ()) m) :
    markHealthy.wp (tallying counted) m Q :=
  Prog.wp_tallying_op.mpr fun _ => h

/-- A failure is marked once, whatever the fallback does. -/
theorem adds_degrade : (OperationalLog.degrade kind).wp (tallying counted) 0 AddsOne := by
  refine Prog.wp_tallying_op.mpr fun _ => Prog.wp_tallying_op.mpr fun r => ?_
  cases (r : Except PyError Unit) with
  | ok u => exact addsOne_one
  | error e =>
    show Prog.wp _ (if e.isA .exception then _ else _ : LogProg Unit) _ _
    split <;> exact addsOne_one

theorem adds_unwritable {e : PyError} :
    (OperationalLog.unwritable e).wp (tallying counted) 0 AddsOne := by
  rw [OperationalLog.unwritable]
  split
  · exact adds_degrade
  · exact addsOne_raised

end

section

variable {event : PyAtom} {severity : Severity} {schema : EventSchema}
  {fields : Dict PyAtom PyObj} {kind : PyStr}

/-- Building a record adds nothing. -/
theorem adds_buildRecord {Q : Except PyError OperationalRecord → Nat → Prop} {m : Nat}
    (h : ∀ r, Q r m) : (log.buildRecord event severity schema fields).wp (tallying counted) m Q := by
  rcases OperationalLog.buildRecord_cases log event severity schema fields with ⟨e, he⟩ | ⟨f, hf⟩
  · rw [he]
    exact h _
  · rw [hf, Prog.wp_bind]
    refine adds_now fun r => ?_
    cases r with
    | error e => exact h _
    | ok t => exact Prog.wp_ofExcept.mpr (h _)

theorem adds_emitDefectRecord :
    (log.emitDefectRecord event kind).wp (tallying counted) 0 AddsOne := by
  rw [OperationalLog.emitDefectRecord_eq, Prog.wp_elim]
  refine adds_buildRecord fun r => ?_
  cases r with
  | error e => exact adds_unwritable
  | ok record =>
    exact (Prog.wp_elim _ _ _ _ _).mpr
      (adds_sinkWrite (adds_markHealthy addsOne_one) fun _ => adds_unwritable)

variable (hs : log.strict = false)

include hs in
theorem adds_handleDefect {exc : PyError} :
    (log.handleDefect event exc kind).wp (tallying counted) 0 AddsOne := by
  rw [OperationalLog.handleDefect, hs, if_neg (by decide)]
  exact adds_emitDefectRecord

include hs in
theorem adds_write {record : OperationalRecord} :
    (log.write record event).wp (tallying counted) 0 AddsOne := by
  rw [OperationalLog.write, Prog.wp_elim]
  refine adds_sinkWrite (adds_markHealthy addsOne_one) fun e => ?_
  show Prog.wp _ (if e.isA .eventSchemaError then _ else _ : LogProg Unit) _ _
  split
  · exact adds_handleDefect hs
  · split
    · exact adds_degrade
    · exact addsOne_raised

include hs in
theorem adds_emit : (log.emit severity event fields).wp (tallying counted) 0 AddsOne := by
  rw [OperationalLog.emit]
  cases log.registry.get event with
  | error e =>
    show Prog.wp _ (if e.isA .eventSchemaError then _ else _ : LogProg Unit) _ _
    split
    · exact adds_handleDefect hs
    · exact addsOne_raised
  | ok schema =>
    rw [Prog.wp_elim]
    refine adds_buildRecord fun r => ?_
    cases r with
    | ok record => exact adds_write hs
    | error e =>
      show Prog.wp _ (if e.isA .eventSchemaError then _ else _ : LogProg Unit) _ _
      split
      · exact adds_handleDefect hs
      · split
        · exact adds_handleDefect hs
        · exact addsOne_raised

include hs in
/-- A call of a production log that returns has written a record, or counted a failure. -/
theorem adds_call : (log.call severity event fields).wp (tallying counted) 0 AddsOne := by
  rw [OperationalLog.call, Prog.wp_bind]
  refine Prog.wp_ofExcept.mpr ?_
  cases bindKeywords (OperationalLog.methodName severity) OperationalLog.methodParams fields with
  | error e => exact addsOne_raised
  | ok kw => cases severity <;> exact adds_emit hs

end

/-! ## Nothing is lost unnoticed -/

/-- How many lines the file has, and how many failures the health has counted. -/
def SharedLog.account (s : SharedLog) : Nat :=
  s.file.content.count newline + s.health.totalFailures

omit [PyRuntime] in
theorem IsLine.count_newline {l : Bytes} (h : IsLine l) : l.count newline = 1 := by
  obtain ⟨body, hbody, rfl⟩ := h
  rw [List.count_append, List.count_eq_zero.mpr hbody, List.count_singleton_self]

omit [PyRuntime] in
theorem count_newline_flatten {ls : List Bytes} (h : ∀ l ∈ ls, IsLine l) :
    ls.flatten.count newline = ls.length := by
  induction ls with
  | nil => rfl
  | cons l ls ih =>
    rw [List.flatten_cons, List.count_append, (h l List.mem_cons_self).count_newline,
      ih fun x hx => h x (List.mem_cons_of_mem _ hx), List.length_cons, Nat.add_comm]

omit [PyRuntime] in
theorem LineAppend.count_newline {line : Bytes} (h : IsLine line) {res : Except PyError Unit}
    (hw : LineAppend line f res f') :
    f'.content.count newline = f.content.count newline + if failed res then 0 else 1 := by
  cases hw with
  | refused => rfl
  | @torn _ t _ piece strict =>
    show (f.content ++ t).count newline = _
    rw [List.count_append, List.count_eq_zero.mpr (h.newline_notMem_piece piece strict)]
    rfl
  | whole _ =>
    show (f.content ++ line).count newline = _
    rw [List.count_append, h.count_newline]
    rfl

/-- The account of the shared state grows by what calls add. -/
theorem weighs_counted (hs : log.strict = false) :
    log.interleaved.Weighs counted SharedLog.account fun _ => AddsOne where
  step {i c s o r s'} h := by
    obtain ⟨-, hstep⟩ := h
    cases o with
    | now => rw [show s' = s from hstep]; rfl
    | fallbackEmit text => rw [show s' = s from hstep]; rfl
    | markHealthy =>
      rw [show s' = _ from hstep]
      show _ + s.health.markHealthy.totalFailures = _
      have hsame : s.health.markHealthy.totalFailures = s.health.totalFailures := by
        rw [LoggingHealth.markHealthy]
        split <;> rfl
      rw [hsame]
      rfl
    | markDegraded kind => rw [show s' = _ from hstep]; rfl
    | sinkWrite record =>
      obtain ⟨hrun, hhealth, -⟩ := hstep
      have hpost := hrun.post jsonlSink_write_line
      have hcount : s'.file.content.count newline =
          s.file.content.count newline + if failed r then 0 else 1 := by
        cases hline : encodeLineBytes (.operational record) with
        | error e =>
          rw [hline] at hpost
          obtain ⟨rfl, hfile⟩ := hpost
          rw [hfile]
          rfl
        | ok line =>
          rw [hline] at hpost
          exact LineAppend.count_newline (isLine_of_lineBytes hline) hpost
      rw [SharedLog.account, hcount, hhealth, SharedLog.account]
      exact Nat.add_right_comm _ _ _
  call c := adds_call hs

/-- The answers of a moment at which nothing fails. -/
def calm : (o : LogOp) → logSig.Ret o
  | .now => .ok firstHour
  | .sinkWrite _ | .fallbackEmit _ => .ok ()
  | .markHealthy | .markDegraded _ => ()

/-- A file that is a stream has as many lines as a reader gets records. -/
theorem OperationalLog.Streams.count_newline (h : log.Streams f rs torn) :
    f.content.count newline = (iterate f.content).records.length := by
  have hlines : ∀ l ∈ streamLines rs, IsLine l := by
    intro l hl
    obtain ⟨r, hr, rfl⟩ := List.mem_map.mp hl
    exact (h.records r hr).1.isLine
  have hobjects := (objectsOf_recordLines h.records).length_eq
  rw [h.content, iterate_records hlines h.newline_notMem, List.count_append,
    List.count_eq_zero.mpr h.newline_notMem, count_newline_flatten hlines, streamLines,
    List.length_map, hobjects]
  rfl

/-- The account of a run: what has been added by its calls. -/
theorem OperationalLog.exists_accounts {s : SharedLog} (h : log.interleaved.Reachable s cfg)
    (hstrict : log.strict = false) (hfile : s.file.content = []) (hhealth : s.health = .init) :
    ∃ ms, List.Forall₂ (System.HasTallied counted fun _ => AddsOne) cfg.calls ms ∧
      (iterate cfg.shared.file.content).records.length + cfg.shared.health.totalFailures =
        ms.sum := by
  obtain ⟨rs, torn, hstream⟩ := OperationalLog.exists_streams h hfile
  obtain ⟨ms, hms, hsum⟩ := h.tally (weighs_counted hstrict)
  have hnew : SharedLog.account s = 0 := by
    rw [SharedLog.account, hfile, hhealth]
    rfl
  refine ⟨ms, hms, ?_⟩
  rw [← hstream.count_newline]
  exact hsum.trans (by rw [hnew, Nat.zero_add])

/-- **Nothing is lost unnoticed.** In every run of calls of a production log from a new file and
a new health, the records that a reader gets and the failures counted are together at least as
many as the calls that returned, and at most as many as the calls made. -/
theorem OperationalLog.stream_accounts {s : SharedLog} (h : log.interleaved.Reachable s cfg)
    (hstrict : log.strict = false) (hfile : s.file.content = []) (hhealth : s.health = .init) :
    cfg.calls.countP (fun x => System.returned x.2) ≤
        (iterate cfg.shared.file.content).records.length + cfg.shared.health.totalFailures ∧
      (iterate cfg.shared.file.content).records.length + cfg.shared.health.totalFailures ≤
        cfg.calls.length := by
  obtain ⟨ms, hms, hsum⟩ := OperationalLog.exists_accounts h hstrict hfile hhealth
  rw [hsum]
  exact ⟨System.countP_returned_le hms fun h => (h.2 rfl).ge,
    System.sum_le_length calm hms fun h => h.1⟩

/-! ## A torn line between two calls -/

section

omit [PyRuntime]

/-- Two calls: the second latches the stream before the first marks its success. -/
theorem exists_reachable_drained : ∃ cfg, (@OperationalLog.interleaved PyRuntime.plain
    sampleLog).Reachable freshLog cfg ∧ cfg.calls = [(drained, .ret ()), (drained, .ret ())] := by
  let _ := PyRuntime.plain
  obtain ⟨k, k', hcall, hwrite, hok, hsink⟩ := exists_call_drained
  obtain ⟨⟨line, hline⟩, ⟨f₁, hruns₁, hc, hl⟩, -⟩ := @exists_runs_drained freshLog.file rfl rfl
  obtain ⟨-, -, f₂, hruns₂, -⟩ := exists_runs_drained hc hl
  have hnil : sampleLog.interleaved.Reachable freshLog ⟨freshLog, []⟩ := .refl
  have h₀ := reachable_start (c := drained) (reachable_start (c := drained) hnil hcall) hcall
  have h₁ := reachable_perform
    (reachable_perform h₀ (i := 0) rfl (.ok drainedRecord.timestamp) _ trivial rfl hwrite)
    (i := 1) rfl (.ok drainedRecord.timestamp) _ trivial rfl hwrite
  have h₂ := reachable_perform h₁ (i := 0) rfl (.ok ()) ⟨f₁, .init, some (0, false)⟩ trivial
    ⟨hruns₁, rfl, by rw [hline]; rfl⟩ hok
  have h₃ := reachable_perform h₂ (i := 1) rfl (.error _) ⟨f₂, .init, some (1, true)⟩ trivial
    ⟨hruns₂, rfl, by rw [hline]; rfl⟩ (hsink _)
  have h₄ := reachable_perform (reachable_perform h₃ (i := 1) rfl () _ trivial rfl rfl)
    (i := 1) rfl (.ok ()) _ trivial rfl rfl
  exact ⟨_, reachable_perform h₄ (i := 0) rfl () _ trivial rfl rfl, rfl⟩

theorem stream_conforms_drained : ∃ cfg, (@OperationalLog.interleaved PyRuntime.plain
    sampleLog).Reachable freshLog cfg ∧ cfg.calls.length = 2 ∧
    (@iterate PyRuntime.plain (cfg.shared.file.content.take 1)).error = none := by
  let _ := PyRuntime.plain
  obtain ⟨cfg, h, hcalls⟩ := exists_reachable_drained
  exact ⟨cfg, h, by rw [hcalls]; rfl, (OperationalLog.stream_conforms h rfl 1).1⟩

theorem stream_accounts_drained : ∃ cfg, (@OperationalLog.interleaved PyRuntime.plain
    sampleLog).Reachable freshLog cfg ∧
    (@iterate PyRuntime.plain cfg.shared.file.content).records.length +
      cfg.shared.health.totalFailures = 2 := by
  let _ := PyRuntime.plain
  obtain ⟨cfg, h, hcalls⟩ := exists_reachable_drained
  obtain ⟨hleast, hmost⟩ := OperationalLog.stream_accounts h rfl rfl rfl
  rw [hcalls] at hleast hmost
  exact ⟨cfg, h, Nat.le_antisymm hmost hleast⟩

end

end NmLogging
