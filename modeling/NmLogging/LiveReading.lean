import NmLogging.AuditTrail
import NmLogging.OperationalStream
import NmLogging.Reader.Racing

/-!
# Reading while records are written

A `JsonlReader` over the file of a sink that calls are writing to, of which `os.write` and
`os.fsync` raise nothing but `OSError`. However its steps fall between those of the calls, it
raises no `ReaderError`: a record that is half written is at worst a torn tail. Of an audit trail
it yields linked records, and where it comes to its end, the outcome of every handle that was
finalised when it was made (`AuditLog.live_reading`). Of a stream it yields records that conform,
and where it comes to its end, enough of them to account for the calls that had returned
(`OperationalLog.live_stream`).
-/

open Relation (ReflTransGen)

namespace NmLogging

variable [PyRuntime]

/-! ## An audit trail -/

section

variable {log : AuditLog} {trace : PureCall → PureTrace} {heap : Heap}
  {cfg cfg' : Config auditSig Exc AuditValue AuditCall (AuditState Disk)} {reader : JsonlReader}

/-- The file of the sink of a log. -/
def auditFile (cfg : Config auditSig Exc AuditValue AuditCall (AuditState Disk)) : Option Bytes :=
  some cfg.shared.memory.2.content

omit [PyRuntime] in
theorem DiskAppend.content_prefix {line : Bytes} {f f' : Disk} {res : Except PyError Unit}
    (h : DiskAppend line f res f') : f.content <+: f'.content := by
  cases h with
  | refused => exact List.prefix_rfl
  | nothing => exact List.prefix_rfl
  | torn => exact List.prefix_append _ _
  | unsynced => exact List.prefix_append _ _
  | stored => exact List.prefix_append _ _

omit [PyRuntime] in
/-- A step of a call appends to the ids made. -/
theorem auditStep_ids {ω : Type} {X : Externals ω} {k : Nat} {s s' : AuditState ω} {o : AuditOp}
    {r : auditSig.Ret o} (hs : auditStep X k s o r s') : s.ids <+: s'.ids := by
  cases o with
  | now handled => obtain ⟨m, -, rfl⟩ := hs; exact List.prefix_rfl
  | newOperationId handled => obtain ⟨m, -, rfl⟩ := hs; exact List.prefix_append _ _
  | append record handled => obtain ⟨m, -, rfl⟩ := hs; exact List.prefix_rfl
  | supportsAtomic => obtain ⟨-, rfl⟩ := hs; exact List.prefix_rfl
  | heap o => obtain ⟨-, rfl⟩ := hs; exact List.prefix_rfl
  | handle o => obtain ⟨cell, -, rfl⟩ := hs; exact List.prefix_rfl

/-- And to the file. -/
theorem auditStep_grows {k : Nat} {s s' : AuditState Disk} {o : AuditOp} {r : auditSig.Ret o}
    (hs : auditStep (diskExternals trace) k s o r s') :
    s.memory.2.content <+: s'.memory.2.content := by
  cases o with
  | now handled =>
    obtain ⟨m, hm, rfl⟩ := hs
    exact hm.content ▸ List.prefix_rfl
  | newOperationId handled =>
    obtain ⟨m, hm, rfl⟩ := hs
    exact hm.content ▸ List.prefix_rfl
  | append record handled =>
    obtain ⟨m, ⟨res, hrun, hres⟩, rfl⟩ := hs
    have hpost := hrun.post jsonlAuditSink_append_disk
    show s.memory.2.content <+: m.2.content
    cases hline : auditLineBytes (.audit record) with
    | error e =>
      rw [hline] at hpost
      rw [hpost.2]
    | ok line =>
      rw [hline] at hpost
      exact DiskAppend.content_prefix hpost
  | supportsAtomic =>
    obtain ⟨-, rfl⟩ := hs
    exact List.prefix_rfl
  | heap o =>
    obtain ⟨-, rfl⟩ := hs
    exact List.prefix_rfl
  | handle o =>
    obtain ⟨cell, -, rfl⟩ := hs
    exact List.prefix_rfl

theorem AuditLog.grows (h : (log.system (diskExternals trace)).Step cfg cfg') :
    contentOf auditFile cfg <+: contentOf auditFile cfg' := by
  cases h with
  | start _ => exact List.prefix_rfl
  | perform _ hs => exact auditStep_grows hs

theorem AuditLog.ids_prefix (h : ReflTransGen (log.system (diskExternals trace)).Step cfg cfg') :
    cfg.shared.ids <+: cfg'.shared.ids := by
  induction h with
  | refl => exact List.prefix_rfl
  | tail _ hs ih =>
    refine ih.trans ?_
    cases hs with
    | start _ => exact List.prefix_rfl
    | perform _ hs => exact auditStep_ids hs

/-- **Reading a trail that is being written.** A reader that is made in a run on a new file, and
iterates while calls go on, on each handle one at a time, ends without a `ReaderError`, if it
ends. What it has yielded is linked, and if it has come to the end, shows the outcome of every
handle that was finalised when the reader was made. -/
theorem AuditLog.live_reading
    (h : (log.system (diskExternals trace)).Reachable { memory := (heap, .new) } cfg)
    (hrun : ReflTransGen (Beside (log.system (diskExternals trace)).Step auditFile) (cfg, .init)
      (cfg', reader))
    (hids : (cfg'.shared.ids.map Prod.snd).Nodup) :
    (∀ e, reader.iteration ≠ .ended (some e)) ∧ Linked reader.yielded ∧
    (reader.iteration = .ended none → ∀ ref cell, cfg.shared.cells ref = some cell →
      cell.state = .FINALISED →
        ∃ obj ∈ reader.yielded, ShowsRecord obj .outcome cell.op.operationId) := by
  have hworld := Beside.transGen_world hrun
  have h' := h.trans hworld
  have hids' : (cfg.shared.ids.map Prod.snd).Nodup :=
    hids.sublist ((AuditLog.ids_prefix hworld).map Prod.snd).sublist
  obtain ⟨k, -, hyielded, hend⟩ :=
    (JsonlReader.reads_beside AuditLog.grows hrun).1.exists_take
  refine ⟨fun e he => ?_, ?_, fun hended ref cell hc hfin => ?_⟩
  · have herror := (AuditLog.reads_trail h' k).1
    have hiterate := (hend _ he).1
    rw [show (contentOf auditFile cfg').take k = cfg'.shared.memory.2.content.take k from rfl]
      at hiterate
    rw [hiterate] at herror
    cases herror
  · rw [hyielded]
    exact AuditLog.linked h' hids k
  · obtain ⟨written, torn, ht⟩ := exists_trail h
    obtain ⟨obj, hobj, hshows⟩ := AuditLog.outcome_read h hids' ht.bound hc hfin
    refine ⟨obj, ?_, hshows⟩
    rw [hyielded]
    refine (records_isPrefix ((hend _ hended).2 rfl)).subset ?_
    rw [List.take_length] at hobj
    exact hobj

end

/-! ## A stream of operational records -/

section

variable {log : OperationalLog} {reader : JsonlReader}
  {cfg cfg' : Config logSig PyError Unit OperationalLog.LogCall SharedLog}

/-- The file of the sink of a log. -/
def streamFile (cfg : Config logSig PyError Unit OperationalLog.LogCall SharedLog) :
    Option Bytes :=
  some cfg.shared.file.content

omit [PyRuntime] in
theorem LineAppend.content_prefix {line : Bytes} {f f' : SinkFile} {res : Except PyError Unit}
    (h : LineAppend line f res f') : f.content <+: f'.content := by
  cases h with
  | refused => exact List.prefix_rfl
  | torn => exact List.prefix_append _ _
  | whole => exact List.prefix_append _ _

theorem OperationalLog.grows (h : log.interleaved.Step cfg cfg') :
    contentOf streamFile cfg <+: contentOf streamFile cfg' := by
  cases h with
  | start _ => exact List.prefix_rfl
  | @perform s s' cs i c o k r _ hs =>
    obtain ⟨-, hstep⟩ := hs
    show s.file.content <+: s'.file.content
    cases o with
    | now => rw [show s' = s from hstep]
    | fallbackEmit text => rw [show s' = s from hstep]
    | markHealthy => rw [show s' = _ from hstep]
    | markDegraded kind => rw [show s' = _ from hstep]
    | sinkWrite record =>
      have hpost := hstep.1.post jsonlSink_write_line
      cases hline : encodeLineBytes (.operational record) with
      | error e =>
        rw [hline] at hpost
        rw [hpost.2]
      | ok line =>
        rw [hline] at hpost
        exact LineAppend.content_prefix hpost

/-- **Reading a stream that is being written.** A reader that is made in a run of a production
log on a new file, with a new health, and iterates while calls go on, ends without a
`ReaderError`, if it ends. Each object that it has yielded is the mapping of a record that
conforms, and if it has come to the end, they are at least as many as the calls that had returned
when the reader was made, less the failures counted until then. -/
theorem OperationalLog.live_stream {s : SharedLog} (h : log.interleaved.Reachable s cfg)
    (hstrict : log.strict = false) (hfile : s.file.content = []) (hhealth : s.health = .init)
    (hrun : ReflTransGen (Beside log.interleaved.Step streamFile) (cfg, .init) (cfg', reader)) :
    (∀ e, reader.iteration ≠ .ended (some e)) ∧
    (∀ obj ∈ reader.yielded, ∃ r, log.Conforms r ∧ (Record.operational r).ReadsAs obj) ∧
    (reader.iteration = .ended none → cfg.calls.countP (fun x => System.returned x.2) ≤
      reader.yielded.length + cfg.shared.health.totalFailures) := by
  have h' := h.trans (Beside.transGen_world hrun)
  obtain ⟨k, -, hyielded, hend⟩ :=
    (JsonlReader.reads_beside OperationalLog.grows hrun).1.exists_take
  obtain ⟨herror, hread⟩ := OperationalLog.reads_stream h' hfile k
  refine ⟨fun e he => ?_, fun obj hobj => ?_, fun hended => ?_⟩
  · have hiterate := (hend _ he).1
    rw [show (contentOf streamFile cfg').take k = cfg'.shared.file.content.take k from rfl]
      at hiterate
    rw [hiterate] at herror
    cases herror
  · rw [hyielded] at hobj
    exact hread obj hobj
  · obtain ⟨ms, hms, hsum⟩ := OperationalLog.exists_accounts h hstrict hfile hhealth
    have hcount := System.countP_returned_le hms fun h => (h.2 rfl).ge
    have hlong := (records_isPrefix ((hend _ hended).2 rfl)).length_le
    rw [← hyielded] at hlong
    rw [← hsum] at hcount
    exact hcount.trans (Nat.add_le_add_right hlong _)

end

/-! ## Readings that come to their end -/

section

omit [PyRuntime]

/-- The intent of an operation of someone else. -/
def bobIntent : AuditRecord :=
  ⟨{ diskArgs .intent none with actor := .str (lit "bob"), operationId := .str (lit "1") }, by
    decide +kernel⟩

theorem exists_bobLine :
    let _ := PyRuntime.plain
    ∃ a b l, auditLineBytes (.audit bobIntent) = .ok (a :: b :: l) :=
  exists_eq_cons (by decide +kernel)

/-- Its handle, and the call that begins it. -/
def bob : AuditOperation :=
  ⟨1, .str (lit "user.created"), userCreated, .str (lit "bob"), .str (lit "1")⟩

def beginBob : AuditCall := .intent bob.event bob.actor .empty none

/-- What is there when its intent is appended. -/
def AuditState.withBob (s : AuditState Disk) (line : Bytes) : AuditState Disk :=
  { s with
    memory := (s.memory.1, { s.memory.2 with
      content := s.memory.2.content ++ line
      durable := (s.memory.2.content ++ line).length })
    appends := s.appends ++ [⟨1, bobIntent, .ok ()⟩] }

/-- One operation is begun; another one is about to be when the success of the first is recorded,
and is then. -/
theorem runs_bob :
    let _ := PyRuntime.plain
    ∃ (s₁ s₂ s₃ s₄ : AuditState Disk) (k : Except Exc Unit → AuditProg AuditValue)
      (cell : OperationCell) (line : Bytes),
      (userLog.call beginAlice).Runs (auditSem (diskExternals fun _ => {}) 0)
        { memory := ([], .new) } (.ok (.handle alice)) s₁ ∧
      (userLog.call beginBob).Begins (auditSem (diskExternals fun _ => {}) 1) s₁
        (.op (S := auditSig) (.append bobIntent none) k) s₂ ∧
      (userLog.call recordAlice).Runs (auditSem (diskExternals fun _ => {}) 0) s₂ (.ok .none) s₃ ∧
      (k (.ok ())).Runs (auditSem (diskExternals fun _ => {}) 1) (s₃.withBob line)
        (.ok (.handle bob)) s₄ ∧
      auditLineBytes (.audit bobIntent) = .ok line ∧
      s₁.memory.2.closed = false ∧ s₂.memory.2.closed = false ∧ s₃.memory.2.closed = false ∧
      s₃.memory.2.latched = false ∧ s₄.memory.2.closed = false ∧
      s₄.ids = [(0, .str (lit "0")), (1, .str (lit "1"))] ∧ s₃.cells 0 = some cell ∧
      cell.op.operationId = .str (lit "0") ∧ cell.state = .FINALISED := by
  intro _
  obtain ⟨a, b, l, hline⟩ := exists_bobLine
  have hbob : Record.HasLine .audit (.audit bobIntent) := ⟨_, hline⟩
  obtain ⟨hintent, houtcome⟩ := hasLine_alice
  obtain ⟨s₁, s₂, s₃, s₄, k, cell, h₁, h₂, h₃, h₄, hopen₁, hlatched₁, hfirst, hopen₂, hlatched₂,
      hsame, hopen₃, hlatched₃, hboth, hopen₄, hall, hids, hcell, hid, hstate⟩ :
      ∃ (s₁ s₂ s₃ s₄ : AuditState Disk) (k : Except Exc Unit → AuditProg AuditValue)
        (cell : OperationCell),
      (userLog.call beginAlice).run? ((diskScript false (lit "0")).answer 0)
        { memory := ([], .new) } = some (.ok (.handle alice), s₁) ∧
      (userLog.call beginBob).after? ((diskScript false (lit "1")).answer 1) 2 s₁ =
        some (.op (S := auditSig) (.append bobIntent none) k, s₂) ∧
      (userLog.call recordAlice).run? ((diskScript false (lit "0")).answer 0) s₂ =
        some (.ok .none, s₃) ∧
      (k (.ok ())).run? ((diskScript false (lit "1")).answer 1)
        (s₃.withBob (Record.line .audit (.audit bobIntent))) = some (.ok (.handle bob), s₄) ∧
      s₁.memory.2.closed = false ∧ s₁.memory.2.latched = false ∧
      s₁.appends = [⟨0, diskIntent, .ok ()⟩] ∧
      s₂.memory.2.closed = false ∧ s₂.memory.2.latched = false ∧
      s₂.appends = [⟨0, diskIntent, .ok ()⟩] ∧
      s₃.memory.2.closed = false ∧ s₃.memory.2.latched = false ∧
      s₃.appends = [⟨0, diskIntent, .ok ()⟩, ⟨0, diskOutcome, .ok ()⟩] ∧
      s₄.memory.2.closed = false ∧
      s₄.appends = [⟨0, diskIntent, .ok ()⟩, ⟨0, diskOutcome, .ok ()⟩, ⟨1, bobIntent, .ok ()⟩] ∧
      s₄.ids = [(0, .str (lit "0")), (1, .str (lit "1"))] ∧ s₃.cells 0 = some cell ∧
      cell.op.operationId = .str (lit "0") ∧ cell.state = .FINALISED :=
    ⟨_, _, _, _, _, _, rfl, rfl, rfl, rfl, rfl, rfl, rfl, rfl, rfl, rfl, rfl, rfl, rfl, rfl, rfl,
      rfl, rfl, rfl, rfl⟩
  have hr₁ := runs_diskScript h₁ rfl (by
    rw [hfirst]
    simpa [AppendEntry.audited] using hintent)
  have hr₂ := (begins_diskScript (Prog.begins_after? ScriptedExternals.step_of_answer h₂)
    hlatched₁ (by
      rw [hsame]
      simpa [AppendEntry.audited] using hintent)).1
  have hr₃ := runs_diskScript h₃ hlatched₂ (by
    rw [hboth]
    simpa [AppendEntry.audited] using And.intro hintent houtcome)
  have hr₄ := runs_diskScript h₄ hlatched₃ (by
    rw [hall]
    simpa [AppendEntry.audited] using And.intro hintent (And.intro houtcome hbob))
  exact ⟨s₁, s₂, s₃, s₄, k, cell, _, hr₁, hr₂, hr₃, hr₄, hbob.encodeLine, hopen₁, hopen₂, hopen₃,
    hlatched₃, hopen₄, hids, hcell, hid, hstate⟩

/-- A run in which one operation has succeeded while the call that begins another one is about to
append its intent, and then does. -/
theorem exists_live_bob :
    let _ := PyRuntime.plain
    ∃ (cfg cfg' : Config auditSig Exc AuditValue AuditCall (AuditState Disk))
      (cell : OperationCell),
      (userLog.system (diskExternals fun _ => {})).Reachable { memory := ([], .new) } cfg ∧
      ReflTransGen (userLog.system (diskExternals fun _ => {})).Step cfg cfg' ∧
      cfg.shared.memory.2.content.length < cfg'.shared.memory.2.content.length ∧
      (cfg'.shared.ids.map Prod.snd).Nodup ∧ cfg.shared.cells 0 = some cell ∧
      cell.op.operationId = .str (lit "0") ∧ cell.state = .FINALISED := by
  intro _
  obtain ⟨s₁, s₂, s₃, s₄, k, cell, line, hr₁, hr₂, hr₃, hr₄, hline, -, -, hopen, hlatched, -, hids,
    hcell, hid, hstate⟩ := runs_bob
  have h₁ : (userLog.system (diskExternals fun _ => {})).Reachable { memory := ([], .new) }
      ⟨s₁, [] ++ [(beginAlice, .ended (.ok (.handle alice)))]⟩ :=
    System.Reachable.call .refl (fun _ h => by cases h) hr₁
  have h₂ := (h₁.tail (.start (c := beginBob) fun _ h => by cases h)).trans
    (System.steps_begin (i := 1) rfl hr₂)
  have h₃ := System.Reachable.call h₂ (c := recordAlice) (by
    intro op' hop
    cases hop
    refine ⟨⟨0, beginAlice, rfl⟩, fun i c' p op' hi hres _ => ?_⟩
    rcases i with _ | _ | i
    · cases hi
      cases hres
    · cases hi
      rename_i hon
      cases hon
    · simp at hi) hr₃
  have happend : (auditSem (diskExternals fun _ => {}) 1).step s₃ (.append bobIntent none)
      (.ok ()) (s₃.withBob line) :=
    ⟨_, ⟨_, runs_append_disk hline hopen hlatched, by simp⟩, rfl⟩
  have hstep := System.steps_begin (Y := userLog.system (diskExternals fun _ => {}))
    (show [(beginAlice, .ended (.ok (.handle alice))), (beginBob, .op (.append bobIntent none) k),
      (recordAlice, .ended (.ok .none))][1]? = _ from rfl) (.op happend .refl)
  have hrest := System.steps_finish (Y := userLog.system (diskExternals fun _ => {}))
    (show [(beginAlice, .ended (.ok (.handle alice))), (beginBob, k (.ok ())),
      (recordAlice, .ended (.ok .none))][1]? = _ from rfl) hr₄
  have hgrown := (JsonlReader.reads_beside AuditLog.grows (Beside.of_world hrest)).2.length_le
  refine ⟨_, _, cell, h₃, hstep.trans hrest, Nat.lt_of_lt_of_le ?_ hgrown, ?_, hcell, hid, hstate⟩
  · have hpos := List.length_pos_of_ne_nil (isLine_of_lineBytes hline).ne_nil
    show s₃.memory.2.content.length < (s₃.memory.2.content ++ line).length
    rw [List.length_append]
    omega
  · show (s₄.ids.map Prod.snd).Nodup
    rw [hids]
    decide

/-- Its reader has read what there was when the intent of the other operation is appended, and
then comes to its end. -/
theorem live_reading_alice :
    let _ := PyRuntime.plain
    ∃ (cfg cfg' : Config auditSig Exc AuditValue AuditCall (AuditState Disk)) (cell : OperationCell)
      (begun reader : JsonlReader),
      (userLog.system (diskExternals fun _ => {})).Reachable { memory := ([], .new) } cfg ∧
      cfg.shared.cells 0 = some cell ∧ cell.state = .FINALISED ∧
      ReflTransGen (Beside (userLog.system (diskExternals fun _ => {})).Step auditFile)
        (cfg, .init) (cfg, begun) ∧
      begun.iteration = .reading 0 0 cfg.shared.memory.2.content.length
        cfg.shared.memory.2.content ∧
      ReflTransGen (Beside (userLog.system (diskExternals fun _ => {})).Step auditFile)
        (cfg, begun) (cfg', reader) ∧
      cfg.shared.memory.2.content.length < cfg'.shared.memory.2.content.length ∧
      ∃ obj ∈ reader.yielded, ShowsRecord obj .outcome (.str (lit "0")) := by
  intro _
  obtain ⟨cfg, cfg', cell, hr, hsteps, hlong, hids, hcell, hid, hstate⟩ := exists_live_bob
  obtain ⟨reader, error, hbegin, hrest, hended⟩ :
      ∃ reader error, ReflTransGen (Beside _ auditFile) (cfg, .init) (cfg, _) ∧
        ReflTransGen (Beside _ auditFile) (cfg, _) (cfg', reader) ∧
          reader.iteration = .ended error :=
    JsonlReader.exists_run rfl rfl hsteps
  obtain ⟨hnone, -, hshows⟩ := AuditLog.live_reading hr (hbegin.trans hrest) hids
  cases error with
  | some e => exact absurd hended (hnone e)
  | none =>
    obtain ⟨obj, hobj, houtcome⟩ := hshows hended 0 cell hcell hstate
    rw [hid] at houtcome
    exact ⟨cfg, cfg', cell, _, reader, hr, hcell, hstate, hbegin, rfl, hrest, hlong, obj, hobj,
      houtcome⟩

/-- A write that returns makes the file longer. -/
theorem longer_of_write [PyRuntime] {r : OperationalRecord} {line : Bytes} {f f' : SinkFile}
    (hline : encodeLineBytes (.operational r) = .ok line)
    (h : (JsonlSink.write (.operational r)).Runs (allowing faulty) f (.ok ()) f') :
    f.content.length < f'.content.length := by
  have hpost := h.post jsonlSink_write_line
  have hpos := List.length_pos_of_ne_nil (isLine_of_lineBytes hline).ne_nil
  rw [hline] at hpost
  cases hpost with
  | whole =>
    show f.content.length < (f.content ++ line).length
    rw [List.length_append]
    omega

/-- A run in which one call has returned while another one is about to write its record, and then
does. -/
theorem exists_live_drained :
    let _ := PyRuntime.plain
    ∃ cfg cfg', sampleLog.interleaved.Reachable freshLog cfg ∧
      cfg.calls.countP (fun x => System.returned x.2) = 1 ∧
      cfg.shared.health.totalFailures = 0 ∧ ReflTransGen sampleLog.interleaved.Step cfg cfg' ∧
      cfg.shared.file.content.length < cfg'.shared.file.content.length ∧
      cfg'.calls = [(drained, .ret ()), (drained, .ret ())] := by
  intro _
  obtain ⟨k, k', hcall, hwrite, hok, -⟩ := exists_call_drained
  obtain ⟨⟨line, hline⟩, ⟨f₁, hruns₁, hc, hl⟩, -⟩ := @exists_runs_drained freshLog.file rfl rfl
  obtain ⟨-, ⟨f₂, hruns₂, -, -⟩, -⟩ := exists_runs_drained hc hl
  have hnil : sampleLog.interleaved.Reachable freshLog ⟨freshLog, []⟩ := .refl
  have h₀ := reachable_start (c := drained) (reachable_start (c := drained) hnil hcall) hcall
  have h₁ := reachable_perform
    (reachable_perform h₀ (i := 0) rfl (.ok drainedRecord.timestamp) _ trivial rfl hwrite)
    (i := 1) rfl (.ok drainedRecord.timestamp) _ trivial rfl hwrite
  have h₂ := reachable_perform h₁ (i := 0) rfl (.ok ()) ⟨f₁, .init, some (0, false)⟩ trivial
    ⟨hruns₁, rfl, by rw [hline]; rfl⟩ hok
  have h₃ := reachable_perform h₂ (i := 0) rfl () _ trivial rfl rfl
  have hrest : (Prog.op (S := logSig) (.sinkWrite drainedRecord) k').Runs
      (sampleLog.interleaved.sem 1 drained) ⟨f₁, .init, some (0, false)⟩ (.ok ())
      ⟨f₂, .init, some (1, false)⟩ := by
    refine .op (r := (.ok () : Except PyError Unit)) (t := ⟨f₂, .init, some (1, false)⟩)
      ⟨trivial, hruns₂, rfl, by rw [hline]; rfl⟩ ?_
    rw [hok]
    exact .op (r := ()) ⟨trivial, rfl⟩ .ret
  exact ⟨_, _, h₃, rfl, rfl, System.steps_finish (i := 1) rfl hrest, longer_of_write hline hruns₂,
    rfl⟩

theorem live_stream_drained :
    let _ := PyRuntime.plain
    ∃ cfg cfg' begun reader, sampleLog.interleaved.Reachable freshLog cfg ∧
      cfg.calls.countP (fun x => System.returned x.2) = 1 ∧
      ReflTransGen (Beside sampleLog.interleaved.Step streamFile) (cfg, .init) (cfg, begun) ∧
      begun.iteration = .reading 0 0 cfg.shared.file.content.length cfg.shared.file.content ∧
      ReflTransGen (Beside sampleLog.interleaved.Step streamFile) (cfg, begun) (cfg', reader) ∧
      cfg.shared.file.content.length < cfg'.shared.file.content.length ∧
      1 ≤ reader.yielded.length := by
  intro _
  obtain ⟨cfg, cfg', hr, hcalls, hfailures, hsteps, hlong, -⟩ := exists_live_drained
  obtain ⟨reader, error, hbegin, hrest, hended⟩ :
      ∃ reader error, ReflTransGen (Beside _ streamFile) (cfg, .init) (cfg, _) ∧
        ReflTransGen (Beside _ streamFile) (cfg, _) (cfg', reader) ∧
          reader.iteration = .ended error :=
    JsonlReader.exists_run rfl rfl hsteps
  obtain ⟨hnone, -, hcount⟩ := OperationalLog.live_stream hr rfl rfl rfl (hbegin.trans hrest)
  cases error with
  | some e => exact absurd hended (hnone e)
  | none =>
    rw [hcalls, hfailures] at hcount
    exact ⟨cfg, cfg', _, reader, hr, hcalls, hbegin, rfl, hrest, hlong, hcount hended⟩

end

end NmLogging
