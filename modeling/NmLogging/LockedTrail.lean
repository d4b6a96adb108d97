import NmLogging.LiveReading
import NmLogging.LockedLog

/-!
# An audit log down to its locks

Calls of one audit log as threads carry them out, on each handle one at a time, while nobody
closes its sink: an append takes the lock of the stream, looks at the flags, calls `os.write` as
often as it has to, syncs, and as it leaves the lock returns or raises. Both `os.write` and
`os.fsync` raise nothing but `OSError`. Between any two of these steps other calls may go on. The
calls do nothing that they would not do if each append happened at once
(`AuditLog.stepwise_refines`). So a crash in the middle of an append, or between `os.write` and
`os.fsync`, finds a trail like any other (`AuditLog.stepwise_trail`), and so does a reader
(`AuditLog.stepwise_reading`).
-/

open Relation (ReflTransGen)

namespace NmLogging

/-! ## The stream -/

/-- The file of the sink, under the lock of its stream. -/
def trailObjects : Objects Unit where
  sig _ := streamSig
  State _ := Disk
  sem _ := allowing diskStep
  acquire := Iff.rfl
  release := Iff.rfl

variable [PyRuntime]

/-- An append of a record that has a line is one critical section. -/
theorem isSection_append {record : AuditRecord} {line : Bytes}
    (h : auditLineBytes (.audit record) = .ok line) :
    (JsonlAuditSink.append (.audit record)).IsSection := by
  rw [JsonlAuditSink.append, h]
  exact isSection_appendLine _ _ _ _ _

/-- An append, as a method of the stream. -/
def appendMethod {record : AuditRecord} {line : Bytes}
    (h : auditLineBytes (.audit record) = .ok line) :
    Method trailObjects PyError (Except Exc Unit) where
  site := ()
  Val := Unit
  prog := JsonlAuditSink.append (.audit record)
  isSection := isSection_append h
  answers res r := r = .ok () ↔ res = .ok ()

/-- What is outside the facade besides the file. An append of a record that has no line raises. -/
def memoryExternals (trace : PureCall → PureTrace) : Externals Unit where
  clock _ _ _ _ := True
  factory _ _ _ _ := True
  sink record _ _ r _ := ∀ e, auditLineBytes (.audit record) = .error e → r ≠ .ok ()
  atomic _ b := b = false
  trace := trace

/-- Whether a call may start, as far as can be told from how the others have ended. -/
def AuditCall.starts (outs : List (AuditCall × Option (Except Exc AuditValue))) (c : AuditCall) :
    Prop :=
  ∀ op, c.on = some op →
    (∃ (i : Nat) (c' : AuditCall), outs[i]? = some (c', some (.ok (.handle op)))) ∧
      ∀ (i : Nat) (c' : AuditCall) (op' : AuditOperation),
        outs[i]? = some (c', none) → c'.on = some op' → op'.ref ≠ op.ref

/-- The operations of the facade, of which appends are carried out by the sink. -/
def trailCarrier (trace : PureCall → PureTrace) :
    Carrier auditSig trailObjects Exc PyError AuditValue AuditCall (AuditState Unit) where
  method
    | .append record _ =>
      match h : auditLineBytes (.audit record) with
      | .error _ => none
      | .ok _ => some (appendMethod h)
    | .now _ | .newOperationId _ | .supportsAtomic | .heap _ | .handle _ => none
  env i c := auditStep (memoryExternals trace) (c.key i)
  starts := AuditCall.starts

section

variable {trace : PureCall → PureTrace} {record : AuditRecord} {handled : Option Exc}

/-- An append of a record that has a line is carried out by the sink. -/
theorem trailCarrier_append {line : Bytes} (h : auditLineBytes (.audit record) = .ok line) :
    (trailCarrier trace).method (.append record handled) = some (appendMethod h) := by
  simp only [trailCarrier]
  split
  · rename_i hline
    cases hline.symm.trans h
  · rfl

theorem trailCarrier_refused {e : PyError} (h : auditLineBytes (.audit record) = .error e) :
    (trailCarrier trace).method (.append record handled) = none := by
  simp only [trailCarrier]
  split
  · rfl
  · rename_i hline
    cases hline.symm.trans h

end

/-- Calls of a log, interleaved step by step. -/
abbrev AuditLog.stepwise (log : AuditLog) (trace : PureCall → PureTrace) :
    System (objectSig auditSig trailObjects) Exc AuditValue AuditCall
      (Guards trailObjects (AuditState Unit)) :=
  log.system (diskExternals trace) |>.carried (trailCarrier trace)

/-- The file of a run, and the state without it. -/
def AuditState.objects (s : AuditState Disk) : ∀ j, trailObjects.State j := fun _ => s.memory.2

def AuditState.rest (s : AuditState Disk) : AuditState Unit :=
  ⟨(s.memory.1, ()), s.appends, s.ids, s.cells⟩

def AuditState.onDisk (s : AuditState Unit) (f : Disk) : AuditState Disk :=
  ⟨(s.memory.1, f), s.appends, s.ids, s.cells⟩

/-! ## What the methods do -/

omit [PyRuntime] in
theorem AuditCall.canStart_of_starts {cs : List (AuditCall × AuditProg AuditValue)} {c : AuditCall}
    (h : c.starts (outcomes cs)) : c.canStart cs := by
  intro op hon
  obtain ⟨⟨i, c', hi⟩, hothers⟩ := h op hon
  refine ⟨⟨i, c', ?_⟩, fun j d p op' hj hnone => hothers j d op' ?_⟩
  · rw [outcomes, List.getElem?_map, Option.map_eq_some_iff] at hi
    obtain ⟨⟨d, p⟩, hi, he⟩ := hi
    cases p with
    | ret v =>
      cases he
      exact hi
    | throw e => cases he
    | op o k => cases he
  · rw [outcomes, List.getElem?_map, hj, Option.map_some, hnone]

variable {log : AuditLog} {trace : PureCall → PureTrace}

/-- What the methods do is what the operations do that happen at once. -/
theorem AuditLog.carries (log : AuditLog) (trace : PureCall → PureTrace) :
    Carries (log.system (diskExternals trace)) (trailCarrier trace) AuditState.objects
      AuditState.rest where
  canStart h := AuditCall.canStart_of_starts h
  plain {i c s o r x} h henv := by
    refine ⟨x.onDisk s.memory.2, ?_, rfl, rfl⟩
    have spared : s.memory.2.Spared s.memory.2 := ⟨rfl, rfl, rfl, id⟩
    cases o with
    | now handled =>
      obtain ⟨m, -, rfl⟩ := henv
      exact ⟨(m.1, s.memory.2), spared, rfl⟩
    | newOperationId handled =>
      obtain ⟨m, -, rfl⟩ := henv
      exact ⟨(m.1, s.memory.2), spared, rfl⟩
    | append record handled =>
      cases hline : auditLineBytes (.audit record) with
      | ok line => cases (trailCarrier_append hline).symm.trans h
      | error e =>
        obtain ⟨m, hr, rfl⟩ := henv
        refine ⟨(m.1, s.memory.2), ⟨.error e, ?_, ?_⟩, rfl⟩
        · rw [JsonlAuditSink.append, hline]
          exact .throw
        · exact iff_of_false (hr e hline) (by rintro ⟨⟩)
    | supportsAtomic =>
      obtain ⟨hb, rfl⟩ := henv
      exact ⟨hb, rfl⟩
    | heap o =>
      obtain ⟨hr, rfl⟩ := henv
      exact ⟨hr, rfl⟩
    | handle o =>
      obtain ⟨cell, hcell, rfl⟩ := henv
      exact ⟨cell, hcell, rfl⟩
  carried {i c s o m res y r x} h hruns hr henv := by
    refine ⟨x.onDisk y, ?_, funext fun _ => (Function.update_self _ _ _).symm, rfl⟩
    cases o with
    | append record handled =>
      cases hline : auditLineBytes (.audit record) with
      | error e => cases (trailCarrier_refused hline).symm.trans h
      | ok line =>
        cases (trailCarrier_append hline).symm.trans h
        obtain ⟨m, -, rfl⟩ := henv
        exact ⟨(m.1, y), ⟨res, hruns, hr⟩, rfl⟩
    | now handled => cases h
    | newOperationId handled => cases h
    | supportsAtomic => cases h
    | heap o => cases h
    | handle o => cases h

/-! ## Runs -/

variable {log : AuditLog} {trace : PureCall → PureTrace} {heap : Heap}
  {cfg cfg' : Config (objectSig auditSig trailObjects) Exc AuditValue AuditCall
    (Guards trailObjects (AuditState Unit))}

/-- A new file, and no calls. -/
def newTrail (heap : Heap) : Guards trailObjects (AuditState Unit) :=
  .free (fun _ => Disk.new) { memory := (heap, ()) }

/-- **Appends are atomic.** Every run down to the locks, stopped anywhere, is matched by a run in
which appends happen at once: the same calls have been made, those that have ended have ended in
the same way, and the handles, the ids, what the sink was given and, where its lock is free, the
file are the same. -/
theorem AuditLog.stepwise_refines (h : (log.stepwise trace).Reachable (newTrail heap) cfg) :
    ∃ high, (log.system (diskExternals trace)).Reachable { memory := (heap, .new) } high ∧
      outcomes cfg.calls = outcomes high.calls ∧ cfg.shared.rest = high.shared.rest ∧
      (cfg.shared.holder () = none → cfg.shared.state () = high.shared.memory.2) := by
  obtain ⟨high, hhigh, hmatches⟩ := exists_matches (log.carries trace)
    (s := { memory := (heap, Disk.new) }) h
  exact ⟨high, hhigh, hmatches.outcomes, hmatches.rest, hmatches.free ()⟩

omit [PyRuntime] in
/-- Any operation of an append can leave alone the file and what is synced of it. -/
theorem diskStep_idle (o : StreamOp) (f : Disk) :
    ∃ r f', diskStep f (.act o) r f' ∧ (f'.content, f'.durable) = (f.content, f.durable) := by
  cases o with
  | isClosed => exact ⟨f.closed, f, ⟨rfl, rfl⟩, rfl⟩
  | setClosed => exact ⟨(), _, rfl, rfl⟩
  | isLatched => exact ⟨f.latched, f, ⟨rfl, rfl⟩, rfl⟩
  | setLatched => exact ⟨(), _, rfl, rfl⟩
  | osWrite data => exact ⟨.osError, f, .inl ⟨rfl, rfl⟩, rfl⟩
  | osFsync => exact ⟨.osError, f, .inl ⟨rfl, rfl⟩, rfl⟩
  | osClose => exact ⟨.osError, f, ⟨.inl rfl, rfl⟩, rfl⟩

/-- However an append has ended, the log can be told, and that leaves its handles. -/
theorem trailCarrier_answers {i : Nat} {c : AuditCall} {x : AuditState Unit} {o : AuditOp}
    {m : Method trailObjects PyError (auditSig.Ret o)} (res : Except PyError m.Val)
    (h : (trailCarrier trace).method o = some m) :
    ∃ r x', m.answers res r ∧ (trailCarrier trace).env i c x o r x' ∧
      x'.cells = x.cells ∧ x'.ids = x.ids := by
  cases o with
  | append record handled =>
    cases hline : auditLineBytes (.audit record) with
    | error e => cases (trailCarrier_refused hline).symm.trans h
    | ok line =>
      cases (trailCarrier_append hline).symm.trans h
      have hnot : ∀ {r : Except Exc Unit} (e : PyError),
          auditLineBytes (.audit record) = .error e → r ≠ .ok () := by
        intro r e he
        rw [hline] at he
        cases he
      cases res with
      | ok a => exact ⟨.ok (), _, iff_of_true rfl rfl, ⟨x.memory, hnot, rfl⟩, rfl, rfl⟩
      | error e =>
        exact ⟨.error ⟨0, AuditPersistenceError⟩, _, iff_of_false (by rintro ⟨⟩) (by rintro ⟨⟩),
          ⟨x.memory, hnot, rfl⟩, rfl, rfl⟩
  | now handled => cases h
  | newOperationId handled => cases h
  | supportsAtomic => cases h
  | heap o => cases h
  | handle o => cases h

/-- The file of the sink. -/
def trailDisk (cfg : Config (objectSig auditSig trailObjects) Exc AuditValue AuditCall
    (Guards trailObjects (AuditState Unit))) : Disk :=
  cfg.shared.state ()

/-- At any moment, be it in the middle of an append, the file looks as it does in a run in which
appends happen at once. -/
theorem AuditLog.exists_looks (h : (log.stepwise trace).Reachable (newTrail heap) cfg) :
    ∃ high, (log.system (diskExternals trace)).Reachable { memory := (heap, .new) } high ∧
      high.shared.memory.2.content = (trailDisk cfg).content ∧
      high.shared.memory.2.durable = (trailDisk cfg).durable ∧
      high.shared.cells = cfg.shared.rest.cells ∧ high.shared.ids = cfg.shared.rest.ids := by
  obtain ⟨high, hhigh, hmatches⟩ := exists_matches (log.carries trace)
    (s := { memory := (heap, Disk.new) }) h
  obtain ⟨high', hsteps, hlook, hcells, hids⟩ := hmatches.exists_looks (log.carries trace) (j := ())
    (J := fun x x' => x'.cells = x.cells ∧ x'.ids = x.ids) (fun _ => ⟨rfl, rfl⟩)
    diskStep_idle trailCarrier_answers
  exact ⟨high', hhigh.trans hsteps, congrArg Prod.fst hlook, congrArg Prod.snd hlook, hcells, hids⟩

/-- **A crash at any step.** Whenever the system stops, be it between two calls of `os.write` or
before an `os.fsync`, and whatever is lost that was not synced, a reader of what is left ends
without a `ReaderError`, and what it yields is linked. If nothing is lost that was synced, it
shows the intent of every handle and the outcome of every finalised one. -/
theorem AuditLog.stepwise_trail (h : (log.stepwise trace).Reachable (newTrail heap) cfg)
    (hids : (cfg.shared.rest.ids.map Prod.snd).Nodup) (k : Nat) :
    (iterate ((trailDisk cfg).content.take k)).error = none ∧
    Linked (iterate ((trailDisk cfg).content.take k)).records ∧
    ((trailDisk cfg).durable ≤ k → ∀ ref cell, cfg.shared.rest.cells ref = some cell →
      (∃ obj ∈ (iterate ((trailDisk cfg).content.take k)).records, ∃ record : AuditRecord,
        record.ShownBy obj ∧ record.stage = .intent ∧ record.BelongsTo cell.op) ∧
      (cell.state = .FINALISED →
        ∃ obj ∈ (iterate ((trailDisk cfg).content.take k)).records,
          ShowsRecord obj .outcome cell.op.operationId)) := by
  obtain ⟨high, hhigh, hcontent, hdurable, hcells, hids'⟩ := AuditLog.exists_looks h
  rw [← hcontent, ← hdurable, ← hcells]
  rw [← hids'] at hids
  exact ⟨(AuditLog.reads_trail hhigh k).1, AuditLog.linked hhigh hids k, fun hk ref cell hc =>
    ⟨AuditLog.intent_read hhigh hids hk hc, AuditLog.outcome_read hhigh hids hk hc⟩⟩

/-! ## Reading while calls append -/

/-- What a reader of the file gets. -/
def trailFile (cfg : Config (objectSig auditSig trailObjects) Exc AuditValue AuditCall
    (Guards trailObjects (AuditState Unit))) : Option Bytes :=
  some (trailDisk cfg).content

omit [PyRuntime] in
theorem diskStep_grows {f f' : Disk} {o : StreamOp} {r : streamSig.Ret o}
    (h : diskStep f (.act o) r f') : f.content <+: f'.content := by
  cases o with
  | isClosed => rw [h.2]
  | setClosed => rw [show f' = _ from h]
  | isLatched => rw [h.2]
  | setLatched => rw [show f' = _ from h]
  | osWrite data =>
    rcases h with ⟨-, rfl⟩ | ⟨n, -, -, rfl⟩
    · exact List.prefix_rfl
    · exact List.prefix_append _ _
  | osFsync => rcases h with ⟨-, rfl⟩ | ⟨-, rfl⟩ <;> exact List.prefix_rfl
  | osClose => rw [h.2]

theorem AuditLog.stepwise_grows (h : (log.stepwise trace).Step cfg cfg') :
    contentOf trailFile cfg <+: contentOf trailFile cfg' := by
  cases h with
  | start _ => exact List.prefix_rfl
  | perform _ hs =>
    exact Guards.step_state hs (j := ()) (R := fun f f' : Disk => f.content <+: f'.content)
      (fun _ => List.prefix_rfl) diskStep_grows

theorem AuditLog.stepwise_ids (h : ReflTransGen (log.stepwise trace).Step cfg cfg') :
    cfg.shared.rest.ids <+: cfg'.shared.rest.ids := by
  induction h with
  | refl => exact List.prefix_rfl
  | tail _ hs ih =>
    refine ih.trans ?_
    cases hs with
    | start _ => exact List.prefix_rfl
    | perform _ hs =>
      exact Guards.step_rest hs (R := fun x x' : AuditState Unit => x.ids <+: x'.ids)
        (fun _ => List.prefix_rfl) auditStep_ids

/-- **Reading between any two steps.** A reader that is made at any moment of a run on a new file,
be it in the middle of an append, and iterates while calls go on, ends without a `ReaderError`, if
it ends. What it has yielded is linked, and if it has come to the end, shows the outcome of every
handle that was finalised when the reader was made. -/
theorem AuditLog.stepwise_reading {reader : JsonlReader}
    (h : (log.stepwise trace).Reachable (newTrail heap) cfg)
    (hrun : ReflTransGen (Beside (log.stepwise trace).Step trailFile) (cfg, .init) (cfg', reader))
    (hids : (cfg'.shared.rest.ids.map Prod.snd).Nodup) :
    (∀ e, reader.iteration ≠ .ended (some e)) ∧ Linked reader.yielded ∧
    (reader.iteration = .ended none → ∀ ref cell, cfg.shared.rest.cells ref = some cell →
      cell.state = .FINALISED →
        ∃ obj ∈ reader.yielded, ShowsRecord obj .outcome cell.op.operationId) := by
  have hworld := Beside.transGen_world hrun
  obtain ⟨high, hhigh, hcontent, -, hcells, hids₁⟩ := AuditLog.exists_looks h
  obtain ⟨high', hhigh', hcontent', -, -, hids₂⟩ := AuditLog.exists_looks (h.trans hworld)
  have hnd : (high.shared.ids.map Prod.snd).Nodup := by
    rw [hids₁]
    exact hids.sublist ((AuditLog.stepwise_ids hworld).map Prod.snd).sublist
  obtain ⟨k, -, hyielded, hend⟩ :=
    (JsonlReader.reads_beside AuditLog.stepwise_grows hrun).1.exists_take
  rw [show contentOf trailFile cfg' = (trailDisk cfg').content from rfl, ← hcontent']
    at hyielded hend
  refine ⟨fun e he => ?_, ?_, fun hended ref cell hc hfin => ?_⟩
  · have herror := (AuditLog.reads_trail hhigh' k).1
    rw [(hend _ he).1] at herror
    cases herror
  · rw [hyielded]
    exact AuditLog.linked hhigh' (hids₂ ▸ hids) k
  · obtain ⟨written, torn, ht⟩ := exists_trail hhigh
    rw [← hcells] at hc
    obtain ⟨obj, hobj, hshows⟩ := AuditLog.outcome_read hhigh hnd ht.bound hc hfin
    refine ⟨obj, ?_, hshows⟩
    rw [hyielded]
    refine (records_isPrefix ((hend _ hended).2 rfl)).subset ?_
    rw [List.take_length, hcontent] at hobj
    exact hobj

/-! ## An operation by itself -/

/-- A sink that is open in the end has been open all the time. -/
theorem auditStep_open {k : Nat} {s s' : AuditState Disk} {o : AuditOp} {r : auditSig.Ret o}
    (hs : auditStep (diskExternals trace) k s o r s') (h : s'.memory.2.closed = false) :
    s.memory.2.closed = false := by
  rw [← Bool.not_eq_true] at h ⊢
  refine fun hc => h ?_
  cases o with
  | now handled =>
    obtain ⟨m, hm, rfl⟩ := hs
    exact hm.closed hc
  | newOperationId handled =>
    obtain ⟨m, hm, rfl⟩ := hs
    exact hm.closed hc
  | append record handled =>
    obtain ⟨m, ⟨res, hruns, -⟩, rfl⟩ := hs
    have hpost := hruns.post jsonlAuditSink_append_disk
    show m.2.closed = true
    cases hline : auditLineBytes (.audit record) with
    | error e =>
      rw [hline] at hpost
      rw [hpost.2, hc]
    | ok line =>
      rw [hline] at hpost
      rw [(DiskAppend.blocked hpost (.inl hc)).1, hc]
  | supportsAtomic =>
    obtain ⟨-, rfl⟩ := hs
    exact hc
  | heap o =>
    obtain ⟨-, rfl⟩ := hs
    exact hc
  | handle o =>
    obtain ⟨cell, -, rfl⟩ := hs
    exact hc

omit [PyRuntime] in
theorem Disk.Spared.eq {f f' : Disk} (h : f.Spared f') (hopen : f'.closed = false) : f' = f := by
  obtain ⟨content, durable, closed, latched⟩ := f
  obtain ⟨content', durable', closed', latched'⟩ := f'
  obtain ⟨hcontent, hdurable, hlatched, hclosed⟩ := h
  cases hcontent
  cases hdurable
  cases hlatched
  cases hopen
  cases closed with
  | false => rfl
  | true => cases hclosed rfl

/-- What the operations do that happen at once, the methods do, as long as nobody closes the
sink. -/
theorem trailCarrier_complete {i : Nat} {c : AuditCall} {s s' : AuditState Disk} {o : AuditOp}
    {r : auditSig.Ret o} (hs : auditStep (diskExternals trace) (c.key i) s o r s')
    (hopen : s'.memory.2.closed = false) :
    ((trailCarrier trace).method o = none ∧ s'.objects = s.objects ∧
      (trailCarrier trace).env i c s.rest o r s'.rest) ∨
    ∃ m res y, (trailCarrier trace).method o = some m ∧
      m.prog.Runs (trailObjects.sem m.site) (s.objects m.site) res y ∧
      s'.objects = Function.update s.objects m.site y ∧
      m.answers res r ∧ (trailCarrier trace).env i c s.rest o r s'.rest := by
  cases o with
  | now handled =>
    obtain ⟨m, hm, rfl⟩ := hs
    exact .inl ⟨rfl, funext fun _ => hm.eq hopen, (m.1, ()), trivial, rfl⟩
  | newOperationId handled =>
    obtain ⟨m, hm, rfl⟩ := hs
    exact .inl ⟨rfl, funext fun _ => hm.eq hopen, (m.1, ()), trivial, rfl⟩
  | append record handled =>
    obtain ⟨m, ⟨res, hruns, hr⟩, rfl⟩ := hs
    cases hline : auditLineBytes (.audit record) with
    | error e =>
      have hpost := hruns.post jsonlAuditSink_append_disk
      rw [hline] at hpost
      obtain ⟨rfl, hfile⟩ := hpost
      exact .inl ⟨trailCarrier_refused hline, funext fun _ => hfile, (m.1, ()),
        fun _ _ hok => (by cases hr.mp hok), rfl⟩
    | ok line =>
      refine .inr ⟨appendMethod hline, res, m.2, trailCarrier_append hline, hruns,
        funext fun _ => ?_, hr, (m.1, ()), fun e he => ?_, rfl⟩
      · exact (Function.update_self (β := fun _ => Disk) () _ _).symm
      · rw [hline] at he
        cases he
  | supportsAtomic =>
    obtain ⟨hb, rfl⟩ := hs
    exact .inl ⟨rfl, rfl, hb, rfl⟩
  | heap o =>
    obtain ⟨hr, rfl⟩ := hs
    exact .inl ⟨rfl, rfl, hr, rfl⟩
  | handle o =>
    obtain ⟨cell, hcell, rfl⟩ := hs
    exact .inl ⟨rfl, rfl, cell, hcell, rfl⟩

/-- A call by itself does down to the locks what it does if appends happen at once. -/
theorem AuditLog.begins_stepwise (log : AuditLog) {i : Nat} {c : AuditCall}
    {s s' : AuditState Disk} {p q : AuditProg AuditValue}
    (h : p.Begins (auditSem (diskExternals trace) (c.key i)) s q s')
    (hopen : s'.memory.2.closed = false) :
    (p.carried (trailCarrier trace)).Begins ((log.stepwise trace).sem i c)
      (.free s.objects s.rest) (q.carried (trailCarrier trace)) (.free s'.objects s'.rest) :=
  begins_carried (P := fun s => s.memory.2.closed = false) auditStep_open trailCarrier_complete h
    hopen

theorem AuditLog.runs_stepwise (log : AuditLog) {i : Nat} {c : AuditCall} {s s' : AuditState Disk}
    {res : Except Exc AuditValue}
    (h : (log.call c).Runs (auditSem (diskExternals trace) (c.key i)) s res s')
    (hopen : s'.memory.2.closed = false) :
    ((log.stepwise trace).prog c).Runs ((log.stepwise trace).sem i c) (.free s.objects s.rest) res
      (.free s'.objects s'.rest) := by
  have hbegins := log.begins_stepwise h.begins hopen
  rw [carried_ended] at hbegins
  exact Prog.runs_iff_begins.mpr hbegins

/-- An append whose first `os.write` takes one byte, as a method. -/
theorem begins_appendMethod {record : AuditRecord} {a b : UInt8} {l : Bytes}
    (h : auditLineBytes (.audit record) = .ok (a :: b :: l)) {f : Disk} (hc : f.closed = false)
    (hl : f.latched = false) :
    ∃ q, (appendMethod h).body.Begins (allowing diskStep) f q
        { f with content := f.content ++ [a] } ∧
      q.Runs (allowing diskStep) { f with content := f.content ++ [a] } (.ok ())
        { f with content := f.content ++ a :: b :: l
                 durable := (f.content ++ a :: b :: l).length } := by
  have hbody : (appendMethod h).body = (appendLine (persistenceError "audit sink is closed")
      (persistenceError "audit stream latched after a partial write")
      (persistenceError "audit append did not achieve durability") true
      (a :: b :: l)).unlocked := by
    show (JsonlAuditSink.append (.audit record)).unlocked = _
    rw [JsonlAuditSink.append, h]
    rfl
  rw [hbody]
  have hsecond : diskStep { f with content := f.content ++ [a] } (.act (.osWrite (b :: l)))
      (.returned (Int.ofNat (l.length + 1))) { f with content := f.content ++ a :: b :: l } :=
    .inr ⟨l.length + 1, Nat.le_refl _, rfl, by simp⟩
  exact begins_appendLine ⟨hc.symm, rfl⟩ ⟨hl.symm, rfl⟩
    (.inr ⟨1, Nat.succ_le_succ (Nat.zero_le _), rfl, rfl⟩) hsecond (.inr ⟨rfl, rfl⟩)

/-- A call that is about to append: it holds the lock and has written one byte of the line; then
it has written the line, and synced. -/
theorem AuditLog.begins_line (log : AuditLog) (trace : PureCall → PureTrace)
    {record : AuditRecord} (handled : Option Exc) {a b : UInt8} {l : Bytes}
    (h : auditLineBytes (.audit record) = .ok (a :: b :: l))
    {k : Except Exc Unit → AuditProg AuditValue} {i : Nat} {c : AuditCall} {s : AuditState Disk}
    (hc : s.memory.2.closed = false) (hl : s.memory.2.latched = false) :
    ∃ (p : Prog (objectSig auditSig trailObjects) Exc AuditValue)
      (t : Guards trailObjects (AuditState Unit)),
      ((Prog.op (S := auditSig) (.append record handled) k).carried (trailCarrier trace)).Begins
        ((log.stepwise trace).sem i c) (.free s.objects s.rest) p t ∧
      t.holder () = some i ∧
      (t.state () : Disk) = { s.memory.2 with content := s.memory.2.content ++ [a] } ∧
      t.rest = s.rest ∧
      p.Begins ((log.stepwise trace).sem i c) t ((k (.ok ())).carried (trailCarrier trace))
        (.free
          (fun _ => { s.memory.2 with
            content := s.memory.2.content ++ a :: b :: l
            durable := (s.memory.2.content ++ a :: b :: l).length })
          { s.rest with appends := s.appends ++ [⟨c.key i, record, .ok ()⟩] }) := by
  obtain ⟨q, hpart, hrest⟩ := begins_appendMethod h hc hl
  let m : Method trailObjects PyError (auditSig.Ret (.append record handled)) := appendMethod h
  have hx : (trailCarrier trace).env i c s.rest (.append record handled) (.ok ())
      { s.rest with appends := s.appends ++ [⟨c.key i, record, .ok ()⟩] } :=
    ⟨(s.memory.1, ()), fun e he => (by rw [h] at he; cases he), rfl⟩
  have hbody : m.body.Begins (trailObjects.sem m.site) (s.objects m.site) q
      ({ s.memory.2 with content := s.memory.2.content ++ [a] } : Disk) := hpart
  obtain ⟨p, hbegins, hleaves⟩ := exists_middle (i := i) (m := m) (k := k)
    (trailCarrier_append h) hbody hrest (iff_of_true rfl rfl) hx
  exact ⟨p, _, hbegins, rfl, rfl, rfl, hleaves⟩

section

omit [PyRuntime]

/-- Two operations: the success of the first is recorded while the intent of the second is about to
be appended. Then one byte of that is written; and then the rest. -/
theorem exists_reachable_stepwise :
    let _ := PyRuntime.plain
    ∃ (cfg cfg' : Config (objectSig auditSig trailObjects) Exc AuditValue AuditCall
        (Guards trailObjects (AuditState Unit))) (cell : OperationCell),
      (userLog.stepwise fun _ => {}).Reachable (newTrail []) cfg ∧
      cfg.shared.holder () = some 1 ∧ cfg.shared.rest.cells 0 = some cell ∧
      cell.op.operationId = .str (lit "0") ∧ cell.state = .FINALISED ∧
      ReflTransGen (userLog.stepwise fun _ => {}).Step cfg cfg' ∧
      cfg'.shared.rest.ids = [(0, .str (lit "0")), (1, .str (lit "1"))] ∧
      cfg'.calls = [(beginAlice, .ended (.ok (.handle alice))),
        (beginBob, .ended (.ok (.handle bob))), (recordAlice, .ended (.ok .none))] := by
  intro _
  let Y := userLog.stepwise fun _ => {}
  obtain ⟨s₁, s₂, s₃, s₄, k, cell, line, hr₁, hr₂, hr₃, hr₄, hline, hopen₁, hopen₂, hopen₃,
    hlatched₃, hopen₄, hids, hcell, hid, hstate⟩ := runs_bob
  obtain ⟨a, b, l, hbytes⟩ := exists_bobLine
  obtain rfl : line = a :: b :: l := Except.ok.inj (hline.symm.trans hbytes)
  have h₁ : Y.Reachable (newTrail [])
      ⟨.free s₁.objects s₁.rest, [] ++ [(beginAlice, .ended (.ok (.handle alice)))]⟩ :=
    System.Reachable.call .refl (fun _ h => by cases h)
      (userLog.runs_stepwise (i := 0) (c := beginAlice) hr₁ hopen₁)
  have h₂ := (h₁.tail (.start (c := beginBob) fun _ h => by cases h)).trans
    (System.steps_begin (i := 1) rfl
      (userLog.begins_stepwise (i := 1) (c := beginBob) hr₂ hopen₂))
  have h₃ := System.Reachable.call h₂ (c := recordAlice) (by
    intro op hop
    cases hop
    refine ⟨⟨0, beginAlice, rfl⟩, fun i c op' hi hon => ?_⟩
    rcases i with _ | _ | i
    · cases hi
    · have hc : beginBob = c := congrArg Prod.fst (Option.some.inj hi)
      rw [← hc] at hon
      cases hon
    · cases hi) (userLog.runs_stepwise (i := 2) (c := recordAlice) hr₃ hopen₃)
  obtain ⟨p, t, hinside, hheld, -, hrest, hwritten⟩ :=
    userLog.begins_line (fun _ => {}) none hbytes (k := k) (i := 1) (c := beginBob) hopen₃ hlatched₃
  have h₄ := h₃.trans (System.steps_begin (i := 1) rfl hinside)
  have hends := userLog.begins_stepwise (i := 1) (c := beginBob) hr₄.begins hopen₄
  rw [carried_ended] at hends
  refine ⟨_, _, cell, h₄, hheld, ?_, hid, hstate,
    System.steps_begin (i := 1) rfl (hwritten.trans hends), hids, rfl⟩
  show t.rest.cells 0 = some cell
  rw [hrest]
  exact hcell

/-- All three calls have ended in the same way where appends happen at once. -/
theorem stepwise_refines_alice :
    let _ := PyRuntime.plain
    ∃ (cfg cfg' : Config (objectSig auditSig trailObjects) Exc AuditValue AuditCall
        (Guards trailObjects (AuditState Unit))) (high : _),
      (userLog.stepwise fun _ => {}).Reachable (newTrail []) cfg ∧
      cfg.shared.holder () = some 1 ∧ ReflTransGen (userLog.stepwise fun _ => {}).Step cfg cfg' ∧
      (userLog.system (diskExternals fun _ => {})).Reachable { memory := ([], .new) } high ∧
      outcomes high.calls = [(beginAlice, some (.ok (.handle alice))),
        (beginBob, some (.ok (.handle bob))), (recordAlice, some (.ok .none))] := by
  intro _
  obtain ⟨cfg, cfg', -, hr, hheld, -, -, -, hsteps, -, hcalls⟩ := exists_reachable_stepwise
  obtain ⟨high, hhigh, houtcomes, -⟩ := AuditLog.stepwise_refines (hr.trans hsteps)
  refine ⟨cfg, cfg', high, hr, hheld, hsteps, hhigh, houtcomes.symm.trans ?_⟩
  rw [hcalls]
  rfl

/-- A crash in the middle of the second append. -/
theorem stepwise_trail_alice :
    let _ := PyRuntime.plain
    ∃ (cfg : Config (objectSig auditSig trailObjects) Exc AuditValue AuditCall
        (Guards trailObjects (AuditState Unit))) (obj : JsonObject),
      (userLog.stepwise fun _ => {}).Reachable (newTrail []) cfg ∧
      cfg.shared.holder () = some 1 ∧
      obj ∈ (iterate ((trailDisk cfg).content.take (trailDisk cfg).durable)).records ∧
        ShowsRecord obj .outcome (.str (lit "0")) := by
  intro _
  obtain ⟨cfg, cfg', cell, hr, hheld, hcell, hid, hstate, hsteps, hids, -⟩ :=
    exists_reachable_stepwise
  have hnd : (cfg.shared.rest.ids.map Prod.snd).Nodup := by
    refine List.Nodup.sublist ((AuditLog.stepwise_ids hsteps).map Prod.snd).sublist ?_
    rw [hids]
    decide
  obtain ⟨-, -, hshown⟩ := AuditLog.stepwise_trail hr hnd (trailDisk cfg).durable
  obtain ⟨obj, hobj, hshows⟩ := (hshown (Nat.le_refl _) 0 cell hcell).2 hstate
  rw [hid] at hshows
  exact ⟨cfg, obj, hr, hheld, hobj, hshows⟩

/-- The reader reads a block in the middle of the second append, and comes to its end when all
calls have. -/
theorem stepwise_reading_alice :
    let _ := PyRuntime.plain
    ∃ (cfg cfg' : Config (objectSig auditSig trailObjects) Exc AuditValue AuditCall
        (Guards trailObjects (AuditState Unit))) (begun reader : JsonlReader),
      (userLog.stepwise fun _ => {}).Reachable (newTrail []) cfg ∧
      cfg.shared.holder () = some 1 ∧
      ReflTransGen (Beside (userLog.stepwise fun _ => {}).Step trailFile) (cfg, .init)
        (cfg, begun) ∧
      begun.iteration = .reading 0 0 (trailDisk cfg).content.length (trailDisk cfg).content ∧
      ReflTransGen (Beside (userLog.stepwise fun _ => {}).Step trailFile) (cfg, begun)
        (cfg', reader) ∧
      cfg'.calls = [(beginAlice, .ended (.ok (.handle alice))),
        (beginBob, .ended (.ok (.handle bob))), (recordAlice, .ended (.ok .none))] ∧
      ∃ obj ∈ reader.yielded, ShowsRecord obj .outcome (.str (lit "0")) := by
  intro _
  obtain ⟨cfg, cfg', cell, hr, hheld, hcell, hid, hstate, hsteps, hids, hcalls⟩ :=
    exists_reachable_stepwise
  have hnd : (cfg'.shared.rest.ids.map Prod.snd).Nodup := by rw [hids]; decide
  obtain ⟨reader, error, hbegin, hrest, hended⟩ :
      ∃ reader error, ReflTransGen (Beside _ trailFile) (cfg, .init) (cfg, _) ∧
        ReflTransGen (Beside _ trailFile) (cfg, _) (cfg', reader) ∧
          reader.iteration = .ended error :=
    JsonlReader.exists_run rfl rfl hsteps
  obtain ⟨hnone, -, hshows⟩ := AuditLog.stepwise_reading hr (hbegin.trans hrest) hnd
  cases error with
  | some e => exact absurd hended (hnone e)
  | none =>
    obtain ⟨obj, hobj, houtcome⟩ := hshows hended 0 cell hcell hstate
    rw [hid] at houtcome
    exact ⟨cfg, cfg', _, reader, hr, hheld, hbegin, rfl, hrest, hcalls, obj, hobj, houtcome⟩

end

end NmLogging
