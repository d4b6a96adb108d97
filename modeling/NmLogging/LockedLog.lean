import NmLogging.Framework.Objects
import NmLogging.HealthReads
import NmLogging.OperationalStream
import NmLogging.Reader.Racing

/-!
# An operational log down to its locks

Calls of one log as threads carry them out: a write takes the lock of the stream, looks at the
flags, calls `os.write` as often as it has to, and releases the lock; a mark takes the lock of
the health and reads and writes its fields. Each `os.write` takes any part of what it is given or
raises `OSError`, and nothing else. Between any two of these steps other calls may go on.
Yet the calls do nothing that they would not do if each write and each mark happened at once
(`OperationalLog.locked_refines`). So what is known of those runs is known of these: that no call
is unaccounted for (`OperationalLog.locked_accounts`), and that a reader may read in the middle of
a write (`OperationalLog.locked_reading`).
-/

open Relation (ReflTransGen)

namespace NmLogging

/-! ## The objects -/

/-- What an operational log shares that has a lock. -/
inductive LogObject where
  | stream
  | health
  deriving DecidableEq

/-- Accesses to the fields of a health; its lock protects the others. -/
def healthAccess (health : LoggingHealth) :
    (o : (lockSig healthSig).Op) → (lockSig healthSig).Ret o → LoggingHealth → Prop
  | .acquire, _, health' => health' = health
  | .release, _, health' => health' = health
  | .act o, r, health' => healthStep health o = (r, health')

/-- The file of the sink, in which an `os.write` leaves any part of what it is given or fails, and
the fields of the health. -/
def logObjects : Objects LogObject where
  sig
    | .stream => streamSig
    | .health => healthSig
  State
    | .stream => SinkFile
    | .health => LoggingHealth
  sem
    | .stream => allowing faulty
    | .health => allowing healthAccess
  acquire {j _ _} := by cases j <;> exact Iff.rfl
  release {j _ _} := by cases j <;> exact Iff.rfl

/-! ## The methods -/

theorem acts_writeLoop (data : Bytes) (rounds n : Nat) : (writeLoop data rounds n).Acts := by
  induction rounds generalizing n with
  | zero => exact .ret
  | succ rounds ih =>
    rw [writeLoop]
    split
    · refine (Prog.acts_act (S := streamSig) (.osWrite _)).bind fun r => ?_
      cases (r : OsResult Int) with
      | returned k =>
        show Prog.Acts (if k ≤ 0 then _ else _)
        split
        · exact .ret
        · exact ih _
      | osError => exact .ret
      | raised e => exact .throw
    · exact .ret

theorem acts_writeCompletely (data : Bytes) (doFsync : Bool) :
    (writeCompletely data doFsync).Acts := by
  refine (acts_writeLoop _ _ _).bind fun n => ?_
  split
  · split <;> exact .ret
  · split
    · refine (Prog.acts_act (S := streamSig) .osFsync).bind fun r => ?_
      cases (r : OsResult Unit) with
      | returned _ => exact .ret
      | osError => exact .ret
      | raised e => exact .throw
    · exact .ret

/-- What an append does under the lock. -/
theorem unlocked_appendLine (closed latched failed : PyError) (doFsync : Bool) (data : Bytes) :
    (appendLine closed latched failed doFsync data).unlocked = (do
      if ← isClosed then .throw closed
      else if ← isLatched then .throw latched
      else
        let result ← writeCompletely data doFsync
        if result = .WRITE_PARTIAL then setLatched
        if result ≠ .WRITE_COMPLETE then .throw failed) := by
  refine Prog.Acts.unlocked_withLock
    ((Prog.acts_act (S := streamSig) .isClosed).bind fun (b : Bool) => ?_)
  split
  · exact .throw
  · refine (Prog.acts_act (S := streamSig) .isLatched).bind fun (b : Bool) => ?_
    split
    · exact .throw
    · refine (acts_writeCompletely data doFsync).bind fun result => ?_
      cases result with
      | WRITE_COMPLETE => exact .ret
      | WRITE_PARTIAL => exact (Prog.acts_act (S := streamSig) .setLatched).bind fun _ => .throw
      | WRITE_NOTHING => exact .throw
      | WRITE_SYNC_FAILED => exact .throw

/-- An append is one critical section. -/
theorem isSection_appendLine (closed latched failed : PyError) (doFsync : Bool) (data : Bytes) :
    (appendLine closed latched failed doFsync data).IsSection := by
  rw [Prog.IsSection, unlocked_appendLine]
  rfl

section

variable {σ : Type} {M : Semantics (lockSig streamSig) σ} {s s₁ s₂ s₃ : σ} {doFsync : Bool}
  {a b : UInt8} {l : Bytes}

/-- `write_completely`, where the first `os.write` takes one byte, and the second the rest. -/
theorem begins_writeCompletely
    (hfirst : M.step s (.act (.osWrite (a :: b :: l))) (.returned 1) s₁)
    (hsecond : M.step s₁ (.act (.osWrite (b :: l))) (.returned (Int.ofNat (l.length + 1))) s₂)
    (hsync : if doFsync then M.step s₂ (.act .osFsync) (.returned ()) s₃ else s₃ = s₂) :
    ∃ q, (writeCompletely (a :: b :: l) doFsync).Begins M s q s₁ ∧
      q.Runs M s₁ (.ok .WRITE_COMPLETE) s₃ := by
  have hbegins : (writeLoop (a :: b :: l) (a :: b :: l).length 0).Begins M s
      (writeLoop (a :: b :: l) (l.length + 1) 1) s₁ := by
    rw [List.length_cons, writeLoop_round (by simp)]
    exact .op hfirst .refl
  have hloop : (writeLoop (a :: b :: l) (l.length + 1) 1).Runs M s₁ (.ok (l.length + 2)) s₂ := by
    rw [writeLoop_round (by simp)]
    refine .op hsecond ?_
    show (if Int.ofNat (l.length + 1) ≤ 0 then Prog.ret 1 else
      writeLoop (a :: b :: l) l.length (1 + (l.length + 1)) : SinkProg Nat).Runs M s₂ _ _
    rw [if_neg (by simp only [Int.ofNat_eq_natCast]; omega), Nat.add_comm 1]
    cases l with
    | nil => exact .ret
    | cons c l =>
      rw [List.length_cons, writeLoop, if_neg (by simp)]
      exact .ret
  rw [writeCompletely]
  refine ⟨_, hbegins.elim, .elim hloop ?_⟩
  show (if l.length + 2 ≠ (a :: b :: l).length then _ else _ : SinkProg WriteStatus).Runs M _ _ _
  rw [if_neg (by simp)]
  cases doFsync with
  | true => exact .op hsync .ret
  | false =>
    obtain rfl : s₃ = s₂ := hsync
    exact .ret

/-- An append of a line in these two parts. -/
theorem begins_appendLine {closed latched failed : PyError}
    (hclosed : M.step s (.act .isClosed) false s) (hlatched : M.step s (.act .isLatched) false s)
    (hfirst : M.step s (.act (.osWrite (a :: b :: l))) (.returned 1) s₁)
    (hsecond : M.step s₁ (.act (.osWrite (b :: l))) (.returned (Int.ofNat (l.length + 1))) s₂)
    (hsync : if doFsync then M.step s₂ (.act .osFsync) (.returned ()) s₃ else s₃ = s₂) :
    ∃ q, (appendLine closed latched failed doFsync (a :: b :: l)).unlocked.Begins M s q s₁ ∧
      q.Runs M s₁ (.ok ()) s₃ := by
  obtain ⟨q, hbegins, hruns⟩ := begins_writeCompletely hfirst hsecond hsync
  rw [unlocked_appendLine]
  refine ⟨_, .op hclosed (.op hlatched hbegins.elim), .elim hruns ?_⟩
  exact .ret

end

variable [PyRuntime]

/-- So is a write of a record that has a line. -/
theorem isSection_write {record : OperationalRecord} {line : Bytes}
    (h : encodeLineBytes (.operational record) = .ok line) :
    (JsonlSink.write (.operational record)).IsSection := by
  rw [JsonlSink.write, h]
  exact isSection_appendLine _ _ _ _ _

/-- A write, as a method of the stream. -/
def writeMethod {record : OperationalRecord} {line : Bytes}
    (h : encodeLineBytes (.operational record) = .ok line) :
    Method logObjects PyError (Except PyError Unit) where
  site := .stream
  Val := Unit
  prog := JsonlSink.write (.operational record)
  isSection := isSection_write h
  answers res r := r = res

/-- A mark, as a method of the health. -/
def markMethod (c : HealthCall) : Method logObjects PyError Unit where
  site := .health
  Val := HealthAnswer
  prog := c.body.guarded
  isSection := (Prog.acts_acts _).isSection
  answers _ _ := True

/-- The operations of a log that are carried out by methods of the sink and of the health. A
record that has no line is refused at once. The clock and the fallback may answer anything. -/
def logCarrier : Carrier logSig logObjects PyError PyError Unit OperationalLog.LogCall Unit where
  method
    | .sinkWrite record =>
      match h : encodeLineBytes (.operational record) with
      | .error _ => none
      | .ok _ => some (writeMethod h)
    | .markHealthy => some (markMethod .markHealthy)
    | .markDegraded kind => some (markMethod (.markDegraded kind))
    | .now | .fallbackEmit _ => none
  env _ _ _
    | .sinkWrite record, r, _ =>
      ∀ e, encodeLineBytes (.operational record) = .error e → r = .error e
    | .now, _, _ | .markHealthy, _, _ | .markDegraded _, _, _ | .fallbackEmit _, _, _ => True
  starts _ _ := True

/-- A write of a record that has a line is carried out by the sink. -/
theorem logCarrier_write {record : OperationalRecord} {line : Bytes}
    (h : encodeLineBytes (.operational record) = .ok line) :
    logCarrier.method (.sinkWrite record) = some (writeMethod h) := by
  simp only [logCarrier]
  split
  · rename_i hline
    cases hline.symm.trans h
  · rfl

theorem logCarrier_refused {record : OperationalRecord} {e : PyError}
    (h : encodeLineBytes (.operational record) = .error e) :
    logCarrier.method (.sinkWrite record) = none := by
  simp only [logCarrier]
  split
  · rfl
  · rename_i hline
    cases hline.symm.trans h

/-- Calls interleaved step by step. -/
abbrev OperationalLog.locked (log : OperationalLog) :
    System (objectSig logSig logObjects) PyError Unit OperationalLog.LogCall
      (Guards logObjects Unit) :=
  log.interleaved.carried logCarrier

/-- The objects that calls share. -/
def SharedLog.objects (s : SharedLog) : ∀ j, logObjects.State j
  | .stream => s.file
  | .health => s.health

/-! ## What the methods do -/

omit [PyRuntime] in
/-- Accesses one after the other. -/
theorem wp_acts_health {α : Type} (p : HealthProg α) {health : LoggingHealth}
    {Q : Except PyError α → LoggingHealth → Prop}
    (h : Q (p.run healthStep health).1 (p.run healthStep health).2) :
    p.acts.wp (allowing healthAccess) health Q := by
  induction p generalizing health with
  | ret a => exact h
  | throw e => exact h
  | op o k ih =>
    refine ⟨trivial, fun r health' hs => ih r ?_⟩
    have hrun : (Prog.op o k : HealthProg α).run healthStep health =
        (k (healthStep health o).1).run healthStep (healthStep health o).2 := rfl
    rw [hrun, show healthStep health o = (r, health') from hs] at h
    exact h

omit [PyRuntime] in
/-- A method of the health, by itself. -/
theorem runs_health {c : HealthCall} {health health' : LoggingHealth}
    {res : Except PyError HealthAnswer}
    (h : c.body.guarded.Runs (allowing healthAccess) health res health') :
    health' = c.apply health := by
  refine h.post (Q := fun _ health' => health' = c.apply health) ⟨trivial, ?_⟩
  rintro r _ rfl
  refine (Prog.wp_elim _ _ _ _ _).mpr (wp_acts_health c.body ?_)
  rw [run_body]
  exact ⟨trivial, fun _ _ hs => hs⟩

omit [PyRuntime] in
theorem runs_acts_health {α : Type} (p : HealthProg α) (health : LoggingHealth) :
    p.acts.Runs (allowing healthAccess) health (p.run healthStep health).1
      (p.run healthStep health).2 := by
  induction p generalizing health with
  | ret a => exact .ret
  | throw e => exact .throw
  | op o k ih => exact .op (show healthAccess health (.act o) _ _ from rfl) (ih _ _)

omit [PyRuntime] in
theorem runs_markMethod (c : HealthCall) (health : LoggingHealth) :
    (markMethod c).prog.Runs (allowing healthAccess) health (.ok (c.answer health))
      (c.apply health) := by
  have hbody : (markMethod c).body = c.body.acts := (Prog.acts_acts c.body).unlocked_withLock
  have hruns := runs_acts_health c.body health
  rw [run_body, ← hbody] at hruns
  exact (Method.runs_iff (m := markMethod c)).mpr hruns

/-- What the methods do is what the operations do that happen at once. -/
theorem OperationalLog.carries (log : OperationalLog) :
    Carries log.interleaved logCarrier SharedLog.objects fun _ => () where
  canStart _ := trivial
  plain {i c s o r x} h henv := by
    cases o with
    | now => exact ⟨s, ⟨trivial, rfl⟩, rfl, rfl⟩
    | fallbackEmit text => exact ⟨s, ⟨trivial, rfl⟩, rfl, rfl⟩
    | sinkWrite record =>
      cases hline : encodeLineBytes (.operational record) with
      | ok line => cases (logCarrier_write hline).symm.trans h
      | error e =>
        obtain rfl := henv e hline
        refine ⟨s, ⟨trivial, ?_, rfl, ?_⟩, rfl, rfl⟩
        · rw [JsonlSink.write, hline]
          exact .throw
        · rw [hline]
    | markHealthy => cases h
    | markDegraded kind => cases h
  carried {i c s o m res y r x} h hruns hr _ := by
    cases o with
    | now => cases h
    | fallbackEmit text => cases h
    | sinkWrite record =>
      cases hline : encodeLineBytes (.operational record) with
      | error e => cases (logCarrier_refused hline).symm.trans h
      | ok line =>
        cases (logCarrier_write hline).symm.trans h
        obtain rfl := hr
        refine ⟨⟨y, s.health, _⟩, ⟨trivial, hruns, rfl, rfl⟩, funext fun j => ?_, rfl⟩
        cases j <;> rfl
    | markHealthy =>
      cases h
      refine ⟨_, ⟨trivial, rfl⟩, funext fun j => ?_, rfl⟩
      cases j with
      | stream => rfl
      | health => exact (runs_health hruns).symm
    | markDegraded kind =>
      cases h
      refine ⟨_, ⟨trivial, rfl⟩, funext fun j => ?_, rfl⟩
      cases j with
      | stream => rfl
      | health => exact (runs_health hruns).symm

/-! ## Runs -/

variable {log : OperationalLog} {s : SharedLog}
  {cfg : Config (objectSig logSig logObjects) PyError Unit OperationalLog.LogCall
    (Guards logObjects Unit)}

/-- **Critical sections are atomic.** Every run down to the locks, stopped anywhere, is matched by
a run in which writes and marks happen at once: the same calls have been made, those that have
ended have ended in the same way, and the file and the health are the same, each where its lock
is free. -/
theorem OperationalLog.locked_refines
    (h : log.locked.Reachable (.free s.objects ()) cfg) :
    ∃ high, log.interleaved.Reachable s high ∧
      cfg.calls.map Prod.fst = high.calls.map Prod.fst ∧
      (∀ i c res, cfg.Ended i c res → high.Ended i c res) ∧
      (cfg.shared.holder .stream = none → cfg.shared.state .stream = high.shared.file) ∧
      (cfg.shared.holder .health = none → cfg.shared.state .health = high.shared.health) := by
  obtain ⟨high, hhigh, hmatches⟩ := exists_matches log.carries h
  exact ⟨high, hhigh, hmatches.map_fst, fun i c res => hmatches.ended, hmatches.free .stream,
    hmatches.free .health⟩

/-- **No call is unaccounted for, down to the locks.** When all calls of a production log that were
made from a new file and a new health have returned, the records that a reader gets and the
failures counted are together as many as the calls. -/
theorem OperationalLog.locked_accounts
    (h : log.locked.Reachable (.free s.objects ()) cfg) (hstrict : log.strict = false)
    (hfile : s.file.content = []) (hhealth : s.health = .init)
    (hreturned : ∀ x ∈ cfg.calls, System.returned x.2 = true) :
    (iterate (cfg.shared.state .stream : SinkFile).content).records.length +
      (cfg.shared.state .health : LoggingHealth).totalFailures = cfg.calls.length := by
  obtain ⟨high, hhigh, hmatches⟩ := exists_matches log.carries h
  have hfree := hmatches.holder_eq_none fun x hx => by
    obtain ⟨a, ha⟩ := System.returned_iff.mp (hreturned x hx)
    exact Option.isSome_iff_exists.mpr ⟨_, ha⟩
  rw [show (cfg.shared.state .stream : SinkFile) = _ from hmatches.free .stream (hfree _),
    show (cfg.shared.state .health : LoggingHealth) = _ from hmatches.free .health (hfree _),
    hmatches.length]
  obtain ⟨ms, hms, hsum⟩ := OperationalLog.exists_accounts hhigh hstrict hfile hhealth
  refine hsum.trans (Nat.le_antisymm (System.sum_le_length calm hms fun h => h.1) ?_)
  refine Nat.le_trans (Nat.le_of_eq ?_) (System.countP_returned_le hms fun h => (h.2 rfl).ge)
  refine (List.countP_eq_length.mpr fun x hx => ?_).symm
  obtain ⟨i, hi⟩ := List.mem_iff_getElem?.mp hx
  have hlt : i < cfg.calls.length := by
    rw [hmatches.length]
    exact (List.getElem?_eq_some_iff.mp hi).1
  have hlow : cfg.calls[i]? = some (cfg.calls[i].1, cfg.calls[i].2) :=
    List.getElem?_eq_getElem hlt
  obtain ⟨a, ha⟩ := System.returned_iff.mp (hreturned _ (List.getElem_mem hlt))
  obtain ⟨p, hp, hres⟩ := hmatches.ended ⟨_, hlow, ha⟩
  cases hi.symm.trans hp
  exact System.returned_iff.mpr ⟨a, hres⟩

/-! ## Reading while calls write -/

/-- However a method has ended, it can be answered. -/
theorem logCarrier_answers {i : Nat} {c : OperationalLog.LogCall} {x : Unit} {o : LogOp}
    {m : Method logObjects PyError (logSig.Ret o)} (res : Except PyError m.Val)
    (h : logCarrier.method o = some m) :
    ∃ r x', m.answers res r ∧ logCarrier.env i c x o r x' ∧ True := by
  cases o with
  | now => cases h
  | fallbackEmit text => cases h
  | sinkWrite record =>
    cases hline : encodeLineBytes (.operational record) with
    | error e => cases (logCarrier_refused hline).symm.trans h
    | ok line =>
      cases (logCarrier_write hline).symm.trans h
      refine ⟨res, (), rfl, fun e he => ?_, trivial⟩
      rw [hline] at he
      cases he
  | markHealthy =>
    cases h
    exact ⟨(), (), trivial, trivial, trivial⟩
  | markDegraded kind =>
    cases h
    exact ⟨(), (), trivial, trivial, trivial⟩

omit [PyRuntime] in
/-- Any operation of a write can leave the file as it is. -/
theorem faulty_idle (o : StreamOp) (f : SinkFile) :
    ∃ r f', faulty f (.act o) r f' ∧ f'.content = f.content := by
  cases o with
  | isClosed => exact ⟨f.closed, f, ⟨rfl, rfl⟩, rfl⟩
  | setClosed => exact ⟨(), _, rfl, rfl⟩
  | isLatched => exact ⟨f.latched, f, ⟨rfl, rfl⟩, rfl⟩
  | setLatched => exact ⟨(), _, rfl, rfl⟩
  | osWrite data => exact ⟨.osError, f, .inl ⟨rfl, rfl⟩, rfl⟩
  | osFsync => exact ⟨.returned (), f, rfl, rfl⟩
  | osClose => exact ⟨.returned (), f, rfl, rfl⟩

/-- The file of the sink. -/
def lockedFile (cfg : Config (objectSig logSig logObjects) PyError Unit OperationalLog.LogCall
    (Guards logObjects Unit)) : Option Bytes :=
  some (cfg.shared.state .stream : SinkFile).content

omit [PyRuntime] in
theorem faulty_grows {f f' : SinkFile} {o : StreamOp} {r : streamSig.Ret o}
    (h : faulty f (.act o) r f') : f.content <+: f'.content := by
  cases o with
  | isClosed => rw [h.2]
  | setClosed => rw [show f' = _ from h]
  | isLatched => rw [h.2]
  | setLatched => rw [show f' = _ from h]
  | osWrite data =>
    rcases h with ⟨-, rfl⟩ | ⟨n, -, -, rfl⟩
    · exact List.prefix_rfl
    · exact List.prefix_append _ _
  | osFsync => rw [show f' = f from h]
  | osClose => rw [show f' = f from h]

theorem OperationalLog.locked_grows {cfg' : Config (objectSig logSig logObjects) PyError Unit
    OperationalLog.LogCall (Guards logObjects Unit)} (h : log.locked.Step cfg cfg') :
    contentOf lockedFile cfg <+: contentOf lockedFile cfg' := by
  cases h with
  | start _ => exact List.prefix_rfl
  | perform _ hs =>
    exact Guards.step_state hs (j := .stream) (R := fun f f' : SinkFile => f.content <+: f'.content)
      (fun _ => List.prefix_rfl) faulty_grows

/-- What is in the file at any moment is read as a stream. -/
theorem OperationalLog.reads_locked
    (h : log.locked.Reachable (.free s.objects ()) cfg) (hfile : s.file.content = [])
    (k : Nat) :
    (iterate ((contentOf lockedFile cfg).take k)).error = none ∧
    ∀ obj ∈ (iterate ((contentOf lockedFile cfg).take k)).records,
      ∃ r, log.Conforms r ∧ (Record.operational r).ReadsAs obj := by
  obtain ⟨high, hhigh, hmatches⟩ := exists_matches log.carries h
  obtain ⟨high', hsteps, hlook, -⟩ : ∃ high', ReflTransGen _ high high' ∧
      high'.shared.file.content = contentOf lockedFile cfg ∧ True :=
    hmatches.exists_looks log.carries (j := .stream) (fun _ => trivial)
      faulty_idle logCarrier_answers
  have hreads := OperationalLog.reads_stream (hhigh.trans hsteps) hfile k
  rw [hlook] at hreads
  exact hreads

/-- **Reading between any two steps.** A reader that is made at any moment of a run from a new
file, be it in the middle of a write, and iterates while calls go on, ends without a
`ReaderError`, if it ends, and each object that it has yielded is the mapping of a record that
conforms. -/
theorem OperationalLog.locked_reading {reader : JsonlReader}
    {cfg' : Config (objectSig logSig logObjects) PyError Unit OperationalLog.LogCall
      (Guards logObjects Unit)}
    (h : log.locked.Reachable (.free s.objects ()) cfg) (hfile : s.file.content = [])
    (hrun : ReflTransGen (Beside log.locked.Step lockedFile) (cfg, .init) (cfg', reader)) :
    (∀ e, reader.iteration ≠ .ended (some e)) ∧
    ∀ obj ∈ reader.yielded, ∃ r, log.Conforms r ∧ (Record.operational r).ReadsAs obj := by
  obtain ⟨k, -, hyielded, hend⟩ :=
    (JsonlReader.reads_beside OperationalLog.locked_grows hrun).1.exists_take
  obtain ⟨herror, hread⟩ :=
    OperationalLog.reads_locked (h.trans (Beside.transGen_world hrun)) hfile k
  refine ⟨fun e he => ?_, fun obj hobj => hread obj (hyielded ▸ hobj)⟩
  rw [(hend _ he).1] at herror
  cases herror

/-! ## A call by itself -/

/-- What the operations do that happen at once, the methods do. -/
theorem logCarrier_complete {i : Nat} {c : OperationalLog.LogCall} {s s' : SharedLog} {o : LogOp}
    {r : logSig.Ret o} (hs : (log.interleaved.sem i c).step s o r s') :
    (logCarrier.method o = none ∧ s'.objects = s.objects ∧ logCarrier.env i c () o r ()) ∨
    ∃ m res y, logCarrier.method o = some m ∧
      m.prog.Runs (logObjects.sem m.site) (s.objects m.site) res y ∧
      s'.objects = Function.update s.objects m.site y ∧ m.answers res r ∧
      logCarrier.env i c () o r () := by
  obtain ⟨-, hs⟩ := hs
  cases o with
  | now =>
    obtain rfl : s' = s := hs
    exact .inl ⟨rfl, rfl, trivial⟩
  | fallbackEmit text =>
    obtain rfl : s' = s := hs
    exact .inl ⟨rfl, rfl, trivial⟩
  | sinkWrite record =>
    obtain ⟨hruns, hhealth, -⟩ := hs
    cases hline : encodeLineBytes (.operational record) with
    | error e =>
      rw [JsonlSink.write, hline] at hruns
      generalize hfile : s'.file = f at hruns
      cases hruns
      refine .inl ⟨logCarrier_refused hline, funext fun j => ?_, fun e' he => ?_⟩
      · cases j with
        | stream => exact hfile
        | health => exact hhealth
      · rw [hline] at he
        cases he
        rfl
    | ok line =>
      refine .inr ⟨writeMethod hline, r, s'.file, logCarrier_write hline, hruns,
        funext fun j => ?_, rfl, fun e he => ?_⟩
      · cases j with
        | stream => rfl
        | health => exact hhealth
      · rw [hline] at he
        cases he
  | markHealthy =>
    obtain rfl : s' = { s with health := s.health.markHealthy } := hs
    refine .inr ⟨_, _, _, rfl, runs_markMethod .markHealthy s.health, funext fun j => ?_, trivial,
      trivial⟩
    cases j <;> rfl
  | markDegraded kind =>
    obtain rfl : s' = { s with health := s.health.markDegraded kind } := hs
    refine .inr ⟨_, _, _, rfl, runs_markMethod (.markDegraded kind) s.health, funext fun j => ?_,
      trivial, trivial⟩
    cases j <;> rfl

/-- A call by itself does down to the locks what it does if operations happen at once. -/
theorem OperationalLog.begins_locked (log : OperationalLog) {i : Nat} {c : OperationalLog.LogCall}
    {s s' : SharedLog} {p q : LogProg Unit} (h : p.Begins (log.interleaved.sem i c) s q s') :
    (p.carried logCarrier).Begins (log.locked.sem i c) (.free s.objects ()) (q.carried logCarrier)
      (.free s'.objects ()) :=
  begins_carried (P := fun _ => True) (fun _ => id) (fun hs _ => logCarrier_complete hs) h trivial

/-- A write whose first `os.write` takes one byte, as a method. -/
theorem begins_writeMethod {record : OperationalRecord} {a b : UInt8} {l : Bytes}
    (h : encodeLineBytes (.operational record) = .ok (a :: b :: l)) (content : Bytes) :
    ∃ q, (writeMethod h).body.Begins (allowing faulty) ⟨content, false, false⟩ q
        ⟨content ++ [a], false, false⟩ ∧
      q.Runs (allowing faulty) ⟨content ++ [a], false, false⟩ (.ok ())
        ⟨content ++ a :: b :: l, false, false⟩ := by
  have hbody : (writeMethod h).body = (appendLine (sinkError "operational sink is closed")
      (sinkError "operational stream latched after a partial write")
      (sinkError "operational sink write failed") false (a :: b :: l)).unlocked := by
    show (JsonlSink.write (.operational record)).unlocked = _
    rw [JsonlSink.write, h]
    rfl
  rw [hbody]
  exact begins_appendLine ⟨rfl, rfl⟩ ⟨rfl, rfl⟩
    (.inr ⟨1, Nat.succ_le_succ (Nat.zero_le _), rfl, rfl⟩)
    (.inr ⟨l.length + 1, Nat.le_refl _, rfl, by simp⟩) rfl

/-- A call that is about to write: it holds the lock and has written one byte of the line; then it
has written the line. -/
theorem OperationalLog.begins_line (log : OperationalLog) {record : OperationalRecord}
    {a b : UInt8} {l : Bytes}
    (h : encodeLineBytes (.operational record) = .ok (a :: b :: l))
    {k : Except PyError Unit → LogProg Unit} {i : Nat} {c : OperationalLog.LogCall} (s : SharedLog)
    {content : Bytes} (hfile : s.file = ⟨content, false, false⟩) :
    ∃ (p : Prog (objectSig logSig logObjects) PyError Unit) (t : Guards logObjects Unit),
      ((Prog.op (S := logSig) (.sinkWrite record) k).carried logCarrier).Begins
        (log.locked.sem i c) (.free s.objects ()) p t ∧
      t.holder .stream = some i ∧ (t.state .stream : SinkFile) = ⟨content ++ [a], false, false⟩ ∧
      p.Begins (log.locked.sem i c) t ((k (.ok ())).carried logCarrier)
        (.free (SharedLog.objects { s with file := ⟨content ++ a :: b :: l, false, false⟩ })
          ()) := by
  obtain ⟨q, hpart, hrest⟩ := begins_writeMethod h content
  let m : Method logObjects PyError (logSig.Ret (.sinkWrite record)) := writeMethod h
  have hbody : m.body.Begins (logObjects.sem m.site) (s.objects m.site) q
      (⟨content ++ [a], false, false⟩ : SinkFile) := by
    show m.body.Begins (allowing faulty) s.file q _
    rw [hfile]
    exact hpart
  obtain ⟨p, hbegins, hleaves⟩ := exists_middle (i := i) (m := m) (k := k)
    (logCarrier_write h) hbody hrest rfl
    (show logCarrier.env i c () (.sinkWrite record) (.ok ()) () from
      fun e he => by rw [h] at he; cases he)
  have hwhole : Function.update s.objects .stream
      (⟨content ++ a :: b :: l, false, false⟩ : SinkFile) =
      SharedLog.objects { s with file := ⟨content ++ a :: b :: l, false, false⟩ } := by
    funext j
    cases j <;> rfl
  rw [← hwhole]
  exact ⟨p, _, hbegins, rfl, rfl, hleaves⟩

section

omit [PyRuntime]

/-- The calls of the sample log read the clock, and then write. -/
theorem exists_writes_drained :
    let _ := PyRuntime.plain
    ∃ (k : Except PyError Unit → LogProg Unit), k (.ok ()) = markHealthy ∧
      ∀ (i : Nat) (t : Guards logObjects Unit),
        (sampleLog.locked.prog drained).Begins (sampleLog.locked.sem i drained) t
          ((Prog.op (S := logSig) (.sinkWrite drainedRecord) k).carried logCarrier) t := by
  intro _
  obtain ⟨k, k', hcall, hwrite, hok, -⟩ := exists_call_drained
  refine ⟨k', hok, fun i t => ?_⟩
  rw [show sampleLog.locked.prog drained = _ from congrArg (Prog.carried logCarrier) hcall,
    ← hwrite]
  exact .op ⟨(), trivial, rfl⟩ .refl

/-- Two calls: when the first has written one byte of its line, the second reads the clock. -/
theorem exists_alternating :
    let _ := PyRuntime.plain
    ∃ (cfg cfg' : Config (objectSig logSig logObjects) PyError Unit OperationalLog.LogCall
        (Guards logObjects Unit)) (a : UInt8),
      sampleLog.locked.Reachable (.free freshLog.objects ()) cfg ∧
      ReflTransGen sampleLog.locked.Step cfg cfg' ∧ cfg.calls.map Prod.fst = [drained, drained] ∧
      cfg.shared.holder .stream = some 0 ∧ lockedFile cfg = some [a] ∧
      cfg'.calls = [(drained, .ret ()), (drained, .ret ())] := by
  intro _
  let Y := sampleLog.locked
  obtain ⟨k, hok, hclock⟩ := exists_writes_drained
  obtain ⟨a, b, l, hline⟩ := exists_drainedLine
  let written (content : Bytes) (health : LoggingHealth) : SharedLog :=
    ⟨⟨content, false, false⟩, health, none⟩
  have writes (i : Nat) (content : Bytes) (health : LoggingHealth) :=
    sampleLog.begins_line hline (k := k) (i := i) (c := drained)
      (written content health) rfl
  have marks (i : Nat) (content : Bytes) (health : LoggingHealth) :
      ((k (.ok ())).carried logCarrier).Begins (Y.sem i drained)
        (.free (written content health).objects ()) (.ret ())
        (.free (written content health.markHealthy).objects ()) := by
    rw [hok]
    have hmark : (markHealthy : LogProg Unit).Begins (sampleLog.interleaved.sem i drained)
        (written content health) (.ret ()) (written content health.markHealthy) :=
      .op ⟨trivial, rfl⟩ .refl
    exact sampleLog.begins_locked hmark
  obtain ⟨p, t, hinside, hheld, hfile, hwritten⟩ := writes 0 [] .init
  obtain ⟨p', t', hinside', -, -, hwritten'⟩ :=
    writes 1 (a :: b :: l) LoggingHealth.init.markHealthy
  have first : Y.Reachable (.free freshLog.objects ()) ⟨t, [(drained, p)]⟩ :=
    (ReflTransGen.single (.start trivial)).trans
      (System.steps_begin (show [(drained, Y.prog drained)][0]? = _ from rfl)
        ((hclock 0 _).trans hinside))
  have second : Y.Reachable (.free freshLog.objects ()) ⟨t, [(drained, p),
      (drained, (Prog.op (S := logSig) (.sinkWrite drainedRecord) k).carried logCarrier)]⟩ :=
    (first.tail (.start trivial)).trans
      (System.steps_begin (show [(drained, p), (drained, Y.prog drained)][1]? = _ from rfl)
        (hclock 1 t))
  refine ⟨_, _, a, second, (System.steps_begin (i := 0) rfl (hwritten.trans (marks 0 _ _))).trans
    (System.steps_begin (i := 1) rfl (hinside'.trans (hwritten'.trans (marks 1 _ _)))), rfl, hheld,
    ?_, rfl⟩
  exact congrArg (fun f : SinkFile => some f.content) hfile

/-- The reader gets a byte in the middle of the first write, and comes to its end when both calls
have returned. -/
theorem locked_reading_drained :
    let _ := PyRuntime.plain
    ∃ (cfg cfg' : Config (objectSig logSig logObjects) PyError Unit OperationalLog.LogCall
        (Guards logObjects Unit)) (a : UInt8) (reader : JsonlReader),
      sampleLog.locked.Reachable (.free freshLog.objects ()) cfg ∧
      cfg.shared.holder .stream = some 0 ∧
      ReflTransGen (Beside sampleLog.locked.Step lockedFile) (cfg, .init)
        (cfg, ⟨false, .reading 0 0 1 [a], []⟩) ∧
      ReflTransGen (Beside sampleLog.locked.Step lockedFile) (cfg, ⟨false, .reading 0 0 1 [a], []⟩)
        (cfg', reader) ∧
      cfg'.calls = [(drained, .ret ()), (drained, .ret ())] ∧ reader.iteration = .ended none ∧
      ∀ obj ∈ reader.yielded, ∃ r, sampleLog.Conforms r ∧ (Record.operational r).ReadsAs obj := by
  intro _
  obtain ⟨cfg, cfg', a, hr, hsteps, -, hheld, hfile, hcalls⟩ := exists_alternating
  obtain ⟨reader, error, hmiddle, hrest, hended⟩ := JsonlReader.exists_run hfile rfl hsteps
  obtain ⟨hnone, hconforms⟩ := OperationalLog.locked_reading hr rfl (hmiddle.trans hrest)
  cases error with
  | some e => exact absurd hended (hnone e)
  | none => exact ⟨cfg, cfg', a, reader, hr, hheld, hmiddle, hrest, hcalls, hended, hconforms⟩

/-- Both calls have ended in the same way where writes and marks happen at once. -/
theorem locked_refines_drained :
    let _ := PyRuntime.plain
    ∃ (cfg cfg' : Config (objectSig logSig logObjects) PyError Unit OperationalLog.LogCall
        (Guards logObjects Unit)) (high : _),
      sampleLog.locked.Reachable (.free freshLog.objects ()) cfg ∧
      cfg.calls.map Prod.fst = [drained, drained] ∧ cfg.shared.holder .stream = some 0 ∧
      ReflTransGen sampleLog.locked.Step cfg cfg' ∧
      sampleLog.interleaved.Reachable freshLog high ∧ high.Ended 0 drained (.ok ()) ∧
      high.Ended 1 drained (.ok ()) := by
  intro _
  obtain ⟨cfg, cfg', -, hr, hsteps, hmade, hheld, -, hcalls⟩ := exists_alternating
  obtain ⟨high, hhigh, -, hended, -⟩ := OperationalLog.locked_refines (hr.trans hsteps)
  exact ⟨cfg, cfg', high, hr, hmade, hheld, hsteps, hhigh,
    hended 0 drained _ ⟨.ret (), by rw [hcalls]; rfl, rfl⟩,
    hended 1 drained _ ⟨.ret (), by rw [hcalls]; rfl, rfl⟩⟩

theorem locked_accounts_drained :
    let _ := PyRuntime.plain
    ∃ (cfg cfg' : Config (objectSig logSig logObjects) PyError Unit OperationalLog.LogCall
        (Guards logObjects Unit)),
      sampleLog.locked.Reachable (.free freshLog.objects ()) cfg ∧
      cfg.calls.map Prod.fst = [drained, drained] ∧ cfg.shared.holder .stream = some 0 ∧
      ReflTransGen sampleLog.locked.Step cfg cfg' ∧
      (iterate (cfg'.shared.state .stream : SinkFile).content).records.length +
        (cfg'.shared.state .health : LoggingHealth).totalFailures = 2 := by
  intro _
  obtain ⟨cfg, cfg', -, hr, hsteps, hmade, hheld, -, hcalls⟩ := exists_alternating
  have haccounts := OperationalLog.locked_accounts (hr.trans hsteps) rfl rfl rfl fun x hx => by
    rw [hcalls] at hx
    simp only [List.mem_cons, List.not_mem_nil, or_false, or_self] at hx
    rw [hx]
    rfl
  rw [hcalls] at haccounts
  exact ⟨cfg, cfg', hr, hmade, hheld, hsteps, haccounts⟩

end

end NmLogging
