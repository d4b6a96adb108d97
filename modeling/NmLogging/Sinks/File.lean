import NmLogging.Sinks.Jsonl

/-!
# A file and its sinks

What the operations of the sinks do to one file that they share: each `os.write`
appends a prefix of its data and returns its length, or raises `OSError` and
appends nothing. The state keeps a history of the calls in the order in which they
took the lock (`Entry`), with what each of them wrote. `appendLine_wp` and
`closeSink_wp` are the rules of the two critical sections, in any monitor over
this state; `AppendEffect` says what an append does to the file.
-/

namespace NmLogging

/-- A call on one of the sinks of a file. -/
inductive Call where
  | write (sink : Nat) (record : Record)
  | close (sink : Nat)

def Call.sink : Call → Nat
  | write sink _ => sink
  | close sink => sink

/-- What is recorded of a call from when it takes the lock: the file then, the
bytes it appends, and whether it synced the file. -/
structure Entry where
  index : Nat
  call : Call
  before : Bytes
  wrote : Bytes
  synced : Bool

/-- A file with its shared stream state, the sinks closed so far, how much of it
was synced since they were opened, and the history. -/
structure Stream where
  content : Bytes
  durable : Nat
  latched : Bool
  closed : Nat → Bool
  log : List Entry

namespace Stream

/-- Change what is recorded of the `i`-th call. -/
def own (i : Nat) (f : Entry → Entry) (log : List Entry) : List Entry :=
  log.map fun e => if e.index = i then f e else e

/-- The `i`-th call takes the lock. -/
def acquire (i : Nat) (c : Call) (p : Stream) : Stream :=
  { p with log := p.log ++ [⟨i, c, p.content, [], false⟩] }

/-- The `i`-th call appends `b`. -/
def append (p : Stream) (i : Nat) (b : Bytes) : Stream :=
  { p with content := p.content ++ b, log := own i (fun e => { e with wrote := e.wrote ++ b }) p.log }

/-- The `i`-th call syncs the file. -/
def sync (p : Stream) (i : Nat) : Stream :=
  { p with durable := p.content.length, log := own i (fun e => { e with synced := true }) p.log }

def latch (p : Stream) : Stream := { p with latched := true }

def closeOf (p : Stream) (sink : Nat) : Stream :=
  { p with closed := fun k => if k = sink then true else p.closed k }

/-- What an operation of the `i`-th call, on `sink`, does. The operating system
fails only where `fails` allows it. -/
def step (fails : Bool) (i sink : Nat) (p : Stream) :
    (o : StreamOp) → streamSig.Ret o → Stream → Prop
  | .isClosed, r, p' => r = p.closed sink ∧ p' = p
  | .setClosed, _, p' => p' = p.closeOf sink
  | .isLatched, r, p' => r = p.latched ∧ p' = p
  | .setLatched, _, p' => p' = p.latch
  | .osWrite data, r, p' =>
    (∃ n ≤ data.length, (fails = true ∨ 0 < n) ∧ r = .returned n ∧ p' = p.append i (data.take n)) ∨
      (fails = true ∧ r = .osError ∧ p' = p)
  | .osFsync, r, p' => (r = .returned () ∧ p' = p.sync i) ∨ (fails = true ∧ r = .osError ∧ p' = p)
  | .osClose, r, p' => p' = p ∧ (r = .returned () ∨ r = .osError)

/-- A sink writes only while it is open and its stream is not latched. -/
def mayPerform (sink : Nat) (p : Stream) : StreamOp → Prop
  | .osWrite _ => p.closed sink = false ∧ p.latched = false
  | _ => True

@[simp] theorem append_content (p : Stream) (i : Nat) (b : Bytes) :
    (p.append i b).content = p.content ++ b := rfl
@[simp] theorem append_latched (p : Stream) (i : Nat) (b : Bytes) :
    (p.append i b).latched = p.latched := rfl
@[simp] theorem append_closed (p : Stream) (i : Nat) (b : Bytes) :
    (p.append i b).closed = p.closed := rfl
@[simp] theorem append_durable (p : Stream) (i : Nat) (b : Bytes) :
    (p.append i b).durable = p.durable := rfl

theorem own_own (i : Nat) (f g : Entry → Entry) (hg : ∀ e, (f e).index = e.index)
    (log : List Entry) : own i g (own i f log) = own i (g ∘ f) log := by
  simp only [own, List.map_map, List.map_inj_left, Function.comp_apply]
  intro e _
  by_cases h : e.index = i <;> simp [h, hg]

theorem append_append (p : Stream) (i : Nat) (a b : Bytes) :
    (p.append i a).append i b = p.append i (a ++ b) := by
  have := own_own i (fun e => { e with wrote := e.wrote ++ a })
    (fun e => { e with wrote := e.wrote ++ b }) (fun _ => rfl) p.log
  simp only [append, this, List.append_assoc]
  congr 2
  funext e
  simp

theorem append_nil (p : Stream) (i : Nat) : p.append i [] = p := by
  have : own i (fun e => { e with wrote := e.wrote }) p.log = p.log := by
    simp [own]
  simp only [append, List.append_nil, this]

theorem own_of_notMem {i : Nat} {log : List Entry} (h : i ∉ log.map Entry.index) (f : Entry → Entry) :
    own i f log = log := by
  refine (List.map_congr_left fun e he => if_neg ?_).trans (List.map_id' _)
  rintro rfl
  exact h (List.mem_map_of_mem he)

/-- The history after the `i`-th call took the lock and wrote `b`. -/
theorem log_append_acquire {p : Stream} {i : Nat} {c : Call} (h : i ∉ p.log.map Entry.index) (b : Bytes) :
    ((p.acquire i c).append i b).log = p.log ++ [⟨i, c, p.content, b, false⟩] := by
  show own i _ (p.log ++ [_]) = _
  rw [own, List.map_append]
  show own i _ p.log ++ _ = _
  rw [own_of_notMem h]
  simp

/-- And synced the file. -/
theorem log_sync_acquire {p : Stream} {i : Nat} {c : Call} (h : i ∉ p.log.map Entry.index) (b : Bytes) :
    (((p.acquire i c).append i b).sync i).log = p.log ++ [⟨i, c, p.content, b, true⟩] := by
  show own i _ ((p.acquire i c).append i b).log = _
  rw [log_append_acquire h, own, List.map_append]
  show own i _ p.log ++ _ = _
  rw [own_of_notMem h]
  simp

theorem nodup_add {log : List Entry} {e : Entry} (h : (log.map Entry.index).Nodup)
    (hi : e.index ∉ log.map Entry.index) : ((log ++ [e]).map Entry.index).Nodup := by
  rw [List.map_append, List.nodup_append]
  refine ⟨h, by simp, ?_⟩
  rintro a ha b hb rfl
  simp only [List.map_cons, List.map_nil, List.mem_singleton] at hb
  exact hi (hb ▸ ha)

end Stream

/-! ## The history -/

/-- The bytes that calls wrote, in order. -/
def writtenBytes (es : List Entry) : Bytes := es.flatMap Entry.wrote

theorem writtenBytes_eq (es : List Entry) : writtenBytes es = (es.map Entry.wrote).flatten := by
  rw [writtenBytes, List.flatMap_def]

theorem writtenBytes_append (es es' : List Entry) :
    writtenBytes (es ++ es') = writtenBytes es ++ writtenBytes es' := by
  simp [writtenBytes]

/-- What the history tells a call about itself. -/
def ownEntries (i : Nat) (p : Stream) : List Entry := p.log.filter fun e => e.index = i

theorem notMem_of_ownEntries {i : Nat} {p : Stream} (h : ownEntries i p = []) : i ∉ p.log.map Entry.index := by
  intro hm
  obtain ⟨e, he, rfl⟩ := List.mem_map.mp hm
  have : e ∈ ownEntries e.index p := List.mem_filter.mpr ⟨he, by simp⟩
  rw [h] at this
  cases this

theorem ownEntries_of_log {i : Nat} {p p' : Stream} {e : Entry} (h : ownEntries i p = []) (hi : e.index = i)
    (hlog : p'.log = p.log ++ [e]) : ownEntries i p' = [e] := by
  rw [ownEntries, hlog, List.filter_append]
  show ownEntries i p ++ _ = _
  rw [h, List.filter_cons_of_pos (by simpa using hi)]
  rfl

theorem ownEntries_own {i j : Nat} {f : Entry → Entry} (hf : ∀ e, (f e).index = e.index)
    (h : i ≠ j) (log : List Entry) :
    (Stream.own j f log).filter (fun e => e.index = i) = log.filter fun e => e.index = i := by
  induction log with
  | nil => rfl
  | cons e log ih =>
    simp only [Stream.own, List.map_cons] at ih ⊢
    by_cases hj : e.index = j
    · have hi : e.index ≠ i := fun e' => h (e'.symm.trans hj)
      rw [if_pos hj, List.filter_cons_of_neg (by simpa [hf] using hi),
        List.filter_cons_of_neg (by simpa using hi), ih]
    · rw [if_neg hj, List.filter_cons, List.filter_cons, ih]

/-- A step of one call leaves alone what the history tells of another. -/
theorem ownEntries_step {fails : Bool} {i j sink : Nat} {p p' : Stream} {o : StreamOp}
    {r : streamSig.Ret o} (hs : Stream.step fails j sink p o r p') (h : i ≠ j) :
    ownEntries i p' = ownEntries i p := by
  cases o with
  | isClosed => rw [hs.2]
  | isLatched => rw [hs.2]
  | setClosed => rw [show p' = p.closeOf sink from hs]; rfl
  | setLatched => rw [show p' = p.latch from hs]; rfl
  | osWrite data =>
    rcases hs with ⟨n, -, -, -, rfl⟩ | ⟨-, -, rfl⟩
    · exact ownEntries_own (f := fun e => { e with wrote := e.wrote ++ data.take n })
        (fun _ => rfl) h p.log
    · rfl
  | osFsync =>
    rcases hs with ⟨-, rfl⟩ | ⟨-, -, rfl⟩
    · exact ownEntries_own (f := fun e => { e with synced := true }) (fun _ => rfl) h p.log
    · rfl
  | osClose => rw [hs.1]

theorem ownEntries_acquire {i j : Nat} {c : Call} {p : Stream} (h : i ≠ j) :
    ownEntries i (p.acquire j c) = ownEntries i p := by
  rw [ownEntries, Stream.acquire, List.filter_append, List.filter_cons_of_neg (by simpa using h.symm)]
  simp [ownEntries]

/-- A step adds no call to the history, and changes no entry's. -/
theorem entry_step {fails : Bool} {i sink : Nat} {p p' : Stream} {o : StreamOp}
    {r : streamSig.Ret o} (hs : Stream.step fails i sink p o r p') {e : Entry} (he : e ∈ p'.log) :
    ∃ e' ∈ p.log, e'.index = e.index ∧ e'.call = e.call := by
  have own : ∀ {f : Entry → Entry}, (∀ e, (f e).index = e.index ∧ (f e).call = e.call) →
      e ∈ Stream.own i f p.log → ∃ e' ∈ p.log, e'.index = e.index ∧ e'.call = e.call := by
    intro f hf he
    obtain ⟨e', he', rfl⟩ := List.mem_map.mp he
    refine ⟨e', he', ?_⟩
    split
    · exact ⟨(hf e').1.symm, (hf e').2.symm⟩
    · exact ⟨rfl, rfl⟩
  cases o with
  | isClosed => exact ⟨e, hs.2 ▸ he, rfl, rfl⟩
  | isLatched => exact ⟨e, hs.2 ▸ he, rfl, rfl⟩
  | setClosed => rw [show p' = p.closeOf sink from hs] at he; exact ⟨e, he, rfl, rfl⟩
  | setLatched => rw [show p' = p.latch from hs] at he; exact ⟨e, he, rfl, rfl⟩
  | osWrite data =>
    rcases hs with ⟨n, -, -, -, rfl⟩ | ⟨-, -, rfl⟩
    · exact own (f := fun e => { e with wrote := e.wrote ++ data.take n }) (fun _ => ⟨rfl, rfl⟩) he
    · exact ⟨e, he, rfl, rfl⟩
  | osFsync =>
    rcases hs with ⟨-, rfl⟩ | ⟨-, -, rfl⟩
    · exact own (f := fun e => { e with synced := true }) (fun _ => ⟨rfl, rfl⟩) he
    · exact ⟨e, he, rfl, rfl⟩
  | osClose => exact ⟨e, hs.1 ▸ he, rfl, rfl⟩

theorem index_own {i : Nat} {f : Entry → Entry} (hf : ∀ e, (f e).index = e.index)
    (log : List Entry) : (Stream.own i f log).map Entry.index = log.map Entry.index := by
  rw [Stream.own, List.map_map]
  refine List.map_congr_left fun e _ => ?_
  simp only [Function.comp_apply]
  split
  · exact hf e
  · rfl

/-- A step keeps the order of the calls in the history. -/
theorem index_step {fails : Bool} {i sink : Nat} {p p' : Stream} {o : StreamOp}
    {r : streamSig.Ret o} (hs : Stream.step fails i sink p o r p') :
    p'.log.map Entry.index = p.log.map Entry.index := by
  cases o with
  | isClosed => rw [hs.2]
  | isLatched => rw [hs.2]
  | setClosed => rw [show p' = p.closeOf sink from hs]; rfl
  | setLatched => rw [show p' = p.latch from hs]; rfl
  | osWrite data =>
    rcases hs with ⟨n, -, -, -, rfl⟩ | ⟨-, -, rfl⟩
    · exact index_own (f := fun e => { e with wrote := e.wrote ++ data.take n }) (fun _ => rfl) p.log
    · rfl
  | osFsync =>
    rcases hs with ⟨-, rfl⟩ | ⟨-, -, rfl⟩
    · exact index_own (f := fun e => { e with synced := true }) (fun _ => rfl) p.log
    · rfl
  | osClose => rw [hs.1]

/-! ## The completion loop -/

section Loop

variable {σ : Type} {M : Semantics (lockSig streamSig) σ} {data : Bytes} {A : Nat → σ → Prop}
  {Q : Except PyError Nat → σ → Prop}

/-- The rule of the completion loop: `At n` holds where `n` bytes are written. -/
theorem wp_writeLoop
    (hpre : ∀ n s, n < data.length → A n s → M.pre s (.act (.osWrite (data.drop n))))
    (hret : ∀ n s k s', n < data.length → A n s →
      M.step s (.act (.osWrite (data.drop n))) (.returned k) s' →
      if k ≤ 0 then Q (.ok n) s' else A (n + k.toNat) s')
    (herr : ∀ n s s', n < data.length → A n s →
      M.step s (.act (.osWrite (data.drop n))) .osError s' → Q (.ok n) s')
    (hraise : ∀ n s e s', n < data.length → A n s →
      M.step s (.act (.osWrite (data.drop n))) (.raised e) s' → Q (.error e) s')
    (hdone : ∀ n s, data.length ≤ n → A n s → Q (.ok n) s)
    {rounds n : Nat} {s : σ} (hn : data.length ≤ n + rounds) (hs : A n s) :
    (writeLoop data rounds n).wp M s Q := by
  induction rounds generalizing n s with
  | zero => exact hdone n s (by omega) hs
  | succ rounds ih =>
    unfold writeLoop
    by_cases hlt : n < data.length
    · rw [if_pos hlt]
      refine ⟨hpre n s hlt hs, fun r s' hstep => ?_⟩
      cases r with
      | returned k =>
        have h := hret n s k s' hlt hs hstep
        show (if k ≤ 0 then Prog.ret n else writeLoop data rounds (n + k.toNat)).wp M s' Q
        split
        · rename_i hk; rw [if_pos hk] at h; exact h
        · rename_i hk; rw [if_neg hk] at h; exact ih (by omega) h
      | osError => exact herr n s s' hlt hs hstep
      | raised e => exact hraise n s e s' hlt hs hstep
    · rw [if_neg hlt]
      exact hdone n s (by omega) hs

end Loop

/-! ## Calls -/

variable [PyRuntime]

/-- The program of a call on sinks of a kind. -/
def StreamKind.prog : StreamKind → Call → SinkProg Unit
  | .operational, .write _ r => JsonlSink.write r
  | .operational, .close _ => JsonlSink.close
  | .audit, .write _ r => JsonlAuditSink.append r
  | .audit, .close _ => JsonlAuditSink.close

/-- The line of a record, or the exception of a sink of the kind that refuses it. -/
def StreamKind.encodeLine : StreamKind → Record → Except PyError Bytes
  | .operational, .operational r => encodeLineBytes (.operational r)
  | .operational, _ => .error (schemaError "operational sink received a non-operational record")
  | .audit, .audit r => auditLineBytes (.audit r)
  | .audit, _ => .error (schemaError "audit sink received a non-audit record")

/-- The line that a call is to write. -/
def StreamKind.lineOf (kind : StreamKind) : Call → Option Bytes
  | .write _ r => (kind.encodeLine r).toOption
  | .close _ => none

/-- The calls on a file by sinks of one kind, and what each can see of it. -/
def fileMonitor (kind : StreamKind) (fails : Bool) {V : Type} (view : Nat → Stream → V)
    (canStart : Stream → List (Call × SinkProg Unit) → Call → Prop) :
    Monitor streamSig PyError Unit Call Stream V where
  prog := kind.prog
  sem i c := { step := Stream.step fails i c.sink, pre := Stream.mayPerform c.sink }
  onAcquire := Stream.acquire
  view := view
  canStart := canStart

/-! ## Appending -/

/-- The exceptions of an append. -/
structure AppendErrors where
  closed : PyError
  latched : PyError
  failed : PyError

/-- The exceptions of an append by a sink of the kind. -/
def StreamKind.errors : StreamKind → AppendErrors
  | .operational => ⟨sinkError "operational sink is closed",
      sinkError "operational stream latched after a partial write",
      sinkError "operational sink write failed"⟩
  | .audit => ⟨persistenceError "audit sink is closed",
      persistenceError "audit stream latched after a partial write",
      persistenceError "audit append did not achieve durability"⟩

/-- Whether sinks of the kind sync what they write. -/
def StreamKind.syncs : StreamKind → Bool
  | .operational => false
  | .audit => true

/-- The exception of a failed `close`. -/
def StreamKind.closeError : StreamKind → PyError
  | .operational => sinkError "closing the operational sink failed"
  | .audit => persistenceError "closing the audit sink failed"

theorem prog_write (kind : StreamKind) (sink : Nat) (r : Record) :
    kind.prog (.write sink r) = Prog.ofExcept (kind.encodeLine r) >>= fun data =>
      appendLine kind.errors.closed kind.errors.latched kind.errors.failed kind.syncs data := by
  cases kind <;> cases r <;> rfl

theorem prog_close (kind : StreamKind) (sink : Nat) :
    kind.prog (.close sink) = closeSink kind.closeError := by
  cases kind <;> rfl

theorem lineOf_write {kind : StreamKind} {sink : Nat} {r : Record} {l : Bytes} :
    kind.lineOf (.write sink r) = some l ↔ kind.encodeLine r = .ok l := by
  simp only [StreamKind.lineOf]
  cases kind.encodeLine r <;> simp [Except.toOption]

/-- What a sink of a kind writes for a record is the line of its text. -/
theorem encodeLine_ok {kind : StreamKind} {r : Record} {l : Bytes}
    (h : kind.encodeLine r = .ok l) :
    IsLine l ∧ l.length ≤ MAX_RECORD_BYTES ∧
      ∃ s data, encode r = .ok s ∧ encodeUtf8 s = some data ∧ l = data ++ [newline] := by
  have key : ∀ {u o r}, lineBytes u o r = .ok l → IsLine l ∧ l.length ≤ MAX_RECORD_BYTES ∧
      ∃ s data, encode r = .ok s ∧ encodeUtf8 s = some data ∧ l = data ++ [newline] := by
    intro u o r h
    obtain ⟨s, data, hs, hd, he, hle⟩ := lineBytes_ok.mp h
    exact ⟨isLine_of_lineBytes h, hle, s, data, hs, hd, he⟩
  cases kind <;> cases r <;> first | exact key h | cases h

/-- A line starts with the brace of its object, which is not all of it. -/
theorem head_encodeLine {kind : StreamKind} {r : Record} {l : Bytes}
    (h : kind.encodeLine r = .ok l) : ∃ t, l = 0x7b :: t ∧ t ≠ [] := by
  obtain ⟨-, -, s, data, hs, hd, rfl⟩ := encodeLine_ok h
  obtain ⟨kvs, hk, rfl⟩ := encode_ok.mp hs
  obtain ⟨t, ht⟩ := head_encode hk
  rw [ht] at hd
  obtain ⟨d, rfl⟩ := head_encodeUtf8 (by decide) hd
  exact ⟨d ++ [newline], rfl, by simp⟩

omit [PyRuntime] in
theorem exists_encodeLine_sampleIntent :
    ∃ l, @StreamKind.encodeLine PyRuntime.plain .audit (.audit sampleIntent) = .ok l :=
  exists_eq_ok (by decide +kernel)

omit [PyRuntime] in
theorem exists_encodeLine_countedIntent :
    ∃ l, @StreamKind.encodeLine PyRuntime.plain .audit (.audit countedIntent) = .ok l :=
  exists_eq_ok (by decide +kernel)

omit [PyRuntime] in
theorem exists_encodeLine_countedOutcome :
    ∃ l, @StreamKind.encodeLine PyRuntime.plain .audit (.audit countedOutcome) = .ok l :=
  exists_eq_ok (by decide +kernel)

theorem lineOf_ok {kind : StreamKind} {c : Call} {l : Bytes} (h : kind.lineOf c = some l) :
    IsLine l ∧ l.length ≤ MAX_RECORD_BYTES := by
  cases c with
  | write sink r =>
    have := encodeLine_ok (lineOf_write.mp h)
    exact ⟨this.1, this.2.1⟩
  | close sink => cases h

/-- What the critical section of the `i`-th call, an append of `data` through
`sink`, does to the file and how it ends. -/
inductive AppendEffect (fails : Bool) (E : AppendErrors) (doFsync : Bool) (i sink : Nat)
    (data : Bytes) (p : Stream) : Except PyError Unit → Stream → Prop where
  | closed (h : p.closed sink = true) : AppendEffect fails E doFsync i sink data p (.error E.closed) p
  | latched (h : p.closed sink = false) (h' : p.latched = true) :
    AppendEffect fails E doFsync i sink data p (.error E.latched) p
  | nothing (h : p.closed sink = false) (h' : p.latched = false) (hf : fails = true)
    (hd : data ≠ []) : AppendEffect fails E doFsync i sink data p (.error E.failed) p
  | torn {n : Nat} (h : p.closed sink = false) (h' : p.latched = false) (hf : fails = true)
    (hn : 0 < n) (hd : n < data.length) :
    AppendEffect fails E doFsync i sink data p (.error E.failed) (p.append i (data.take n)).latch
  | written (h : p.closed sink = false) (h' : p.latched = false) (hs : doFsync = false) :
    AppendEffect fails E doFsync i sink data p (.ok ()) (p.append i data)
  | synced (h : p.closed sink = false) (h' : p.latched = false) (hs : doFsync = true) :
    AppendEffect fails E doFsync i sink data p (.ok ()) ((p.append i data).sync i)
  | syncFailed (h : p.closed sink = false) (h' : p.latched = false) (hf : fails = true)
    (hs : doFsync = true) :
    AppendEffect fails E doFsync i sink data p (.error E.failed) (p.append i data)

section Append

variable {kind : StreamKind} {fails : Bool} {V : Type} {view : Nat → Stream → V}
  {canStart : Stream → List (Call × SinkProg Unit) → Call → Prop} {I J : Stream → Prop}
  {i : Nat} {c : Call} {E : AppendErrors} {doFsync : Bool} {data : Bytes} {v : V}
  {Q : Except PyError Unit → Monitor.Local Stream V → Prop}

/-- What `write_completely` does to the file of the `i`-th call, where nothing is
written yet. -/
inductive WriteEffect (fails doFsync : Bool) (i : Nat) (data : Bytes) (p : Stream) :
    WriteStatus → Stream → Prop where
  | nothing (hf : fails = true) (hd : data ≠ []) :
    WriteEffect fails doFsync i data p .WRITE_NOTHING p
  | torn {n : Nat} (hf : fails = true) (hn : 0 < n) (hd : n < data.length) :
    WriteEffect fails doFsync i data p .WRITE_PARTIAL (p.append i (data.take n))
  | written (hs : doFsync = false) :
    WriteEffect fails doFsync i data p .WRITE_COMPLETE (p.append i data)
  | synced (hs : doFsync = true) :
    WriteEffect fails doFsync i data p .WRITE_COMPLETE ((p.append i data).sync i)
  | syncFailed (hf : fails = true) (hs : doFsync = true) :
    WriteEffect fails doFsync i data p .WRITE_SYNC_FAILED (p.append i data)

theorem writeCompletely_wp {q : Stream} (hc : q.closed c.sink = false) (hl : q.latched = false)
    (hJ : ∀ n ≤ data.length, J (q.append i (data.take n))) :
    (writeCompletely data doFsync).wp ((fileMonitor kind fails view canStart).localSem I J i c)
      ((fileMonitor kind fails view canStart).holding i q) fun res t =>
        ∃ status p', res = .ok status ∧
          t = (fileMonitor kind fails view canStart).holding i p' ∧
          WriteEffect fails doFsync i data q status p' := by
  unfold writeCompletely
  rw [Prog.wp_bind]
  -- the loop ends with some prefix written, a strict one only after a failure
  refine Prog.wp_mono (wp_writeLoop (A := fun n t => n ≤ data.length ∧
      t = (fileMonitor kind fails view canStart).holding i (q.append i (data.take n)))
    (Q := fun res t => ∃ n ≤ data.length, (n < data.length → fails = true) ∧ res = .ok n ∧
      t = (fileMonitor kind fails view canStart).holding i (q.append i (data.take n)))
    ?_ ?_ ?_ ?_ ?_ (by omega) ⟨Nat.zero_le _, by rw [List.take_zero, Stream.append_nil]⟩) ?_
  · rintro n _ - ⟨hn, rfl⟩
    exact ⟨_, rfl, hJ n hn, hc, hl⟩
  · rintro n _ k t hlt ⟨hn, rfl⟩ ⟨p, p', hp, hstep, rfl⟩
    cases hp
    rcases hstep with ⟨m, hm, hpos, hk, rfl⟩ | ⟨-, hk, -⟩
    · cases hk
      rw [List.length_drop] at hm
      rw [Stream.append_append, ← List.take_add]
      split
      · rename_i h0
        have : m = 0 := by omega
        subst this
        exact ⟨n, hn, fun _ => hpos.elim id (by omega), rfl, rfl⟩
      · exact ⟨by omega, rfl⟩
    · cases hk
  · rintro n _ t hlt ⟨hn, rfl⟩ ⟨p, p', hp, hstep, rfl⟩
    cases hp
    rcases hstep with ⟨m, hm, hpos, hk, -⟩ | ⟨hf, -, rfl⟩
    · cases hk
    · exact ⟨n, hn, fun _ => hf, rfl, rfl⟩
  · rintro n _ e t hlt ⟨hn, rfl⟩ ⟨p, p', hp, hstep, rfl⟩
    cases hp
    rcases hstep with ⟨m, hm, hpos, hk, -⟩ | ⟨-, hk, -⟩ <;> cases hk
  · rintro n _ hle ⟨hn, rfl⟩
    exact ⟨n, hn, fun h => absurd h (by omega), rfl, rfl⟩
  rintro _ _ ⟨n, hn, hf, rfl, rfl⟩
  by_cases hlt : n < data.length
  · have hfails := hf hlt
    simp only [ne_eq, Nat.ne_of_lt hlt, not_false_eq_true, if_true]
    split
    · exact ⟨_, _, rfl, rfl, .torn hfails (by omega) hlt⟩
    · rename_i h0
      have : n = 0 := by omega
      subst this
      refine ⟨_, q, rfl, by rw [List.take_zero, Stream.append_nil], .nothing hfails ?_⟩
      rintro rfl
      exact absurd hlt (Nat.lt_irrefl _)
  · have : n = data.length := by omega
    subst this
    simp only [ne_eq, not_true_eq_false, if_false, List.take_length]
    cases doFsync with
    | false => exact ⟨_, _, rfl, rfl, .written rfl⟩
    | true =>
      refine Monitor.wp_act_bind (List.take_length (l := data) ▸ hJ _ (Nat.le_refl _)) trivial ?_
      rintro r p' (⟨rfl, rfl⟩ | ⟨hf, rfl, rfl⟩)
      · exact ⟨_, _, rfl, rfl, .synced rfl⟩
      · exact ⟨_, _, rfl, rfl, .syncFailed hf rfl⟩

/-- The rule of an append's critical section: what has to hold after each
number of bytes, and what of each effect. -/
theorem appendLine_wp
    (hJ : ∀ p n, I p → view i p = v → n ≤ data.length →
      (n ≠ 0 → p.closed c.sink = false ∧ p.latched = false) →
      J ((p.acquire i c).append i (data.take n)))
    (hI : ∀ p res p', I p → view i p = v →
      AppendEffect fails E doFsync i c.sink data (p.acquire i c) res p' →
      I p' ∧ Q res ⟨none, view i p'⟩) :
    (appendLine E.closed E.latched E.failed doFsync data).wp
      ((fileMonitor kind fails view canStart).localSem I J i c) ⟨none, v⟩ Q := by
  refine Monitor.wp_withLock fun p hp hv => ?_
  have hJ₀ : J (p.acquire i c) := by
    have := hJ p 0 hp hv (Nat.zero_le _) (fun h => absurd rfl h)
    rwa [List.take_zero, Stream.append_nil] at this
  have finish : ∀ {res p'}, AppendEffect fails E doFsync i c.sink data (p.acquire i c) res p' →
      ∃ p'', (fileMonitor kind fails view canStart).holding i p' =
        (fileMonitor kind fails view canStart).holding i p'' ∧ I p'' ∧ Q res ⟨none, view i p''⟩ :=
    fun he => ⟨_, rfl, hI p _ _ hp hv he⟩
  refine Monitor.wp_act_bind hJ₀ trivial ?_
  rintro r _ ⟨hr, rfl⟩
  cases r with
  | true => exact finish (.closed hr.symm)
  | false =>
    refine Monitor.wp_act_bind hJ₀ trivial ?_
    rintro r' _ ⟨hr', rfl⟩
    cases r' with
    | true => exact finish (.latched hr.symm hr'.symm)
    | false =>
      have hc : (p.acquire i c).closed c.sink = false := hr.symm
      have hl : (p.acquire i c).latched = false := hr'.symm
      refine (Prog.wp_bind _ _ _ _).mpr (Prog.wp_mono (writeCompletely_wp hc hl
        fun n hn => hJ p n hp hv hn fun _ => ⟨hc, hl⟩) ?_)
      rintro _ _ ⟨status, p', rfl, rfl, he⟩
      cases he with
      | nothing hf hd => exact finish (.nothing hc hl hf hd)
      | torn hf hn hd =>
        refine Monitor.wp_act_bind (hJ p _ hp hv (by omega) fun _ => ⟨hc, hl⟩) trivial ?_
        rintro _ _ rfl
        exact finish (.torn hc hl hf hn hd)
      | written hs => exact finish (.written hc hl hs)
      | synced hs => exact finish (.synced hc hl hs)
      | syncFailed hf hs => exact finish (.syncFailed hc hl hf hs)

/-- What the critical section of a `close` of `sink` does and how it ends. -/
inductive CloseEffect (failed : PyError) (sink : Nat) (p : Stream) :
    Except PyError Unit → Stream → Prop where
  | again (h : p.closed sink = true) : CloseEffect failed sink p (.ok ()) p
  | closed (h : p.closed sink = false) : CloseEffect failed sink p (.ok ()) (p.closeOf sink)
  | failed (h : p.closed sink = false) : CloseEffect failed sink p (.error failed) (p.closeOf sink)

/-- The rule of the critical section of a `close`. -/
theorem closeSink_wp {failed : PyError}
    (hJ : ∀ p, I p → view i p = v → J (p.acquire i c) ∧ J ((p.acquire i c).closeOf c.sink))
    (hI : ∀ p res p', I p → view i p = v → CloseEffect failed c.sink (p.acquire i c) res p' →
      I p' ∧ Q res ⟨none, view i p'⟩) :
    (closeSink failed).wp ((fileMonitor kind fails view canStart).localSem I J i c) ⟨none, v⟩ Q := by
  refine Monitor.wp_withLock fun p hp hv => ?_
  obtain ⟨hJ₀, hJ₁⟩ := hJ p hp hv
  have finish : ∀ {res p'}, CloseEffect failed c.sink (p.acquire i c) res p' →
      ∃ p'', (fileMonitor kind fails view canStart).holding i p' =
        (fileMonitor kind fails view canStart).holding i p'' ∧ I p'' ∧ Q res ⟨none, view i p''⟩ :=
    fun he => ⟨_, rfl, hI p _ _ hp hv he⟩
  refine Monitor.wp_act_bind hJ₀ trivial ?_
  rintro r _ ⟨hr, rfl⟩
  cases r with
  | true => exact finish (.again hr.symm)
  | false =>
    refine Monitor.wp_act_bind hJ₀ trivial ?_
    rintro _ _ rfl
    refine Monitor.wp_act_bind hJ₁ trivial ?_
    rintro r' _ ⟨rfl, rfl | rfl⟩
    · exact finish (.closed hr.symm)
    · exact finish (.failed hr.symm)

end Append

/-! ## Two runs -/

section Runs

variable {fails : Bool} {V : Type} {view : Nat → Stream → V} {kind : StreamKind}
  {canStart : Stream → List (Call × SinkProg Unit) → Call → Prop} {i : Nat} {c : Call}
  {E : AppendErrors} {data : Bytes} {p : Stream}

omit [PyRuntime] in
/-- One `os.write` can take everything. -/
theorem runs_writeLoop_all {M : Semantics (lockSig streamSig) Stream} {p' : Stream}
    (hd : data ≠ []) (h : M.step p (.act (.osWrite data)) (.returned (data.length : Nat)) p') :
    (writeLoop data data.length 0).Runs M p (.ok data.length) p' := by
  have hpos := List.length_pos_iff.mpr hd
  obtain ⟨n, hn⟩ : ∃ n, data.length = n + 1 := ⟨data.length - 1, by omega⟩
  have hdone : (writeLoop data n data.length).Runs M p' (.ok data.length) p' := by
    cases n with
    | zero => exact .ret
    | succ n => rw [writeLoop, if_neg (Nat.lt_irrefl _)]; exact .ret
  rw [show writeLoop data data.length 0 = writeLoop data (n + 1) 0 by rw [hn],
    writeLoop_round hpos]
  refine Prog.Runs.bind (.op h .ret) ?_
  simp only [Int.toNat_natCast, Nat.zero_add]
  rw [if_neg (by omega)]
  exact hdone

/-- A line can be written in full, and synced. -/
theorem runs_appendLine (hc : p.closed c.sink = false) (hl : p.latched = false) (hd : data ≠ []) :
    (appendLine E.closed E.latched E.failed true data).Runs
      ((fileMonitor kind fails view canStart).system.sem i c) ⟨none, p⟩ (.ok ())
      ⟨none, ((p.acquire i c).append i data).sync i⟩ := by
  have hpos := List.length_pos_iff.mpr hd
  refine Monitor.runs_withLock (.bind (a := false) (t := p.acquire i c) (.op ⟨hc.symm, rfl⟩ .ret) ?_)
  rw [if_neg (by decide)]
  refine .bind (a := false) (t := p.acquire i c) (.op ⟨hl.symm, rfl⟩ .ret) ?_
  rw [if_neg (by decide)]
  refine .bind (a := .WRITE_COMPLETE) (t := ((p.acquire i c).append i data).sync i) ?_ .ret
  refine .bind (t := (p.acquire i c).append i data) (runs_writeLoop_all hd ?_) ?_
  · exact .inl ⟨data.length, Nat.le_refl _, .inr hpos, rfl, by rw [List.take_length]⟩
  · rw [if_neg (not_not_intro rfl), if_pos rfl]
    exact .bind (.op (.inl ⟨rfl, rfl⟩) .ret) .ret

/-- A line can be torn after its first byte. -/
theorem runs_appendLine_torn (hc : p.closed c.sink = false) (hl : p.latched = false)
    (hd : 1 < data.length) {doFsync : Bool} :
    (appendLine E.closed E.latched E.failed doFsync data).Runs
      ((fileMonitor kind true view canStart).system.sem i c) ⟨none, p⟩ (.error E.failed)
      ⟨none, ((p.acquire i c).append i (data.take 1)).latch⟩ := by
  obtain ⟨n, hn⟩ : ∃ n, data.length = n + 2 := ⟨data.length - 2, by omega⟩
  have hloop : (writeLoop data data.length 0).Runs
      ((fileMonitor kind true view canStart).inside i c) (p.acquire i c) (.ok 1)
      ((p.acquire i c).append i (data.take 1)) := by
    rw [show writeLoop data data.length 0 = writeLoop data (n + 2) 0 by rw [hn], writeLoop,
      if_pos (by omega)]
    refine .bind (.op (r := OsResult.returned (1 : Int)) (t := (p.acquire i c).append i (data.take 1))
      (.inl ⟨1, by simp; omega, .inl rfl, rfl, rfl⟩) .ret) ?_
    simp only [Int.reduceLE, if_false, Int.toNat_one, Nat.zero_add]
    rw [writeLoop, if_pos hd]
    exact .bind (.op (r := (OsResult.osError : OsResult Int)) (.inr ⟨rfl, rfl, rfl⟩) .ret) .ret
  refine Monitor.runs_withLock (.bind (a := false) (t := p.acquire i c) (.op ⟨hc.symm, rfl⟩ .ret) ?_)
  rw [if_neg (by decide)]
  refine .bind (a := false) (t := p.acquire i c) (.op ⟨hl.symm, rfl⟩ .ret) ?_
  rw [if_neg (by decide)]
  refine .bind (a := .WRITE_PARTIAL) (t := (p.acquire i c).append i (data.take 1)) ?_ ?_
  · refine .bind hloop ?_
    rw [if_pos (by omega), if_pos (by omega)]
    exact .ret
  · rw [if_pos rfl]
    exact .bind (.op (r := ()) rfl .ret) .throw

end Runs

end NmLogging
