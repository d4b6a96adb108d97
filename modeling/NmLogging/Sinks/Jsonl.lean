import NmLogging.Sinks.Streams

/-!
# The file sinks

`JsonlSink` of `sinks/jsonl.py` and `JsonlAuditSink` of `sinks/jsonl_audit.py`.
The two differ in the records they take, in the exceptions they raise, and in
that the audit sink syncs; the rest is `lineBytes`, `appendLine` and `closeSink`.
A line that a sink writes is a complete line within the size limit
(`lineBytes_ok`).
-/

namespace NmLogging

variable [PyRuntime]

/-- The UTF-8 line of a record, with its newline and within the size limit. -/
def lineBytes (unencodable oversize : PyError) (r : Record) : Except PyError Bytes := do
  let line ← encode r
  match encodeUtf8 line with
  | none => .error unencodable
  | some data =>
    if MAX_RECORD_BYTES < (data ++ [newline]).length then .error oversize
    else return data ++ [newline]

/-- The critical section of an append: refuse on a closed sink or a latched
stream, write, and latch after a torn write. -/
def appendLine (closed latched failed : PyError) (doFsync : Bool) (data : Bytes) : SinkProg Unit :=
  Prog.withLock do
    if ← isClosed then .throw closed
    else if ← isLatched then .throw latched
    else
      let result ← writeCompletely data doFsync
      if result = .WRITE_PARTIAL then setLatched
      if result ≠ .WRITE_COMPLETE then .throw failed

/-- `close`: the first one closes the descriptor. -/
def closeSink (failed : PyError) : SinkProg Unit :=
  Prog.withLock do
    if ← isClosed then return ()
    else
      setClosed
      match ← osClose with
      | .returned _ => return ()
      | .osError => .throw failed
      | .raised e => .throw e

/-! ## The operational sink -/

def sinkError (text : String) : PyError := ⟨SinkError, lit text⟩

/-- `_encode_line_bytes`. -/
def encodeLineBytes (r : Record) : Except PyError Bytes :=
  lineBytes (schemaError "record is not encodable as UTF-8")
    (schemaError "record exceeds the maximum encoded size") r

/-- `JsonlSink.write`. -/
def JsonlSink.write (record : Record) : SinkProg Unit :=
  match record with
  | .operational _ => do
    let data ← Prog.ofExcept (encodeLineBytes record)
    appendLine (sinkError "operational sink is closed")
      (sinkError "operational stream latched after a partial write")
      (sinkError "operational sink write failed") false data
  | _ => .throw (schemaError "operational sink received a non-operational record")

/-- `JsonlSink.close`. -/
def JsonlSink.close : SinkProg Unit := closeSink (sinkError "closing the operational sink failed")

/-! ## The audit sink -/

def persistenceError (text : String) : PyError := ⟨AuditPersistenceError, lit text⟩

/-- The line `JsonlAuditSink.append` writes. -/
def auditLineBytes (r : Record) : Except PyError Bytes :=
  lineBytes (schemaError "audit record is not encodable as UTF-8")
    (schemaError "audit record exceeds the maximum encoded size") r

/-- `JsonlAuditSink.append`. -/
def JsonlAuditSink.append (record : Record) : SinkProg Unit :=
  match record with
  | .audit _ => do
    let data ← Prog.ofExcept (auditLineBytes record)
    appendLine (persistenceError "audit sink is closed")
      (persistenceError "audit stream latched after a partial write")
      (persistenceError "audit append did not achieve durability") true data
  | _ => .throw (schemaError "audit sink received a non-audit record")

/-- `JsonlAuditSink.close`. -/
def JsonlAuditSink.close : SinkProg Unit :=
  closeSink (persistenceError "closing the audit sink failed")

/-! ## Lines -/

theorem lineBytes_ok {u o : PyError} {r : Record} {l : Bytes} :
    lineBytes u o r = .ok l ↔
      ∃ s data, encode r = .ok s ∧ encodeUtf8 s = some data ∧ l = data ++ [newline] ∧
        l.length ≤ MAX_RECORD_BYTES := by
  simp only [lineBytes, bind_eq_ok]
  constructor
  · rintro ⟨s, hs, h⟩
    split at h
    · cases h
    · rename_i data hd
      split at h
      · cases h
      · rename_i hle
        cases h
        exact ⟨s, data, hs, hd, rfl, by omega⟩
  · rintro ⟨s, data, hs, hd, rfl, hle⟩
    refine ⟨s, hs, ?_⟩
    simp only [hd]
    rw [if_neg (by omega)]
    rfl

theorem lineBytes_error {u o e : PyError} {r : Record} (h : lineBytes u o r = .error e) :
    encode r = .error e ∨ (∃ s, encode r = .ok s) ∧ (e = u ∨ e = o) := by
  rcases bind_eq_error.mp h with h | ⟨s, hs, h⟩
  · exact .inl h
  · refine .inr ⟨⟨s, hs⟩, ?_⟩
    split at h
    · cases h
      exact .inl rfl
    · split at h
      · cases h
        exact .inr rfl
      · cases h

/-- What a sink writes for a record is one line. -/
theorem isLine_of_lineBytes {u o : PyError} {r : Record} {l : Bytes}
    (h : lineBytes u o r = .ok l) : IsLine l := by
  obtain ⟨s, data, hs, hd, rfl, -⟩ := lineBytes_ok.mp h
  exact ⟨data, newline_notMem_encodeUtf8 hd (newline_notMem_encode hs), rfl⟩

end NmLogging
