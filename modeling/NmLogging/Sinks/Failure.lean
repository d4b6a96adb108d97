import NmLogging.Reader.RoundTrip

/-!
# What a failed append leaves

One audit append, from any state of its sink and file, where the operating system
answers each call as a script says (`OsScript`). A failed append leaves the
records that the reader yields as they were, but for one case
(`kept_iff`): the line is written in full and only the sync fails, and the file
can be read up to that line. A record then stands in the file that its caller was
told is not there.
-/

namespace NmLogging

/-! ## Scripted answers -/

/-- What the operating system answers during one append: for each `os.write`
how many bytes it takes, or none for an `OSError` (which also stands for every
call after the last), and whether `os.fsync` succeeds. -/
structure OsScript where
  writes : List (Option Nat)
  fsync : Bool

/-- The bytes that `os.write` takes before it first takes none. -/
def takenBytes : List (Option Nat) → Nat
  | some (n + 1) :: ws => n + 1 + takenBytes ws
  | _ => 0

/-- The answers of the operating system to the `i`-th call `c`. -/
def OsScript.answer (fsync : Bool) (i : Nat) (c : Call) (s : Stream × List (Option Nat)) :
    (o : (lockSig streamSig).Op) → (lockSig streamSig).Ret o × (Stream × List (Option Nat))
  | LockOp.acquire => ((), (s.1.acquire i c, s.2))
  | LockOp.release => ((), s)
  | LockOp.act .isClosed => (s.1.closed c.sink, s)
  | LockOp.act .setClosed => ((), (s.1.closeOf c.sink, s.2))
  | LockOp.act .isLatched => (s.1.latched, s)
  | LockOp.act .setLatched => ((), (s.1.latch, s.2))
  | LockOp.act (.osWrite data) =>
    match s.2 with
    | some n :: ws => (.returned (min n data.length : Nat), (s.1.append i (data.take n), ws))
    | none :: ws => (.osError, (s.1, ws))
    | [] => (.osError, (s.1, []))
  | LockOp.act .osFsync => if fsync then (.returned (), (s.1.sync i, s.2)) else (.osError, s)
  | LockOp.act .osClose => (.returned (), s)

variable [PyRuntime]

/-! ## What the reader makes of it -/

/-- More of a torn tail changes no record. -/
theorem records_append_torn {f b : Bytes} (hb : newline ∉ b) :
    (iterate (f ++ b)).records = (iterate f).records := by
  obtain ⟨ls, t, hls, ht, rfl⟩ := exists_lines f
  rw [List.append_assoc, iterate_records hls ht, iterate_records hls]
  simp [ht, hb]

/-- The line of a record is read behind white space only. -/
theorem isSome_lineObject_append {kind : StreamKind} {r : Record} {l t : Bytes}
    (h : kind.encodeLine r = .ok l) :
    (lineObject (t ++ l)).isSome ↔ ∀ b ∈ t, Json.isWs b.toNat = true := by
  obtain ⟨-, -, s, data, hs, hd, rfl⟩ := encodeLine_ok h
  obtain ⟨kvs, hk, hrender⟩ := encode_ok.mp hs
  rw [Option.isSome_iff_exists]
  simp only [lineObject_eq_some, ← List.append_assoc, List.dropLast_concat]
  constructor
  · rintro ⟨obj, text, htext, hload⟩
    obtain ⟨u, hu⟩ := head_encode hk
    rw [hrender, hu] at hd
    obtain ⟨p, rfl, hp⟩ := exists_of_encodeUtf8_append (by decide) hd (encodeUtf8_decodeUtf8 htext)
    rw [← hu, ← hrender] at hload
    have hws := isWs_of_loads_encode hs hload
    have hascii : ∀ c ∈ p, c < 0x80 := by
      intro c hc
      have := hws c hc
      simp only [Json.isWs, Bool.or_eq_true, beq_iff_eq] at this
      omega
    rw [encodeUtf8_ascii hascii] at hp
    cases hp
    intro b hb
    obtain ⟨c, hc, rfl⟩ := List.mem_map.mp hb
    have := hascii c hc
    rw [UInt8.toNat_ofNat', Nat.mod_eq_of_lt (by omega)]
    exact hws c hc
  · intro hws
    have hws' : ∀ c ∈ t.map UInt8.toNat, Json.isWs c = true := by
      intro c hc
      obtain ⟨b, hb, rfl⟩ := List.mem_map.mp hc
      exact hws b hb
    have hascii : ∀ c ∈ t.map UInt8.toNat, c < 0x80 := by
      intro c hc
      have := hws' c hc
      simp only [Json.isWs, Bool.or_eq_true, beq_iff_eq] at this
      omega
    refine ⟨_, t.map UInt8.toNat ++ s, ?_, loads_encode hs hk hws'⟩
    refine decodeUtf8_encodeUtf8 (encodeUtf8_append_some.mpr ⟨t, data, ?_, hd, rfl⟩)
    rw [encodeUtf8_ascii hascii, List.map_map]
    exact congrArg some (List.map_id'' (fun b => UInt8.ofNat_toNat) t)

/-- A whole line adds a record where the reader gets to it and what stands before
it on its line is white space. -/
theorem records_append_line {kind : StreamKind} {r : Record} {f l : Bytes}
    (h : kind.encodeLine r = .ok l) :
    (iterate (f ++ l)).records = (iterate f).records ↔
      ¬((iterate f).error = none ∧ ∀ b ∈ tornTail f, Json.isWs b.toNat = true) := by
  obtain ⟨ls, t, hls, ht, rfl⟩ := exists_lines f
  obtain ⟨data, hdata, hl⟩ := (encodeLine_ok h).1
  have hline : ∀ m ∈ ls ++ [t ++ l], IsLine m := by
    intro m hm
    rcases List.mem_append.mp hm with hm | hm
    · exact hls m hm
    · rw [List.mem_singleton] at hm
      subst hm
      exact ⟨t ++ data, by simp [ht, hdata], by rw [hl, List.append_assoc]⟩
  have hfile : ls.flatten ++ t ++ l = (ls ++ [t ++ l]).flatten ++ [] := by simp
  rw [hfile, iterate_records hline (by simp), iterate_records hls ht, iterate_error hls ht,
    tornTail_eq hls ht, ← isSome_lineObject_append h]
  by_cases hobj : ∀ m ∈ ls, (lineObject m).isSome
  · rw [objectsOf_append hobj]
    cases hl' : lineObject (t ++ l) with
    | none => simp [objectsOf, hl']
    | some obj =>
      refine iff_of_false ?_ fun h => h ⟨hobj, by simp⟩
      simp [objectsOf, hl']
  · have hnone : ∃ m ∈ ls, lineObject m = none := by
      simpa using hobj
    rw [objectsOf_append_of_none hnone]
    simp [hobj]

/-! ## The append -/

/-- A scripted append of a record through a sink: how it ends, and the file
afterwards. -/
def OsScript.append (script : OsScript) (i sink : Nat) (record : Record) (p : Stream) :
    Except PyError Unit × Stream :=
  let r := (JsonlAuditSink.append record).run
    (OsScript.answer script.fsync i (.write sink record)) (p, script.writes)
  (r.1, r.2.1)

/-- A scripted append is one that the sinks of the file can make. -/
theorem OsScript.runs_append (script : OsScript) (i sink : Nat) (record : Record) (p : Stream)
    {V : Type} (view : Nat → Stream → V)
    (canStart : Stream → List (Call × SinkProg Unit) → Call → Prop) :
    (JsonlAuditSink.append record).Runs
      ((fileMonitor .audit true view canStart).solo i (.write sink record)) p
      (script.append i sink record p).1 (script.append i sink record p).2 := by
  refine Prog.runs_run Prod.fst (fun s o => ?_) _ (p, script.writes)
  obtain ⟨q, ws⟩ := s
  cases o with
  | acquire => rfl
  | release => rfl
  | act o =>
    cases o with
    | isClosed => exact ⟨rfl, rfl⟩
    | setClosed => rfl
    | isLatched => exact ⟨rfl, rfl⟩
    | setLatched => rfl
    | osWrite data =>
      match ws with
      | some n :: ws =>
        refine .inl ⟨min n data.length, Nat.min_le_right _ _, .inl rfl, rfl, ?_⟩
        show q.append i (data.take n) = _
        rw [List.take_eq_take_min]
      | none :: ws => exact .inr ⟨rfl, rfl, rfl⟩
      | [] => exact .inr ⟨rfl, rfl, rfl⟩
    | osFsync =>
      cases script.fsync
      · exact .inr ⟨rfl, rfl, rfl⟩
      · exact .inl ⟨rfl, rfl⟩
    | osClose => exact ⟨rfl, .inl rfl⟩

/-! ## What the append does -/

section

variable {fsync : Bool} {i : Nat} {c : Call} {data : Bytes}

omit [PyRuntime]

/-- A round of the completion loop. -/
theorem run_writeLoop_round {rounds n k : Nat} {p : Stream} {ws : List (Option Nat)}
    (hlt : n < data.length) :
    (writeLoop data (rounds + 1) n).run (OsScript.answer fsync i c) (p, some k :: ws) =
      (if k = 0 then Prog.ret n else writeLoop data rounds (n + min k (data.length - n))).run
        (OsScript.answer fsync i c) (p.append i ((data.drop n).take k), ws) := by
  rw [writeLoop, if_pos hlt]
  show (if ((min k (data.drop n).length : Nat) : Int) ≤ 0 then Prog.ret n
    else writeLoop data rounds (n + ((min k (data.drop n).length : Nat) : Int).toNat)).run
      (OsScript.answer fsync i c) (p.append i ((data.drop n).take k), ws) = _
  rw [List.length_drop, Int.toNat_natCast]
  by_cases hk : k = 0
  · rw [if_pos hk, if_pos (by omega)]
  · rw [if_neg hk, if_neg (by omega)]

/-- The completion loop writes what the operating system takes. -/
theorem run_writeLoop {rounds n : Nat} {p : Stream} {ws : List (Option Nat)}
    (hn : n ≤ data.length) (hr : data.length ≤ n + rounds) :
    ∃ ws', (writeLoop data rounds n).run (OsScript.answer fsync i c) (p, ws) =
      (.ok (min data.length (n + takenBytes ws)),
        p.append i ((data.drop n).take (takenBytes ws)), ws') := by
  induction rounds generalizing n p ws with
  | zero =>
    have : n = data.length := by omega
    subst this
    exact ⟨ws, by simp [writeLoop, Prog.run, Stream.append_nil]⟩
  | succ rounds ih =>
    have stop : ∀ ws ws' : List (Option Nat), takenBytes ws = 0 →
        ((.ok n, p, ws') : Except PyError Nat × Stream × List (Option Nat)) =
          (.ok (min data.length (n + takenBytes ws)),
            p.append i ((data.drop n).take (takenBytes ws)), ws') := by
      intro ws ws' h
      rw [h, List.take_zero, Stream.append_nil, Nat.add_zero, Nat.min_eq_right hn]
    by_cases hlt : n < data.length
    · obtain _ | ⟨_ | _ | k, ws⟩ := ws
      · refine ⟨[], Eq.trans ?_ (stop [] [] rfl)⟩
        rw [writeLoop, if_pos hlt]
        rfl
      · refine ⟨ws, Eq.trans ?_ (stop (none :: ws) ws rfl)⟩
        rw [writeLoop, if_pos hlt]
        rfl
      · refine ⟨ws, Eq.trans ?_ (stop (some 0 :: ws) ws rfl)⟩
        rw [run_writeLoop_round hlt, if_pos rfl, List.take_zero, Stream.append_nil]
        rfl
      · obtain ⟨ws', ih⟩ := @ih (n + min (k + 1) (data.length - n))
          (p.append i ((data.drop n).take (k + 1))) ws (by omega) (by omega)
        refine ⟨ws', ?_⟩
        have hdrop : data.drop (n + min (k + 1) (data.length - n)) = (data.drop n).drop (k + 1) := by
          rw [List.drop_drop]
          by_cases h : k + 1 ≤ data.length - n
          · rw [Nat.min_eq_left h]
          · rw [List.drop_of_length_le (by omega), List.drop_of_length_le (by omega)]
        rw [run_writeLoop_round hlt, if_neg (by omega), ih, Stream.append_append, hdrop,
          ← List.take_add, takenBytes]
        congr 2
        omega
    · refine ⟨ws, ?_⟩
      have : n = data.length := by omega
      subst this
      simp [writeLoop, Prog.run, Stream.append_nil]

/-- What `write_completely` comes to. -/
theorem run_writeCompletely {p : Stream} {ws : List (Option Nat)} :
    ∃ ws' p', (writeCompletely data true).run (OsScript.answer fsync i c) (p, ws) =
      (.ok (if data.length ≤ takenBytes ws then
          if fsync then .WRITE_COMPLETE else .WRITE_SYNC_FAILED
        else if takenBytes ws = 0 then .WRITE_NOTHING else .WRITE_PARTIAL), p', ws') ∧
      p'.content = p.content ++ data.take (takenBytes ws) := by
  obtain ⟨ws', h⟩ := @run_writeLoop fsync i c data data.length 0 p ws (Nat.zero_le _) (Nat.le_add_left data.length 0)
  rw [writeCompletely, Prog.run_bind, h]
  simp only [Nat.zero_add, List.drop_zero]
  by_cases hle : data.length ≤ takenBytes ws
  · rw [Nat.min_eq_left hle, if_pos hle, if_neg (not_not_intro rfl), if_pos trivial]
    cases fsync with
    | true => exact ⟨ws', (p.append i (data.take (takenBytes ws))).sync i, rfl, rfl⟩
    | false => exact ⟨ws', p.append i (data.take (takenBytes ws)), rfl, rfl⟩
  · rw [Nat.min_eq_right (by omega), if_neg hle, if_pos (by omega)]
    refine ⟨ws', p.append i (data.take (takenBytes ws)), ?_, rfl⟩
    by_cases h0 : takenBytes ws = 0
    · rw [if_pos h0, if_neg (by omega)]
      rfl
    · rw [if_neg h0, if_pos (by omega)]
      rfl

theorem run_isClosed (s : Stream × List (Option Nat)) :
    isClosed.run (OsScript.answer fsync i c) s = (.ok (s.1.closed c.sink), s) := rfl

theorem run_isLatched (s : Stream × List (Option Nat)) :
    isLatched.run (OsScript.answer fsync i c) s = (.ok s.1.latched, s) := rfl

/-- What an append of a line comes to. -/
theorem run_appendLine {E : AppendErrors} {p : Stream} {ws : List (Option Nat)} :
    ∃ p' ws', (appendLine E.closed E.latched E.failed true data).run
        (OsScript.answer fsync i c) (p, ws) =
      (if p.closed c.sink then .error E.closed
        else if p.latched then .error E.latched
        else if data.length ≤ takenBytes ws ∧ fsync = true then .ok ()
        else .error E.failed, p', ws') ∧
      p'.content = if p.closed c.sink = false ∧ p.latched = false then
        p.content ++ data.take (takenBytes ws) else p.content := by
  have hacq : (OsScript.answer fsync i c (p, ws) LockOp.acquire).2 = (p.acquire i c, ws) := rfl
  have hrel : ∀ s, (OsScript.answer fsync i c s LockOp.release).2 = s := fun s => rfl
  have hclosed : (p.acquire i c).closed c.sink = p.closed c.sink := rfl
  have hlatched : (p.acquire i c).latched = p.latched := rfl
  have hcontent : (p.acquire i c).content = p.content := rfl
  rw [appendLine, Prog.run_withLock, hacq, hrel]
  simp only [Prog.run_bind, run_isClosed, hclosed]
  cases p.closed c.sink with
  | true => exact ⟨p.acquire i c, ws, rfl, by simp [hcontent]⟩
  | false =>
    simp only [Bool.false_eq_true, if_false, Prog.run_bind, run_isLatched, hlatched]
    cases p.latched with
    | true => exact ⟨p.acquire i c, ws, rfl, by simp [hcontent]⟩
    | false =>
      obtain ⟨ws', p', h, hp⟩ := @run_writeCompletely fsync i c data (p.acquire i c) ws
      simp only [Bool.false_eq_true, if_false, Prog.run_bind, h]
      rw [hcontent] at hp
      by_cases hle : data.length ≤ takenBytes ws
      · rw [if_pos hle]
        cases fsync with
        | true => exact ⟨p', ws', by
            rw [if_pos (show data.length ≤ takenBytes ws ∧ true = true from ⟨hle, rfl⟩)]; rfl, by simpa using hp⟩
        | false => exact ⟨p', ws', by
            rw [if_neg (show ¬(data.length ≤ takenBytes ws ∧ false = true) by simp)]; rfl, by simpa using hp⟩
      · have hnot : ¬(data.length ≤ takenBytes ws ∧ fsync = true) := fun h => hle h.1
        rw [if_neg hle, if_neg hnot]
        by_cases h0 : takenBytes ws = 0
        · rw [if_pos h0]
          exact ⟨p', ws', rfl, by simpa using hp⟩
        · rw [if_neg h0]
          exact ⟨p'.latch, ws', rfl, by simpa [Stream.latch] using hp⟩

end

/-- How an append ends and what it leaves in the file. -/
theorem OsScript.append_eq (script : OsScript) (i sink : Nat) (record : Record) (p : Stream) :
    match StreamKind.audit.encodeLine record with
    | .error e => (script.append i sink record p).1 = .error e ∧
        (script.append i sink record p).2.content = p.content
    | .ok l =>
      (script.append i sink record p).1 =
        (if p.closed sink then .error StreamKind.audit.errors.closed
          else if p.latched then .error StreamKind.audit.errors.latched
          else if l.length ≤ takenBytes script.writes ∧ script.fsync = true then .ok ()
          else .error StreamKind.audit.errors.failed) ∧
      (script.append i sink record p).2.content =
        if p.closed sink = false ∧ p.latched = false then
          p.content ++ l.take (takenBytes script.writes) else p.content := by
  have hprog : JsonlAuditSink.append record = Prog.ofExcept (StreamKind.audit.encodeLine record) >>=
      fun data => appendLine StreamKind.audit.errors.closed StreamKind.audit.errors.latched
        StreamKind.audit.errors.failed true data := prog_write .audit sink record
  rw [append, hprog]
  cases StreamKind.audit.encodeLine record with
  | error e => exact ⟨rfl, rfl⟩
  | ok l =>
    obtain ⟨p', ws', h, hp⟩ := @run_appendLine script.fsync i (.write sink record) l
      StreamKind.audit.errors p script.writes
    have hrun : (Prog.ofExcept (Except.ok l : Except PyError Bytes) >>= fun data =>
        appendLine StreamKind.audit.errors.closed StreamKind.audit.errors.latched
          StreamKind.audit.errors.failed true data) =
        appendLine StreamKind.audit.errors.closed StreamKind.audit.errors.latched
          StreamKind.audit.errors.failed true l := rfl
    simp only [hrun, h]
    exact ⟨rfl, hp⟩

/-- The append has no failure that leaves other records than before: where it raises
`EventSchemaError` or `AuditPersistenceError`, the reader yields what it yielded. -/
def OsScript.Kept (script : OsScript) (i sink : Nat) (record : Record) (p : Stream) : Prop :=
  ∀ e, (script.append i sink record p).1 = .error e →
    (e.isA .eventSchemaError || e.isA .auditPersistenceError) = true →
    (iterate (script.append i sink record p).2.content).records = (iterate p.content).records

/-- The line is written in full and the sync fails, and the reader gets to the line
and reads it. -/
def OsScript.Unsynced (script : OsScript) (sink : Nat) (record : Record) (p : Stream) : Prop :=
  ∃ l, StreamKind.audit.encodeLine record = .ok l ∧ p.closed sink = false ∧ p.latched = false ∧
    l.length ≤ takenBytes script.writes ∧ script.fsync = false ∧
    (iterate p.content).error = none ∧ ∀ b ∈ tornTail p.content, Json.isWs b.toNat = true

/-- Such an append raises, and its record is read. -/
theorem OsScript.not_kept_of_unsynced {script : OsScript} {i sink : Nat} {record : Record}
    {p : Stream} (h : script.Unsynced sink record p) : ¬script.Kept i sink record p := by
  obtain ⟨l, hl, hc, hu, hle, hs, hread⟩ := h
  have happ := script.append_eq i sink record p
  simp only [hl, hc, hu, hs, Bool.false_eq_true, and_false, if_false, and_self, if_true,
    List.take_of_length_le hle] at happ
  obtain ⟨hres, hcont⟩ := happ
  intro hkept
  have := hkept _ hres (by decide)
  rw [hcont, records_append_line hl] at this
  exact this hread

/-- **What a failed append leaves.** -/
theorem OsScript.kept_iff (script : OsScript) (i sink : Nat) (record : Record) (p : Stream) :
    script.Kept i sink record p ↔ ¬script.Unsynced sink record p := by
  refine ⟨fun hkept h => not_kept_of_unsynced h hkept, fun h => ?_⟩
  have happ := script.append_eq i sink record p
  cases hl : StreamKind.audit.encodeLine record with
  | error e =>
    simp only [hl] at happ
    intro _ _ _
    rw [happ.2]
  | ok l =>
    simp only [hl] at happ
    obtain ⟨hres, hcont⟩ := happ
    intro e he _
    rw [hres] at he
    rw [hcont]
    split
    · rename_i hopen
      rw [hopen.1, hopen.2] at he
      by_cases hle : l.length ≤ takenBytes script.writes
      · rw [List.take_of_length_le hle, records_append_line hl]
        intro hread
        refine h ⟨l, hl, hopen.1, hopen.2, hle, ?_, hread⟩
        cases hs : script.fsync with
        | true => simp [hle, hs] at he
        | false => rfl
      · refine records_append_torn ((encodeLine_ok hl).1.newline_notMem_piece
          (List.take_prefix _ _) fun e => ?_)
        have := congrArg List.length e
        rw [List.length_take] at this
        omega
    · rfl

omit [PyRuntime] in
/-- The sync after a whole line fails on a new file. -/
theorem OsScript.not_kept_sampleIntent : ¬@OsScript.Kept PyRuntime.plain
    ⟨[some MAX_RECORD_BYTES], false⟩ 0 0 (.audit sampleIntent) (.fresh []) := by
  let _ := PyRuntime.plain
  obtain ⟨l, hl⟩ := exists_encodeLine_sampleIntent
  refine not_kept_of_unsynced ⟨l, hl, rfl, rfl, ?_, rfl, rfl, by simp [tornTail, Stream.fresh]⟩
  exact (encodeLine_ok hl).2.1

end NmLogging
