import NmLogging.Sinks.Framing

/-!
# Appends that any exception can end

One append through a sink of either kind, where each `os.write` and the
`os.fsync` end with a count or with any exception at all (`OsBehaviour`): an
`OSError`, which `write_completely` handles, or another one, as a signal handler
raises it, which it does not. A torn line latches its stream, but for one that such
an exception interrupts (`SinkAppend.tornLatches_iff`); an append raises what the
protocol of its sink declares, but for such an exception and for what the encoder
raises (`SinkAppend.keepsContract_iff`).
-/

namespace NmLogging

/-! ## The operating system -/

/-- How a call of `os.write` ends. -/
inductive OsAnswer where
  | returned (n : Nat)
  | raised (e : PyError)

/-- An exception, as `except OSError` tells it from the others. -/
def OsResult.ofError {α : Type} (e : PyError) : OsResult α :=
  if e.isA .osError then .osError else .raised e

/-- What the operating system does during one append: how many bytes each
`os.write` takes, or what it raises (an `OSError` after the last), and what
`os.fsync` raises. -/
structure OsBehaviour where
  writes : List OsAnswer
  fsync : Option PyError

namespace OsBehaviour

/-- `os.write` raises nothing but `OSError`s. -/
def OnlyOsErrors (b : OsBehaviour) : Prop :=
  ∀ e, .raised e ∈ b.writes → e.isA .osError = true

/-- The answers of the operating system to the `i`-th call `c`. -/
def answer (fsync : Option PyError) (i : Nat) (c : Call) (s : Stream × List OsAnswer) :
    (o : (lockSig streamSig).Op) → (lockSig streamSig).Ret o × (Stream × List OsAnswer)
  | LockOp.acquire => ((), (s.1.acquire i c, s.2))
  | LockOp.release => ((), s)
  | LockOp.act .isClosed => (s.1.closed c.sink, s)
  | LockOp.act .setClosed => ((), (s.1.closeOf c.sink, s.2))
  | LockOp.act .isLatched => (s.1.latched, s)
  | LockOp.act .setLatched => ((), (s.1.latch, s.2))
  | LockOp.act (.osWrite data) =>
    match s.2 with
    | .returned n :: ws => (.returned (min n data.length : Nat), (s.1.append i (data.take n), ws))
    | .raised e :: ws => (.ofError e, (s.1, ws))
    | [] => (.osError, (s.1, []))
  | LockOp.act .osFsync =>
    match fsync with
    | none => (.returned (), (s.1.sync i, s.2))
    | some e => (.ofError e, s)
  | LockOp.act .osClose => (.returned (), s)

end OsBehaviour

/-- What the completion loop makes of the answers with `len` bytes to write: how
many it writes, and the exception that escapes it. -/
def writeOutcome (len : Nat) : List OsAnswer → Nat × Option PyError
  | .returned (n + 1) :: ws =>
    if len = 0 then (0, none)
    else
      let rest := writeOutcome (len - (n + 1)) ws
      (min (n + 1) len + rest.1, rest.2)
  | .raised e :: _ => (0, if len = 0 ∨ e.isA .osError then none else some e)
  | _ => (0, none)

theorem writeOutcome_le (len : Nat) (ws : List OsAnswer) : (writeOutcome len ws).1 ≤ len := by
  fun_induction writeOutcome len ws with
  | case1 => exact Nat.zero_le _
  | case2 len n ws h rest ih =>
    have : rest.1 ≤ len - (n + 1) := ih
    show min (n + 1) len + rest.1 ≤ len
    omega
  | case3 => exact Nat.zero_le _
  | case4 => exact Nat.zero_le _

theorem writeOutcome_zero (ws : List OsAnswer) : writeOutcome 0 ws = (0, none) := by
  unfold writeOutcome
  split <;> simp

/-- The `os.write` calls each take something, together less than `len` bytes, and
then one raises what is no `OSError`. -/
def Interrupts (len : Nat) (ws : List OsAnswer) (taken : Nat) (e : PyError) : Prop :=
  ∃ (counts : List Nat) (rest : List OsAnswer), ws = counts.map .returned ++ .raised e :: rest ∧
    (∀ n ∈ counts, 0 < n) ∧ counts.sum = taken ∧ taken < len ∧ e.isA .osError = false

/-- The `os.write` calls each take something until all `len` bytes are written. -/
def Completes (len : Nat) (ws : List OsAnswer) : Prop :=
  ∃ (counts : List Nat) (rest : List OsAnswer), ws = counts.map .returned ++ rest ∧
    (∀ n ∈ counts, 0 < n) ∧ len ≤ counts.sum

/-- An exception escapes the completion loop where an `os.write` is interrupted. -/
theorem writeOutcome_eq_some {len m : Nat} {ws : List OsAnswer} {e : PyError} :
    writeOutcome len ws = (m, some e) ↔ Interrupts len ws m e := by
  induction ws generalizing len m with
  | nil =>
    refine iff_of_false (by simp [writeOutcome]) ?_
    rintro ⟨counts, rest, h, -⟩
    simp at h
  | cons w ws ih =>
    cases w with
    | raised e' =>
      simp only [writeOutcome, Prod.mk.injEq]
      constructor
      · rintro ⟨rfl, h⟩
        split at h
        · cases h
        · rename_i hne
          cases h
          rw [not_or] at hne
          exact ⟨[], ws, rfl, by simp, rfl, by omega, by simpa using hne.2⟩
      · rintro ⟨counts, rest, h, -, hsum, hlt, hos⟩
        cases counts with
        | nil =>
          cases h
          cases hsum
          exact ⟨rfl, by rw [if_neg (by simp [hos]; omega)]⟩
        | cons c cs => cases h
    | returned n =>
      cases n with
      | zero =>
        refine iff_of_false (by simp [writeOutcome]) ?_
        rintro ⟨counts, rest, h, hpos, -⟩
        cases counts with
        | nil => cases h
        | cons c cs =>
          simp only [List.map_cons, List.cons_append, List.cons.injEq, OsAnswer.returned.injEq] at h
          have := hpos c List.mem_cons_self
          omega
      | succ n =>
        constructor
        · intro h
          rw [writeOutcome] at h
          split at h
          · cases h
          · rename_i hlen
            simp only [Prod.mk.injEq] at h
            obtain ⟨hm, he⟩ := h
            obtain ⟨counts, rest, hws, hpos, hsum, hlt, hos⟩ :=
              (@ih (len - (n + 1)) (writeOutcome (len - (n + 1)) ws).1).mp (Prod.ext rfl he)
            refine ⟨(n + 1) :: counts, rest, by simp [hws], ?_, ?_, ?_, hos⟩
            · rw [List.forall_mem_cons]
              exact ⟨Nat.succ_pos n, hpos⟩
            · rw [List.sum_cons, hsum]
              omega
            · omega
        · rintro ⟨counts, rest, h, hpos, hsum, hlt, hos⟩
          cases counts with
          | nil => cases h
          | cons c cs =>
            simp only [List.map_cons, List.cons_append, List.cons.injEq, OsAnswer.returned.injEq] at h
            obtain ⟨rfl, rfl⟩ := h
            rw [List.sum_cons] at hsum
            have hrest := (@ih (len - (n + 1)) cs.sum).mpr
              ⟨cs, rest, rfl, fun k hk => hpos k (List.mem_cons_of_mem _ hk), rfl, by omega, hos⟩
            rw [writeOutcome, if_neg (by omega), hrest]
            simp only [Prod.mk.injEq, and_true]
            omega

/-- The loop writes everything where no `os.write` stops it. -/
theorem writeOutcome_eq_len {len : Nat} {ws : List OsAnswer} :
    (writeOutcome len ws).1 = len ↔ Completes len ws := by
  induction ws generalizing len with
  | nil =>
    simp only [writeOutcome, Completes, List.nil_eq, List.append_eq_nil_iff, List.map_eq_nil_iff]
    constructor
    · rintro rfl
      exact ⟨[], [], ⟨rfl, rfl⟩, by simp, by simp⟩
    · rintro ⟨counts, rest, ⟨rfl, rfl⟩, -, h⟩
      simp only [List.sum_nil, Nat.le_zero] at h
      omega
  | cons w ws ih =>
    have stop : (w = .returned 0 ∨ ∃ e, w = .raised e) →
        ((writeOutcome len (w :: ws)).1 = len ↔ Completes len (w :: ws)) := by
      intro hw
      have hzero : (writeOutcome len (w :: ws)).1 = 0 := by
        rcases hw with rfl | ⟨e, rfl⟩ <;> rfl
      rw [hzero]
      constructor
      · rintro rfl
        exact ⟨[], w :: ws, rfl, by simp, by simp⟩
      · rintro ⟨counts, rest, h, hpos, hle⟩
        cases counts with
        | nil => simpa [eq_comm] using hle
        | cons c cs =>
          simp only [List.map_cons, List.cons_append, List.cons.injEq] at h
          have := hpos c List.mem_cons_self
          rcases hw with rfl | ⟨e, rfl⟩
          · cases h.1
            omega
          · cases h.1
    match w with
    | .raised e => exact stop (.inr ⟨e, rfl⟩)
    | .returned 0 => exact stop (.inl rfl)
    | .returned (n + 1) =>
      by_cases hlen : len = 0
      · subst hlen
        rw [writeOutcome_zero]
        exact iff_of_true rfl ⟨[], _, rfl, by simp, by simp⟩
      · have hle := writeOutcome_le (len - (n + 1)) ws
        rw [writeOutcome, if_neg hlen]
        constructor
        · intro h
          have hrest : (writeOutcome (len - (n + 1)) ws).1 = len - (n + 1) := by
            simp only at h
            omega
          obtain ⟨counts, rest, hws, hpos, hsum⟩ := ih.mp hrest
          refine ⟨(n + 1) :: counts, rest, by simp [hws], ?_, ?_⟩
          · rw [List.forall_mem_cons]
            exact ⟨Nat.succ_pos n, hpos⟩
          · rw [List.sum_cons]
            omega
        · rintro ⟨counts, rest, h, hpos, hsum⟩
          cases counts with
          | nil => simp only [List.sum_nil, Nat.le_zero] at hsum; omega
          | cons c cs =>
            simp only [List.map_cons, List.cons_append, List.cons.injEq, OsAnswer.returned.injEq]
              at h
            obtain ⟨rfl, rfl⟩ := h
            rw [List.sum_cons] at hsum
            have := ih.mpr ⟨cs, rest, rfl, fun k hk => hpos k (List.mem_cons_of_mem _ hk),
              show len - (n + 1) ≤ cs.sum by omega⟩
            simp only
            omega

/-! ## The append -/

namespace OsBehaviour

/-- How an append of `len` bytes through an open sink ends, on a stream that is not latched. -/
def result (b : OsBehaviour) (E : AppendErrors) (doFsync : Bool) (len : Nat) :
    Except PyError Unit :=
  match (writeOutcome len b.writes).2 with
  | some e => .error e
  | none =>
    if (writeOutcome len b.writes).1 < len then .error E.failed
    else if doFsync then
      match b.fsync with
      | none => .ok ()
      | some e => .error (if e.isA .osError then E.failed else e)
    else .ok ()

/-- Whether it latches the stream. -/
def latches (b : OsBehaviour) (len : Nat) : Bool :=
  (writeOutcome len b.writes).2 = none ∧ 0 < (writeOutcome len b.writes).1 ∧
    (writeOutcome len b.writes).1 < len

/-- What the completion loop comes to. -/
def loopResult (written : Nat) (outcome : Nat × Option PyError) : Except PyError Nat :=
  match outcome.2 with
  | none => .ok (written + outcome.1)
  | some e => .error e

theorem loopResult_add (m n : Nat) (outcome : Nat × Option PyError) :
    loopResult (m + n) outcome = loopResult m (n + outcome.1, outcome.2) := by
  unfold loopResult
  cases outcome.2 with
  | none => exact congrArg Except.ok (Nat.add_assoc m n outcome.1)
  | some e => rfl

section

variable {b : OsBehaviour} {i : Nat} {c : Call} {data : Bytes}

/-- A round of the completion loop. -/
theorem run_writeLoop_round {rounds n : Nat} {p : Stream} {w : OsAnswer} {ws : List OsAnswer}
    (hlt : n < data.length) :
    (writeLoop data (rounds + 1) n).run (answer b.fsync i c) (p, w :: ws) =
      match w with
      | .returned (k + 1) => (writeLoop data rounds (n + min (k + 1) (data.length - n))).run
          (answer b.fsync i c) (p.append i ((data.drop n).take (k + 1)), ws)
      | .returned 0 => (.ok n, p, ws)
      | .raised e => (if e.isA .osError then .ok n else .error e, p, ws) := by
  rw [writeLoop_round hlt]
  cases w with
  | raised e =>
    have hwrite : (osWrite (data.drop n)).run (answer b.fsync i c) (p, .raised e :: ws) =
        (.ok (OsResult.ofError e), p, ws) := rfl
    show _ = ((if e.isA .osError then .ok n else .error e : Except PyError Nat), p, ws)
    rw [Prog.run_bind, hwrite, OsResult.ofError]
    cases e.isA .osError <;> rfl
  | returned k =>
    show (if ((min k (data.drop n).length : Nat) : Int) ≤ 0 then Prog.ret n
      else writeLoop data rounds (n + ((min k (data.drop n).length : Nat) : Int).toNat)).run
        (answer b.fsync i c) (p.append i ((data.drop n).take k), ws) = _
    rw [List.length_drop, Int.toNat_natCast]
    cases k with
    | zero =>
      rw [if_pos (by omega), List.take_zero, Stream.append_nil]
      rfl
    | succ k => rw [if_neg (by omega)]

/-- The completion loop writes what the answers come to. -/
theorem run_writeLoop {rounds n : Nat} {p : Stream} {ws : List OsAnswer} (hn : n ≤ data.length)
    (hr : data.length ≤ n + rounds) :
    ∃ ws', (writeLoop data rounds n).run (answer b.fsync i c) (p, ws) =
      (loopResult n (writeOutcome (data.length - n) ws),
        p.append i ((data.drop n).take (writeOutcome (data.length - n) ws).1), ws') := by
  have full : ∀ {n p ws}, n = data.length → ∃ ws',
      ((.ok n, p, ws) : Except PyError Nat × Stream × List OsAnswer) =
        (loopResult n (writeOutcome (data.length - n) ws),
          p.append i ((data.drop n).take (writeOutcome (data.length - n) ws).1), ws') := by
    intro n p ws h
    rw [show data.length - n = 0 by omega, writeOutcome_zero, List.take_zero, Stream.append_nil]
    exact ⟨ws, rfl⟩
  induction rounds generalizing n p ws with
  | zero => exact full (by omega)
  | succ rounds ih =>
    by_cases hlt : n < data.length
    · have hne : data.length - n ≠ 0 := by omega
      match ws with
      | [] =>
        rw [writeLoop, if_pos hlt, show writeOutcome (data.length - n) [] = (0, none) from rfl,
          List.take_zero, Stream.append_nil]
        exact ⟨[], rfl⟩
      | .raised e :: ws =>
        rw [run_writeLoop_round hlt, writeOutcome, List.take_zero, Stream.append_nil]
        refine ⟨ws, ?_⟩
        cases he : e.isA .osError <;> simp [loopResult, hne, he]
      | .returned 0 :: ws =>
        rw [run_writeLoop_round hlt,
          show writeOutcome (data.length - n) (.returned 0 :: ws) = (0, none) from rfl,
          List.take_zero, Stream.append_nil]
        exact ⟨ws, rfl⟩
      | .returned (k + 1) :: ws =>
        obtain ⟨ws', ih⟩ := @ih (n + min (k + 1) (data.length - n))
          (p.append i ((data.drop n).take (k + 1))) ws (by omega) (by omega)
        have hleft : data.length - (n + min (k + 1) (data.length - n)) =
            data.length - n - (k + 1) := by omega
        have hdrop : data.drop (n + min (k + 1) (data.length - n)) = (data.drop n).drop (k + 1) := by
          rw [List.drop_drop]
          by_cases h : k + 1 ≤ data.length - n
          · rw [Nat.min_eq_left h]
          · rw [List.drop_of_length_le (by omega), List.drop_of_length_le (by omega)]
        refine ⟨ws', ?_⟩
        rw [run_writeLoop_round hlt]
        simp only [ih, hleft, hdrop, Stream.append_append, ← List.take_add]
        rw [writeOutcome, if_neg hne]
        simp only [loopResult_add, Prod.mk.injEq, and_true, true_and]
        by_cases h : k + 1 ≤ data.length - n
        · rw [Nat.min_eq_left h]
        · have := writeOutcome_le (data.length - n - (k + 1)) ws
          rw [List.take_of_length_le (by rw [List.length_drop]; omega),
            List.take_of_length_le (by rw [List.length_drop]; omega)]
    · rw [writeLoop, if_neg hlt]
      exact full (by omega)

theorem run_isClosed (s : Stream × List OsAnswer) :
    isClosed.run (answer b.fsync i c) s = (.ok (s.1.closed c.sink), s) := rfl

theorem run_isLatched (s : Stream × List OsAnswer) :
    isLatched.run (answer b.fsync i c) s = (.ok s.1.latched, s) := rfl

/-- An append through a closed sink, or on a latched stream, touches nothing. -/
theorem run_appendLine_refused {E : AppendErrors} {doFsync : Bool} {p : Stream}
    (h : p.closed c.sink = true ∨ p.latched = true) {ws : List OsAnswer} :
    (appendLine E.closed E.latched E.failed doFsync data).run (answer b.fsync i c) (p, ws) =
      (.error (if p.closed c.sink then E.closed else E.latched), p.acquire i c, ws) := by
  rw [appendLine, Prog.run_withLock]
  simp only [show (answer b.fsync i c (p, ws) LockOp.acquire).2 = (p.acquire i c, ws) from rfl,
    show ∀ s, (answer b.fsync i c s LockOp.release).2 = s from fun _ => rfl, Prog.run_bind,
    run_isClosed, show (p.acquire i c).closed c.sink = p.closed c.sink from rfl]
  cases hc : p.closed c.sink with
  | true => rfl
  | false =>
    have hl : (p.acquire i c).latched = true := h.resolve_left (by simp [hc])
    simp only [Bool.false_eq_true, if_false, Prog.run_bind, run_isLatched, hl]
    rfl

/-- What `write_completely` comes to. -/
theorem run_writeCompletely {doFsync : Bool} {p : Stream} :
    ∃ p' ws', (writeCompletely data doFsync).run (answer b.fsync i c) (p, b.writes) =
      (match (writeOutcome data.length b.writes).2 with
        | some e => .error e
        | none =>
          if (writeOutcome data.length b.writes).1 < data.length then
            .ok (if 0 < (writeOutcome data.length b.writes).1 then .WRITE_PARTIAL
              else .WRITE_NOTHING)
          else if doFsync then
            match b.fsync with
            | none => .ok .WRITE_COMPLETE
            | some e => if e.isA .osError then .ok .WRITE_SYNC_FAILED else .error e
          else .ok .WRITE_COMPLETE, p', ws') ∧
      p'.content = p.content ++ data.take (writeOutcome data.length b.writes).1 ∧
      p'.latched = p.latched ∧ p'.closed = p.closed := by
  obtain ⟨ws', h⟩ := @run_writeLoop b i c data data.length 0 p b.writes (Nat.zero_le _)
    (Nat.le_add_left data.length 0)
  simp only [Nat.sub_zero, List.drop_zero] at h
  have hle := writeOutcome_le data.length b.writes
  rw [writeCompletely, Prog.run_bind, h]
  generalize writeOutcome data.length b.writes = outcome at hle
  obtain ⟨taken, escaped⟩ := outcome
  cases escaped with
  | some e => exact ⟨_, ws', rfl, rfl, rfl, rfl⟩
  | none =>
    simp only [loopResult, Nat.zero_add] at hle ⊢
    by_cases hlt : taken < data.length
    · rw [if_pos (by omega), if_pos hlt]
      refine ⟨p.append i (data.take taken), ws', ?_, rfl, rfl, rfl⟩
      split <;> rfl
    · rw [if_neg (by omega), if_neg hlt]
      cases doFsync with
      | false => exact ⟨p.append i (data.take taken), ws', rfl, rfl, rfl, rfl⟩
      | true =>
        cases hf : b.fsync with
        | none => exact ⟨(p.append i (data.take taken)).sync i, ws', rfl, rfl, rfl, rfl⟩
        | some e =>
          refine ⟨p.append i (data.take taken), ws', ?_, rfl, rfl, rfl⟩
          have hsync : osFsync.run (answer (some e) i c) (p.append i (data.take taken), ws') =
              (.ok (OsResult.ofError e), p.append i (data.take taken), ws') := rfl
          show (osFsync >>= _).run _ _ =
            ((if e.isA .osError then .ok .WRITE_SYNC_FAILED else .error e :
              Except PyError WriteStatus), _, _)
          rw [Prog.run_bind, hsync, OsResult.ofError]
          cases e.isA .osError <;> rfl

/-- What an append through an open sink comes to, on a stream that is not latched. -/
theorem run_appendLine {E : AppendErrors} {doFsync : Bool} {p : Stream}
    (hc : p.closed c.sink = false) (hl : p.latched = false) :
    ∃ p' ws', (appendLine E.closed E.latched E.failed doFsync data).run
        (answer b.fsync i c) (p, b.writes) = (b.result E doFsync data.length, p', ws') ∧
      p'.content = p.content ++ data.take (writeOutcome data.length b.writes).1 ∧
      p'.latched = b.latches data.length ∧ p'.closed = p.closed := by
  obtain ⟨p', ws', h, hcont, hlatch, hclosed⟩ :=
    @run_writeCompletely b i c data doFsync (p.acquire i c)
  rw [appendLine, Prog.run_withLock]
  simp only [show (answer b.fsync i c (p, b.writes) LockOp.acquire).2 = (p.acquire i c, b.writes)
    from rfl, show ∀ s, (answer b.fsync i c s LockOp.release).2 = s from fun _ => rfl,
    Prog.run_bind, run_isClosed, run_isLatched, show (p.acquire i c).closed c.sink = false from hc,
    show (p.acquire i c).latched = false from hl, Bool.false_eq_true, if_false, h]
  have hunlatched : p'.latched = false := hlatch.trans hl
  have hle := writeOutcome_le data.length b.writes
  simp only [result, latches]
  generalize writeOutcome data.length b.writes = outcome at hle hcont ⊢
  obtain ⟨taken, escaped⟩ := outcome
  -- every way out but a torn write leaves the latch alone
  have same : ∀ {res : Except PyError Unit} {latch : Bool}, latch = false →
      ∃ q ws'', ((res, p', ws') : Except PyError Unit × Stream × List OsAnswer) = (res, q, ws'') ∧
        q.content = p.content ++ data.take taken ∧ q.latched = latch ∧ q.closed = p.closed :=
    fun h => ⟨p', ws', rfl, hcont, hunlatched.trans h.symm, hclosed⟩
  cases escaped with
  | some e => exact same (by simp)
  | none =>
    simp only
    by_cases hlt : taken < data.length
    · rw [if_pos hlt, if_pos hlt]
      by_cases hpos : 0 < taken
      · rw [if_pos hpos]
        exact ⟨p'.latch, ws', rfl, hcont, by simp [Stream.latch, hpos, hlt], hclosed⟩
      · rw [if_neg hpos]
        exact same (by simp [hpos])
    · rw [if_neg hlt, if_neg hlt]
      cases doFsync with
      | false => exact same (by simp [hlt])
      | true =>
        cases b.fsync with
        | none => exact same (by simp [hlt])
        | some e =>
          simp only [if_true]
          cases e.isA .osError with
          | true => exact same (by simp [hlt])
          | false => exact same (by simp [hlt])

end

end OsBehaviour

/-! ## Appending a record -/

/-- Whether a record is of the class that sinks of the kind take. -/
def StreamKind.takes : StreamKind → Record → Bool
  | .operational, .operational _ => true
  | .audit, .audit _ => true
  | _, _ => false

/-- The exceptions that the protocol of a sink of the kind declares. -/
def StreamKind.declares : StreamKind → PyError → Bool
  | .operational, e => e.isA .eventSchemaError || e.isA .sinkError
  | .audit, e => e.isA .eventSchemaError || e.isA .auditPersistenceError

variable [PyRuntime]

/-- A sink refuses a record with an `EventSchemaError`, but for a record of its own class
that `encode` refuses. -/
theorem encodeLine_error {kind : StreamKind} {r : Record} {e : PyError}
    (h : kind.encodeLine r = .error e) :
    (kind.takes r = true ∧ encode r = .error e) ∨
      (kind.takes r = true → ∃ s, encode r = .ok s) ∧ e.cls = EventSchemaError := by
  have key : ∀ {u o : String} {r}, lineBytes (schemaError u) (schemaError o) r = .error e →
      encode r = .error e ∨ (∃ s, encode r = .ok s) ∧ e.cls = EventSchemaError := by
    intro u o r h
    rcases lineBytes_error h with h | ⟨hs, rfl | rfl⟩
    · exact .inl h
    · exact .inr ⟨hs, rfl⟩
    · exact .inr ⟨hs, rfl⟩
  have own : ∀ {u o : String} {r}, kind.takes r = true →
      lineBytes (schemaError u) (schemaError o) r = .error e →
      (kind.takes r = true ∧ encode r = .error e) ∨
        (kind.takes r = true → ∃ s, encode r = .ok s) ∧ e.cls = EventSchemaError := by
    intro u o r ht h
    rcases key h with h | ⟨hs, hcls⟩
    · exact .inl ⟨ht, h⟩
    · exact .inr ⟨fun _ => hs, hcls⟩
  cases kind with
  | operational =>
    cases r with
    | operational r => exact own rfl h
    | base r ok => cases h; exact .inr ⟨nofun, rfl⟩
    | audit r => cases h; exact .inr ⟨nofun, rfl⟩
  | audit =>
    cases r with
    | audit r => exact own rfl h
    | base r ok => cases h; exact .inr ⟨nofun, rfl⟩
    | operational r => cases h; exact .inr ⟨nofun, rfl⟩

omit [PyRuntime] in
/-- What `encode` raises is not declared. -/
theorem not_declares_encodingError {kind : StreamKind} {e : PyError} (h : EncodingError e) :
    kind.declares e = false := by
  obtain ⟨cls, text⟩ := e
  rcases h with rfl | rfl <;> cases kind <;> rfl

omit [PyRuntime] in
theorem declares_errors (kind : StreamKind) :
    (kind.declares kind.errors.closed && kind.declares kind.errors.latched &&
      kind.declares kind.errors.failed && !kind.errors.failed.isA .eventSchemaError) = true := by
  cases kind <;> decide

/-- An append: the kind and the number of the sink, the record, and what the
operating system does. -/
structure SinkAppend where
  kind : StreamKind
  sink : Nat
  record : Record
  os : OsBehaviour

namespace SinkAppend

omit [PyRuntime] in
/-- The call of the append. -/
def call (a : SinkAppend) : Call := .write a.sink a.record

/-- How the append ends as the `i`-th call, and the file afterwards. -/
def run (a : SinkAppend) (i : Nat) (p : Stream) : Except PyError Unit × Stream :=
  let r := (a.kind.prog a.call).run (OsBehaviour.answer a.os.fsync i a.call) (p, a.os.writes)
  (r.1, r.2.1)

/-- The file after appends one after another. -/
def runAll (i : Nat) (p : Stream) : List SinkAppend → Stream
  | [] => p
  | a :: as => runAll (i + 1) (a.run i p).2 as

variable {a : SinkAppend} {i : Nat} {p : Stream}

theorem run_error {e : PyError} (h : a.kind.encodeLine a.record = .error e) :
    a.run i p = (.error e, p) := by
  rw [run, call, prog_write, h]
  rfl

theorem run_refused {l : Bytes} (h : a.kind.encodeLine a.record = .ok l)
    (hp : p.closed a.sink = true ∨ p.latched = true) :
    a.run i p = (.error (if p.closed a.sink then a.kind.errors.closed else a.kind.errors.latched),
      p.acquire i a.call) := by
  rw [run, call, prog_write, h]
  have := @OsBehaviour.run_appendLine_refused a.os i a.call l a.kind.errors a.kind.syncs p hp
    a.os.writes
  exact congrArg (fun r => (r.1, r.2.1)) this

theorem run_open {l : Bytes} (h : a.kind.encodeLine a.record = .ok l)
    (hc : p.closed a.sink = false) (hl : p.latched = false) :
    (a.run i p).1 = a.os.result a.kind.errors a.kind.syncs l.length ∧
      (a.run i p).2.content = p.content ++ l.take (writeOutcome l.length a.os.writes).1 ∧
      (a.run i p).2.latched = a.os.latches l.length := by
  rw [run, call, prog_write, h]
  obtain ⟨p', ws', hrun, hcont, hlatch, -⟩ := @OsBehaviour.run_appendLine a.os i a.call l
    a.kind.errors a.kind.syncs p hc hl
  have hrun' : ((Prog.ofExcept (Except.ok l : Except PyError Bytes) >>= fun data =>
      appendLine a.kind.errors.closed a.kind.errors.latched a.kind.errors.failed a.kind.syncs
        data).run (OsBehaviour.answer a.os.fsync i a.call) (p, a.os.writes)) = (_, p', ws') := hrun
  simp only [call] at hrun'
  rw [hrun']
  exact ⟨rfl, hcont, hlatch⟩

/-- An append to a latched stream changes neither the file nor the latch. -/
theorem run_latched (hl : p.latched = true) :
    (a.run i p).2.content = p.content ∧ (a.run i p).2.latched = true := by
  cases h : a.kind.encodeLine a.record with
  | error e => rw [run_error h]; exact ⟨rfl, hl⟩
  | ok l => rw [run_refused h (.inr hl)]; exact ⟨rfl, hl⟩

theorem runAll_latched (hl : p.latched = true) (as : List SinkAppend) :
    (runAll i p as).content = p.content := by
  induction as generalizing i p with
  | nil => rfl
  | cons a as ih =>
    obtain ⟨hcont, hl'⟩ := @run_latched _ a i p hl
    exact (ih hl').trans hcont

/-- What an append does: it leaves file and latch alone, or it writes part of its line, which
latches the stream only where the line is torn. -/
inductive Effect (a : SinkAppend) (p q : Stream) : Prop where
  | none (hcont : q.content = p.content) (hlatch : q.latched = p.latched)
  | wrote {l : Bytes} {n : Nat} (hline : a.kind.encodeLine a.record = .ok l)
    (hc : p.closed a.sink = false) (hl : p.latched = false) (hn : n ≤ l.length)
    (hcont : q.content = p.content ++ l.take n)
    (htorn : q.latched = true → 0 < n ∧ n < l.length)
    (hlatch : a.os.OnlyOsErrors → 0 < n → n < l.length → q.latched = true)

theorem run_effect (a : SinkAppend) (i : Nat) (p : Stream) : a.Effect p (a.run i p).2 := by
  cases hline : a.kind.encodeLine a.record with
  | error e => rw [run_error hline]; exact .none rfl rfl
  | ok l =>
    by_cases hopen : p.closed a.sink = false ∧ p.latched = false
    · obtain ⟨-, hcont, hlatch⟩ := @run_open _ a i p l hline hopen.1 hopen.2
      refine .wrote hline hopen.1 hopen.2 (writeOutcome_le _ _) hcont ?_ ?_
      · intro h
        rw [hlatch] at h
        exact (of_decide_eq_true h).2
      · intro hos hpos hlt
        rw [hlatch]
        refine decide_eq_true ⟨?_, hpos, hlt⟩
        cases he : (writeOutcome l.length a.os.writes).2 with
        | none => rfl
        | some e =>
          obtain ⟨counts, rest, hws, -, -, -, hne⟩ := writeOutcome_eq_some.mp (Prod.ext rfl he)
          rw [hos e (by rw [hws]; simp)] at hne
          cases hne
    · rw [run_refused hline (by rw [not_and_or] at hopen; simpa using hopen)]
      exact .none rfl rfl

/-! ## Torn lines -/

/-- The append latches the stream where it leaves a torn line, and no later one changes the
file. -/
def TornLatches (a : SinkAppend) (i : Nat) (p : Stream) : Prop :=
  ∀ l n, a.kind.encodeLine a.record = .ok l → 0 < n → n < l.length →
    (a.run i p).2.content = p.content ++ l.take n →
    (a.run i p).2.latched = true ∧
      ∀ j later, (runAll j (a.run i p).2 later).content = (a.run i p).2.content

/-- The line is written in part and then an exception that is no `OSError` ends the
writing. -/
def Interrupted (a : SinkAppend) (p : Stream) : Prop :=
  ∃ l taken e, a.kind.encodeLine a.record = .ok l ∧ p.closed a.sink = false ∧
    p.latched = false ∧ 0 < taken ∧ Interrupts l.length a.os.writes taken e

omit [PyRuntime] in
theorem length_take_lt {l : Bytes} {n : Nat} (h : n ≤ l.length) : (l.take n).length = n := by
  rw [List.length_take, Nat.min_eq_left h]

theorem not_tornLatches_of_interrupted (h : a.Interrupted p) : ¬a.TornLatches i p := by
  obtain ⟨l, taken, e, hline, hc, hl, hpos, hint⟩ := h
  have hout := writeOutcome_eq_some.mpr hint
  obtain ⟨-, hcont, hlatch⟩ := @run_open _ a i p l hline hc hl
  rw [hout] at hcont
  obtain ⟨counts, rest, -, -, -, hlt, -⟩ := hint
  intro htorn
  have := (htorn l taken hline hpos hlt hcont).1
  rw [hlatch] at this
  simp [OsBehaviour.latches, hout] at this

/-- **Torn lines latch** but for those that an exception other than `OSError`
interrupts. -/
theorem tornLatches_iff (a : SinkAppend) (i : Nat) (p : Stream) :
    a.TornLatches i p ↔ ¬a.Interrupted p := by
  refine ⟨fun h hint => not_tornLatches_of_interrupted hint h, ?_⟩
  intro hint l n hline hpos hlt hcont
  have hgrow : (a.run i p).2.content ≠ p.content := by
    rw [hcont]
    intro h
    have := congrArg List.length h
    rw [List.length_append, length_take_lt (by omega)] at this
    omega
  have hopen : p.closed a.sink = false ∧ p.latched = false := by
    constructor <;> rw [Bool.eq_false_iff] <;> intro h
    · exact hgrow (by rw [run_refused hline (.inl h)]; rfl)
    · exact hgrow (by rw [run_refused hline (.inr h)]; rfl)
  obtain ⟨-, hcont', hlatch⟩ := @run_open _ a i p l hline hopen.1 hopen.2
  have htaken : (writeOutcome l.length a.os.writes).1 = n := by
    rw [hcont'] at hcont
    have := congrArg List.length hcont
    rw [List.length_append, List.length_append, length_take_lt (writeOutcome_le _ _),
      length_take_lt (by omega)] at this
    omega
  have hnone : (writeOutcome l.length a.os.writes).2 = none := by
    cases he : (writeOutcome l.length a.os.writes).2 with
    | none => rfl
    | some e =>
      exact absurd ⟨l, n, e, hline, hopen.1, hopen.2, hpos,
        writeOutcome_eq_some.mp (Prod.ext htaken he)⟩ hint
  have hl : (a.run i p).2.latched = true := by
    rw [hlatch]
    simp [OsBehaviour.latches, hnone, htaken, hpos, hlt]
  exact ⟨hl, fun j later => runAll_latched hl later⟩

omit [PyRuntime] in
/-- A signal handler raises after the first byte of a line on a new file. -/
theorem not_tornLatches_sampleIntent : ¬@TornLatches PyRuntime.plain
    ⟨.audit, 0, .audit sampleIntent, ⟨[.returned 1, .raised ⟨KeyboardInterrupt, []⟩], none⟩⟩ 0
      (.fresh []) := by
  let _ := PyRuntime.plain
  obtain ⟨l, hl⟩ := exists_encodeLine_sampleIntent
  refine not_tornLatches_of_interrupted ⟨l, 1, ⟨KeyboardInterrupt, []⟩, hl, rfl, rfl, Nat.one_pos,
    [1], [], rfl, by simp, rfl, ?_, by decide⟩
  obtain ⟨t, rfl, ht⟩ := head_encodeLine hl
  have := List.length_pos_iff.mpr ht
  rw [List.length_cons]
  omega

/-! ## Declared errors -/

/-- The append raises nothing but what its sink declares, and has written nothing where it
raises `EventSchemaError`. -/
def KeepsContract (a : SinkAppend) (i : Nat) (p : Stream) : Prop :=
  ∀ e, (a.run i p).1 = .error e → a.kind.declares e = true ∧
    (e.isA .eventSchemaError = true → (a.run i p).2.content = p.content)

/-- What escapes an append of `len` bytes after `taken` of them are written: what
interrupts an `os.write`, or what a sync raises that is no `OSError`. -/
def Escapes (a : SinkAppend) (len taken : Nat) (e : PyError) : Prop :=
  Interrupts len a.os.writes taken e ∨
    (a.kind.syncs = true ∧ Completes len a.os.writes ∧ taken = len ∧ a.os.fsync = some e ∧
      e.isA .osError = false)

omit [PyRuntime] in
/-- An append that raises on an open sink and a stream that is not latched raises what
escapes it, or the error of its sink. -/
theorem result_eq_error {len : Nat} {e : PyError}
    (h : a.os.result a.kind.errors a.kind.syncs len = .error e) :
    e = a.kind.errors.failed ∨ a.Escapes len (writeOutcome len a.os.writes).1 e := by
  unfold OsBehaviour.result at h
  split at h
  · rename_i e' he
    cases h
    exact .inr (.inl (writeOutcome_eq_some.mp (Prod.ext rfl he)))
  · split at h
    · cases h
      exact .inl rfl
    · rename_i hlt
      have hle := writeOutcome_le len a.os.writes
      have hlen : (writeOutcome len a.os.writes).1 = len := by omega
      split at h
      · rename_i hs
        split at h
        · cases h
        · rename_i e' hf
          cases h
          split
          · exact .inl rfl
          · rename_i hos
            exact .inr (.inr ⟨hs, writeOutcome_eq_len.mp hlen, hlen, hf, by simpa using hos⟩)
      · cases h

omit [PyRuntime] in
/-- What escapes an append ends it. -/
theorem result_of_escapes {len taken : Nat} {e : PyError} (h : a.Escapes len taken e) :
    a.os.result a.kind.errors a.kind.syncs len = .error e ∧
      (writeOutcome len a.os.writes).1 = taken := by
  rcases h with h | ⟨hs, hc, rfl, hf, hos⟩
  · have hout := writeOutcome_eq_some.mpr h
    simp [OsBehaviour.result, hout]
  · have hlen := writeOutcome_eq_len.mpr hc
    refine ⟨?_, hlen⟩
    have hnone : (writeOutcome taken a.os.writes).2 = none := by
      cases he : (writeOutcome taken a.os.writes).2 with
      | none => rfl
      | some e' =>
        obtain ⟨_, _, -, -, -, hlt, -⟩ := writeOutcome_eq_some.mp (Prod.ext hlen he)
        exact absurd hlt (Nat.lt_irrefl _)
    simp [OsBehaviour.result, hnone, hlen, hs, hf, hos]

/-- What `encode` raises escapes the sink. -/
theorem not_keepsContract (ht : a.kind.takes a.record = true)
    (h : ¬a.record.envelope.Encodable) : ¬a.KeepsContract i p := by
  have henc := decides_encode a.record
  cases hline : a.kind.encodeLine a.record with
  | ok l =>
    obtain ⟨-, -, s, -, hs, -, -⟩ := encodeLine_ok hline
    exact absurd (henc.exists_ok_iff.mp ⟨s, hs⟩) h
  | error e =>
    rcases encodeLine_error hline with ⟨-, he⟩ | ⟨hs, -⟩
    · intro hkeep
      have := (hkeep e (by rw [run_error hline])).1
      rw [not_declares_encodingError (henc.of_error he).2] at this
      cases this
    · exact absurd (henc.exists_ok_iff.mp (hs ht)) h

/-- **A sink keeps to its declared errors** on the records of its class that `encode`
takes, and where the operating system raises only `OSError`s. -/
theorem keepsContract_iff (a : SinkAppend) (i : Nat) (p : Stream) :
    a.KeepsContract i p ↔
      (a.kind.takes a.record = true → a.record.envelope.Encodable) ∧
      ∀ l taken e, a.kind.encodeLine a.record = .ok l → p.closed a.sink = false →
        p.latched = false → a.Escapes l.length taken e →
        a.kind.declares e = true ∧ (e.isA .eventSchemaError = true → taken = 0) := by
  have henc := decides_encode a.record
  cases hline : a.kind.encodeLine a.record with
  | error e =>
    rcases encodeLine_error hline with ⟨ht, he⟩ | ⟨hs, hcls⟩
    · have hnot := (henc.of_error he).1
      exact iff_of_false (not_keepsContract ht hnot) fun h => hnot (h.1 ht)
    · refine iff_of_true ?_ ⟨fun h => henc.exists_ok_iff.mp (hs h), fun _ _ _ h => nomatch h⟩
      intro e' he'
      rw [run_error hline] at he' ⊢
      cases he'
      refine ⟨?_, fun _ => rfl⟩
      have hschema : e.isA .eventSchemaError = true := by rw [PyError.isA, hcls]; rfl
      cases a.kind <;> simp [StreamKind.declares, hschema]
  | ok l =>
    obtain ⟨-, -, s, -, hs, -, -⟩ := encodeLine_ok hline
    obtain ⟨⟨⟨hdc, hdl⟩, hdf⟩, hnot⟩ : ((_ ∧ _) ∧ _) ∧ _ := by
      simpa only [Bool.and_eq_true, Bool.not_eq_true'] using declares_errors a.kind
    rw [and_iff_right fun _ => henc.exists_ok_iff.mp ⟨s, hs⟩]
    by_cases hopen : p.closed a.sink = false ∧ p.latched = false
    · obtain ⟨hres, hcont, -⟩ := @run_open _ a i p l hline hopen.1 hopen.2
      constructor
      · rintro h _ taken e ⟨rfl⟩ - - hesc
        obtain ⟨hr, htaken⟩ := result_of_escapes hesc
        obtain ⟨hdecl, hsame⟩ := h e (hres.trans hr)
        refine ⟨hdecl, fun he => ?_⟩
        have := congrArg List.length (hcont.symm.trans (hsame he))
        rw [List.length_append, length_take_lt (writeOutcome_le _ _), htaken] at this
        omega
      · intro h e he
        rcases result_eq_error (hres.symm.trans he) with rfl | hesc
        · exact ⟨hdf, fun he => absurd he (by simp [hnot])⟩
        · obtain ⟨hdecl, hzero⟩ := h l _ e rfl hopen.1 hopen.2 hesc
          refine ⟨hdecl, fun he => ?_⟩
          rw [hcont, hzero he, List.take_zero, List.append_nil]
    · refine iff_of_true ?_ fun _ _ _ _ hc hl => absurd ⟨hc, hl⟩ hopen
      intro e he
      rw [run_refused hline (by rw [not_and_or] at hopen; simpa using hopen)] at he ⊢
      cases he
      refine ⟨?_, fun _ => rfl⟩
      split
      · exact hdc
      · exact hdl

omit [PyRuntime] in
/-- A record whose only field is not a number. -/
def sampleNan : OperationalRecord where
  application := .str (lit "app")
  emitter := .str (lit "app")
  event := .str (lit "user.created")
  timestamp := firstHour
  fields := Dict.empty.set (.str (lit "ratio")) (.atom (.float ⟨0x7ff8000000000000⟩))
  message := .none
  severity := .info
  ok := by decide +kernel

omit [PyRuntime] in
/-- Its encoding fails on a new file. -/
theorem not_keepsContract_sampleNan : ¬@KeepsContract PyRuntime.plain
    ⟨.operational, 0, .operational sampleNan, ⟨[.returned MAX_RECORD_BYTES], none⟩⟩ 0
      (.fresh []) := by
  let _ := PyRuntime.plain
  refine not_keepsContract rfl fun h => ?_
  have hfinite : PyFloat.isFinite ⟨0x7ff8000000000000⟩ = true :=
    h.scalars _ (List.mem_singleton_self _) _ (List.mem_singleton_self _)
  exact absurd hfinite (by decide)

end SinkAppend

end NmLogging
