import NmLogging.Sinks.File

/-!
# An audit sink on a disk

The file of a `JsonlAuditSink`, with how much of it was synced. An `os.write` takes any part
of what it is given or raises `OSError`, and an `os.fsync` may raise `OSError`. That they raise
anything else, as where a signal comes in between, is not in these runs: then an append may end
with part of its line written and the stream not latched. The lock of the stream makes a whole
append one step for everybody else, and what such a step does is `DiskAppend`: the line of the
record is appended and synced, or something less, and then the append raises.
-/

namespace NmLogging

/-- The file of a sink, how much of it is synced, whether the sink is closed and whether its
stream is latched. -/
structure Disk where
  content : Bytes
  durable : Nat
  closed : Bool
  latched : Bool

/-- What the operations of the sink do, where `os.write` and `os.fsync` return, or raise `OSError`
and no other exception. -/
def diskStep (f : Disk) :
    (o : (lockSig streamSig).Op) → (lockSig streamSig).Ret o → Disk → Prop
  | .acquire, _, f' => f' = f
  | .release, _, f' => f' = f
  | .act .isClosed, b, f' => b = f.closed ∧ f' = f
  | .act .setClosed, _, f' => f' = { f with closed := true }
  | .act .isLatched, b, f' => b = f.latched ∧ f' = f
  | .act .setLatched, _, f' => f' = { f with latched := true }
  | .act (.osWrite data), r, f' => (r = .osError ∧ f' = f) ∨ ∃ n, n ≤ data.length ∧
    r = .returned (Int.ofNat n) ∧ f' = { f with content := f.content ++ data.take n }
  | .act .osFsync, r, f' => (r = .osError ∧ f' = f) ∨
    (r = .returned () ∧ f' = { f with durable := f.content.length })
  | .act .osClose, r, f' => (r = .osError ∨ r = .returned ()) ∧ f' = f

/-- What an append of a line does to the file, and how it ends. -/
inductive DiskAppend (line : Bytes) (f : Disk) : Except PyError Unit → Disk → Prop where
  | refused {e : PyError} (cls : e.cls = AuditPersistenceError)
    (h : f.closed = true ∨ f.latched = true) : DiskAppend line f (.error e) f
  | nothing {e : PyError} (cls : e.cls = AuditPersistenceError) (closed : f.closed = false)
    (latched : f.latched = false) : DiskAppend line f (.error e) f
  | torn {e : PyError} {t : Bytes} (cls : e.cls = AuditPersistenceError) (closed : f.closed = false)
    (latched : f.latched = false) (piece : t <+: line) (strict : t ≠ line) :
    DiskAppend line f (.error e) { f with content := f.content ++ t, latched := true }
  | unsynced {e : PyError} (cls : e.cls = AuditPersistenceError) (closed : f.closed = false)
    (latched : f.latched = false) :
    DiskAppend line f (.error e) { f with content := f.content ++ line }
  | stored (closed : f.closed = false) (latched : f.latched = false) :
    DiskAppend line f (.ok ())
      { f with content := f.content ++ line, durable := (f.content ++ line).length }

/-! ## What is written -/

/-- An `os.write` puts any part of what it is given, or fails. -/
structure WritesParts {σ : Type} (M : Semantics (lockSig streamSig) σ) (put : Bytes → σ → σ) :
    Prop where
  pre : ∀ s data, M.pre s (.act (.osWrite data))
  nil : ∀ s, put [] s = s
  append : ∀ s data data', put data' (put data s) = put (data ++ data') s
  step : ∀ {s : σ} {data : Bytes} {r : OsResult Int} {s' : σ},
    M.step s (.act (.osWrite data)) r s' → (r = .osError ∧ s' = s) ∨
      ∃ n, n ≤ data.length ∧ r = .returned (Int.ofNat n) ∧ s' = put (data.take n) s

/-- The completion loop puts a part of the data. -/
theorem WritesParts.writeLoop {σ : Type} {M : Semantics (lockSig streamSig) σ}
    {put : Bytes → σ → σ} (h : WritesParts M put) {data : Bytes} {s : σ} :
    (writeLoop data data.length 0).wp M s fun res s' =>
      ∃ n, res = .ok n ∧ n ≤ data.length ∧ s' = put (data.take n) s := by
  refine wp_writeLoop (A := fun n s' => n ≤ data.length ∧ s' = put (data.take n) s)
    (fun _ _ _ _ => h.pre _ _) ?_ ?_ ?_ ?_ (by omega) ⟨Nat.zero_le _, by simp [h.nil]⟩
  · rintro n _ k s' hlt ⟨hn, rfl⟩ hstep
    rcases h.step hstep with ⟨hk, -⟩ | ⟨m, hm, hk, rfl⟩
    · cases hk
    · cases hk
      rw [List.length_drop] at hm
      rw [h.append, ← List.take_add]
      split
      · rename_i h0
        obtain rfl : m = 0 := by simp only [Int.ofNat_eq_natCast] at h0; omega
        exact ⟨n, rfl, hn, rfl⟩
      · exact ⟨by simp only [Int.ofNat_eq_natCast, Int.toNat_natCast]; omega, rfl⟩
  · rintro n _ s' hlt ⟨hn, rfl⟩ hstep
    rcases h.step hstep with ⟨-, rfl⟩ | ⟨m, -, hk, -⟩
    · exact ⟨n, rfl, hn, rfl⟩
    · cases hk
  · rintro n _ e s' hlt ⟨hn, rfl⟩ hstep
    rcases h.step hstep with ⟨hk, -⟩ | ⟨m, -, hk, -⟩ <;> cases hk
  · rintro n _ hle ⟨hn, rfl⟩
    exact ⟨n, rfl, hn, rfl⟩

variable {f : Disk} {data : Bytes}

theorem writesParts_disk :
    WritesParts (allowing diskStep) fun data f => { f with content := f.content ++ data } where
  pre _ _ := trivial
  nil f := by simp
  append f data data' := by simp
  step h := h

/-- `write_completely`: the status tells what is in the file. -/
theorem writeCompletely_disk : (writeCompletely data true).wp (allowing diskStep) f fun res f' =>
    (res = .ok .WRITE_NOTHING ∧ f' = f) ∨
    (∃ t, t <+: data ∧ t ≠ data ∧ res = .ok .WRITE_PARTIAL ∧
      f' = { f with content := f.content ++ t }) ∨
    (res = .ok .WRITE_SYNC_FAILED ∧ f' = { f with content := f.content ++ data }) ∨
    (res = .ok .WRITE_COMPLETE ∧
      f' = { f with content := f.content ++ data, durable := (f.content ++ data).length }) := by
  rw [writeCompletely, Prog.wp_bind]
  refine Prog.wp_mono writesParts_disk.writeLoop ?_
  rintro _ _ ⟨n, rfl, hn, rfl⟩
  show Prog.wp _ (if n ≠ data.length then _ else _) _ _
  by_cases hlt : n = data.length
  · subst hlt
    rw [if_neg (not_not_intro rfl), List.take_length]
    refine ⟨trivial, ?_⟩
    rintro r f' (⟨rfl, rfl⟩ | ⟨rfl, rfl⟩)
    · exact .inr (.inr (.inl ⟨rfl, rfl⟩))
    · exact .inr (.inr (.inr ⟨rfl, rfl⟩))
  · rw [if_pos hlt]
    show Prog.wp _ (if n > 0 then _ else _) _ _
    split
    · refine .inr (.inl ⟨data.take n, List.take_prefix _ _, fun he => ?_, rfl, rfl⟩)
      have := congrArg List.length he
      rw [List.length_take] at this
      omega
    · obtain rfl : n = 0 := by omega
      exact .inl ⟨rfl, by simp⟩

variable [PyRuntime]

/-- What an append does to the file: nothing if the record has no line, and otherwise what an
append of its line does. -/
theorem jsonlAuditSink_append_disk {r : AuditRecord} :
    (JsonlAuditSink.append (.audit r)).wp (allowing diskStep) f fun res f' =>
      match auditLineBytes (.audit r) with
      | .ok line => DiskAppend line f res f'
      | .error e => res = .error e ∧ f' = f := by
  show (Prog.ofExcept (auditLineBytes (.audit r)) >>= _).wp _ _ _
  cases auditLineBytes (.audit r) with
  | error e => exact ⟨rfl, rfl⟩
  | ok line =>
    refine ⟨trivial, ?_⟩
    rintro _ _ rfl
    refine (Prog.wp_elim _ _ _ _ _).mpr ⟨trivial, ?_⟩
    rintro _ _ ⟨rfl, rfl⟩
    show Prog.wp _ (if _ = true then _ else _ : SinkProg Unit) _ _
    split
    · rename_i hc
      exact ⟨trivial, by rintro _ _ rfl; exact .refused rfl (.inl hc)⟩
    rename_i hc
    refine ⟨trivial, ?_⟩
    rintro _ _ ⟨rfl, rfl⟩
    show Prog.wp _ (if _ = true then _ else _ : SinkProg Unit) _ _
    split
    · rename_i hl
      exact ⟨trivial, by rintro _ _ rfl; exact .refused rfl (.inr hl)⟩
    rename_i hl
    rw [Bool.not_eq_true] at hc hl
    rw [Prog.wp_bind]
    refine Prog.wp_mono writeCompletely_disk ?_
    rintro _ _ (⟨rfl, rfl⟩ | ⟨t, hpre, hne, rfl, rfl⟩ | ⟨rfl, rfl⟩ | ⟨rfl, rfl⟩)
    · exact ⟨trivial, by rintro _ _ rfl; exact .nothing rfl hc hl⟩
    · refine ⟨trivial, ?_⟩
      rintro _ _ rfl
      exact ⟨trivial, by rintro _ _ rfl; exact .torn rfl hc hl hpre hne⟩
    · exact ⟨trivial, by rintro _ _ rfl; exact .unsynced rfl hc hl⟩
    · exact ⟨trivial, by rintro _ _ rfl; exact .stored hc hl⟩

omit [PyRuntime] in
/-- `close` leaves the file alone. -/
theorem jsonlAuditSink_close_disk :
    (JsonlAuditSink.close).wp (allowing diskStep) f fun _ f' => f' = { f with closed := true } := by
  refine ⟨trivial, ?_⟩
  rintro _ _ rfl
  refine (Prog.wp_elim _ _ _ _ _).mpr ⟨trivial, ?_⟩
  rintro _ _ ⟨rfl, rfl⟩
  show Prog.wp _ (if _ = true then _ else _ : SinkProg Unit) _ _
  split
  · rename_i hc
    refine ⟨trivial, ?_⟩
    rintro _ f' rfl
    show f' = { f' with closed := true }
    rw [← hc]
  · refine ⟨trivial, ?_⟩
    rintro _ _ rfl
    refine ⟨trivial, ?_⟩
    rintro r _ ⟨hr, rfl⟩
    rcases hr with rfl | rfl
    · exact ⟨trivial, by rintro _ _ rfl; rfl⟩
    · exact ⟨trivial, by rintro _ _ rfl; rfl⟩

namespace DiskAppend

variable {line : Bytes} {res : Except PyError Unit} {f' : Disk}

omit [PyRuntime] in
/-- On a sink that is closed, or whose stream is latched, an append does nothing. -/
theorem blocked (h : DiskAppend line f res f') (hf : f.closed = true ∨ f.latched = true) :
    f' = f ∧ res ≠ .ok () := by
  have absurd_open : f.closed = false → f.latched = false → False := by
    intro hc hl
    rw [hc, hl] at hf
    simp at hf
  cases h with
  | refused => exact ⟨rfl, by rintro ⟨⟩⟩
  | nothing _ hc hl => exact (absurd_open hc hl).elim
  | torn _ hc hl => exact (absurd_open hc hl).elim
  | unsynced _ hc hl => exact (absurd_open hc hl).elim
  | stored hc hl => exact (absurd_open hc hl).elim

end DiskAppend

/-! ## Appends that happen -/

omit [PyRuntime] in
theorem runs_withLock_disk {body : SinkProg Unit} {f f' : Disk} {res : Except PyError Unit}
    (h : body.Runs (allowing diskStep) f res f') :
    (Prog.withLock body).Runs (allowing diskStep) f res f' := by
  refine .op (r := ()) (t := f) rfl (h.elim ?_)
  cases res with
  | ok a => exact .op (r := ()) (t := f') rfl .ret
  | error e => exact .op (r := ()) (t := f') rfl .throw

/-- A record that has a line is appended to an open sink. -/
theorem runs_append_disk {r : AuditRecord} {line : Bytes}
    (hline : auditLineBytes (.audit r) = .ok line) (hc : f.closed = false)
    (hl : f.latched = false) :
    (JsonlAuditSink.append (.audit r)).Runs (allowing diskStep) f (.ok ())
      { f with content := f.content ++ line, durable := (f.content ++ line).length } := by
  obtain ⟨n, hn⟩ : ∃ n, line.length = n + 1 :=
    Nat.exists_eq_succ_of_ne_zero fun h => (isLine_of_lineBytes hline).ne_nil
      (List.eq_nil_of_length_eq_zero h)
  have hloop : (writeLoop line line.length 0).Runs (allowing diskStep) f (.ok line.length)
      { f with content := f.content ++ line } := by
    rw [hn, writeLoop, if_pos (by omega)]
    refine .op (r := OsResult.returned (Int.ofNat (n + 1)))
      (t := { f with content := f.content ++ line })
      (.inr ⟨n + 1, by simp [hn], rfl, by simp [← hn]⟩) ?_
    show (if Int.ofNat (n + 1) ≤ 0 then Prog.ret 0 else
      writeLoop line n (0 + (n + 1)) : SinkProg Nat).Runs _ _ _ _
    rw [if_neg (by simp only [Int.ofNat_eq_natCast]; omega), Nat.zero_add]
    cases n with
    | zero => exact .ret
    | succ n =>
      rw [writeLoop, if_neg (by omega)]
      exact .ret
  show (Prog.ofExcept (auditLineBytes (.audit r)) >>= _).Runs _ _ _ _
  rw [hline]
  refine runs_withLock_disk (.op (r := f.closed) (t := f) ⟨rfl, rfl⟩ ?_)
  show (if f.closed = true then _ else _ : SinkProg Unit).Runs _ _ _ _
  rw [if_neg (by simp [hc])]
  refine .op (r := f.latched) (t := f) ⟨rfl, rfl⟩ ?_
  show (if f.latched = true then _ else _ : SinkProg Unit).Runs _ _ _ _
  rw [if_neg (by simp [hl])]
  refine .bind (a := .WRITE_COMPLETE) (.bind hloop ?_) .ret
  show (if line.length ≠ line.length then _ else _ : SinkProg WriteStatus).Runs _ _ _ _
  rw [if_neg (not_not_intro rfl)]
  exact .op (r := OsResult.returned ()) (.inr ⟨rfl, rfl⟩) .ret

/-- A closed sink refuses a record. -/
theorem runs_append_closed {r : AuditRecord} (hc : f.closed = true) :
    ∃ e, (JsonlAuditSink.append (.audit r)).Runs (allowing diskStep) f (.error e) f := by
  show ∃ e, (Prog.ofExcept (auditLineBytes (.audit r)) >>= _).Runs _ _ (.error e) _
  cases auditLineBytes (.audit r) with
  | error e => exact ⟨e, .throw⟩
  | ok line =>
    refine ⟨persistenceError "audit sink is closed",
      runs_withLock_disk (.op (r := f.closed) (t := f) ⟨rfl, rfl⟩ ?_)⟩
    show (if f.closed = true then _ else _ : SinkProg Unit).Runs _ _ _ _
    rw [if_pos hc]
    exact .throw

end NmLogging
