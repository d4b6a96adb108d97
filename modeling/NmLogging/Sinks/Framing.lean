import NmLogging.Sinks.File

/-!
# Framing and the latch

The invariant of a file under its sinks (`Shape`): the initial content, then the
lines of the calls that wrote all their bytes, in the order in which they took the
lock, then a torn part. Each critical section keeps it, so it holds in every
interleaving of any number of calls; the torn part is empty exactly while the
stream is not latched, and a latched file does not change (`file_framed`).
-/

namespace NmLogging

variable [PyRuntime]

/-- The calls that wrote all their bytes, in the order of the history. -/
def completes (kind : StreamKind) (log : List Entry) : List Entry :=
  log.filter fun e => kind.lineOf e.call = some e.wrote

/-- A nonempty strict prefix of the line of a call. -/
def TornOf (kind : StreamKind) (c : Call) (t : Bytes) : Prop :=
  t ≠ [] ∧ ∃ l, kind.lineOf c = some l ∧ t <+: l ∧ t ≠ l

/-- The file as its history tells it: the content `f₀` at the start, complete
lines, and a torn part. Every complete line starts where the one before it ended,
and what was synced is durable. -/
structure Shape (kind : StreamKind) (f₀ : Bytes) (p : Stream) (torn : Bytes) : Prop where
  content : p.content = f₀ ++ writtenBytes (completes kind p.log) ++ torn
  piece : torn ≠ [] → ∃ e ∈ p.log, e.wrote = torn ∧ TornOf kind e.call torn
  starts : ∀ es e es', completes kind p.log = es ++ e :: es' → e.before = f₀ ++ writtenBytes es
  durable : ∃ es es', completes kind p.log = es ++ es' ∧ (∀ e ∈ es', e.synced = false) ∧
    (es ≠ [] → (f₀ ++ writtenBytes es).length ≤ p.durable)
  synced : ∀ e ∈ p.log, e.synced = true → kind.lineOf e.call = some e.wrote
  bound : p.durable ≤ p.content.length
  nodup : (p.log.map Entry.index).Nodup

theorem completes_append (kind : StreamKind) (log log' : List Entry) :
    completes kind (log ++ log') = completes kind log ++ completes kind log' := by
  simp [completes]

theorem completes_singleton_of_line {kind : StreamKind} {e : Entry}
    (h : kind.lineOf e.call = some e.wrote) : completes kind [e] = [e] := by
  simp [completes, h]

theorem completes_singleton_write {kind : StreamKind} {i sink : Nat} {r : Record} {b l : Bytes}
    {synced : Bool} (h : kind.encodeLine r = .ok l) :
    completes kind [⟨i, .write sink r, b, l, synced⟩] = [⟨i, .write sink r, b, l, synced⟩] :=
  completes_singleton_of_line (lineOf_write.mpr h)

theorem completes_singleton_of_ne {kind : StreamKind} {e : Entry}
    (h : kind.lineOf e.call ≠ some e.wrote) : completes kind [e] = [] := by
  simp [completes, h]

theorem lineOf_ne_nil {kind : StreamKind} {c : Call} : kind.lineOf c ≠ some [] :=
  fun h => (lineOf_ok h).1.ne_nil rfl

/-! ## What a call does to the shape -/

variable {kind : StreamKind} {f₀ : Bytes} {p : Stream} {i : Nat} {c : Call}

/-- An entry that adds no line to the history. -/
theorem Shape.add_idle {t b : Bytes} (h : Shape kind f₀ p t)
    (hi : i ∉ p.log.map Entry.index) (hb : kind.lineOf c ≠ some b) (ht : t = [] ∨ b = [])
    (hp : b ≠ [] → TornOf kind c b) :
    Shape kind f₀ ((p.acquire i c).append i b) (t ++ b) := by
  have hlog := Stream.log_append_acquire (c := c) hi b
  have hcomp : completes kind ((p.acquire i c).append i b).log = completes kind p.log := by
    rw [hlog, completes_append, completes_singleton_of_ne hb, List.append_nil]
  refine ⟨?_, ?_, ?_, ?_, ?_, ?_, ?_⟩
  · show p.content ++ b = _
    rw [hcomp, h.content, List.append_assoc]
  · intro hne
    rw [hlog]
    rcases ht with rfl | rfl
    · exact ⟨_, List.mem_append_right _ List.mem_cons_self, rfl, hp hne⟩
    · rw [List.append_nil] at hne ⊢
      obtain ⟨e, he, h'⟩ := h.piece hne
      exact ⟨e, List.mem_append_left _ he, h'⟩
  · rw [hcomp]; exact h.starts
  · rw [hcomp]; exact h.durable
  · rw [hlog]
    intro e he hs
    rcases List.mem_append.mp he with he | he
    · exact h.synced e he hs
    · rw [List.mem_singleton] at he; subst he; cases hs
  · show p.durable ≤ (p.content ++ b).length
    rw [List.length_append]
    exact Nat.le_add_right_of_le h.bound
  · rw [hlog]
    exact Stream.nodup_add h.nodup hi

/-- A call takes the lock. -/
theorem Shape.acquire {t : Bytes} (h : Shape kind f₀ p t) (hi : i ∉ p.log.map Entry.index) :
    Shape kind f₀ (p.acquire i c) t := by
  have := h.add_idle (c := c) (b := []) hi lineOf_ne_nil (.inr rfl) (fun h => absurd rfl h)
  rwa [Stream.append_nil, List.append_nil] at this

/-- An entry of a whole line, synced or not. -/
theorem Shape.add_line {l : Bytes} {s : Bool} {p' : Stream} (h : Shape kind f₀ p [])
    (hi : i ∉ p.log.map Entry.index) (hl : kind.lineOf c = some l)
    (hlog : p'.log = p.log ++ [⟨i, c, p.content, l, s⟩]) (hcont : p'.content = p.content ++ l)
    (hd : p'.durable = if s then p'.content.length else p.durable) : Shape kind f₀ p' [] := by
  have hcont₀ : p.content = f₀ ++ writtenBytes (completes kind p.log) := by
    rw [h.content, List.append_nil]
  have hcomp : completes kind p'.log = completes kind p.log ++ [⟨i, c, p.content, l, s⟩] := by
    rw [hlog, completes_append, completes_singleton_of_line hl]
  have hbytes : f₀ ++ writtenBytes (completes kind p'.log) = p'.content := by
    rw [hcomp, writtenBytes_append, hcont, hcont₀, List.append_assoc]
    simp [writtenBytes]
  refine ⟨by rw [List.append_nil, hbytes], fun h => absurd rfl h, ?_, ?_, ?_, ?_, ?_⟩
  · intro es e es' he
    rw [hcomp] at he
    rcases List.eq_nil_or_concat es' with rfl | ⟨es'', e', rfl⟩
    · obtain ⟨h₁, h₂⟩ := List.append_inj' he rfl
      cases h₂
      rw [← h₁, ← hcont₀]
    · rw [List.concat_eq_append, ← List.cons_append, ← List.append_assoc] at he
      obtain ⟨h₁, -⟩ := List.append_inj' he rfl
      exact h.starts es e es'' h₁
  · cases s with
    | true =>
      exact ⟨completes kind p'.log, [], by rw [List.append_nil], by simp,
        fun _ => by rw [hbytes, hd]; exact Nat.le_refl _⟩
    | false =>
      obtain ⟨es, es', he, hs, hle⟩ := h.durable
      refine ⟨es, es' ++ [⟨i, c, p.content, l, false⟩], ?_, ?_, by rw [hd]; exact hle⟩
      · rw [hcomp, he, List.append_assoc]
      · intro e hm
        rcases List.mem_append.mp hm with hm | hm
        · exact hs e hm
        · rw [List.mem_singleton] at hm; subst hm; rfl
  · rw [hlog]
    intro e he hs
    rcases List.mem_append.mp he with he | he
    · exact h.synced e he hs
    · rw [List.mem_singleton] at he; subst he; exact hl
  · rw [hd]
    split
    · exact Nat.le_refl _
    · rw [hcont, List.length_append]
      exact Nat.le_add_right_of_le h.bound
  · rw [hlog]
    exact Stream.nodup_add h.nodup hi

theorem Shape.newline_notMem {t : Bytes} (h : Shape kind f₀ p t) : newline ∉ t := by
  by_cases ht : t = []
  · simp [ht]
  · obtain ⟨e, -, -, -, l, hl, hpre, hne⟩ := h.piece ht
    exact (lineOf_ok hl).1.newline_notMem_piece hpre hne

/-! ## Every interleaving -/

/-- While the lock is free: a torn part is there exactly on a latched stream. -/
def Framing (kind : StreamKind) (f₀ : Bytes) (p : Stream) : Prop :=
  ∃ t, Shape kind f₀ p t ∧ (t = [] ↔ p.latched = false)

/-- At any moment: some torn part may be there. -/
def Unfinished (kind : StreamKind) (f₀ : Bytes) (p : Stream) : Prop := ∃ t, Shape kind f₀ p t

/-- The call of an entry wrote its whole line, and synced it where its sink syncs. -/
def Acknowledged (kind : StreamKind) (e : Entry) : Prop :=
  kind.lineOf e.call = some e.wrote ∧ (kind.syncs = true → e.synced = true)

/-- An append ended normally exactly if it is acknowledged. -/
def AppendPost (kind : StreamKind) (c : Call) (res : Except PyError Unit) (own : List Entry) : Prop :=
  ∀ sink r, c = .write sink r → (res = .ok () ↔ ∃ e ∈ own, e.call = c ∧ Acknowledged kind e)

variable {canStart : Stream → List (Call × SinkProg Unit) → Call → Prop} {fails : Bool}

/-- The part of a line that is written so far. -/
theorem Framing.unfinished_append {l : Bytes} {n : Nat} (h : Framing kind f₀ p)
    (hi : i ∉ p.log.map Entry.index) (hl : kind.lineOf c = some l) (hn : n ≤ l.length)
    (hopen : n ≠ 0 → p.latched = false) :
    ∃ t, Shape kind f₀ ((p.acquire i c).append i (l.take n)) t ∧
      (0 < n → n < l.length → t ≠ []) ∧ (n = l.length → t = []) := by
  obtain ⟨t, hs, ht⟩ := h
  have hlen : 0 < l.length := List.length_pos_iff.mpr (lineOf_ok hl).1.ne_nil
  by_cases h0 : n = 0
  · subst h0
    refine ⟨t, ?_, fun h => absurd h (by omega), fun h => absurd h (by omega)⟩
    rw [List.take_zero, Stream.append_nil]
    exact hs.acquire hi
  · rw [ht.mpr (hopen h0)] at hs
    by_cases hle : n = l.length
    · subst hle
      rw [List.take_length]
      exact ⟨[], hs.add_line hi hl (Stream.log_append_acquire hi l) rfl rfl, fun _ h => absurd h (by omega),
        fun _ => rfl⟩
    · have hne : l.take n ≠ [] := by
        rw [← List.length_pos_iff, List.length_take]; omega
      have hlt : l.take n ≠ l := fun e => by
        have := congrArg List.length e
        rw [List.length_take] at this
        omega
      refine ⟨l.take n, ?_, fun _ _ => hne, fun h => absurd h hle⟩
      refine hs.add_idle hi ?_ (.inl rfl) fun _ => ⟨hne, l, hl, List.take_prefix _ _, hlt⟩
      rw [hl]
      exact fun e => hlt (Option.some.inj e).symm

/-- Every critical section keeps the framing. -/
theorem framing_of_effect {l : Bytes} {res : Except PyError Unit} {p' : Stream} (h : Framing kind f₀ p)
    (hi : i ∉ p.log.map Entry.index) (hl : kind.lineOf c = some l)
    (he : AppendEffect fails kind.errors kind.syncs i c.sink l (p.acquire i c) res p') :
    Framing kind f₀ p' ∧ ∃ e, e.index = i ∧ e.call = c ∧ p'.log = p.log ++ [e] ∧
      (res = .ok () ↔ Acknowledged kind e) := by
  have hidle : ∀ {err : PyError}, Framing kind f₀ (p.acquire i c) ∧
      ∃ e, e.index = i ∧ e.call = c ∧ (p.acquire i c).log = p.log ++ [e] ∧
        ((.error err : Except PyError Unit) = .ok () ↔ Acknowledged kind e) := by
    intro err
    obtain ⟨t, hs, ht⟩ := h
    refine ⟨⟨t, hs.acquire hi, ht⟩, ⟨i, c, p.content, [], false⟩, rfl, rfl, rfl, ?_⟩
    exact ⟨fun h => (by cases h), fun h => absurd h.1 lineOf_ne_nil⟩
  have hline : p.latched = false → Framing kind f₀ ((p.acquire i c).append i l) := by
    intro hu
    obtain ⟨t, hs, -, ht⟩ := h.unfinished_append hi hl (Nat.le_refl _) fun _ => hu
    rw [List.take_length] at hs
    exact ⟨t, hs, by simp [ht rfl, Stream.acquire, hu]⟩
  cases he with
  | closed hc => exact hidle
  | latched hc hlat => exact hidle
  | nothing hc hu hf hd => exact hidle
  | @torn n hc hu hf hn hlt =>
    obtain ⟨t, hs, ht, -⟩ := h.unfinished_append hi hl (Nat.le_of_lt hlt) fun _ => hu
    refine ⟨⟨t, ⟨hs.content, hs.piece, hs.starts, hs.durable, hs.synced, hs.bound, hs.nodup⟩, ?_⟩,
      ⟨i, c, p.content, l.take n, false⟩, rfl, rfl, Stream.log_append_acquire hi _, ?_⟩
    · simp [ht hn hlt, Stream.latch]
    · refine ⟨fun h => (by cases h), fun h => ?_⟩
      have := congrArg List.length (Option.some.inj (h.1.symm.trans hl))
      rw [List.length_take] at this
      omega
  | written hc hu hs =>
    exact ⟨hline hu, ⟨i, c, p.content, l, false⟩, rfl, rfl, Stream.log_append_acquire hi _, by simp [Acknowledged, hl, hs]⟩
  | synced hc hu hs =>
    obtain ⟨t, hsh, ht⟩ := h
    rw [ht.mpr hu] at hsh
    refine ⟨⟨[], hsh.add_line hi hl (Stream.log_sync_acquire hi l) rfl rfl, ?_⟩,
      ⟨i, c, p.content, l, true⟩, rfl, rfl, Stream.log_sync_acquire hi _, by simp [Acknowledged, hl]⟩
    exact ⟨fun _ => hu, fun _ => rfl⟩
  | syncFailed hc hu hf hs =>
    exact ⟨hline hu, ⟨i, c, p.content, l, false⟩, rfl, rfl, Stream.log_append_acquire hi _, by simp [Acknowledged, hs]⟩

theorem framing_of_close {failed : PyError} {sink : Nat} {res : Except PyError Unit} {p' : Stream}
    (h : Framing kind f₀ p) (hi : i ∉ p.log.map Entry.index)
    (he : CloseEffect failed sink (p.acquire i c) res p') : Framing kind f₀ p' := by
  obtain ⟨t, hs, ht⟩ := h
  have hs := hs.acquire (c := c) hi
  cases he with
  | again hc => exact ⟨t, hs, ht⟩
  | closed hc =>
    exact ⟨t, ⟨hs.content, hs.piece, hs.starts, hs.durable, hs.synced, hs.bound, hs.nodup⟩, ht⟩
  | failed hc =>
    exact ⟨t, ⟨hs.content, hs.piece, hs.starts, hs.durable, hs.synced, hs.bound, hs.nodup⟩, ht⟩

/-- Each call by itself keeps the framing. -/
theorem framing_safe (canStart : Stream → List (Call × SinkProg Unit) → Call → Prop)
    (fails : Bool) (kind : StreamKind) (f₀ : Bytes) :
    (fileMonitor kind fails ownEntries canStart).Safe (Framing kind f₀) (Unfinished kind f₀)
      (AppendPost kind) [] where
  weaken := fun p ⟨t, hs, _⟩ => ⟨t, hs⟩
  frame := fun hs h => ownEntries_step hs h
  frame_acquire := fun h => ownEntries_acquire h
  call := by
    intro i c
    cases c with
    | close sink =>
      show (kind.prog _).wp _ _ _
      rw [prog_close]
      refine closeSink_wp (fun p hp hv => ?_) fun p res p' hp hv he => ?_
      · obtain ⟨t, hs, -⟩ := hp
        have hs := hs.acquire (c := .close sink) (notMem_of_ownEntries hv)
        exact ⟨⟨t, hs⟩, t, hs.content, hs.piece, hs.starts, hs.durable, hs.synced, hs.bound, hs.nodup⟩
      · exact ⟨framing_of_close hp (notMem_of_ownEntries hv) he, rfl, fun _ _ e => by cases e⟩
    | write sink r =>
      show (kind.prog _).wp _ _ _
      rw [prog_write]
      cases hl : kind.encodeLine r with
      | error e =>
        refine ⟨rfl, fun sink' r' _ => ⟨fun h => (by cases h), ?_⟩⟩
        rintro ⟨e, he, -⟩
        cases he
      | ok l =>
        have hline : kind.lineOf (.write sink r) = some l := lineOf_write.mpr hl
        refine appendLine_wp (fun p n hp hv hn hopen => ?_) fun p res p' hp hv he => ?_
        · obtain ⟨t, hs, -⟩ := hp.unfinished_append (notMem_of_ownEntries hv) hline hn
            fun h => (hopen h).2
          exact ⟨t, hs⟩
        · obtain ⟨hf, e, hei, hec, hlog, hack⟩ :=
            framing_of_effect hp (notMem_of_ownEntries hv) hline he
          refine ⟨hf, rfl, fun sink' r' _ => ?_⟩
          show _ ↔ ∃ e ∈ ownEntries i p', _
          rw [ownEntries_of_log hv hei hlog]
          simp [hack, hec]

/-! ## The file at any moment -/

/-- The interleavings of calls on the sinks of one file. -/
def fileSystem (kind : StreamKind) : System (lockSig streamSig) PyError Unit Call (Locked Stream) :=
  (fileMonitor kind true ownEntries fun _ _ _ => True).system

/-- A file with its sinks open and no call on them yet. -/
def Stream.fresh (f₀ : Bytes) : Stream := ⟨f₀, 0, false, fun _ => false, []⟩

theorem framing_fresh (kind : StreamKind) (f₀ : Bytes) : Framing kind f₀ (.fresh f₀) :=
  ⟨[], ⟨by simp [Stream.fresh, completes, writtenBytes], fun h => absurd rfl h,
    fun es e es' h => by simp [Stream.fresh, completes] at h,
    ⟨[], [], rfl, by simp, fun h => absurd rfl h⟩, by simp [Stream.fresh],
    Nat.zero_le _, by simp [Stream.fresh]⟩, by simp [Stream.fresh]⟩

section

variable {cs : List (Call × SinkProg Unit)} {sink : Nat} {r : Record} {l : Bytes}

/-- A record can be appended to a file and acknowledged. -/
theorem steps_write (hl : StreamKind.audit.encodeLine r = .ok l) (hc : p.closed sink = false)
    (hopen : p.latched = false) (hnew : cs.length ∉ p.log.map Entry.index)
    (hstart : canStart p cs (.write sink r)) :
    ∃ p', Relation.ReflTransGen (fileMonitor .audit true ownEntries canStart).system.Step
        ⟨⟨none, p⟩, cs⟩ ⟨⟨none, p'⟩, cs ++ [(.write sink r, .ret ())]⟩ ∧
      p'.content = p.content ++ l ∧ p'.durable = p'.content.length ∧
      p'.log = p.log ++ [⟨cs.length, .write sink r, p.content, l, true⟩] ∧
      p'.latched = false ∧ p'.closed = p.closed := by
  refine ⟨((p.acquire cs.length (.write sink r)).append cs.length l).sync cs.length,
    System.steps_call hstart (r := .ok ()) ?_, rfl, rfl,
    Stream.log_sync_acquire hnew l, hopen, rfl⟩
  show (StreamKind.audit.prog (.write sink r)).Runs _ _ _ _
  rw [prog_write, hl]
  exact runs_appendLine hc hopen (encodeLine_ok hl).1.ne_nil

/-- And its line can be torn. -/
theorem steps_torn (hl : StreamKind.audit.encodeLine r = .ok l) (hlen : 1 < l.length)
    (hc : p.closed sink = false) (hopen : p.latched = false)
    (hnew : cs.length ∉ p.log.map Entry.index) (hstart : canStart p cs (.write sink r)) :
    ∃ p', Relation.ReflTransGen (fileMonitor .audit true ownEntries canStart).system.Step
        ⟨⟨none, p⟩, cs⟩
        ⟨⟨none, p'⟩, cs ++ [(.write sink r, .throw StreamKind.audit.errors.failed)]⟩ ∧
      p'.content = p.content ++ l.take 1 ∧ p'.durable = p.durable ∧
      p'.log = p.log ++ [⟨cs.length, .write sink r, p.content, l.take 1, false⟩] ∧
      p'.latched = true := by
  refine ⟨((p.acquire cs.length (.write sink r)).append cs.length (l.take 1)).latch,
    System.steps_call hstart (r := .error StreamKind.audit.errors.failed) ?_, rfl, rfl,
    Stream.log_append_acquire hnew _, rfl⟩
  show (StreamKind.audit.prog (.write sink r)).Runs _ _ _ _
  rw [prog_write, hl]
  exact runs_appendLine_torn hc hopen hlen

/-- On a file without calls yet. -/
theorem reachable_write (hl : StreamKind.audit.encodeLine r = .ok l)
    (hstart : canStart (.fresh f₀) [] (.write sink r)) :
    ∃ p, (fileMonitor .audit true ownEntries canStart).system.Reachable ⟨none, .fresh f₀⟩
        ⟨⟨none, p⟩, [(.write sink r, .ret ())]⟩ ∧ p.content = f₀ ++ l ∧ p.durable = p.content.length ∧
      p.log = [⟨0, .write sink r, f₀, l, true⟩] ∧ p.latched = false ∧ p.closed sink = false := by
  obtain ⟨p, hr, hcont, hdur, hlog, hopen, hclosed⟩ :=
    steps_write hl rfl rfl (by simp [Stream.fresh]) hstart
  exact ⟨p, hr, hcont, hdur, hlog, hopen, by rw [hclosed]; rfl⟩

theorem reachable_torn (hl : StreamKind.audit.encodeLine r = .ok l) (hlen : 1 < l.length)
    (hstart : canStart (.fresh f₀) [] (.write sink r)) :
    ∃ p, (fileMonitor .audit true ownEntries canStart).system.Reachable ⟨none, .fresh f₀⟩
        ⟨⟨none, p⟩, [(.write sink r, .throw StreamKind.audit.errors.failed)]⟩ ∧
      p.content = f₀ ++ l.take 1 ∧ p.durable = 0 := by
  obtain ⟨p, hr, hcont, hdur, -⟩ := steps_torn hl hlen rfl rfl (by simp [Stream.fresh]) hstart
  exact ⟨p, hr, hcont, hdur⟩

end

variable {cfg cfg' : Config (lockSig streamSig) PyError Unit Call (Locked Stream)}

/-- Every entry of the history is of a call that was made. -/
theorem entry_of_call
    (h : (fileMonitor kind fails ownEntries canStart).system.Reachable ⟨none, .fresh f₀⟩ cfg) :
    ∀ e ∈ cfg.shared.payload.log, ∃ p, cfg.calls[e.index]? = some (e.call, p) := by
  refine h.inv (I := fun cfg => ∀ e ∈ cfg.shared.payload.log,
    ∃ p, cfg.calls[e.index]? = some (e.call, p)) (by simp [Stream.fresh])
    fun cfg cfg' hinv hstep => ?_
  have kept : ∀ e : Entry, (∃ p, cfg.calls[e.index]? = some (e.call, p)) →
      ∃ p, cfg'.calls[e.index]? = some (e.call, p) := fun e ⟨p, hp⟩ => hstep.kept hp
  cases hstep with
  | start h => exact fun e he => kept e (hinv e he)
  | @perform s s' cs i c o k r hi hstep =>
    intro e he
    cases o with
    | acquire =>
      obtain ⟨-, rfl⟩ := hstep
      rcases List.mem_append.mp he with he | he
      · exact kept e (hinv e he)
      · rw [List.mem_singleton] at he
        subst he
        exact kept _ ⟨_, hi⟩
    | release =>
      obtain ⟨-, rfl⟩ := hstep
      exact kept e (hinv e he)
    | act o =>
      obtain ⟨p', hstep, rfl⟩ := hstep
      obtain ⟨e', he', hidx, hcall⟩ := entry_step hstep he
      have := hinv e' he'
      rw [hidx, hcall] at this
      exact kept e this

/-- An append ended normally exactly if its entry is acknowledged. -/
theorem ended_write_iff
    (h : (fileMonitor kind fails ownEntries canStart).system.Reachable ⟨none, .fresh f₀⟩ cfg)
    {i sink : Nat} {r : Record} {res : Except PyError Unit} (hend : cfg.Ended i (.write sink r) res) :
    res = .ok () ↔ ∃ e ∈ cfg.shared.payload.log, e.index = i ∧ Acknowledged kind e := by
  have hpost := Monitor.reachable_ended (framing_safe _ _ kind f₀) (framing_fresh kind f₀) (fun _ => rfl)
    h hend sink r rfl
  rw [hpost]
  obtain ⟨p, hp, -⟩ := hend
  constructor
  · rintro ⟨e, he, -, hack⟩
    obtain ⟨hm, hi⟩ := List.mem_filter.mp he
    exact ⟨e, hm, of_decide_eq_true hi, hack⟩
  · rintro ⟨e, he, rfl, hack⟩
    obtain ⟨q, hq⟩ := entry_of_call h e he
    have hcall := (Prod.mk.inj (Option.some.inj (hp.symm.trans hq))).1
    exact ⟨e, List.mem_filter.mpr ⟨he, by simp⟩, hcall.symm, hack⟩

/-- A latched file does not change. -/
theorem latched_step (h : (fileSystem kind).Reachable ⟨none, .fresh f₀⟩ cfg)
    (hl : cfg.shared.payload.latched = true) (st : (fileSystem kind).Step cfg cfg') :
    cfg'.shared.payload.latched = true ∧
      cfg'.shared.payload.content = cfg.shared.payload.content := by
  cases st with
  | start h => exact ⟨hl, rfl⟩
  | @perform s s' cs i c o k r hi hstep =>
    cases o with
    | acquire => obtain ⟨-, rfl⟩ := hstep; exact ⟨hl, rfl⟩
    | release => obtain ⟨-, rfl⟩ := hstep; exact ⟨hl, rfl⟩
    | act o =>
      obtain ⟨p', hstep, rfl⟩ := hstep
      cases o with
      | isClosed => rw [hstep.2]; exact ⟨hl, rfl⟩
      | isLatched => rw [hstep.2]; exact ⟨hl, rfl⟩
      | setClosed => rw [show p' = s.payload.closeOf c.sink from hstep]; exact ⟨hl, rfl⟩
      | setLatched => rw [show p' = s.payload.latch from hstep]; exact ⟨rfl, rfl⟩
      | osWrite data =>
        -- a sink that is about to write has seen its stream unlatched
        obtain ⟨-, -, -, hu⟩ := Monitor.reachable_pre (framing_safe _ _ kind f₀)
          (framing_fresh kind f₀) (fun _ => rfl) h hi
        rw [show s.payload.latched = false from hu] at hl
        cases hl
      | osFsync =>
        rcases hstep with ⟨-, rfl⟩ | ⟨-, -, rfl⟩
        · exact ⟨hl, rfl⟩
        · exact ⟨hl, rfl⟩
      | osClose => rw [hstep.1]; exact ⟨hl, rfl⟩

theorem latched_stable (h : (fileSystem kind).Reachable ⟨none, .fresh f₀⟩ cfg)
    (hl : cfg.shared.payload.latched = true)
    (hr : Relation.ReflTransGen (fileSystem kind).Step cfg cfg') :
    cfg'.shared.payload.latched = true ∧
      cfg'.shared.payload.content = cfg.shared.payload.content := by
  induction hr with
  | refl => exact ⟨hl, rfl⟩
  | tail hr st ih =>
    obtain ⟨h₁, h₂⟩ := latched_step (Relation.ReflTransGen.trans h hr) ih.1 st
    exact ⟨h₁, h₂.trans ih.2⟩

/-- The file while the lock is free, and the calls on it. -/
theorem file_framed (kind : StreamKind) (f₀ : Bytes)
    (h : (fileSystem kind).Reachable ⟨none, .fresh f₀⟩ cfg) :
    (cfg.shared.holder = none →
      ∃ torn, cfg.shared.payload.content =
          f₀ ++ writtenBytes (completes kind cfg.shared.payload.log) ++ torn ∧
        (torn = [] ↔ cfg.shared.payload.latched = false) ∧
        (torn ≠ [] → ∃ e ∈ cfg.shared.payload.log, e.wrote = torn ∧ TornOf kind e.call torn)) ∧
    (∀ e ∈ completes kind cfg.shared.payload.log, IsLine e.wrote ∧ e.wrote.length ≤ MAX_RECORD_BYTES) ∧
    (cfg.shared.payload.log.map Entry.index).Nodup ∧
    (∀ e ∈ cfg.shared.payload.log, ∃ p, cfg.calls[e.index]? = some (e.call, p)) ∧
    (∀ i sink r res, cfg.Ended i (.write sink r) res →
      (res = .ok () ↔ ∃ e ∈ cfg.shared.payload.log, e.index = i ∧ Acknowledged kind e)) ∧
    (∀ i c data k, cfg.calls[i]? = some (c, .op (.act (.osWrite data)) k) →
      cfg.shared.holder = some i ∧ cfg.shared.payload.closed c.sink = false ∧
        cfg.shared.payload.latched = false) ∧
    (cfg.shared.payload.latched = true →
      ∀ cfg', Relation.ReflTransGen (fileSystem kind).Step cfg cfg' →
        cfg'.shared.payload.latched = true ∧
          cfg'.shared.payload.content = cfg.shared.payload.content) := by
  have hsafe := framing_safe (fun _ _ _ => True) true kind f₀
  have hfresh := framing_fresh kind f₀
  obtain ⟨t, hs⟩ := Monitor.reachable_always hsafe hfresh (fun _ => rfl) h
  refine ⟨fun hfree => ?_, fun e he => ?_, hs.nodup, entry_of_call h, fun i sink r res hend => ?_,
    fun i c data k hi => ?_, fun hl cfg' hr => latched_stable h hl hr⟩
  · obtain ⟨t, hs, ht⟩ := Monitor.reachable_free hsafe hfresh (fun _ => rfl) h hfree
    exact ⟨t, hs.content, ht, hs.piece⟩
  · exact lineOf_ok (of_decide_eq_true (List.mem_filter.mp he).2)
  · exact ended_write_iff h hend
  · obtain ⟨hh, -, hpre⟩ := Monitor.reachable_pre hsafe hfresh (fun _ => rfl) h hi
    exact ⟨hh, hpre⟩

omit [PyRuntime] in
/-- The line of an intent, and a part of the line of its outcome. -/
theorem file_framed_counted :
    let _ := PyRuntime.plain
    ∃ p torn, (fileSystem .audit).Reachable ⟨none, .fresh []⟩
        ⟨⟨none, p⟩, [(.write 0 (.audit countedIntent), .ret ()),
          (.write 0 (.audit countedOutcome), .throw StreamKind.audit.errors.failed)]⟩ ∧
      p.content = writtenBytes (completes .audit p.log) ++ torn ∧ torn ≠ [] ∧
      (∃ e ∈ p.log, e.wrote = torn ∧ TornOf .audit e.call torn) ∧
      (∃ e ∈ p.log, e.index = 0 ∧ Acknowledged .audit e) ∧
      ¬∃ e ∈ p.log, e.index = 1 ∧ Acknowledged .audit e := by
  intro _
  obtain ⟨l₁, hl₁⟩ := exists_encodeLine_countedIntent
  obtain ⟨l₂, hl₂⟩ := exists_encodeLine_countedOutcome
  obtain ⟨t, rfl, ht⟩ := head_encodeLine hl₂
  obtain ⟨p₁, hr, -, -, hlog, hopen, hclosed⟩ :=
    @reachable_write _ [] (fun _ _ _ => True) 0 _ _ hl₁ trivial
  obtain ⟨p, hsteps, -, -, -, hlatched⟩ := @steps_torn _ _ (fun _ _ _ => True)
    [(.write 0 (.audit countedIntent), .ret ())] 0 _ _ hl₂
    (by have := List.length_pos_iff.mpr ht; simp only [List.length_cons]; omega)
    hclosed hopen (by simp [hlog]) trivial
  have hr := Relation.ReflTransGen.trans hr hsteps
  obtain ⟨hfree, -, -, -, hack, -⟩ := file_framed .audit [] hr
  obtain ⟨torn, hcont, htorn, hpiece⟩ := hfree rfl
  have hne : torn ≠ [] := fun e => by
    have := htorn.mp e
    rw [hlatched] at this
    cases this
  refine ⟨p, torn, hr, hcont, hne, hpiece hne, (hack 0 _ _ _ ⟨_, rfl, rfl⟩).mp rfl, fun hex => ?_⟩
  have hret := (hack 1 0 _ _ ⟨_, rfl, rfl⟩).mpr hex
  cases hret

end NmLogging
