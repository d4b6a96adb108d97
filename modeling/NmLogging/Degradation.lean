import NmLogging.HealthOrder
import NmLogging.Framework.Contract
import NmLogging.Sinks.Fallback

/-!
# What stderr tells of a log

A log whose failures go to a `StderrFallback`. Calls are made one after the other, of whatever
events and fields, over any sink and clock, and the stream of the fallback may answer anything. Its
budget is not negative, its window is longer than nothing, and times are exact rationals.
Each failure that the health counts is told to the fallback once, so what is on stderr can be read
off the count (`OperationalLog.failures_told`): a failure within the budget of its window has its
line, the others do not, no line holds anything of a call, and their number is bounded by the
time that has gone by.
-/

namespace NmLogging

open Relation (ReflTransGen)
open StderrFallback Windows

variable {depth : Nat} {s s' : FallbackState} {maxLines : Int} {windowSeconds start : ℚ} {n : Nat}
  {calls : List EmitCall}

/-! ## One more call of the fallback -/

/-- After any calls, the fallback has had some number of calls in some window. -/
theorem Emits.exists_after (hmax : 0 ≤ maxLines) (h : Emits depth s calls s')
    (hs : s.self = after maxLines windowSeconds start n false) :
    ∃ start' n', s'.self = after maxLines windowSeconds start' n' false := by
  induction h generalizing start n with
  | nil => exact ⟨start, n, hs⟩
  | cons hrun _ _ ih =>
    obtain ⟨w, -, -, hself, -⟩ := hrun.post (emit_spec hmax _ hs)
    exact ih hself

theorem Emits.snoc {t : FallbackState} {text : PyStr} {res : Except PyError Unit}
    {lines : List PyStr} (h : Emits depth s calls t)
    (hrun : (emit text).Runs (fallback depth) t res s') (hlines : s'.handed = t.handed ++ lines) :
    Emits depth s (calls ++ [⟨text, s'.now, res, lines⟩]) s' := by
  induction h with
  | nil => exact .cons hrun hlines .nil
  | cons hfirst hhanded _ ih => exact .cons hfirst hhanded (ih hrun hlines)

/-- A history goes on with one more call. -/
theorem Emits.exists_snoc {t : FallbackState} {text : PyStr} {res : Except PyError Unit}
    (hmax : 0 ≤ maxLines) (h : Emits depth (.init maxLines windowSeconds start) calls t)
    (hrun : (emit text).Runs (fallback depth) t res s') :
    ∃ lines, Emits depth (.init maxLines windowSeconds start)
      (calls ++ [⟨text, s'.now, res, lines⟩]) s' := by
  obtain ⟨start', n, hself⟩ := h.exists_after hmax (init_after _ _ hmax)
  obtain ⟨w, -, -, -, hhanded⟩ := hrun.post (emit_spec hmax text hself)
  exact ⟨_, h.snoc hrun hhanded⟩

/-! ## A log and its fallback -/

/-- The health and the fallback of a log. -/
structure Degrading where
  health : LoggingHealth
  fallback : FallbackState

/-- Both, when they are new. -/
def Degrading.init (maxLines : Int) (windowSeconds now : ℚ) : Degrading :=
  ⟨.init, .init maxLines windowSeconds now⟩

/-- What the operations of a log do to them. Sink and clock may answer anything. -/
def degradingStep (depth : Nat) (s : Degrading) :
    (o : LogOp) → logSig.Ret o → Degrading → Prop
  | .now, _, s' => s' = s
  | .sinkWrite _, _, s' => s' = s
  | .markHealthy, _, s' => s' = { s with health := s.health.markHealthy }
  | .markDegraded kind, _, s' => s' = { s with health := s.health.markDegraded kind }
  | .fallbackEmit text, r, s' =>
    ∃ t, (StderrFallback.emit text).Runs (fallback depth) s.fallback r t ∧
      s' = { s with fallback := t }

abbrev degrading (depth : Nat) : Semantics logSig Degrading := allowing (degradingStep depth)

/-- The kinds of failures. -/
def degradedKinds : List PyStr := [lit "sink_write", lit "defect_unwritable"]

/-- What the fallback is told of a failure. -/
def degradedText (kind : PyStr) : PyStr := lit "operational sink degraded (" ++ kind ++ lit ")"

/-- The fallback was called for each failure, in their order. -/
structure Told (depth : Nat) (maxLines : Int) (windowSeconds start : ℚ) (s : Degrading)
    (calls : List EmitCall) : Prop where
  emits : Emits depth (.init maxLines windowSeconds start) calls s.fallback
  count : calls.length = s.health.totalFailures
  texts : ∀ call ∈ calls, ∃ kind ∈ degradedKinds, call.text = degradedText kind
  last : calls.getLast?.map EmitCall.text = s.health.lastFailureKind.map degradedText

def IsTold (depth : Nat) (maxLines : Int) (windowSeconds start : ℚ) (s : Degrading) : Prop :=
  ∃ calls, Told depth maxLines windowSeconds start s calls

/-! ## A call -/

variable [PyRuntime] (log : OperationalLog) {severity : Severity} {event : PyAtom}
  {fields : Dict PyAtom PyObj} {kind : PyStr} {d d' : Degrading}

omit [PyRuntime] in
theorem LoggingHealth.markHealthy_told (health : LoggingHealth) :
    health.markHealthy.totalFailures = health.totalFailures ∧
      health.markHealthy.lastFailureKind = health.lastFailureKind := by
  rw [markHealthy]
  split
  · exact ⟨rfl, rfl⟩
  · exact ⟨rfl, rfl⟩

omit [PyRuntime] in
theorem IsTold.markHealthy (h : IsTold depth maxLines windowSeconds start d) :
    IsTold depth maxLines windowSeconds start { d with health := d.health.markHealthy } := by
  obtain ⟨calls, htold⟩ := h
  obtain ⟨hfailures, hkind⟩ := d.health.markHealthy_told
  exact ⟨calls, htold.emits, htold.count.trans hfailures.symm, htold.texts,
    htold.last.trans (by rw [hkind])⟩

omit [PyRuntime] in
/-- A failure that is counted is told at once. -/
theorem IsTold.degrade {res : Except PyError Unit} {t : FallbackState} (hmax : 0 ≤ maxLines)
    (hkind : kind ∈ degradedKinds) (h : IsTold depth maxLines windowSeconds start d)
    (hrun : (StderrFallback.emit (degradedText kind)).Runs (fallback depth) d.fallback res t) :
    IsTold depth maxLines windowSeconds start ⟨d.health.markDegraded kind, t⟩ := by
  obtain ⟨calls, htold⟩ := h
  obtain ⟨lines, hemits⟩ := htold.emits.exists_snoc hmax hrun
  refine ⟨_, hemits, ?_, ?_, ?_⟩
  · rw [List.length_append, htold.count]
    rfl
  · intro call hcall
    rcases List.mem_append.mp hcall with hcall | hcall
    · exact htold.texts call hcall
    · rw [List.mem_singleton.mp hcall]
      exact ⟨kind, hkind, rfl⟩
  · rw [List.getLast?_concat]
    rfl

namespace OperationalLog

/-- A program that leaves every failure told. -/
abbrev Tells (depth : Nat) (maxLines : Int) (windowSeconds start : ℚ) {α : Type}
    (p : LogProg α) : Prop :=
  p.Preserves (degrading depth) (IsTold depth maxLines windowSeconds start)

omit [PyRuntime] in
theorem tells_degrade (hmax : 0 ≤ maxLines) (hkind : kind ∈ degradedKinds) :
    Tells depth maxLines windowSeconds start (degrade kind) := by
  refine fun d hd => ⟨trivial, ?_⟩
  rintro r _ rfl
  refine (Prog.wp_elim _ _ _ _ _).mpr ⟨trivial, ?_⟩
  rintro r' _ ⟨t, hrun, rfl⟩
  have htold := hd.degrade hmax hkind hrun
  cases r' with
  | ok _ => exact htold
  | error e =>
    show (if e.isA .exception then Prog.ret () else Prog.throw e : LogProg Unit).wp _ _ _
    split
    · exact htold
    · exact htold

omit [PyRuntime] in
theorem tells_markHealthy : Tells depth maxLines windowSeconds start markHealthy :=
  .op (fun _ => trivial) (by rintro _ _ _ rfl h; exact h.markHealthy) fun _ => Prog.preserves_ret

omit [PyRuntime] in
theorem tells_sinkWrite (record : OperationalRecord) :
    Tells depth maxLines windowSeconds start (sinkWrite record) :=
  .op (fun _ => trivial) (by rintro _ _ _ rfl h; exact h) fun _ => Prog.preserves_ofExcept

theorem tells_buildRecord (schema : EventSchema) :
    Tells depth maxLines windowSeconds start (log.buildRecord event severity schema fields) :=
  Prog.preserves_ofExcept.bind fun _ => Prog.preserves_ofExcept.bind fun _ =>
    .op (fun _ => trivial) (by rintro _ _ _ rfl h; exact h) fun _ =>
      Prog.preserves_ofExcept.bind fun _ => Prog.preserves_ofExcept

theorem tells_emitDefectRecord (hmax : 0 ≤ maxLines) :
    Tells depth maxLines windowSeconds start (log.emitDefectRecord event kind) := by
  refine .elim ((log.tells_buildRecord log.defectSchema).bind fun r => tells_sinkWrite r)
    (fun _ => tells_markHealthy) fun e => ?_
  split
  · exact tells_degrade hmax (by decide)
  · exact Prog.preserves_throw

theorem tells_handleDefect (hmax : 0 ≤ maxLines) (exc : PyError) :
    Tells depth maxLines windowSeconds start (log.handleDefect event exc kind) := by
  rw [handleDefect]
  split
  · exact Prog.preserves_throw
  · exact log.tells_emitDefectRecord hmax

theorem tells_write (hmax : 0 ≤ maxLines) (record : OperationalRecord) :
    Tells depth maxLines windowSeconds start (log.write record event) := by
  refine (tells_sinkWrite record).elim (fun _ => tells_markHealthy) fun exc => ?_
  split
  · exact log.tells_handleDefect hmax exc
  · split
    · exact tells_degrade hmax (by decide)
    · exact Prog.preserves_throw

theorem tells_emit (hmax : 0 ≤ maxLines) :
    Tells depth maxLines windowSeconds start (log.emit severity event fields) := by
  rw [emit]
  split
  · split
    · exact log.tells_handleDefect hmax _
    · exact Prog.preserves_throw
  · refine (log.tells_buildRecord _).elim (fun record => log.tells_write hmax record) fun exc => ?_
    split
    · exact log.tells_handleDefect hmax exc
    · split
      · exact log.tells_handleDefect hmax exc
      · exact Prog.preserves_throw

/-- A call leaves every failure told, also where it raises. -/
theorem tells_call (hmax : 0 ≤ maxLines) :
    Tells depth maxLines windowSeconds start (log.call severity event fields) := by
  refine Prog.preserves_ofExcept.bind fun kw => ?_
  cases severity
  all_goals exact log.tells_emit hmax

/-- A call, of any event and fields, and how it leaves health and fallback. -/
def Makes (depth : Nat) (d d' : Degrading) : Prop :=
  ∃ (c : LogCall) (res : Except PyError Unit),
    (log.call c.severity c.event c.fields).Runs (degrading depth) d res d'

variable {log}

theorem isTold_of_calls (hmax : 0 ≤ maxLines)
    (h : ReflTransGen (log.Makes depth) (Degrading.init maxLines windowSeconds start) d) :
    IsTold depth maxLines windowSeconds start d := by
  induction h with
  | refl => exact ⟨[], .nil, rfl, by rintro _ ⟨⟩, rfl⟩
  | tail _ hmakes ih =>
    obtain ⟨c, res, hrun⟩ := hmakes
    exact (log.tells_call hmax).runs hrun ih

end OperationalLog

/-! ## The stream -/

/-- What the stream was handed on behalf of the failures that the health has counted: `calls` are
the calls of the fallback, one for each of them. -/
structure FailuresTold (maxLines : Int) (windowSeconds start : ℚ) (d : Degrading)
    (calls : List EmitCall) : Prop where
  count : calls.length = d.health.totalFailures
  last : calls.getLast?.map EmitCall.text = d.health.lastFailureKind.map degradedText
  handed : d.fallback.handed = (calls.map EmitCall.lines).flatten
  shown : ∀ call place, (call, place) ∈ placed windowSeconds start calls → place < maxLines →
    ∃ kind ∈ degradedKinds, call.lines = [PREFIX ++ degradedText kind ++ [lineFeed]]
  hidden : ∀ call place, (call, place) ∈ placed windowSeconds start calls → maxLines < place →
    call.lines = []
  fixed : ∀ line ∈ d.fallback.handed,
    (∃ kind ∈ degradedKinds, line = PREFIX ++ degradedText kind ++ [lineFeed]) ∨
      ∃ body, summary windowSeconds = .ok body ∧ line = body ++ [lineFeed]
  bounded : d.fallback.handed.length ≤
    (maxLines + 1) * (1 + ⌊(d.fallback.now - start) / windowSeconds⌋)
  heard : 0 < maxLines → 0 < d.health.totalFailures → d.fallback.handed ≠ []

omit [PyRuntime] in
theorem oneLine_degradedText (h : kind ∈ degradedKinds) :
    oneLine (degradedText kind) = degradedText kind := by
  revert kind
  decide +kernel

omit [PyRuntime] in
/-- The line that is due for a failure, wherever it is due, is one of a few. -/
theorem mem_due_degradedText (hkind : kind ∈ degradedKinds) {line : PyStr}
    (h : line ∈ StderrFallback.due maxLines windowSeconds n (degradedText kind)) :
    line = PREFIX ++ degradedText kind ++ [lineFeed] ∨
      ∃ body, summary windowSeconds = .ok body ∧ line = body ++ [lineFeed] := by
  rw [StderrFallback.due, oneLine_degradedText hkind] at h
  split at h
  · exact .inl (List.mem_singleton.mp h)
  · split at h
    · split at h
      · exact .inr ⟨_, ‹_›, List.mem_singleton.mp h⟩
      · cases h
    · cases h

omit [PyRuntime] in
/-- The first call is the first of its window. -/
theorem mem_placed_head (call : EmitCall) (calls : List EmitCall) :
    (call, 0) ∈ placed windowSeconds start (call :: calls) := by
  rw [placed, List.map_cons]
  by_cases h : windowSeconds ≤ call.reading - start
  · rw [places_of_le _ h]
    exact List.mem_cons_self
  · rw [places_of_not_le _ h]
    exact List.mem_cons_self

/-- **Every failure is told once.** Whatever a log is called with, and whatever its sink, its clock
and the stream of its fallback do: the fallback is called once for each failure that the health
counts, in their order. A failure within the budget of its window has its line on the stream, the
first one beyond it at most the summary, and the others none. No line holds anything of a call,
and there are no more than the windows that have begun have budget for. -/
theorem OperationalLog.failures_told {log : OperationalLog} (hmax : 0 ≤ maxLines)
    (hwindow : 0 < windowSeconds)
    (h : ReflTransGen (log.Makes depth) (Degrading.init maxLines windowSeconds start) d) :
    ∃ calls, Emits depth (.init maxLines windowSeconds start) calls d.fallback ∧
      FailuresTold maxLines windowSeconds start d calls := by
  obtain ⟨calls, htold⟩ := isTold_of_calls hmax h
  have hlines := htold.emits.lines_eq hmax
  have hhanded : d.fallback.handed = (calls.map EmitCall.lines).flatten :=
    (htold.emits.due hmax (init_after _ _ hmax)).1
  have hmem : ∀ call place, (call, place) ∈ placed windowSeconds start calls → call ∈ calls :=
    fun call place h => (List.of_mem_zip h).1
  have hshown : ∀ call place, (call, place) ∈ placed windowSeconds start calls →
      (place : Int) < maxLines →
        ∃ kind ∈ degradedKinds, call.lines = [PREFIX ++ degradedText kind ++ [lineFeed]] := by
    intro call place hplaced hlt
    obtain ⟨kind, hkind, htext⟩ := htold.texts call (hmem _ _ hplaced)
    refine ⟨kind, hkind, ?_⟩
    rw [hlines call place hplaced, StderrFallback.due, if_pos hlt, htext,
      oneLine_degradedText hkind]
  refine ⟨calls, htold.emits, htold.count, htold.last, hhanded, hshown, ?_, ?_,
    htold.emits.bounded hmax hwindow, ?_⟩
  · intro call place hplaced hgt
    rw [hlines call place hplaced, StderrFallback.due, if_neg hgt.not_gt, if_neg hgt.ne']
  · intro line hline
    rw [hhanded] at hline
    obtain ⟨_, hin, hline⟩ := List.mem_flatten.mp hline
    obtain ⟨call, hcall, rfl⟩ := List.mem_map.mp hin
    have hfst : call ∈ (placed windowSeconds start calls).map Prod.fst := by
      rw [placed, List.map_fst_zip (by simp)]
      exact hcall
    obtain ⟨⟨_, place⟩, hplaced, rfl⟩ := List.mem_map.mp hfst
    obtain ⟨kind, hkind, htext⟩ := htold.texts _ hcall
    rw [hlines _ place hplaced, htext] at hline
    exact (mem_due_degradedText hkind hline).imp_left fun e => ⟨kind, hkind, e⟩
  · intro hbudget hfailed
    rw [← htold.count] at hfailed
    obtain ⟨call, calls, rfl⟩ := List.exists_cons_of_length_pos hfailed
    obtain ⟨kind, -, hcall⟩ := hshown call 0 (mem_placed_head call calls) (by simpa using hbudget)
    rw [hhanded, List.map_cons, List.flatten_cons, hcall]
    exact List.cons_ne_nil _ _

section

omit [PyRuntime]

/-- A call whose write fails, while the clock stands still. -/
theorem exists_makes_drained (d : Degrading) : ∃ d',
    (@OperationalLog.Makes PyRuntime.plain sampleLog 0) d d' ∧
      d'.health.totalFailures = d.health.totalFailures + 1 ∧ d'.fallback.now = d.fallback.now := by
  let _ := PyRuntime.plain
  obtain ⟨k, k', hcall, hwrite, -, hsink⟩ := exists_call_drained
  obtain ⟨res, t, hrun, hnow⟩ := exists_emit 0 (degradedText (lit "sink_write")) d.fallback
  obtain ⟨res', hdegrade⟩ : ∃ res', (OperationalLog.degrade (lit "sink_write")).Runs (degrading 0)
      d res' ⟨d.health.markDegraded (lit "sink_write"), t⟩ := by
    cases res with
    | ok _ => exact ⟨_, .op (r := ()) rfl (.op ⟨t, hrun, rfl⟩ .ret)⟩
    | error e =>
      obtain ⟨res', hres⟩ : ∃ res', Prog.Runs (degrading 0)
          (if e.isA .exception then .ret () else .throw e : LogProg Unit)
          ⟨d.health.markDegraded (lit "sink_write"), t⟩ res'
          ⟨d.health.markDegraded (lit "sink_write"), t⟩ := by
        split
        · exact ⟨_, .ret⟩
        · exact ⟨_, .throw⟩
      exact ⟨res', .op (r := ()) rfl (.op ⟨t, hrun, rfl⟩ hres)⟩
  refine ⟨⟨d.health.markDegraded (lit "sink_write"), t⟩, ⟨drained, res', ?_⟩, rfl, hnow⟩
  rw [hcall]
  refine .op (r := (.ok drainedRecord.timestamp : Except PyError Datetime)) rfl ?_
  rw [hwrite]
  refine .op (r := (.error (sinkError "operational sink write failed") : Except PyError Unit))
    rfl ?_
  rw [hsink]
  exact hdegrade

/-- Any number of them. -/
theorem exists_failures_drained (n : Nat) (d : Degrading) : ∃ d',
    ReflTransGen (@OperationalLog.Makes PyRuntime.plain sampleLog 0) d d' ∧
      d'.health.totalFailures = d.health.totalFailures + n ∧
      d'.fallback.now = d.fallback.now := by
  induction n with
  | zero => exact ⟨d, .refl, rfl, rfl⟩
  | succ n ih =>
    obtain ⟨d₁, hmakes, hfailures, hnow⟩ := ih
    obtain ⟨d', hmakes', hfailures', hnow'⟩ := exists_makes_drained d₁
    exact ⟨d', hmakes.tail hmakes', by rw [hfailures', hfailures, Nat.add_assoc],
      hnow'.trans hnow⟩

/-- Three failures in a window with a budget of one line: the third has none. -/
theorem failures_told_drained : ∃ d,
    ReflTransGen (@OperationalLog.Makes PyRuntime.plain sampleLog 0) (Degrading.init 1 60 0) d ∧
      d.health.totalFailures = 3 ∧ d.fallback.handed ≠ [] ∧ d.fallback.handed.length ≤ 2 := by
  let _ := PyRuntime.plain
  obtain ⟨d, hmakes, hfailures, hnow⟩ := exists_failures_drained 3 (Degrading.init 1 60 0)
  obtain ⟨calls, -, htold⟩ := OperationalLog.failures_told (by decide) (by norm_num) hmakes
  have hthree : d.health.totalFailures = 3 := hfailures
  have hzero : d.fallback.now = 0 := hnow
  have hbounded := htold.bounded
  rw [hzero] at hbounded
  norm_num at hbounded
  exact ⟨d, hmakes, hthree, htold.heard (by decide) (by rw [hthree]; decide), by omega⟩

end

end NmLogging
