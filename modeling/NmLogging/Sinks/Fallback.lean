import NmLogging.Framework.Python
import NmLogging.Framework.Prog
import NmLogging.Framework.Windows
import Mathlib.Data.Rat.Floor
import Mathlib.Logic.Relation

/-!
# The fallback channel

`StderrFallback` of `sinks/stderr.py`: a writer of short lines that keeps within a budget of
lines for each window of time. Times are exact rationals. A call is a program over the fields of
the object, the clock and the stream (`FallbackOp`). The stream may fail in any way, and may call
`emit` again before it returns (`nested`).

In every history each call hands over the line that is due at its place in its window
(`Emits.due`), so that the volume is bounded by the budget of the windows that have passed
(`Emits.bounded`). The summary alone can be missing: where the window has more digits than an
integer may be written out with, and is needed (`Emits.rationed_iff`).
-/

namespace NmLogging

/-! ## The channel -/

/-- `StderrFallback`, apart from the stream and the clock. -/
structure StderrFallback where
  maxLines : Int
  windowSeconds : ℚ
  windowStart : ℚ
  count : Int
  suppressing : Bool
  reentrant : Bool

/-- What a fallback does outside the call. -/
inductive FallbackOp where
  | get
  | modify (f : StderrFallback → StderrFallback)
  | monotonic
  | write (text : PyStr)
  | flush

def fallbackSig : Sig where
  Op := FallbackOp
  Ret
    | .get => StderrFallback
    | .modify _ => Unit
    | .monotonic => ℚ
    | .write _ => Except PyError Unit
    | .flush => Except PyError Unit

/-- What a fallback runs. -/
abbrev FallbackProg := Prog fallbackSig PyError

namespace StderrFallback

def get : FallbackProg StderrFallback := .op .get .ret
def modify (f : StderrFallback → StderrFallback) : FallbackProg Unit := .op (.modify f) .ret
def monotonic : FallbackProg ℚ := .op .monotonic .ret
def streamWrite (text : PyStr) : FallbackProg Unit := .op (.write text) .ofExcept
def flush : FallbackProg Unit := .op .flush .ofExcept

/-- `_PREFIX`. -/
def PREFIX : PyStr := lit "nm-logging: "

/-- `"\n"`. -/
def lineFeed : Nat := 0x0a

/-- `"\r"`. -/
def carriageReturn : Nat := 0x0d

/-- `text.replace(old, new)`, of one character. -/
def replaceChar (old new : Nat) (text : PyStr) : PyStr :=
  text.map fun c => if c = old then new else c

/-- `int(x)`. -/
def truncate (x : ℚ) : Int := if 0 ≤ x then ⌊x⌋ else ⌈x⌉

/-- `StderrFallback(…)`, when the clock reads `now`. -/
def init (maxLines : Int) (windowSeconds now : ℚ) : StderrFallback where
  maxLines := maxLines
  windowSeconds := windowSeconds
  windowStart := now
  count := 0
  suppressing := false
  reentrant := false

/-- The fallback with a new window if the old one is over. -/
def renewed (now : ℚ) (self : StderrFallback) : StderrFallback :=
  if self.windowSeconds ≤ now - self.windowStart then
    { self with windowStart := now, count := 0, suppressing := false }
  else self

/-- The text of the summary line. -/
def summary (windowSeconds : ℚ) : Except PyError PyStr := do
  let seconds ← intStr (truncate windowSeconds)
  return PREFIX ++ (lit "further fallback messages suppressed for up to " ++ seconds ++ lit "s")

/-- `_write`. -/
def write (line : PyStr) : FallbackProg Unit :=
  (do
    streamWrite (line ++ [lineFeed])
    flush).tryCatch fun e => if e.isA .exception then .ret () else .throw e

/-- `_allow`. -/
def allow : FallbackProg Bool := do
  let now ← monotonic
  modify (renewed now)
  let self ← get
  if self.count < self.maxLines then
    modify fun self => { self with count := self.count + 1 }
    return true
  else
    unless self.suppressing do
      modify fun self => { self with suppressing := true }
      let line ← .ofExcept (summary self.windowSeconds)
      write line
    return false

/-- The text without what would break the framing of its line. -/
def oneLine (text : PyStr) : PyStr :=
  replaceChar lineFeed 0x20 (replaceChar carriageReturn 0x20 text)

/-- `emit`. -/
def emit (text : PyStr) : FallbackProg Unit := do
  let self ← get
  if self.reentrant then
    return ()
  else
    modify fun self => { self with reentrant := true }
    (do
      let allowed ← allow
      if allowed then write (PREFIX ++ oneLine text) else return ()).tryFinally
      (modify fun self => { self with reentrant := false })

end StderrFallback

/-! ## The stream and the clock -/

open StderrFallback Windows

/-- A fallback, the texts that were handed to its stream, and the last reading of its clock. -/
structure FallbackState where
  self : StderrFallback
  handed : List PyStr
  now : ℚ

/-- What the operations do: the clock does not run backwards, and the stream is handed a text
and answers anything, after whatever `nested` allows. -/
def fallbackStep (nested : FallbackState → FallbackState → Prop) (s : FallbackState) :
    (o : FallbackOp) → fallbackSig.Ret o → FallbackState → Prop
  | .get, r, s' => r = s.self ∧ s' = s
  | .modify f, _, s' => s' = { s with self := f s.self }
  | .monotonic, r, s' => s.now ≤ r ∧ s' = { s with now := r }
  | .write text, _, s' => nested { s with handed := s.handed ++ [text] } s'
  | .flush, _, s' => nested s s'

/-- What the stream may do before it returns: call `emit` any number of times, in calls whose own
use of the stream is nested less deep. -/
def nested : Nat → FallbackState → FallbackState → Prop
  | 0 => (· = ·)
  | depth + 1 => Relation.ReflTransGen fun s s' =>
      ∃ text res, (emit text).Runs (allowing (fallbackStep (nested depth))) s res s'

/-- What the operations do where calls from inside the stream nest to a depth. -/
abbrev fallback (depth : Nat) : Semantics fallbackSig FallbackState :=
  allowing (fallbackStep (nested depth))

/-! ## Symbolic execution -/

variable {depth : Nat} {s s' : FallbackState}

namespace StderrFallback

section

variable {rel : FallbackState → FallbackState → Prop}

@[simp] theorem wp_get (Q : Except PyError StderrFallback → FallbackState → Prop) :
    get.wp (allowing (fallbackStep rel)) s Q ↔ Q (.ok s.self) s := by
  constructor
  · exact fun h => h.2 _ _ ⟨rfl, rfl⟩
  · rintro h
    refine ⟨trivial, ?_⟩
    rintro _ _ ⟨rfl, rfl⟩
    exact h

@[simp] theorem wp_modify (f : StderrFallback → StderrFallback)
    (Q : Except PyError Unit → FallbackState → Prop) :
    (modify f).wp (allowing (fallbackStep rel)) s Q ↔ Q (.ok ()) { s with self := f s.self } := by
  constructor
  · exact fun h => h.2 () _ rfl
  · rintro h
    refine ⟨trivial, ?_⟩
    rintro _ _ rfl
    exact h

@[simp] theorem wp_monotonic (Q : Except PyError ℚ → FallbackState → Prop) :
    monotonic.wp (allowing (fallbackStep rel)) s Q ↔
      ∀ t, s.now ≤ t → Q (.ok t) { s with now := t } := by
  constructor
  · exact fun h t ht => h.2 t _ ⟨ht, rfl⟩
  · rintro h
    refine ⟨trivial, ?_⟩
    rintro t _ ⟨ht, rfl⟩
    exact h t ht

/-- A call from inside another changes nothing. -/
theorem emit_reentrant (text : PyStr) (hs : s.self.reentrant = true) :
    (emit text).wp (allowing (fallbackStep rel)) s fun res s' => res = .ok () ∧ s' = s := by
  simp [emit, Prog.wp_bind, hs]

end

end StderrFallback

theorem nested_reentrant (hs : s.self.reentrant = true) (h : nested depth s s') : s' = s := by
  cases depth with
  | zero => exact h.symm
  | succ depth =>
    induction h with
    | refl => rfl
    | tail _ hcall ih =>
      obtain ⟨text, res, hrun⟩ := hcall
      subst ih
      exact (hrun.post (emit_reentrant text hs)).2

namespace StderrFallback

/-- The stream is handed the text, whatever it answers. -/
theorem wp_streamWrite {Q : Except PyError Unit → FallbackState → Prop} (text : PyStr)
    (hs : s.self.reentrant = true) (h : ∀ r, Q r { s with handed := s.handed ++ [text] }) :
    (streamWrite text).wp (fallback depth) s Q := by
  refine ⟨trivial, fun r s₁ h₁ => ?_⟩
  rw [nested_reentrant (s := { s with handed := s.handed ++ [text] }) hs h₁]
  exact Prog.wp_ofExcept.mpr (h r)

theorem wp_flush {Q : Except PyError Unit → FallbackState → Prop} (hs : s.self.reentrant = true)
    (h : ∀ r, Q r s) : flush.wp (fallback depth) s Q := by
  refine ⟨trivial, fun r s₁ h₁ => ?_⟩
  rw [nested_reentrant (s := s) hs h₁]
  exact Prog.wp_ofExcept.mpr (h r)

/-- A line is handed over whole, whatever becomes of it. -/
theorem write_spec (line : PyStr) (hs : s.self.reentrant = true) :
    (write line).wp (fallback depth) s fun _ s' =>
      s' = { s with handed := s.handed ++ [line ++ [lineFeed]] } := by
  rw [write, Prog.tryCatch, Prog.wp_elim, Prog.wp_bind]
  have hend : ∀ (e : PyError) (t : FallbackState),
      (if e.isA .exception then Prog.ret () else .throw e : FallbackProg Unit).wp
        (fallback depth) t fun _ s' => s' = t := by
    intro e t
    split
    · exact rfl
    · exact rfl
  refine wp_streamWrite _ hs fun r => ?_
  cases r with
  | error e => exact hend e _
  | ok _ =>
    refine wp_flush hs fun r => ?_
    cases r with
    | error e => exact hend e _
    | ok _ => exact rfl

/-! ## One call -/

/-- A fallback after `n` calls in the window from `start`. -/
def after (maxLines : Int) (windowSeconds start : ℚ) (n : Nat) (reentrant : Bool) :
    StderrFallback where
  maxLines := maxLines
  windowSeconds := windowSeconds
  windowStart := start
  count := min n maxLines
  suppressing := maxLines < n
  reentrant := reentrant

/-- The lines that are due at the call after `n` in a window: that of the message within the
budget, and then that of the summary once. -/
def due (maxLines : Int) (windowSeconds : ℚ) (n : Nat) (text : PyStr) : List PyStr :=
  if n < maxLines then [PREFIX ++ oneLine text ++ [lineFeed]]
  else if n = maxLines then
    match summary windowSeconds with
    | .ok line => [line ++ [lineFeed]]
    | .error _ => []
  else []

variable {maxLines : Int} {windowSeconds start : ℚ} {n : Nat}

theorem renewed_after (hmax : 0 ≤ maxLines) (t : ℚ) (reentrant : Bool) :
    renewed t (after maxLines windowSeconds start n reentrant) =
      let w := enter windowSeconds start n t
      after maxLines windowSeconds w.1 w.2 reentrant := by
  by_cases h : windowSeconds ≤ t - start
  · simp [renewed, enter, after, h, hmax]
  · simp [renewed, enter, after, h]

theorem count_after_lt {reentrant : Bool} :
    (after maxLines windowSeconds start n reentrant).count <
      (after maxLines windowSeconds start n reentrant).maxLines ↔ n < maxLines := by
  simp only [after]
  omega

/-- A call within the budget spends a line of it. -/
theorem after_succ_of_lt (h : n < maxLines) :
    after maxLines windowSeconds start (n + 1) true =
      { after maxLines windowSeconds start n true with count := min (n : Int) maxLines + 1 } := by
  simp only [after, StderrFallback.mk.injEq, true_and, and_true]
  refine ⟨by omega, decide_eq_decide.mpr (by omega)⟩

/-- The first call beyond the budget begins to suppress. -/
theorem after_succ_of_eq (windowSeconds start : ℚ) (h : n = maxLines) :
    after maxLines windowSeconds start (n + 1) true =
      { after maxLines windowSeconds start n true with suppressing := true } := by
  simp only [after, StderrFallback.mk.injEq, true_and, and_true]
  refine ⟨by omega, decide_eq_true (by omega)⟩

/-- Every later call finds and leaves the same fallback. -/
theorem after_succ_of_gt (h : maxLines < n) :
    after maxLines windowSeconds start (n + 1) true = after maxLines windowSeconds start n true := by
  simp only [after, StderrFallback.mk.injEq, true_and, and_true]
  refine ⟨by omega, decide_eq_decide.mpr (by omega)⟩

/-- A call is allowed within the budget, and hands over the summary if it is the first beyond. -/
theorem allow_spec (hmax : 0 ≤ maxLines) (hs : s.self = after maxLines windowSeconds start n true) :
    allow.wp (fallback depth) s fun res s' =>
      ∃ w, enter windowSeconds start n s'.now = w ∧ s.now ≤ s'.now ∧
        s'.self = after maxLines windowSeconds w.1 (w.2 + 1) true ∧
        (w.2 < maxLines → res = .ok true ∧ s'.handed = s.handed) ∧
        (¬w.2 < maxLines → res ≠ .ok true ∧
          ∀ text, s'.handed = s.handed ++ due maxLines windowSeconds w.2 text) := by
  simp only [allow, Prog.wp_bind, wp_monotonic, wp_modify, wp_get, hs, renewed_after hmax]
  intro t ht
  generalize hw : enter windowSeconds start n t = w
  rcases lt_trichotomy (w.2 : Int) maxLines with hk | hk | hk
  · rw [if_pos (count_after_lt.mpr hk)]
    simp only [Prog.wp_bind, wp_modify, Prog.wp_pure]
    exact ⟨w, hw, ht, (after_succ_of_lt hk).symm, fun _ => ⟨trivial, trivial⟩, fun h => absurd hk h⟩
  · rw [if_neg fun h => absurd (count_after_lt.mp h) (by omega)]
    have hsupp : (after maxLines windowSeconds w.1 w.2 true).suppressing = false :=
      decide_eq_false (by omega)
    simp only [hsupp, Bool.false_eq_true, if_false, Prog.wp_bind, wp_modify, Prog.wp_ofExcept]
    have hself := (after_succ_of_eq windowSeconds w.1 hk).symm
    cases hsummary : summary windowSeconds with
    | error e =>
      simp only [after, hsummary]
      exact ⟨w, hw, ht, hself, fun h => absurd h (by omega), fun _ =>
        ⟨by rintro ⟨⟩, fun text => by simp [due, hk, hsummary]⟩⟩
    | ok line =>
      simp only [after, hsummary]
      refine Prog.wp_mono (write_spec line rfl) fun res s' hs' => ?_
      subst hs'
      have hdue : ∀ text, due maxLines windowSeconds w.2 text = [line ++ [lineFeed]] := by
        intro text
        simp [due, hk, hsummary]
      cases res with
      | ok _ =>
        exact ⟨w, hw, ht, hself, fun h => absurd h (by omega), fun _ =>
          ⟨by rintro ⟨⟩, fun text => by rw [hdue]⟩⟩
      | error e =>
        exact ⟨w, hw, ht, hself, fun h => absurd h (by omega), fun _ =>
          ⟨by rintro ⟨⟩, fun text => by rw [hdue]⟩⟩
  · rw [if_neg fun h => absurd (count_after_lt.mp h) (by omega)]
    have hsupp : (after maxLines windowSeconds w.1 w.2 true).suppressing = true :=
      decide_eq_true (by omega)
    simp only [hsupp, if_true, Prog.wp_pure]
    exact ⟨w, hw, ht, (after_succ_of_gt hk).symm, fun h => absurd h (by omega), fun _ =>
      ⟨by rintro ⟨⟩, fun text => by simp [due, hk.not_gt, hk.ne']⟩⟩

/-- A message is written if it is allowed, so what the call hands over is due. -/
theorem body_spec (hmax : 0 ≤ maxLines) (text : PyStr)
    (hs : s.self = after maxLines windowSeconds start n true) :
    (do
      let allowed ← allow
      if allowed then write (PREFIX ++ oneLine text)
      else return ()).wp (fallback depth) s fun _ s' =>
      ∃ w, enter windowSeconds start n s'.now = w ∧ s.now ≤ s'.now ∧
        s'.self = after maxLines windowSeconds w.1 (w.2 + 1) true ∧
        s'.handed = s.handed ++ due maxLines windowSeconds w.2 text := by
  rw [Prog.wp_bind]
  refine Prog.wp_mono (allow_spec hmax hs) fun res s₁ h => ?_
  obtain ⟨w, hw, ht, hself, hlt, hge⟩ := h
  by_cases hk : w.2 < maxLines
  · obtain ⟨rfl, hhanded⟩ := hlt hk
    simp only [if_true]
    refine Prog.wp_mono (write_spec _ (by rw [hself]; rfl)) fun _ s₂ hs₂ => ?_
    subst hs₂
    exact ⟨w, hw, ht, hself, by simp only [hhanded, due, hk, if_true]⟩
  · obtain ⟨hres, hhanded⟩ := hge hk
    cases res with
    | ok allowed =>
      cases allowed with
      | true => exact absurd rfl hres
      | false => exact ⟨w, hw, ht, hself, hhanded text⟩
    | error e => exact ⟨w, hw, ht, hself, hhanded text⟩

/-- One call, from a fallback that has had `n` calls in the window from `start`: it enters its
window, hands over the line that is due there, and leaves the fallback open to the next. -/
theorem emit_spec (hmax : 0 ≤ maxLines) (text : PyStr)
    (hs : s.self = after maxLines windowSeconds start n false) :
    (emit text).wp (fallback depth) s fun _ s' =>
      ∃ w, enter windowSeconds start n s'.now = w ∧ s.now ≤ s'.now ∧
        s'.self = after maxLines windowSeconds w.1 (w.2 + 1) false ∧
        s'.handed = s.handed ++ due maxLines windowSeconds w.2 text := by
  have hopen : s.self.reentrant = false := by rw [hs]; rfl
  have hentered : ({ s.self with reentrant := true } : StderrFallback) =
      after maxLines windowSeconds start n true := by rw [hs]; rfl
  rw [emit, Prog.wp_bind, wp_get]
  simp only [hopen, Bool.false_eq_true, if_false]
  rw [Prog.wp_bind, wp_modify]
  rw [Prog.tryFinally]
  refine (Prog.wp_elim _ _ _ _ _).mpr ?_
  refine Prog.wp_mono (body_spec hmax text hentered) fun res s₁ h => ?_
  obtain ⟨w, hw, ht, hself, hhanded⟩ := h
  have hleft : ({ s₁.self with reentrant := false } : StderrFallback) =
      after maxLines windowSeconds w.1 (w.2 + 1) false := by rw [hself]; rfl
  cases res with
  | ok _ =>
    simp only [Prog.wp_bind, wp_modify, Prog.wp_ret]
    exact ⟨w, hw, ht, hleft, hhanded⟩
  | error e =>
    simp only [Prog.wp_bind, wp_modify, Prog.wp_throw]
    exact ⟨w, hw, ht, hleft, hhanded⟩

end StderrFallback

/-! ## Histories -/

/-- A call of `emit`: its text, what the clock read, how it ended, and the lines that it handed to
the stream. -/
structure EmitCall where
  text : PyStr
  reading : ℚ
  result : Except PyError Unit
  lines : List PyStr

/-- Calls of `emit`, one after the other. -/
inductive Emits (depth : Nat) : FallbackState → List EmitCall → FallbackState → Prop where
  | nil {s : FallbackState} : Emits depth s [] s
  | cons {s t s' : FallbackState} {text : PyStr} {res : Except PyError Unit} {lines : List PyStr}
    {calls : List EmitCall} :
    (emit text).Runs (fallback depth) s res t → t.handed = s.handed ++ lines →
      Emits depth t calls s' → Emits depth s (⟨text, t.now, res, lines⟩ :: calls) s'

/-- A fallback that is constructed when the clock reads `now`. -/
def FallbackState.init (maxLines : Int) (windowSeconds now : ℚ) : FallbackState :=
  ⟨StderrFallback.init maxLines windowSeconds now, [], now⟩

/-- The calls with their places in the windows of the fallback. -/
def placed (windowSeconds start : ℚ) (calls : List EmitCall) : List (EmitCall × Nat) :=
  calls.zip (places windowSeconds start 0 (calls.map EmitCall.reading))

/-- The stream is handed no more than the budget of each window, in lines. -/
structure Rationed (maxLines : Int) (windowSeconds start : ℚ) (calls : List EmitCall)
    (final : FallbackState) : Prop where
  bounded : final.handed.length ≤ (maxLines + 1) * (1 + ⌊(final.now - start) / windowSeconds⌋)
  message : ∀ call place, (call, place) ∈ placed windowSeconds start calls → place < maxLines →
    call.lines = [PREFIX ++ oneLine call.text ++ [lineFeed]]
  summary : ∀ call place, (call, place) ∈ placed windowSeconds start calls → place = maxLines →
    ∃ line, StderrFallback.summary windowSeconds = .ok line ∧ call.lines = [line ++ [lineFeed]]
  quiet : ∀ call place, (call, place) ∈ placed windowSeconds start calls → maxLines < place →
    call.lines = []
  framed : ∀ line ∈ final.handed, ∃ body, line = body ++ [lineFeed] ∧ lineFeed ∉ body ∧
    carriageReturn ∉ body
  reentrant : ∀ depth (s s' : FallbackState) text res, s.self.reentrant = true →
    (emit text).Runs (fallback depth) s res s' → s'.handed = s.handed

variable {maxLines : Int} {windowSeconds start : ℚ} {n : Nat} {calls : List EmitCall}

/-- Every call hands over the line that is due at its place. -/
theorem Emits.due (hmax : 0 ≤ maxLines) (h : Emits depth s calls s')
    (hs : s.self = after maxLines windowSeconds start n false) :
    s'.handed = s.handed ++ (calls.map EmitCall.lines).flatten ∧
    List.Forall₂ (fun call place => call.lines = due maxLines windowSeconds place call.text) calls
      (places windowSeconds start n (calls.map EmitCall.reading)) := by
  induction h generalizing start n with
  | nil => exact ⟨by simp, .nil⟩
  | cons hrun hlines _ ih =>
    obtain ⟨w, hw, -, hself, hhanded⟩ := hrun.post (emit_spec hmax _ hs)
    obtain ⟨hrest, hdue⟩ := ih hself
    rw [hlines, List.append_cancel_left_eq] at hhanded
    refine ⟨by simp [hrest, hlines], ?_⟩
    rw [List.map_cons, places, hw]
    exact .cons hhanded hdue

/-- The clock does not run backwards. -/
theorem Emits.sorted (hmax : 0 ≤ maxLines) (h : Emits depth s calls s')
    (hs : s.self = after maxLines windowSeconds start n false) :
    (s.now :: calls.map EmitCall.reading).Pairwise (· ≤ ·) ∧
      ∀ t ∈ s.now :: calls.map EmitCall.reading, t ≤ s'.now := by
  induction h generalizing start n with
  | nil => simp
  | cons hrun _ _ ih =>
    obtain ⟨w, -, ht, hself, -⟩ := hrun.post (emit_spec hmax _ hs)
    obtain ⟨hsorted, hlast⟩ := ih hself
    have hfirst := (List.pairwise_cons.mp hsorted).1
    refine ⟨List.pairwise_cons.mpr ⟨?_, hsorted⟩, ?_⟩
    · rintro u (_ | ⟨_, hu⟩)
      · exact ht
      · exact ht.trans (hfirst u hu)
    · rintro u (_ | ⟨_, hu⟩)
      · exact ht.trans (hlast _ List.mem_cons_self)
      · exact hlast u hu

theorem nested_refl (depth : Nat) (s : FallbackState) : nested depth s s := by
  cases depth with
  | zero => rfl
  | succ depth => exact .refl

/-- A call while the clock stands still. -/
theorem exists_emit (depth : Nat) (text : PyStr) (s : FallbackState) :
    ∃ res t, (emit text).Runs (fallback depth) s res t ∧ t.now = s.now := by
  refine Prog.Runs.exists_look FallbackState.now (fun s o => ?_) _ _
  cases o with
  | get => exact ⟨s.self, s, ⟨rfl, rfl⟩, rfl⟩
  | modify f => exact ⟨(), _, rfl, rfl⟩
  | monotonic => exact ⟨s.now, _, ⟨le_rfl, rfl⟩, rfl⟩
  | write text => exact ⟨.ok (), _, nested_refl depth _, rfl⟩
  | flush => exact ⟨.ok (), _, nested_refl depth _, rfl⟩

/-- Every text can be emitted: no call goes on for ever. -/
theorem exists_emits (depth : Nat) (hmax : 0 ≤ maxLines) (texts : List PyStr)
    (hs : s.self = after maxLines windowSeconds start n false) :
    ∃ calls s', Emits depth s calls s' ∧ calls.map EmitCall.text = texts := by
  induction texts generalizing s start n with
  | nil => exact ⟨[], s, .nil, rfl⟩
  | cons text texts ih =>
    obtain ⟨res, t, hrun, -⟩ := exists_emit depth text s
    obtain ⟨w, -, -, hself, hhanded⟩ := hrun.post (emit_spec hmax text hs)
    obtain ⟨calls, s', hcalls, htexts⟩ := ih hself
    exact ⟨_, s', .cons hrun hhanded hcalls, by rw [List.map_cons, htexts]⟩

/-! ## The budget -/

/-- What the call at a place of its window costs at most, in lines. -/
def lineCost (maxLines : Int) (place : Nat) : Nat := if place ≤ maxLines then 1 else 0

theorem length_due_le (text : PyStr) :
    (StderrFallback.due maxLines windowSeconds n text).length ≤ lineCost maxLines n := by
  unfold StderrFallback.due lineCost
  rcases lt_trichotomy (n : Int) maxLines with h | h | h
  · simp [h, h.le]
  · cases hs : StderrFallback.summary windowSeconds with
    | ok line => simp [h]
    | error e => simp [h]
  · simp [h.not_gt, h.ne', h.not_ge]

/-- A window costs the budget and the summary. -/
theorem sum_lineCost_le (hmax : 0 ≤ maxLines) (k : Nat) :
    ((List.range k).map (lineCost maxLines)).sum ≤ maxLines.toNat + 1 := by
  have hsum : ((List.range k).map (lineCost maxLines)).sum = min k (maxLines.toNat + 1) := by
    induction k with
    | zero => simp
    | succ k ih =>
      rw [List.range_succ, List.map_append, List.sum_append, ih, List.map_singleton,
        List.sum_singleton, lineCost]
      split
      · omega
      · omega
  omega

theorem length_flatten_le {ns : List Nat}
    (h : List.Forall₂ (fun (call : EmitCall) place =>
      call.lines = StderrFallback.due maxLines windowSeconds place call.text) calls ns) :
    ((calls.map EmitCall.lines).flatten).length ≤ (ns.map (lineCost maxLines)).sum := by
  induction h with
  | nil => simp
  | cons hlines _ ih =>
    rw [List.map_cons, List.flatten_cons, List.length_append, List.map_cons, List.sum_cons, hlines]
    exact Nat.add_le_add (length_due_le _) ih

/-! ## The lines -/

theorem not_mem_replaceChar {old new : Nat} (text : PyStr) (h : new ≠ old) :
    old ∉ replaceChar old new text := by
  intro hmem
  obtain ⟨c, -, hc⟩ := List.mem_map.mp hmem
  split at hc
  · exact h hc
  · exact absurd hc ‹_›

theorem not_mem_replaceChar_of_not_mem {old new c : Nat} {text : PyStr} (h : c ∉ text)
    (hnew : c ≠ new) : c ∉ replaceChar old new text := by
  intro hmem
  obtain ⟨d, hd, hc⟩ := List.mem_map.mp hmem
  split at hc
  · exact hnew hc.symm
  · exact h (hc ▸ hd)

theorem intText_ge {i : Int} {c : Nat} (h : c ∈ intText i) : 0x20 ≤ c := by
  have hdigits : ∀ c ∈ natText i.natAbs, 0x20 ≤ c := fun c hc => by
    have := isDigit_iff.mp (isDigit_of_mem_natText hc)
    omega
  unfold intText at h
  split at h
  · rcases List.mem_cons.mp h with rfl | h
    · decide
    · exact hdigits c h
  · exact hdigits c h

/-- The summary line has a text unless the window has too many digits. -/
theorem summary_eq_ok {line : PyStr} :
    StderrFallback.summary windowSeconds = .ok line ↔ overlong (truncate windowSeconds) = false ∧
      line = PREFIX ++ (lit "further fallback messages suppressed for up to " ++
        intText (truncate windowSeconds) ++ lit "s") := by
  unfold StderrFallback.summary intStr
  cases overlong (truncate windowSeconds) with
  | true => exact ⟨nofun, fun h => nomatch h.1⟩
  | false => exact ⟨fun h => by cases h; exact ⟨rfl, rfl⟩, fun h => by rw [h.2]; rfl⟩

theorem truncate_pow (k : Nat) : truncate (10 ^ k) = 10 ^ k := by
  have hcast : (10 : ℚ) ^ k = ((10 ^ k : Int) : ℚ) := by push_cast; rfl
  rw [truncate, if_pos (by positivity), hcast, Int.floor_intCast]

theorem summary_ge {line : PyStr} (h : StderrFallback.summary windowSeconds = .ok line) :
    ∀ c ∈ line, 0x20 ≤ c := by
  obtain ⟨-, rfl⟩ := summary_eq_ok.mp h
  have hprefix : ∀ c ∈ PREFIX, 0x20 ≤ c := by decide +kernel
  have htext : ∀ c ∈ lit "further fallback messages suppressed for up to ", 0x20 ≤ c := by
    decide +kernel
  have hunit : ∀ c ∈ lit "s", 0x20 ≤ c := by decide +kernel
  intro c hc
  simp only [List.mem_append] at hc
  rcases hc with hc | (hc | hc) | hc
  · exact hprefix c hc
  · exact htext c hc
  · exact intText_ge hc
  · exact hunit c hc

/-- A line that is due ends in its only line feed, and has no carriage return. -/
theorem framed_due {text line : PyStr}
    (h : line ∈ StderrFallback.due maxLines windowSeconds n text) :
    ∃ body, line = body ++ [lineFeed] ∧ lineFeed ∉ body ∧ carriageReturn ∉ body := by
  unfold StderrFallback.due at h
  split at h
  · refine ⟨_, List.mem_singleton.mp h, ?_, ?_⟩
    · rw [List.mem_append, not_or]
      exact ⟨by decide +kernel, not_mem_replaceChar _ (by decide)⟩
    · rw [List.mem_append, not_or]
      exact ⟨by decide +kernel,
        not_mem_replaceChar_of_not_mem (not_mem_replaceChar _ (by decide)) (by decide)⟩
  · split at h
    · split at h
      · rename_i hs
        refine ⟨_, List.mem_singleton.mp h, fun hmem => ?_, fun hmem => ?_⟩
        · exact absurd (summary_ge hs _ hmem) (by decide)
        · exact absurd (summary_ge hs _ hmem) (by decide)
      · cases h
    · cases h

/-! ## The theorem -/

theorem map_snd_placed (windowSeconds start : ℚ) (calls : List EmitCall) :
    (placed windowSeconds start calls).map Prod.snd =
      places windowSeconds start 0 (calls.map EmitCall.reading) :=
  List.map_snd_zip (by simp)

theorem init_after (windowSeconds start : ℚ) (hmax : 0 ≤ maxLines) :
    (FallbackState.init maxLines windowSeconds start).self =
      after maxLines windowSeconds start 0 false := by
  simp [FallbackState.init, StderrFallback.init, after, hmax]

/-- A call hands over what is due at its place, from the construction on. -/
theorem Emits.lines_eq {final : FallbackState} (hmax : 0 ≤ maxLines)
    (h : Emits depth (.init maxLines windowSeconds start) calls final) :
    ∀ call place, (call, place) ∈ placed windowSeconds start calls →
      call.lines = StderrFallback.due maxLines windowSeconds place call.text :=
  fun _ _ hmem => (List.forall₂_iff_zip.mp (h.due hmax (init_after _ _ hmax)).2).2 hmem

/-- The volume is bounded, whatever the window. -/
theorem Emits.bounded {final : FallbackState} (hmax : 0 ≤ maxLines) (hwindow : 0 < windowSeconds)
    (h : Emits depth (.init maxLines windowSeconds start) calls final) :
    final.handed.length ≤ (maxLines + 1) * (1 + ⌊(final.now - start) / windowSeconds⌋) := by
  obtain ⟨hhanded, hdue⟩ := h.due hmax (init_after _ _ hmax)
  obtain ⟨hsorted, hlast⟩ := h.sorted hmax (init_after _ _ hmax)
  have hlength : final.handed.length ≤
      ((places windowSeconds start 0 (calls.map EmitCall.reading)).map (lineCost maxLines)).sum := by
    rw [hhanded]
    exact length_flatten_le hdue
  have hsum := sum_places_le (n := 0) hwindow (sum_lineCost_le hmax) hsorted hlast
  have hbudget : ((maxLines.toNat + 1 : Nat) : Int) = maxLines + 1 := by omega
  rw [hbudget] at hsum
  refine le_trans ?_ hsum
  exact Int.ofNat_le.mpr (hlength.trans (Nat.le_add_left _ _))

theorem Emits.framed {final : FallbackState} (hmax : 0 ≤ maxLines)
    (h : Emits depth (.init maxLines windowSeconds start) calls final) :
    ∀ line ∈ final.handed, ∃ body, line = body ++ [lineFeed] ∧ lineFeed ∉ body ∧
      carriageReturn ∉ body := by
  obtain ⟨hhanded, hdue⟩ := h.due hmax (init_after _ _ hmax)
  intro line hline
  rw [hhanded] at hline
  obtain ⟨lines, hlines, hline⟩ := List.mem_flatten.mp hline
  obtain ⟨call, hcall, rfl⟩ := List.mem_map.mp hlines
  have hplace : call ∈ (placed windowSeconds start calls).map Prod.fst := by
    rw [placed, List.map_fst_zip (by simp)]
    exact hcall
  obtain ⟨⟨_, place⟩, hmem, rfl⟩ := List.mem_map.mp hplace
  rw [h.lines_eq hmax _ _ hmem] at hline
  exact framed_due hline

/-- A fallback hands over what it should, in every history, if its window can be written out or
no window needs the summary. -/
theorem Emits.rationed_iff {final : FallbackState} (hmax : 0 ≤ maxLines)
    (hwindow : 0 < windowSeconds)
    (h : Emits depth (.init maxLines windowSeconds start) calls final) :
    Rationed maxLines windowSeconds start calls final ↔
      overlong (truncate windowSeconds) = false ∨
        ∀ place ∈ places windowSeconds start 0 (calls.map EmitCall.reading),
          (place : Int) ≠ maxLines := by
  have hlines := h.lines_eq hmax
  constructor
  · intro hr
    by_contra hcon
    obtain ⟨hlong, hplace⟩ := not_or.mp hcon
    push Not at hplace
    obtain ⟨place, hmem, hplace⟩ := hplace
    rw [← map_snd_placed] at hmem
    obtain ⟨⟨call, k⟩, hcall, rfl⟩ := List.mem_map.mp hmem
    obtain ⟨line, hline, -⟩ := hr.summary call k hcall hplace
    exact hlong (summary_eq_ok.mp hline).1
  · intro hcond
    refine ⟨h.bounded hmax hwindow, ?_, ?_, ?_, h.framed hmax, ?_⟩
    · intro call place hmem hlt
      rw [hlines call place hmem, StderrFallback.due, if_pos hlt]
    · intro call place hmem heq
      have hshort : overlong (truncate windowSeconds) = false := by
        refine hcond.resolve_right fun h => h place ?_ heq
        rw [← map_snd_placed]
        exact List.mem_map_of_mem hmem
      refine ⟨_, summary_eq_ok.mpr ⟨hshort, rfl⟩, ?_⟩
      rw [hlines call place hmem, StderrFallback.due, if_neg (by omega), if_pos heq,
        summary_eq_ok.mpr ⟨hshort, rfl⟩]
    · intro call place hmem hgt
      rw [hlines call place hmem, StderrFallback.due, if_neg hgt.not_gt, if_neg hgt.ne']
    · intro depth s s' text res hs hrun
      rw [(hrun.post (emit_reentrant text hs)).2]

theorem rationed_iff_two_lines : ∃ calls final,
    Emits 1 (.init 1 60 0) calls final ∧ calls.map EmitCall.text = [lit "a\nb", lit "c", lit "d"] ∧
      Rationed 1 60 0 calls final := by
  have hmax : (0 : Int) ≤ 1 := by decide
  obtain ⟨calls, final, h, htexts⟩ :=
    exists_emits 1 hmax [lit "a\nb", lit "c", lit "d"] (init_after 60 0 hmax)
  exact ⟨calls, final, h, htexts,
    (h.rationed_iff hmax (by norm_num)).mpr (.inl (by decide +kernel))⟩

/-- With no budget but for the summary, and a window of too many digits, the first call has no
summary to hand over. -/
theorem not_rationed : ∃ calls final,
    Emits 0 (.init 0 (10 ^ maxStrDigits) 0) calls final ∧ calls.map EmitCall.text = [lit "a"] ∧
      final.handed = [] ∧ ¬Rationed 0 (10 ^ maxStrDigits) 0 calls final := by
  have hmax : (0 : Int) ≤ 0 := Int.le_refl 0
  have hsummary : ∀ line, summary (10 ^ maxStrDigits) ≠ .ok line := by
    intro line hline
    have hshort := (summary_eq_ok.mp hline).1
    rw [truncate_pow, overlong_pow (Nat.le_refl _)] at hshort
    cases hshort
  obtain ⟨calls, final, h, htexts⟩ :=
    exists_emits 0 hmax [lit "a"] (init_after (10 ^ maxStrDigits) 0 hmax)
  obtain ⟨call, rfl⟩ : ∃ call, calls = [call] := by
    rw [← List.length_eq_one_iff, ← List.length_map, htexts]
    rfl
  have hplace : (call, 0) ∈ placed (10 ^ maxStrDigits) 0 [call] := by
    simp only [placed, List.map_singleton, places, enter]
    split
    · exact List.mem_singleton_self _
    · exact List.mem_singleton_self _
  have hlines : call.lines = [] := by
    rw [h.lines_eq hmax call 0 hplace, StderrFallback.due, if_neg (by decide), if_pos (by decide)]
    split
    · exact absurd ‹_› (hsummary _)
    · rfl
  refine ⟨[call], final, h, htexts, ?_, fun hr => ?_⟩
  · rw [(h.due hmax (init_after _ _ hmax)).1, List.map_singleton, hlines]
    rfl
  · obtain ⟨line, hline, -⟩ := hr.summary call 0 hplace rfl
    exact hsummary line hline

end NmLogging
