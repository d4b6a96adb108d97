import NmLogging.AuditRules
import NmLogging.Framework.Trace
import NmLogging.Raising

/-!
# The evidence for a dual failure

When the body of an audited operation raises and its finalisation fails too, `__exit__` raises an
`AuditFinalisationError`. After an earlier failure the body's exception is its context; after the
automatic `indeterminate` it stands behind the exception that this failed with. The evidence for
the error shows it just if whatever the clock and the sink raised in the exit leads to it in the
entries that are left, or is a persistence failure, which is normalised
(`AuditOperation.shows_body_iff`).

What they raise is noted with the heap as it was then (`outsideRaises`). What is seen of the
noted run are the heap and the handles (`ExitView`).
-/

namespace NmLogging

/-! ## What objects outside raise -/

/-- An exception that the clock, the factory of operation ids or the sink raised, with the heap as
it was then. -/
structure OutsideRaise where
  exc : Exc
  heap : Heap

/-- What a call of one of them adds to these. -/
def raisedBy {α : Type} (h : Heap) : Except Exc α → List OutsideRaise
  | .ok _ => []
  | .error e => [⟨e, h⟩]

variable {ω : Type}

/-- What an operation of the facade adds to them. -/
def outsideRaises (s : AuditState ω) : (o : AuditOp) → auditSig.Ret o → List OutsideRaise
  | .now _, r | .newOperationId _, r | .append _ _, r => raisedBy s.memory.1 r
  | .supportsAtomic, _ | .heap _, _ | .handle _, _ => []

/-- What a call outside makes of a heap in which every link leads to an object: another one that
has the objects there were, and the one that it raises. -/
structure Keeps {α : Type} (h : Heap) (r : Except Exc α) (h' : Heap) : Prop where
  closed : h'.Closed
  length_le : h.length ≤ h'.length
  raised : ∀ e, r = .error e → e.ref < h'.length

/-- What holds of a call while an exception is handled, if every link led to an object before. -/
def KeepsIf {α : Type} (handled : Option Exc) (h : Heap) (r : Except Exc α) (h' : Heap) : Prop :=
  h.Closed → (∀ e, handled = some e → e.ref < h.length) → Keeps h r h'

/-- The clock and the sink cannot lose an object that is referred to. -/
structure Externals.Safe (X : Externals ω) : Prop where
  clock : ∀ {handled m r m'}, X.clock handled m r m' → KeepsIf handled m.1 r m'.1
  sink : ∀ {record handled m r m'}, X.sink record handled m r m' → KeepsIf handled m.1 r m'.1

/-- A function that performs no operation handles few exceptions when it raises, and none of them
was raised from another. -/
def Shallow (trace : PureCall → PureTrace) : Prop :=
  ∀ call, (trace call).beneath.length ≤ MAX_CHAIN_DEPTH - 3 ∧
    ∀ o ∈ (trace call).beneath, o.cause = none

/-! ## What is seen of a run -/

/-- The exception objects and the handles, and what objects outside raised. -/
structure ExitView where
  heap : Heap
  cells : Nat → Option OperationCell
  raised : List OutsideRaise

namespace ExitView

variable (v : ExitView)

def setHeap (h : Heap) : ExitView := { v with heap := h }

def setCell (ref : Nat) (cell : OperationCell) : ExitView :=
  { v with cells := Function.update v.cells ref (some cell) }

/-- A call outside. -/
def Outside {α : Type} (v : ExitView) (handled : Option Exc) (r : Except Exc α) (v' : ExitView) :
    Prop :=
  ∃ h, v' = { v with heap := h, raised := v.raised ++ raisedBy h r } ∧ KeepsIf handled v.heap r h

/-- What an operation does. No call of the factory is made. -/
def step (trace : PureCall → PureTrace) (k : Nat) (v : ExitView) :
    (o : AuditOp) → auditSig.Ret o → ExitView → Prop
  | .now handled, r, v' => v.Outside handled r v'
  | .append _ handled, r, v' => v.Outside handled r v'
  | .newOperationId _, _, _ => True
  | .supportsAtomic, _, v' => v' = v
  | .heap o, r, v' => r = (o.apply trace v.heap).1 ∧ v' = v.setHeap (o.apply trace v.heap).2
  | .handle o, r, v' =>
    ∃ cell, o.apply k (v.cells (o.ref k)) = some (r, cell) ∧ v' = v.setCell (o.ref k) cell

end ExitView

def exitSem (trace : PureCall → PureTrace) (k : Nat) : Semantics auditSig ExitView where
  step := ExitView.step trace k

def AuditState.exitView (s : AuditState ω × List OutsideRaise) : ExitView :=
  ⟨s.1.memory.1, s.1.cells, s.2⟩

/-- What a noted run does is seen. -/
theorem exitView_step {X : Externals ω} (hX : X.Safe) {k : Nat}
    {s s' : AuditState ω × List OutsideRaise} {o : AuditOp} {r : auditSig.Ret o}
    (h : ((auditSem X k).noting outsideRaises).step s o r s') :
    (exitSem X.trace k).step (AuditState.exitView s) o r (AuditState.exitView s') := by
  obtain ⟨s, raised⟩ := s
  obtain ⟨s', raised'⟩ := s'
  have hraised : raised' = raised ++ outsideRaises s' o r := h.2
  subst hraised
  have hs := h.1
  cases o with
  | now handled =>
    obtain ⟨m, hclock, rfl⟩ := hs
    exact ⟨m.1, rfl, hX.clock hclock⟩
  | newOperationId handled => trivial
  | append record handled =>
    obtain ⟨m, hsink, rfl⟩ := hs
    exact ⟨m.1, rfl, hX.sink hsink⟩
  | supportsAtomic =>
    obtain ⟨-, rfl⟩ := hs
    simp [AuditState.exitView, outsideRaises, exitSem, ExitView.step]
  | heap o =>
    obtain ⟨hr, rfl⟩ := hs
    exact ⟨hr, by simp [AuditState.exitView, outsideRaises, ExitView.setHeap]⟩
  | handle o =>
    obtain ⟨cell, happly, rfl⟩ := hs
    exact ⟨cell, happly, by simp [AuditState.exitView, outsideRaises, ExitView.setCell]⟩

theorem exact_exitSem {trace : PureCall → PureTrace} {k : Nat} :
    Exact (exitSem trace k) trace ExitView.heap ExitView.setHeap where
  pre _ _ := trivial
  step h := h

/-! ## Up to the append -/

section

variable {trace : PureCall → PureTrace} {k : Nat} {body O : Exc} {v : ExitView} {α β : Type}

/-- Nothing was raised outside, and the body's exception is an object. -/
structure Ready (body : Exc) (v : ExitView) : Prop where
  closed : v.heap.Closed
  object : body.ref < v.heap.length
  raised : v.raised = []

/-- The first `n` exceptions from `e` on show the body's just if what was raised outside is good. -/
structure ShownIf (good : OutsideRaise → Prop) (body e : Exc) (n : Nat) (v : ExitView) : Prop where
  closed : v.heap.Closed
  object : e.ref < v.heap.length
  shown : body.ref ∈ v.heap.shown e n ↔ ∀ r ∈ v.raised, good r

/-- A frame changes no link. -/
theorem Heap.closed_addFrame {h : Heap} {e : Exc} {loc : CodeLocation} (hc : h.Closed) :
    (h.addFrame e loc).Closed := by
  rw [Heap.closed_iff, Heap.links_addFrame, Heap.length_addFrame]
  exact Heap.closed_iff.mp hc

theorem Heap.shown_addFrame (h : Heap) (e f : Exc) (loc : CodeLocation) (n : Nat) :
    (h.addFrame e loc).shown f n = h.shown f n := by
  rw [Heap.shown, Heap.shown, Heap.links_addFrame]

theorem ShownIf.addFrame {good : OutsideRaise → Prop} {e : Exc} {n : Nat}
    (hs : ShownIf good body e n v) (f : Exc) (loc : CodeLocation) :
    ShownIf good body e n (v.setHeap (v.heap.addFrame f loc)) where
  closed := Heap.closed_addFrame hs.closed
  object := (Heap.length_addFrame ..).symm ▸ hs.object
  shown := by
    show body.ref ∈ (v.heap.addFrame f loc).shown e n ↔ _
    rw [Heap.shown_addFrame]
    exact hs.shown

/-- An exception on its way through the facade: if anything was raised outside it is that, and it
shows the body's exception if it did when it was raised. -/
structure Passing (body O : Exc) (v : ExitView) : Prop extends
    ShownIf (fun r => body.ref ∈ r.heap.shown r.exc (MAX_CHAIN_DEPTH - 1)) body O
      (MAX_CHAIN_DEPTH - 1) v where
  body : body.ref < v.heap.length
  raised : ∀ r ∈ v.raised, r.exc = O

theorem Passing.addFrame (hp : Passing body O v) (e : Exc) (loc : CodeLocation) :
    Passing body O (v.setHeap (v.heap.addFrame e loc)) where
  toShownIf := hp.toShownIf.addFrame e loc
  body := (Heap.length_addFrame ..).symm ▸ hp.body
  raised := hp.raised

/-- A program that leaves handles alone, and whose exceptions are passing. -/
def Relays (trace : PureCall → PureTrace) (k : Nat) (body : Exc) (p : AuditProg α) : Prop :=
  ∀ v, Ready body v → p.wp (exitSem trace k) v fun res v' => v'.cells = v.cells ∧
    match res with
    | .ok _ => Ready body v'
    | .error O => Passing body O v'

namespace Relays

variable {p : AuditProg α} {f : α → AuditProg β}

theorem bind (hp : Relays trace k body p) (hf : ∀ a, Relays trace k body (f a)) :
    Relays trace k body (p >>= f) := by
  intro v hv
  rw [Prog.wp_bind]
  refine Prog.wp_mono (hp v hv) fun res v' h => ?_
  cases res with
  | ok a => exact h.1 ▸ hf a v' h.2
  | error e => exact h

theorem inFrame (hp : Relays trace k body p) (loc : CodeLocation) :
    Relays trace k body (NmLogging.inFrame loc p) := by
  intro v hv
  refine exact_exitSem.inFrame (Prog.wp_mono (hp v hv) fun res v' h => ?_)
  cases res with
  | ok a => exact h
  | error e => exact ⟨h.1, h.2.addFrame e loc⟩

/-- What a function without operations raises is linked to the body's exception through what it
handles. -/
theorem pureCall (hsh : Shallow trace) {call : PureCall} {res : Except PyError α} :
    Relays trace k body (NmLogging.pureCall call (some body) res) := by
  intro v hv
  cases res with
  | ok a => exact ⟨rfl, hv⟩
  | error e =>
    show (AuditProg.heap _ >>= _).wp _ v _
    rw [Prog.wp_bind]
    refine exact_exitSem.heap ⟨rfl, ?_⟩
    obtain ⟨hlen, hcause⟩ := hsh call
    obtain ⟨g, h', heq, hc, hle, hg, hshown⟩ := Heap.allocChain_spec hcause hv.closed hv.object
      (Heap.self_mem_shown (h := v.heap) (e := body) Nat.one_pos)
    simp only [HeapOp.apply, heq]
    obtain ⟨hc₂, hle₂, hx, hshown₂⟩ := Heap.alloc_spec (o := { ExcObj.ofError e with
      context := some g
      suppressContext := (trace call).suppress
      traceback := (trace call).frames }) rfl rfl hc hg hshown
    have hnear : 1 + (trace call).beneath.length + 1 ≤ MAX_CHAIN_DEPTH - 1 := by
      have hdepth : MAX_CHAIN_DEPTH = 10 := rfl
      omega
    refine ⟨⟨hc₂, hx, iff_of_true (Heap.shown_subset hnear hshown₂) ?_⟩,
      hv.object.trans_le (hle.trans hle₂), ?_⟩
    · simp [ExitView.setHeap, hv.raised]
    · simp [ExitView.setHeap, hv.raised]

theorem outside {r : Except Exc α} {v' : ExitView} (hv : Ready body v)
    (h : v.Outside (some body) r v') :
    v'.cells = v.cells ∧
      match r with
      | .ok _ => Ready body v'
      | .error O => Passing body O v' := by
  obtain ⟨h', rfl, hkeeps⟩ := h
  have hk := hkeeps hv.closed (by rintro _ ⟨⟩; exact hv.object)
  refine ⟨rfl, ?_⟩
  cases r with
  | ok a => exact ⟨hk.closed, hv.object.trans_le hk.length_le, by simp [hv.raised, raisedBy]⟩
  | error e =>
    have hraised : v.raised ++ raisedBy h' (.error e : Except Exc α) = [⟨e, h'⟩] := by
      rw [hv.raised]
      rfl
    refine ⟨⟨hk.closed, hk.raised e rfl, ?_⟩, hv.object.trans_le hk.length_le, ?_⟩
    · simp [hraised]
    · simp [hraised]

theorem clockNow : Relays trace k body (NmLogging.clockNow (some body)) := by
  refine fun v hv => ⟨trivial, fun r v' hs => ?_⟩
  have h := outside hv hs
  cases (r : Except Exc Datetime) with
  | ok a => exact h
  | error e => exact h

theorem sinkAppend {record : AuditRecord} :
    Relays trace k body (NmLogging.sinkAppend record (some body)) := by
  refine fun v hv => ⟨trivial, fun r v' hs => ?_⟩
  have h := outside hv hs
  cases (r : Except Exc Unit) with
  | ok a => exact h
  | error e => exact h

variable [PyRuntime] {log : AuditLog} {op : AuditOperation} {outcome : Outcome}
  {fields : Dict PyAtom PyObj}

theorem appendOutcome (hsh : Shallow trace) :
    Relays trace k body (log.appendOutcome op outcome fields (some body)) := by
  rw [AuditLog.appendOutcome]
  refine ((pureCall hsh).inFrame _).bind fun d => ?_
  refine ((pureCall hsh).inFrame _).bind fun message => ?_
  refine bind (inFrame ?_ _) fun record => sinkAppend.inFrame _
  exact (clockNow.inFrame _).bind fun t => (pureCall hsh).inFrame _

end Relays

/-! ## Handles -/

theorem ExitView.setCell_self {ref : Nat} {cell : OperationCell} (h : v.cells ref = some cell) :
    v.setCell ref cell = v := by
  rw [ExitView.setCell, ← h, Function.update_eq_self]

/-- A handle that is there. -/
theorem wp_handle_cell {o : HandleOp} {r : o.Ret} {cell cell' : OperationCell}
    {Q : Except Exc o.Ret → ExitView → Prop} (hcell : v.cells (o.ref k) = some cell)
    (happly : o.apply k (some cell) = some (r, cell'))
    (h : Q (.ok r) (v.setCell (o.ref k) cell')) :
    (AuditProg.handle o).wp (exitSem trace k) v Q := by
  refine ⟨trivial, ?_⟩
  rintro r' v' ⟨cell'', happly', rfl⟩
  rw [hcell, happly] at happly'
  cases happly'
  exact h

theorem wp_getState_cell {ref : Nat} {cell : OperationCell}
    {Q : Except Exc OperationState → ExitView → Prop} (hcell : v.cells ref = some cell)
    (h : Q (.ok cell.state) v) : (AuditProg.handle (.getState ref)).wp (exitSem trace k) v Q :=
  wp_handle_cell (o := .getState ref) hcell rfl (by rwa [HandleOp.ref, ExitView.setCell_self hcell])

theorem wp_getFailure_cell {ref : Nat} {cell : OperationCell}
    {Q : Except Exc (Option Exc) → ExitView → Prop} (hcell : v.cells ref = some cell)
    (h : Q (.ok cell.failure) v) : (AuditProg.handle (.getFailure ref)).wp (exitSem trace k) v Q :=
  wp_handle_cell (o := .getFailure ref) hcell rfl
    (by rwa [HandleOp.ref, ExitView.setCell_self hcell])

/-! ## Finalisation -/

/-- What the evidence for the failure needs: an exception that is not normalised shows the body's
within what the walk has left for it. -/
def OutsideRaise.LeadsTo (r : OutsideRaise) (body : Exc) : Prop :=
  r.exc.isA .auditPersistenceError = true ∨ body.ref ∈ r.heap.shown r.exc (MAX_CHAIN_DEPTH - 1)

/-- The exception that leaves a failed finalisation, which the handle stores. -/
structure Failed (body F : Exc) (ref : Nat) (v : ExitView) : Prop extends
    ShownIf (·.LeadsTo body) body F (MAX_CHAIN_DEPTH - 1) v where
  body : body.ref < v.heap.length
  stored : ∃ cell, v.cells ref = some cell ∧ cell.failure = some F

theorem Failed.addFrame {F : Exc} {ref : Nat} (hf : Failed body F ref v) (e : Exc)
    (loc : CodeLocation) : Failed body F ref (v.setHeap (v.heap.addFrame e loc)) where
  toShownIf := hf.toShownIf.addFrame e loc
  body := (Heap.length_addFrame ..).symm ▸ hf.body
  stored := hf.stored

/-- A persistence failure is normalised: the fresh error is raised while the body's exception is
handled, which is its context. -/
theorem Passing.failed {ref : Nat} {o : ExcObj} {cells : Nat → Option OperationCell} {N : Exc}
    {loc : CodeLocation} (hp : Passing body O v) (hpers : O.isA .auditPersistenceError = true)
    (ho : o.cause = none) (hN : (v.heap.alloc o).1 = N)
    (hstored : ∃ cell, cells ref = some cell ∧ cell.failure = some N) :
    Failed body N ref ⟨(v.heap.alloc o).2.raise N .fromNone (some body) loc, cells, v.raised⟩ := by
  have hadds := Heap.adds_raise (o := o) hp.closed ho hp.body .fromNone loc
  rw [hN] at hadds
  have href : N.ref = v.heap.length := hN ▸ rfl
  have htwo : 2 ≤ MAX_CHAIN_DEPTH - 1 := by decide
  refine ⟨⟨hadds.closed hp.closed ?_, ?_, iff_of_true ?_ ?_⟩, ?_, hstored⟩
  · simpa [RaiseFrom.links] using hp.body
  · exact href ▸ hadds.length ▸ Nat.lt_succ_self _
  · exact Heap.shown_subset htwo (hadds.mem_shown_new (by simp [RaiseFrom.links]) href)
  · exact fun r hr => .inl ((hp.raised r hr).symm ▸ hpers)
  · exact hadds.length ▸ Nat.lt_succ_of_lt hp.body

variable [PyRuntime] {log : AuditLog} {op : AuditOperation} {outcome : Outcome}
  {fields : Dict PyAtom PyObj}

/-- A finalisation that fails while the body's exception is handled. -/
theorem wp_finalise_body (hsh : Shallow trace) (hv : Ready body v) {cell : OperationCell}
    (hcell : v.cells op.ref = some cell) (hopen : cell.state = .OPEN) :
    (op.finalise log outcome fields (some body)).wp (exitSem trace k) v fun res v' =>
      ∀ F, res = .error F → Failed body F op.ref v' := by
  rw [AuditOperation.finalise, Prog.wp_bind]
  refine wp_getState_cell hcell ?_
  show Prog.wp _ (if _ then _ else _) _ _
  rw [if_neg (not_not_intro hopen), Prog.wp_elim]
  refine Prog.wp_mono ((Relays.appendOutcome hsh).inFrame _ v hv) fun res v₁ h => ?_
  obtain ⟨hcells, h⟩ := h
  cases res with
  | ok a =>
    refine wp_handle_cell (o := .setState op.ref .FINALISED) (hcells ▸ hcell) rfl ?_
    rintro _ ⟨⟩
  | error O =>
    show Prog.wp _ (_ >>= _) _ _
    rw [Prog.wp_bind]
    refine wp_handle_cell (o := .setState op.ref .FINALISATION_FAILED) (hcells ▸ hcell) rfl ?_
    show Prog.wp _ (_ >>= _) _ _
    rw [Prog.wp_bind]
    refine wp_handle_cell (o := .setFailure op.ref O) (Function.update_self ..) rfl ?_
    show Prog.wp _ (if O.isA .auditPersistenceError then _ else _) _ _
    split
    · rename_i hpers
      rw [Prog.wp_bind]
      refine exact_exitSem.heap ?_
      show Prog.wp _ (_ >>= _) _ _
      rw [Prog.wp_bind]
      refine wp_handle_cell (o := .setFailure op.ref _) (Function.update_self ..) rfl ?_
      refine exact_exitSem.raiseExc ?_
      rintro _ ⟨⟩
      exact Passing.failed (v := v₁) h hpers rfl rfl ⟨_, Function.update_self .., rfl⟩
    · rename_i hnot
      rintro _ ⟨⟩
      have hshown : body.ref ∈ v₁.heap.shown O (MAX_CHAIN_DEPTH - 1) ↔
          ∀ r ∈ v₁.raised, r.LeadsTo body := by
        rw [h.shown]
        refine forall₂_congr fun r hr => (or_iff_right ?_).symm
        rwa [h.raised r hr]
      exact ⟨⟨h.closed, h.object, hshown⟩, h.body, ⟨_, Function.update_self .., rfl⟩⟩

/-! ## The error -/

omit [PyRuntime] in
/-- The error for a failure is a new exception, whose cause is the failure if that is normalised,
and whose context is the exception that is handled. -/
theorem wp_raiseFinalisationError_links {f : Exc} {cell : OperationCell} (hc : v.heap.Closed)
    (hf : f.ref < v.heap.length) (hcell : v.cells op.ref = some cell) :
    (op.raiseFinalisationError body (some f) : AuditProg α).wp (exitSem trace k) v fun res v' =>
      ∃ (x : Exc) (cause : RaiseFrom), res = .error x ∧ x.ref = v.heap.length ∧
        v'.raised = v.raised ∧ (∀ l ∈ cause.links, ∃ N, cell.failure = some N ∧ l.1 = N.ref) ∧
        cause.links.length ≤ 1 ∧
        v.heap.Adds v'.heap (cause.links ++ [(f.ref, lit "context")]) := by
  rw [AuditOperation.raiseFinalisationError, Prog.wp_bind]
  refine wp_getFailure_cell hcell ?_
  show Prog.wp _ (_ >>= _) _ _
  rw [Prog.wp_bind]
  refine exact_exitSem.heap ?_
  cases hfailure : cell.failure with
  | none =>
    exact exact_exitSem.raiseExc ⟨_, .fromNone, rfl, rfl, rfl, nofun, by decide,
      Heap.adds_raise hc rfl hf _ _⟩
  | some N =>
    show Prog.wp _ (if N.isA .auditPersistenceError then _ else _) _ _
    split
    · exact exact_exitSem.raiseExc ⟨_, .fromExc N, rfl, rfl, rfl,
        by simp [RaiseFrom.links], Nat.le_refl _, Heap.adds_raise hc rfl hf _ _⟩
    · exact exact_exitSem.raiseExc ⟨_, .fromNone, rfl, rfl, rfl, nofun, by decide,
        Heap.adds_raise hc rfl hf _ _⟩

/-- An error whose evidence shows the body's exception just if what was raised outside leads to
it. -/
abbrev Reported (body x : Exc) (v : ExitView) : Prop :=
  ShownIf (·.LeadsTo body) body x MAX_CHAIN_DEPTH v

omit [PyRuntime] in
/-- After an earlier failure, the body's exception is linked to by the error itself. -/
theorem wp_raiseFinalisationError_body {cell : OperationCell} (hv : Ready body v)
    (hcell : v.cells op.ref = some cell)
    (hstored : ∀ N, cell.failure = some N → N.ref < v.heap.length) :
    (op.raiseFinalisationError body (some body) : AuditProg α).wp (exitSem trace k) v fun res v' =>
      ∃ x, res = .error x ∧ Reported body x v' := by
  refine Prog.wp_mono (wp_raiseFinalisationError_links hv.closed hv.object hcell) fun res v' h => ?_
  obtain ⟨x, cause, rfl, href, hraised, hcause, hone, hadds⟩ := h
  refine ⟨x, rfl, hadds.closed hv.closed fun l hl => ?_, ?_, iff_of_true ?_ ?_⟩
  · rcases List.mem_append.mp hl with hl | hl
    · obtain ⟨N, hN, hl⟩ := hcause l hl
      exact hl ▸ hstored N hN
    · rw [List.mem_singleton.mp hl]
      exact hv.object
  · rw [href, hadds.length]
    exact Nat.lt_succ_self _
  · have hthree : (cause.links ++ [(body.ref, lit "context")]).length + 1 ≤ MAX_CHAIN_DEPTH := by
      have hdepth : MAX_CHAIN_DEPTH = 10 := rfl
      rw [List.length_append, List.length_singleton]
      omega
    exact Heap.shown_subset hthree (hadds.mem_shown_new (by simp) href)
  · rw [hraised, hv.raised]
    exact nofun

omit [PyRuntime] in
/-- After the automatic `indeterminate`, the error links to the failure only. -/
theorem wp_raiseFinalisationError_failed {F : Exc} (hF : Failed body F op.ref v) :
    (op.raiseFinalisationError body (some F) : AuditProg α).wp (exitSem trace k) v fun res v' =>
      ∃ x, res = .error x ∧ Reported body x v' := by
  obtain ⟨cell, hcell, hfailure⟩ := hF.stored
  refine Prog.wp_mono (wp_raiseFinalisationError_links hF.closed hF.object hcell) fun res v' h => ?_
  obtain ⟨x, cause, rfl, href, hraised, hcause, -, hadds⟩ := h
  have hlinks : ∀ l ∈ cause.links ++ [(F.ref, lit "context")], l.1 = F.ref := by
    intro l hl
    rcases List.mem_append.mp hl with hl | hl
    · obtain ⟨N, hN, hl⟩ := hcause l hl
      rw [hfailure] at hN
      cases hN
      exact hl
    · rw [List.mem_singleton.mp hl]
  refine ⟨x, rfl, hadds.closed hF.closed fun l hl => hlinks l hl ▸ hF.object, ?_, ?_⟩
  · rw [href, hadds.length]
    exact Nat.lt_succ_self _
  · have hne : body.ref ≠ x.ref := by
      rw [href]
      exact hF.body.ne
    have hshown := hadds.shown_new hF.closed hF.object (by simp) hlinks href (MAX_CHAIN_DEPTH - 1)
    have hdepth : MAX_CHAIN_DEPTH = MAX_CHAIN_DEPTH - 1 + 1 := rfl
    rw [hdepth, hshown, List.mem_cons, or_iff_right hne, hraised]
    exact hF.shown

/-- `__exit__` for a body that raised. -/
theorem wp_exit_body (hsh : Shallow trace) (hv : Ready body v)
    (hstored : ∀ cell N, v.cells op.ref = some cell → cell.failure = some N →
      N.ref < v.heap.length) :
    (op.exit log (some body) (some body)).wp (exitSem trace k) v fun res v' =>
      ∀ x, res = .error x → x.cls = AuditFinalisationError → Reported body x v' := by
  rw [AuditOperation.exit, Prog.wp_bind]
  cases hcell : v.cells op.ref with
  | none =>
    refine ⟨trivial, ?_⟩
    rintro state v' ⟨cell, happly, rfl⟩
    rw [HandleOp.ref, hcell] at happly
    cases happly
  | some cell =>
    refine wp_getState_cell hcell ?_
    cases hstate : cell.state with
    | FINALISED =>
      rintro _ ⟨⟩
    | FINALISATION_FAILED =>
      show Prog.wp _ (_ >>= _) _ _
      rw [Prog.wp_bind]
      refine wp_getFailure_cell hcell ?_
      show Prog.wp _ (if _ then _ else _) _ _
      split
      · rintro _ ⟨⟩
      · refine exact_exitSem.inFrame (Prog.wp_mono
          (wp_raiseFinalisationError_body hv hcell fun N => hstored cell N hcell)
          fun res v₁ h => ?_)
        obtain ⟨x, rfl, hx⟩ := h
        rintro _ ⟨⟩ -
        exact hx.addFrame _ _
    | OPEN =>
      show Prog.wp _ (Prog.elim _ _ _) _ _
      rw [Prog.wp_elim]
      refine exact_exitSem.inFrame (exact_exitSem.inFrame
        (Prog.wp_mono (wp_finalise_body hsh hv hcell hstate) fun res v₁ h => ?_))
      cases res with
      | ok _ =>
        rintro _ ⟨⟩
      | error F =>
        have hF := ((h F rfl).addFrame F (auditFrame "indeterminate" 305)).addFrame F
          (auditFrame "__exit__" 383)
        show Prog.wp _ (if F.isA .exception then _ else _) _ _
        split
        · refine exact_exitSem.inFrame (Prog.wp_mono (wp_raiseFinalisationError_failed hF)
            fun res v₂ h => ?_)
          obtain ⟨x, rfl, hx⟩ := h
          rintro _ ⟨⟩ -
          exact hx.addFrame _ _
        · rename_i hnot
          rintro _ ⟨⟩ hcls
          refine absurd ?_ hnot
          rw [Exc.isA, hcls]
          decide

end

/-! ## Runs -/

variable [PyRuntime] {X : Externals ω} {log : AuditLog} {op : AuditOperation} {k : Nat}
  {s s' : AuditState ω} {body x : Exc}

/-- The body's exception and the failure that the handle stores, if it does, are objects. -/
structure AuditState.Referring (s : AuditState ω) (ref : Nat) (body : Exc) : Prop where
  closed : s.memory.1.Closed
  body : body.ref < s.memory.1.length
  stored : ∀ cell N, s.cells ref = some cell → cell.failure = some N → N.ref < s.memory.1.length

/-- What the error that leaves a noted exit shows. -/
theorem reported_of_runs (hX : X.Safe) (hsh : Shallow X.trace) (hs : s.Referring op.ref body)
    {raised : List OutsideRaise}
    (h : (op.exit log (some body) (some body)).Runs ((auditSem X k).noting outsideRaises) (s, [])
      (.error x) (s', raised)) (hx : x.cls = AuditFinalisationError) :
    Reported body x (AuditState.exitView (s', raised)) :=
  h.post_of_view (f := AuditState.exitView) (fun _ hstep => exitView_step hX hstep)
    (wp_exit_body hsh ⟨hs.closed, hs.body, rfl⟩ hs.stored) x rfl hx

/-- **A dual failure's evidence shows the body's exception** just if whatever the clock and the
sink raised leads to it, or is normalised. -/
theorem AuditOperation.shows_body_iff (hX : X.Safe) (hsh : Shallow X.trace)
    (hs : s.Referring op.ref body) {raised : List OutsideRaise}
    (h : (op.exit log (some body) (some body)).Runs ((auditSem X k).noting outsideRaises) (s, [])
      (.error x) (s', raised)) (hx : x.cls = AuditFinalisationError) :
    s'.memory.1.Shows x body ↔ ∀ r ∈ raised, r.LeadsTo body := by
  have hr := reported_of_runs hX hsh hs h hx
  exact (Heap.shows_iff hr.closed hr.object).trans hr.shown

/-- So it does in every run where objects outside raise nothing else. -/
theorem AuditOperation.shows_body_of_leadsTo (hX : X.Safe) (hsh : Shallow X.trace)
    (hs : s.Referring op.ref body)
    (hleads : ∀ {t o r t'}, auditStep X k t o r t' → ∀ raise ∈ outsideRaises t' o r,
      raise.LeadsTo body)
    (h : (op.exit log (some body) (some body)).Runs (auditSem X k) s (.error x) s')
    (hx : x.cls = AuditFinalisationError) : s'.memory.1.Shows x body := by
  obtain ⟨raised, hnoted⟩ := h.noted []
  have hr := reported_of_runs hX hsh hs hnoted hx
  exact (Heap.shows_iff hr.closed hr.object).mpr
    (hr.shown.mpr (hnoted.forall_notes hleads nofun))

/-! ## A sink that tries again -/

omit [PyRuntime]

/-- A sink that gives up after `n` attempts, each made while the failure of the one before was
handled. -/
def retrying (n : Nat) : ScriptedExternals Unit where
  clock _ m := (.ok firstHour, m)
  factory _ m := (.ok (.str (lit "id")), m)
  sink _ handled m :=
    match m.1.allocChain handled (List.replicate n (.ofError ⟨ValueError, lit "again"⟩)) with
    | (some e, h) => (.error e, h, m.2)
    | (none, h) => (.ok (), h, m.2)

theorem safe_retrying (n : Nat) : (retrying n).externals.Safe where
  clock := by
    rintro handled m r m' ⟨⟩ hc -
    exact ⟨hc, Nat.le_refl _, by rintro _ ⟨⟩⟩
  sink := by
    rintro record handled m r m' hsink hc hhandled
    have hcause : ∀ o ∈ List.replicate n (ExcObj.ofError ⟨ValueError, lit "again"⟩),
        o.cause = none :=
      fun o ho => by rw [List.eq_of_mem_replicate ho]; rfl
    have h := Heap.allocChain_closed hcause hc hhandled
    simp only [ScriptedExternals.externals, retrying] at hsink
    generalize m.1.allocChain handled (List.replicate n (.ofError ⟨ValueError, lit "again"⟩)) = c
      at h hsink
    obtain ⟨_ | e, h'⟩ := c
    · cases hsink
      exact ⟨h.1, h.2.1, by rintro _ ⟨⟩⟩
    · cases hsink
      exact ⟨h.1, h.2.1, by rintro _ ⟨⟩; exact h.2.2 e rfl⟩

theorem shallow_retrying (n : Nat) : Shallow (retrying n).externals.trace :=
  fun _ => ⟨Nat.zero_le _, fun _ ho => absurd ho List.not_mem_nil⟩

/-- The exception of a body. -/
def bodyError : Exc := ⟨0, KeyError⟩

/-- A handle on an intent. -/
def openOperation : AuditOperation where
  ref := 0
  event := .str (lit "user.created")
  schema := userCreated
  actor := .str (lit "alice")
  operationId := .str (lit "id")

/-- Its operation is open when the body raises. -/
def bodyState : AuditState Unit where
  memory := ([.ofError ⟨KeyError, lit "body"⟩], ())
  cells := Function.update (fun _ => none) 0 (some { op := openOperation })

theorem referring_bodyState : bodyState.Referring openOperation.ref bodyError where
  closed := by
    intro i o ho
    obtain rfl := List.mem_singleton.mp (List.mem_of_getElem? ho)
    exact ⟨nofun, nofun⟩
  body := Nat.one_pos
  stored := by
    rintro cell N hcell hN
    have hcell : some { op := openOperation } = some cell := hcell
    cases hcell
    cases hN

/-- What the exit from its block raises with a sink that gives up after `n` attempts, the state
that it leaves, and what was raised outside of it. -/
def retriedExit (n : Nat) : Option (Exc × AuditState Unit × List OutsideRaise) :=
  ((@AuditOperation.exit PyRuntime.plain userLog openOperation (some bodyError)
    (some bodyError)).run? (noteAnswer outsideRaises ((retrying n).answer 0)) (bodyState, [])).bind
      fun
      | (.error x, s, raised) => some (x, s, raised)
      | (.ok _, _) => none

theorem runs_of_retriedExit {n : Nat} {x : Exc} {s' : AuditState Unit} {raised : List OutsideRaise}
    (h : retriedExit n = some (x, s', raised)) :
    (@AuditOperation.exit PyRuntime.plain userLog openOperation (some bodyError)
      (some bodyError)).Runs ((auditSem (retrying n).externals 0).noting outsideRaises)
        (bodyState, []) (.error x) (s', raised) := by
  obtain ⟨⟨r, s, notes⟩, hrun, hraised⟩ := Option.bind_eq_some_iff.mp h
  cases r with
  | ok _ => cases hraised
  | error e =>
    cases hraised
    exact Prog.runs_run? (step_of_noteAnswer ScriptedExternals.step_of_answer) hrun

theorem AuditOperation.shows_body_iff_retrying : ∃ (x : Exc) (s' : AuditState Unit)
    (raised : List OutsideRaise),
    (@AuditOperation.exit PyRuntime.plain userLog openOperation (some bodyError)
      (some bodyError)).Runs ((auditSem (retrying 3).externals 0).noting outsideRaises)
        (bodyState, []) (.error x) (s', raised) ∧
    x.cls = AuditFinalisationError ∧ s'.memory.1.Shows x bodyError := by
  have hexit : (retriedExit 3).any (fun q => q.1.cls = AuditFinalisationError ∧
      ∀ r ∈ q.2.2, bodyError.ref ∈ r.heap.shown r.exc (MAX_CHAIN_DEPTH - 1)) = true := by
    decide +kernel
  obtain ⟨⟨x, s', raised⟩, hq, hcheck⟩ := (Option.any_eq_true _ _).mp hexit
  obtain ⟨hx, hleads⟩ := of_decide_eq_true hcheck
  have hrun := runs_of_retriedExit hq
  refine ⟨x, s', raised, hrun, hx, ?_⟩
  exact (@AuditOperation.shows_body_iff Unit PyRuntime.plain (retrying 3).externals userLog
    openOperation 0 bodyState s' bodyError x (safe_retrying 3) (shallow_retrying 3)
    referring_bodyState raised hrun hx).mpr fun r hr => .inr (hleads r hr)

/-- After nine attempts the evidence has no place left for the body's exception. -/
theorem AuditOperation.not_shows_body : ∃ (x : Exc) (s' : AuditState Unit)
    (raised : List OutsideRaise),
    (@AuditOperation.exit PyRuntime.plain userLog openOperation (some bodyError)
      (some bodyError)).Runs ((auditSem (retrying 9).externals 0).noting outsideRaises)
        (bodyState, []) (.error x) (s', raised) ∧
    x.cls = AuditFinalisationError ∧ ¬s'.memory.1.Shows x bodyError ∧
    ∀ entry ∈ (buildEvidence s'.memory.1 x).chain, entry.exceptionType ≠ bodyError.cls.qualname := by
  have hexit : (retriedExit 9).any (fun q => q.1.cls = AuditFinalisationError ∧
      bodyError.ref ∉ q.2.1.memory.1.shown q.1 MAX_CHAIN_DEPTH ∧
      ∀ node ∈ BreadthFirst.order q.2.1.memory.1.links q.1.ref MAX_CHAIN_DEPTH,
        ∀ entry ∈ q.2.1.memory.1.entryAt node, entry.exceptionType ≠ bodyError.cls.qualname) =
      true := by
    decide +kernel
  obtain ⟨⟨x, s', raised⟩, hq, hcheck⟩ := (Option.any_eq_true _ _).mp hexit
  obtain ⟨hx, hshown, htypes⟩ := of_decide_eq_true hcheck
  have hrun := runs_of_retriedExit hq
  have hr := @reported_of_runs Unit PyRuntime.plain (retrying 9).externals userLog openOperation 0
    bodyState s' bodyError x (safe_retrying 9) (shallow_retrying 9) referring_bodyState raised
    hrun hx
  have hobject : x.ref < s'.memory.1.length := hr.object
  have hchain := (evidenceLoop_walked hr.closed _ _ _ (Walked.start x hobject)).1
  refine ⟨x, s', raised, hrun, hx, fun h => hshown ((Heap.shows_iff hr.closed hobject).mp h), ?_⟩
  intro entry hentry
  have hmem : some entry ∈ (evidenceLoop s'.memory.1 [(x, none)] [] []).chain.map some :=
    List.mem_map_of_mem hentry
  have hmem : some entry ∈ (BreadthFirst.order s'.memory.1.links x.ref MAX_CHAIN_DEPTH).map
      s'.memory.1.entryAt := hchain ▸ hmem
  obtain ⟨node, hnode, heq⟩ := List.mem_map.mp hmem
  exact htypes node hnode entry heq

end NmLogging
