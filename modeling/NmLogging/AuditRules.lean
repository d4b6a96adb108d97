import NmLogging.AuditRun

/-!
# Rules for the facade's programs

Most properties of the facade do not depend on what exception objects are linked to. A
semantics is `Quiet` when operations on exception objects and calls of the clock do not
change its states; then a raised exception is known by its class alone, and each function of
the facade that does no more than that has a rule for its weakest precondition.

Where it matters what they are linked to, a semantics is `Exact`: its states have a heap, with
which the operations do what they do.

A run of the facade is also a run in any semantics that sees less of the state
(`Prog.Runs.post_of_view`).
-/

namespace NmLogging

/-- What a run ends with, proved where only `f` of the state is seen. -/
theorem Prog.Runs.post_of_view {S : Sig} {ε α σ V : Type} {M : Semantics S σ} {L : Semantics S V}
    {f : σ → V} (hf : ∀ {s s' : σ} {o : S.Op} {r : S.Ret o}, L.pre (f s) o → M.step s o r s' →
      L.step (f s) o r (f s')) {p : Prog S ε α} {s s' : σ} {res : Except ε α}
    {Q : Except ε α → V → Prop} (hr : p.Runs M s res s') (h : p.wp L (f s) Q) : Q res (f s') := by
  induction hr with
  | ret => exact h
  | throw => exact h
  | op hs _ ih => exact ih (h.2 _ _ (hf h.1 hs))

/-- What is known of the answer of an operation on exception objects. -/
def HeapOp.Answers : (o : HeapOp) → o.Ret → Prop
  | .alloc o, r => r.cls = o.cls
  | .pureError _ e _, r => r.cls = e.cls
  | .raise _ _ _ _, _ => True
  | .addFrame _ _, _ => True

theorem HeapOp.answers_apply (trace : PureCall → PureTrace) (h : Heap) (o : HeapOp) :
    o.Answers (o.apply trace h).1 := by
  cases o <;> first | rfl | trivial

/-- A semantics whose states have no exception objects and no clock. -/
structure Quiet {V : Type} (M : Semantics auditSig V) (clock : Except Exc Datetime → Prop) :
    Prop where
  heap_pre : ∀ v o, M.pre v (.heap o)
  heap_step : ∀ {v : V} {o : HeapOp} {r : o.Ret} {v' : V}, M.step v (.heap o) r v' →
    v' = v ∧ o.Answers r
  now_pre : ∀ v handled, M.pre v (.now handled)
  now_step : ∀ {v : V} {handled : Option Exc} {r : Except Exc Datetime} {v' : V},
    M.step v (.now handled) r v' → v' = v ∧ clock r
  atomic_pre : ∀ v, M.pre v .supportsAtomic
  atomic_step : ∀ {v : V} {r : Bool} {v' : V}, M.step v .supportsAtomic r v' → v' = v

namespace Quiet

variable {V : Type} {M : Semantics auditSig V} {clock : Except Exc Datetime → Prop} {α : Type}
  {v : V}

theorem heap (hM : Quiet M clock) {o : HeapOp} {Q : Except Exc o.Ret → V → Prop}
    (h : ∀ r, o.Answers r → Q (.ok r) v) : (AuditProg.heap o).wp M v Q := by
  refine ⟨hM.heap_pre v o, fun r v' hs => ?_⟩
  obtain ⟨rfl, hr⟩ := hM.heap_step hs
  exact h r hr

theorem inFrame (hM : Quiet M clock) {loc : CodeLocation} {p : AuditProg α}
    {Q : Except Exc α → V → Prop} (h : p.wp M v Q) : (NmLogging.inFrame loc p).wp M v Q := by
  rw [NmLogging.inFrame, Prog.wp_elim]
  refine Prog.wp_mono h fun res v' hq => ?_
  cases res with
  | ok a => exact hq
  | error e =>
    show (AuditProg.heap _ >>= _).wp M v' Q
    rw [Prog.wp_bind]
    exact hM.heap fun _ _ => hq

theorem pureCall (hM : Quiet M clock) {call : PureCall} {handled : Option Exc}
    {res : Except PyError α} {Q : Except Exc α → V → Prop} (hok : ∀ a, res = .ok a → Q (.ok a) v)
    (herr : ∀ e x, res = .error e → x.cls = e.cls → Q (.error x) v) :
    (NmLogging.pureCall call handled res).wp M v Q := by
  cases res with
  | ok a => exact hok a rfl
  | error e =>
    show (AuditProg.heap _ >>= _).wp M v Q
    rw [Prog.wp_bind]
    exact hM.heap fun x hx => herr e x rfl hx

theorem raiseExc (hM : Quiet M clock) {e : Exc} {cause : RaiseFrom} {handled : Option Exc}
    {loc : CodeLocation} {Q : Except Exc α → V → Prop} (h : Q (.error e) v) :
    (NmLogging.raiseExc e cause handled loc).wp M v Q := by
  rw [NmLogging.raiseExc, Prog.wp_bind]
  exact hM.heap fun _ _ => h

theorem raiseNew (hM : Quiet M clock) {e : PyError} {handled : Option Exc} {loc : CodeLocation}
    {Q : Except Exc α → V → Prop} (h : ∀ x, x.cls = e.cls → Q (.error x) v) :
    (NmLogging.raiseNew e handled loc).wp M v Q := by
  rw [NmLogging.raiseNew, Prog.wp_bind]
  exact hM.heap fun x hx => hM.raiseExc (h x hx)

theorem clockNow (hM : Quiet M clock) {handled : Option Exc} {Q : Except Exc Datetime → V → Prop}
    (h : ∀ r, clock r → Q r v) : (NmLogging.clockNow handled).wp M v Q := by
  refine ⟨hM.now_pre v handled, fun r v' hs => ?_⟩
  obtain ⟨rfl, hr⟩ := hM.now_step hs
  cases r with
  | ok t => exact h _ hr
  | error e => exact h _ hr

theorem normalizedPersistenceError (hM : Quiet M clock) {id : PyAtom} {original : Exc}
    {Q : Except Exc Exc → V → Prop} (h : ∀ x, x.cls = AuditPersistenceError → Q (.ok x) v) :
    (NmLogging.normalizedPersistenceError id original).wp M v Q :=
  hM.heap h

/-- Building a record: the clock may raise, and the arguments may be refused. -/
theorem build (hM : Quiet M clock) {log : AuditLog} {event actor message operationId : PyAtom}
    {category : Category} {stage : Stage} {fields : Dict PyAtom PyObj} {outcome : Option Outcome}
    {handled : Option Exc} {Q : Except Exc AuditRecord → V → Prop}
    (hclock : ∀ x, clock (.error x) → Q (.error x) v)
    (hok : ∀ t record, clock (.ok t) → record.toAuditArgs =
      log.recordArgs event category actor stage fields message operationId outcome t →
        Q (.ok record) v)
    (herr : ∀ t e x, clock (.ok t) → (log.recordArgs event category actor stage fields message
      operationId outcome t).construct = .error e → x.cls = e.cls → Q (.error x) v) :
    (log.build event category actor stage fields message operationId outcome handled).wp M v Q := by
  rw [AuditLog.build, Prog.wp_bind]
  refine hM.inFrame (hM.clockNow fun r hr => ?_)
  cases r with
  | error x => exact hclock x hr
  | ok t =>
    exact hM.inFrame (hM.pureCall (fun record h => hok t record hr (AuditArgs.construct_ok.mp h))
      fun e x h hx => herr t e x hr h hx)

/-- `complete` always raises. -/
theorem complete (hM : Quiet M clock) {handled : Option Exc} {Q : Except Exc Unit → V → Prop}
    (h : ∀ x, x.cls = LoggingConfigurationError → Q (.error x) v) :
    (AuditLog.complete handled).wp M v Q := by
  rw [AuditLog.complete, Prog.wp_bind]
  refine ⟨hM.atomic_pre v, fun r v' hs => ?_⟩
  rw [hM.atomic_step hs]
  show (if _ then _ else _ : AuditProg Unit).wp M v Q
  split
  · exact hM.raiseNew h
  · exact hM.raiseNew h

end Quiet

/-! ## Exception objects -/

/-- A semantics whose states have the exception objects, with which operations do what they do. -/
structure Exact {V : Type} (M : Semantics auditSig V) (trace : PureCall → PureTrace)
    (heapOf : V → Heap) (setHeap : V → Heap → V) : Prop where
  pre : ∀ v o, M.pre v (.heap o)
  step : ∀ {v : V} {o : HeapOp} {r : o.Ret} {v' : V}, M.step v (.heap o) r v' →
    r = (o.apply trace (heapOf v)).1 ∧ v' = setHeap v (o.apply trace (heapOf v)).2

namespace Exact

variable {V : Type} {M : Semantics auditSig V} {trace : PureCall → PureTrace} {heapOf : V → Heap}
  {setHeap : V → Heap → V} {α : Type} {v : V}

theorem heap (hM : Exact M trace heapOf setHeap) {o : HeapOp} {Q : Except Exc o.Ret → V → Prop}
    (h : Q (.ok (o.apply trace (heapOf v)).1) (setHeap v (o.apply trace (heapOf v)).2)) :
    (AuditProg.heap o).wp M v Q := by
  refine ⟨hM.pre v o, fun r v' hs => ?_⟩
  obtain ⟨hr, rfl⟩ := hM.step hs
  obtain rfl : r = _ := hr
  exact h

theorem raiseExc (hM : Exact M trace heapOf setHeap) {e : Exc} {cause : RaiseFrom}
    {handled : Option Exc} {loc : CodeLocation} {Q : Except Exc α → V → Prop}
    (h : Q (.error e) (setHeap v ((heapOf v).raise e cause handled loc))) :
    (NmLogging.raiseExc e cause handled loc).wp M v Q := by
  rw [NmLogging.raiseExc, Prog.wp_bind]
  exact hM.heap h

theorem inFrame (hM : Exact M trace heapOf setHeap) {loc : CodeLocation} {p : AuditProg α}
    {Q : Except Exc α → V → Prop}
    (h : p.wp M v fun res v' =>
      match res with
      | .ok a => Q (.ok a) v'
      | .error e => Q (.error e) (setHeap v' ((heapOf v').addFrame e loc))) :
    (NmLogging.inFrame loc p).wp M v Q := by
  rw [NmLogging.inFrame, Prog.wp_elim]
  refine Prog.wp_mono h fun res v' hq => ?_
  cases res with
  | ok a => exact hq
  | error e =>
    show (AuditProg.heap _ >>= _).wp M v' Q
    rw [Prog.wp_bind]
    exact hM.heap hq

end Exact

end NmLogging
