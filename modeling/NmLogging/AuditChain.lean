import NmLogging.AuditRules
import NmLogging.Framework.Trace
import NmLogging.Reachability

/-!
# The sink's exception stays off the chain

An `AuditPersistenceError` of the sink does not leave the facade: what leaves it is a fresh
one that holds the sink's as an attribute, or an `AuditFinalisationError` with that for its
cause, and neither reaches the sink's exception through causes and contexts
(`AuditLog.off_chain`), also when the failure that a handle stores is raised again later.

The runs are watched: `watchSem` does what `auditSem` does and keeps the exceptions that
the sink raised, each with the heap as the sink left it. What follows in a call changes
exception objects only in ways that keep those apart which reach the sink's exception
(`Apart`).
-/

namespace NmLogging

/-! ## Watching the sink -/

/-- An exception that the sink raised, with the record and the heap as the sink left it. -/
structure SinkRaise where
  record : AuditRecord
  exc : Exc
  heap : Heap

/-- What an operation adds to them. -/
def sinkRaises (h : Heap) : Performed auditSig → List SinkRaise
  | ⟨.append record _, .error e⟩ => [⟨record, e, h⟩]
  | _ => []

/-- The state of a run, with what the sink raised in it. -/
structure Watched (ω : Type) where
  state : AuditState ω
  raised : List SinkRaise

variable {ω : Type}

def Watched.heap (s : Watched ω) : Heap := s.state.memory.1

/-- `auditSem`, watched. -/
def watchSem (X : Externals ω) (k : Nat) : Semantics auditSig (Watched ω) where
  step s o r s' := auditStep X k s.state o r s'.state ∧
    s'.raised = s.raised ++ sinkRaises s'.heap ⟨o, r⟩

/-- Every run can be watched. -/
theorem exists_watched {X : Externals ω} {k : Nat} {α : Type} {p : AuditProg α}
    {s s' : AuditState ω} {res : Except Exc α} (h : p.Runs (auditSem X k) s res s')
    (raised : List SinkRaise) :
    ∃ raised', p.Runs (watchSem X k) ⟨s, raised⟩ res ⟨s', raised'⟩ := by
  induction h generalizing raised with
  | ret => exact ⟨raised, .ret⟩
  | throw => exact ⟨raised, .throw⟩
  | @op o _ s t _ r _ hs _ ih =>
    have hstep : (watchSem X k).step ⟨s, raised⟩ o r ⟨t, raised ++ sinkRaises t.memory.1 ⟨o, r⟩⟩ :=
      ⟨hs, rfl⟩
    obtain ⟨raised', h'⟩ := ih _
    exact ⟨raised', .op hstep h'⟩

/-! ## Before the append -/

/-- A program that appends nothing, and what it returns. -/
def Silent (X : Externals ω) (k : Nat) {α : Type} (p : AuditProg α) (P : α → Prop) : Prop :=
  ∀ s, p.wp (watchSem X k) s fun res s' => s'.raised = s.raised ∧ ∀ a, res = .ok a → P a

namespace Silent

variable {X : Externals ω} {k : Nat} {α β : Type} {p : AuditProg α} {P : α → Prop}
  {P' : β → Prop} {f : α → AuditProg β}

theorem ret {a : α} (h : P a) : Silent X k (.ret a) P :=
  fun _ => ⟨rfl, fun _ e => (Except.ok.inj e) ▸ h⟩

theorem throw {e : Exc} : Silent X k (.throw e) P := fun _ => ⟨rfl, nofun⟩

theorem op {o : AuditOp} {c : auditSig.Ret o → AuditProg α}
    (ho : ∀ h r, sinkRaises h ⟨o, r⟩ = []) (hc : ∀ r, Silent X k (c r) P) :
    Silent X k (.op o c) P := by
  refine fun s => ⟨trivial, fun r s' hs => ?_⟩
  have hr : s'.raised = s.raised := by rw [hs.2, ho, List.append_nil]
  exact hr ▸ hc r s'

theorem bind (hp : Silent X k p P) (hf : ∀ a, P a → Silent X k (f a) P') :
    Silent X k (p >>= f) P' := by
  intro s
  rw [Prog.wp_bind]
  refine Prog.wp_mono (hp s) fun res s' h => ?_
  cases res with
  | ok a => exact h.1 ▸ hf a (h.2 a rfl) s'
  | error e => exact ⟨h.1, nofun⟩

theorem heap (o : HeapOp) : Silent X k (AuditProg.heap o) fun _ => True :=
  op (fun _ _ => rfl) fun _ => ret trivial

theorem handle (o : HandleOp) : Silent X k (AuditProg.handle o) fun _ => True :=
  op (fun _ _ => rfl) fun _ => ret trivial

theorem raiseExc {e : Exc} {cause : RaiseFrom} {handled : Option Exc} {loc : CodeLocation} :
    Silent X k (NmLogging.raiseExc e cause handled loc : AuditProg α) P :=
  (heap _).bind fun _ _ => throw

theorem inFrame (hp : Silent X k p P) (loc : CodeLocation) :
    Silent X k (NmLogging.inFrame loc p) P := by
  intro s
  rw [NmLogging.inFrame, Prog.wp_elim]
  refine Prog.wp_mono (hp s) fun res s' h => ?_
  cases res with
  | ok a => exact h
  | error e =>
    have : Silent X k (AuditProg.heap (.addFrame e loc) >>= fun _ => .throw e : AuditProg α) P :=
      (heap _).bind fun _ _ => throw
    exact h.1 ▸ this s'

theorem pureCall {call : PureCall} {handled : Option Exc} {res : Except PyError α} :
    Silent X k (NmLogging.pureCall call handled res) fun a => res = .ok a := by
  cases res with
  | ok a => exact ret rfl
  | error e => exact (heap _).bind fun _ _ => throw

theorem raiseNew {e : PyError} {handled : Option Exc} {loc : CodeLocation} :
    Silent X k (NmLogging.raiseNew e handled loc : AuditProg α) P :=
  (heap _).bind fun _ _ => raiseExc

theorem clockNow {handled : Option Exc} :
    Silent X k (NmLogging.clockNow handled) fun _ => True := by
  refine op (fun _ _ => rfl) fun r => ?_
  cases (r : Except Exc Datetime) with
  | ok a => exact ret trivial
  | error e => exact throw

theorem newOperationId {handled : Option Exc} :
    Silent X k (NmLogging.newOperationId handled) fun _ => True := by
  refine op (fun _ _ => rfl) fun r => ?_
  cases (r : Except Exc PyAtom) with
  | ok a => exact ret trivial
  | error e => exact throw

/-- A record that is built has the operation id that it was built with. -/
theorem build {log : AuditLog} {event actor message operationId : PyAtom} {category : Category}
    {stage : Stage} {fields : Dict PyAtom PyObj} {outcome : Option Outcome} {handled : Option Exc} :
    Silent X k (log.build event category actor stage fields message operationId outcome handled)
      fun record => record.operationId = operationId := by
  refine (clockNow.inFrame _).bind fun t _ => ?_
  refine inFrame (fun s => Prog.wp_mono (pureCall s) fun res s' h => ⟨h.1, ?_⟩) _
  intro record hres
  rw [AuditArgs.construct_ok.mp (h.2 record hres)]
  rfl

end Silent

/-! ## After the append -/

theorem Heap.Says.length_le {h h' : Heap} (hs : h.Says h') : h.length ≤ h'.length := by
  rcases Nat.lt_or_ge h'.length h.length with hlt | hge
  · obtain ⟨o, ho, -⟩ := hs _ _ (List.getElem?_eq_getElem hlt)
    have := (List.getElem?_eq_some_iff.mp ho).1
    omega
  · exact hge

/-- A heap in which the objects of `T` are still apart, as they were left. -/
structure Apart (T : Nat → Prop) (h₁ h : Heap) : Prop where
  agree : h.Agree T h
  untouched : Heap.Untouched T h₁ h
  fresh : ∀ i, h.length ≤ i → ¬T i

namespace Apart

variable {T : Nat → Prop} {h₁ h : Heap} {e : Exc}

theorem reaching {f : Exc} (hf : f.ref < h.length) : Apart (h.Reaching f) h h :=
  ⟨h.agree_reaching f, .refl _ _, fun _ hi => Heap.not_reaching_of_le hf hi⟩

theorem addFrame (ha : Apart T h₁ h) (e : Exc) (loc : CodeLocation) :
    Apart T h₁ (h.addFrame e loc) where
  agree := ha.agree.addFrame e loc
  untouched := ha.untouched.trans (.addFrame e loc)
  fresh i hi := ha.fresh i ((Heap.Says.addFrame h e loc).length_le.trans hi)

theorem alloc (ha : Apart T h₁ h) {o : ExcObj} (ho : o.LinksOutside T) :
    ¬T (h.alloc o).1.ref ∧ Apart T h₁ (h.alloc o).2 where
  left := ha.fresh _ (Nat.le_refl _)
  right :=
    { agree := (ha.agree.alloc ho).2
      untouched := ha.untouched.trans (.alloc o)
      fresh := fun i hi => ha.fresh i ((Heap.Says.alloc h o).length_le.trans hi) }

theorem raise (ha : Apart T h₁ h) (he : ¬T e.ref) {cause : RaiseFrom} {handled : Option Exc}
    (hc : ∀ c, cause = .fromExc c → ¬T c.ref) (hh : ∀ f, handled = some f → ¬T f.ref)
    (loc : CodeLocation) : Apart T h₁ (h.raise e cause handled loc) where
  agree := ha.agree.raise e hc hh loc
  untouched := ha.untouched.trans (.raise ha.agree he hc hh loc)
  fresh i hi := ha.fresh i ((Heap.Says.raise h e cause handled loc).length_le.trans hi)

end Apart

/-- What `_normalized_persistence_error` makes. -/
def normalised (operationId : PyAtom) (original : Exc) : ExcObj :=
  { ExcObj.ofError ⟨AuditPersistenceError, lit "audit persistence failed"⟩ with
    operationId := operationId, sinkFailure := some original }

/-- `N` is the normalised error of an exception of the sink, and the two are apart. -/
structure Severed (r : SinkRaise) (id : PyAtom) (N : Exc) (h : Heap) : Prop where
  apart : Apart (r.heap.Reaching r.exc) r.heap h
  off : ¬r.heap.Reaching r.exc N.ref
  cls : N.cls = AuditPersistenceError
  normal : ∃ o, h[N.ref]? = some o ∧ o.said = normalised id r.exc

namespace Severed

variable {r : SinkRaise} {id : PyAtom} {N e : Exc} {h : Heap}

theorem of_alloc (id : PyAtom) (ha : Apart (r.heap.Reaching r.exc) r.heap h) :
    Severed r id (h.alloc (normalised id r.exc)).1 (h.alloc (normalised id r.exc)).2 := by
  obtain ⟨hoff, ha'⟩ := ha.alloc (o := normalised id r.exc) ⟨nofun, nofun⟩
  exact ⟨ha', hoff, rfl, normalised id r.exc, by simp [Heap.alloc], rfl⟩

theorem keep {h' : Heap} (hs : Severed r id N h) (ha : Apart (r.heap.Reaching r.exc) r.heap h')
    (hsaid : h.Says h') : Severed r id N h' := by
  obtain ⟨o, ho, heq⟩ := hs.normal
  obtain ⟨o', ho', heq'⟩ := hsaid _ o ho
  exact ⟨ha, hs.off, hs.cls, o', ho', heq'.trans heq⟩

theorem addFrame (hs : Severed r id N h) (e : Exc) (loc : CodeLocation) :
    Severed r id N (h.addFrame e loc) :=
  hs.keep (hs.apart.addFrame e loc) (.addFrame h e loc)

theorem raise (hs : Severed r id N h) (he : ¬r.heap.Reaching r.exc e.ref) {cause : RaiseFrom}
    {handled : Option Exc} (hc : ∀ c, cause = .fromExc c → ¬r.heap.Reaching r.exc c.ref)
    (hh : ∀ f, handled = some f → ¬r.heap.Reaching r.exc f.ref) (loc : CodeLocation) :
    Severed r id N (h.raise e cause handled loc) :=
  hs.keep (hs.apart.raise he hc hh loc) (.raise h e cause handled loc)

end Severed

/-! ## Watched operations -/

namespace Watched

variable (s : Watched ω)

def setHeap (h : Heap) : Watched ω :=
  { s with state := { s.state with memory := (h, s.state.memory.2) } }

def setCell (ref : Nat) (cell : OperationCell) : Watched ω :=
  { s with state := { s.state with cells := Function.update s.state.cells ref (some cell) } }

@[simp] theorem cells_setCell (ref : Nat) (cell : OperationCell) :
    (s.setCell ref cell).state.cells ref = some cell := Function.update_self _ _ _

end Watched

section

variable {X : Externals ω} {k : Nat} {s : Watched ω} {α : Type}

theorem exact_watch : Exact (watchSem X k) X.trace Watched.heap Watched.setHeap where
  pre _ _ := trivial
  step := by
    rintro s o r ⟨state, raised⟩ ⟨⟨hr, hstate⟩, hraised⟩
    obtain rfl : state = _ := hstate
    obtain rfl : raised = s.raised := hraised.trans (List.append_nil _)
    exact ⟨hr, rfl⟩

theorem wp_heap {o : HeapOp} {Q : Except Exc o.Ret → Watched ω → Prop}
    (h : Q (.ok (o.apply X.trace s.heap).1) (s.setHeap (o.apply X.trace s.heap).2)) :
    (AuditProg.heap o).wp (watchSem X k) s Q := exact_watch.heap h

theorem wp_handle' {o : HandleOp} {Q : Except Exc o.Ret → Watched ω → Prop}
    (h : ∀ r cell, o.apply k (s.state.cells (o.ref k)) = some (r, cell) →
      Q (.ok r) (s.setCell (o.ref k) cell)) :
    (AuditProg.handle o).wp (watchSem X k) s Q := by
  refine ⟨trivial, ?_⟩
  rintro r ⟨state, raised⟩ ⟨⟨cell, hr, hstate⟩, hraised⟩
  obtain rfl : state = _ := hstate
  obtain rfl : raised = s.raised := hraised.trans (List.append_nil _)
  exact h r cell hr

/-- A handle that was just set. -/
theorem cell_of_setFailure {ref : Nat} {cell cell' : OperationCell} {e : Exc} {r : Unit}
    (h : (HandleOp.setFailure ref e).apply k ((s.setCell ref cell).state.cells ref) =
      some (r, cell')) : cell' = { cell with failure := some e } := by
  rw [Watched.cells_setCell] at h
  cases h
  rfl

theorem state_of_setState {ref : Nat} {c : Option OperationCell} {cell : OperationCell}
    {state : OperationState} {r : Unit}
    (h : (HandleOp.setState ref state).apply k c = some (r, cell)) : cell.state = state := by
  cases c with
  | none => cases h
  | some c =>
    cases h
    rfl

theorem wp_raiseExc {e : Exc} {cause : RaiseFrom} {handled : Option Exc} {loc : CodeLocation}
    {Q : Except Exc α → Watched ω → Prop}
    (h : Q (.error e) (s.setHeap (s.heap.raise e cause handled loc))) :
    (raiseExc e cause handled loc).wp (watchSem X k) s Q := exact_watch.raiseExc h

theorem wp_normalizedPersistenceError {id : PyAtom} {original : Exc}
    {Q : Except Exc Exc → Watched ω → Prop}
    (h : Q (.ok (s.heap.alloc (normalised id original)).1)
      (s.setHeap (s.heap.alloc (normalised id original)).2)) :
    (normalizedPersistenceError id original).wp (watchSem X k) s Q := wp_heap h

theorem wp_inFrame {loc : CodeLocation} {p : AuditProg α} {Q : Except Exc α → Watched ω → Prop}
    (h : p.wp (watchSem X k) s fun res s' =>
      match res with
      | .ok a => Q (.ok a) s'
      | .error e => Q (.error e) (s'.setHeap (s'.heap.addFrame e loc))) :
    (inFrame loc p).wp (watchSem X k) s Q := exact_watch.inFrame h

/-- What comes before an append. -/
theorem Silent.wp_bind {β : Type} {p : AuditProg α} {P : α → Prop} {f : α → AuditProg β}
    {Q : Except Exc β → Watched ω → Prop} (hp : Silent X k p P)
    (herr : ∀ e s', s'.raised = s.raised → Q (.error e) s')
    (hok : ∀ a s', P a → s'.raised = s.raised → (f a).wp (watchSem X k) s' Q) :
    (p >>= f).wp (watchSem X k) s Q := by
  rw [Prog.wp_bind]
  refine Prog.wp_mono (hp s) fun res s' h => ?_
  cases res with
  | ok a => exact hok a s' (h.2 a rfl) h.1
  | error e => exact herr e s' h.1

theorem wp_sinkAppend {record : AuditRecord} {handled : Option Exc}
    {Q : Except Exc Unit → Watched ω → Prop} (hs : s.raised = [])
    (hok : ∀ s', s'.raised = [] → Q (.ok ()) s')
    (herr : ∀ e s', s'.raised = [⟨record, e, s'.heap⟩] → Q (.error e) s') :
    (sinkAppend record handled).wp (watchSem X k) s Q := by
  refine ⟨trivial, ?_⟩
  rintro r s' ⟨-, hraised⟩
  rw [hs, List.nil_append] at hraised
  cases (r : Except Exc Unit) with
  | ok a => exact hok s' hraised
  | error e => exact herr e s' hraised

end

/-! ## Calls -/

/-- An `AuditPersistenceError` of the sink, an object that the handled exception does not
reach. -/
structure SinkRaise.Unreached (r : SinkRaise) (handled : Option Exc) : Prop where
  persistence : r.exc.isA .auditPersistenceError = true
  object : r.exc.ref < r.heap.length
  handled : ∀ f, handled = some f → ¬r.heap.Reaches f r.exc

/-- What holds after a call for every such exception that the sink raised in it. -/
def Cut {α : Type} (handled : Option Exc) (Q : SinkRaise → Except Exc α → Watched ω → Prop)
    (res : Except Exc α) (s : Watched ω) : Prop :=
  ∀ r ∈ s.raised, r.Unreached handled → Q r res s

/-- The normalised error leaves the call. -/
def Normalises {α : Type} (r : SinkRaise) (res : Except Exc α) (s : Watched ω) : Prop :=
  ∃ N, res = .error N ∧ Severed r r.record.operationId N s.heap

/-- A handle with a stored failure. -/
def Stores (s : AuditState ω) (ref : Nat) (N : Exc) : Prop :=
  ∃ cell, s.cells ref = some cell ∧ cell.state = .FINALISATION_FAILED ∧ cell.failure = some N

section

variable {X : Externals ω} {k : Nat} {s : Watched ω} {α : Type} {handled : Option Exc}

theorem cut_nil {Q : SinkRaise → Except Exc α → Watched ω → Prop} {res : Except Exc α}
    (hs : s.raised = []) : Cut handled Q res s := by
  intro r hr
  rw [hs] at hr
  cases hr

/-- The heap in which an exception of the sink is handled. -/
theorem SinkRaise.Unreached.apart {r : SinkRaise} (hr : r.Unreached handled) :
    Apart (r.heap.Reaching r.exc) r.heap r.heap := .reaching hr.object

/-- A frame that an exception enters on its way out. -/
theorem cut_inFrame {Q : SinkRaise → Except Exc α → Watched ω → Prop} {loc : CodeLocation}
    {p : AuditProg α} (hQ : ∀ r e s, Q r (.error e) s → Q r (.error e) (s.setHeap (s.heap.addFrame e loc)))
    (h : p.wp (watchSem X k) s (Cut handled Q)) : (inFrame loc p).wp (watchSem X k) s (Cut handled Q) := by
  refine wp_inFrame (Prog.wp_mono h fun res s' hq => ?_)
  cases res with
  | ok a => exact hq
  | error e => exact fun r hr hun => hQ r e s' (hq r hr hun)

theorem Normalises.addFrame {r : SinkRaise} {e : Exc} (loc : CodeLocation)
    (h : Normalises r (.error e : Except Exc α) s) :
    Normalises r (.error e : Except Exc α) (s.setHeap (s.heap.addFrame e loc)) := by
  obtain ⟨_, ⟨⟩, hs⟩ := h
  exact ⟨e, rfl, hs.addFrame e loc⟩

variable [PyRuntime] {log : AuditLog} {event actor : PyAtom} {kw : Keywords AuditLog.methodParams}

theorem cut_intent (hs : s.raised = []) :
    (log.intent event actor kw handled).wp (watchSem X k) s (Cut handled Normalises) := by
  rw [AuditLog.intent]
  refine Silent.wp_bind (Silent.pureCall.inFrame _) (fun _ _ h => cut_nil (h.trans hs))
    fun schema s₁ hschema h => ?_
  replace hs := h.trans hs
  refine Silent.wp_bind (Silent.pureCall.inFrame _) (fun _ _ h => cut_nil (h.trans hs))
    fun d s₂ hd h => ?_
  replace hs := h.trans hs
  refine Silent.wp_bind (Silent.pureCall.inFrame _) (fun _ _ h => cut_nil (h.trans hs))
    fun message s₃ hm h => ?_
  replace hs := h.trans hs
  refine Silent.wp_bind (Silent.newOperationId.inFrame _) (fun _ _ h => cut_nil (h.trans hs))
    fun id s₄ _ h => ?_
  replace hs := h.trans hs
  refine Silent.wp_bind (Silent.build.inFrame _) (fun _ _ h => cut_nil (h.trans hs))
    fun record s₅ hid h => ?_
  rw [Prog.wp_elim]
  refine wp_inFrame (wp_sinkAppend (h.trans hs) ?_ ?_)
  · intro s' hs'
    exact wp_handle' fun _ _ _ => cut_nil hs'
  · intro e s' hs'
    show Prog.wp _ (if e.isA .auditPersistenceError then _ else _) _ _
    split
    · rw [Prog.wp_bind]
      refine wp_normalizedPersistenceError (wp_raiseExc ?_)
      intro r hr hun
      obtain rfl : r = _ := List.mem_singleton.mp (hs' ▸ hr)
      subst hid
      have hsev := Severed.of_alloc record.operationId
        (hun.apart.addFrame e (auditFrame "intent" 138))
      exact ⟨_, rfl, hsev.raise hsev.off (by rintro _ ⟨⟩) hun.handled _⟩
    · rename_i hnot
      intro r hr hun
      obtain rfl : r = _ := List.mem_singleton.mp (hs' ▸ hr)
      exact absurd hun.persistence hnot

theorem cut_operation (hs : s.raised = []) :
    (log.operation event actor kw handled).wp (watchSem X k) s (Cut handled Normalises) := by
  rw [AuditLog.operation]
  refine Silent.wp_bind (Silent.pureCall.inFrame _) (fun _ _ h => cut_nil (h.trans hs))
    fun schema s₁ hschema h => ?_
  replace hs := h.trans hs
  split
  · refine Prog.wp_mono (Silent.raiseNew (P := fun _ => True) s₁) fun _ _ h => ?_
    exact cut_nil (h.1.trans hs)
  · rw [Prog.wp_bind]
    refine Prog.wp_mono (cut_inFrame (fun _ _ _ h => h.addFrame _) (cut_intent hs))
      fun res s' hq => ?_
    cases res with
    | error e => exact hq
    | ok op =>
      show (AuditProg.handle _ >>= _).wp _ _ _
      rw [Prog.wp_bind]
      refine wp_handle' fun _ _ _ => fun r hr hun => ?_
      obtain ⟨N, hN, -⟩ := hq r hr hun
      cases hN

/-- The normalised error leaves a call on a handle, which stores it. -/
def Terminates (ref : Nat) (r : SinkRaise) (res : Except Exc α) (s : Watched ω) : Prop :=
  ∃ N, res = .error N ∧ Severed r r.record.operationId N s.heap ∧ Stores s.state ref N

omit [PyRuntime] in
theorem Terminates.addFrame {ref : Nat} {r : SinkRaise} {e : Exc} (loc : CodeLocation)
    (h : Terminates ref r (.error e : Except Exc α) s) :
    Terminates ref r (.error e : Except Exc α) (s.setHeap (s.heap.addFrame e loc)) := by
  obtain ⟨_, ⟨⟩, hs, hst⟩ := h
  exact ⟨e, rfl, hs.addFrame e loc, hst⟩

variable {op : AuditOperation} {outcome : Outcome} {fields : Dict PyAtom PyObj}

/-- The sink's exception on its way through the facade. -/
def Escapes (op : AuditOperation) (r : SinkRaise) (res : Except Exc Unit) (s : Watched ω) : Prop :=
  res = .error r.exc ∧ s.raised = [r] ∧ r.record.operationId = op.operationId ∧
    Apart (r.heap.Reaching r.exc) r.heap s.heap

theorem cut_appendOutcome (hs : s.raised = []) :
    (log.appendOutcome op outcome fields handled).wp (watchSem X k) s (Cut handled (Escapes op)) := by
  rw [AuditLog.appendOutcome]
  refine Silent.wp_bind (Silent.pureCall.inFrame _) (fun _ _ h => cut_nil (h.trans hs))
    fun d s₁ hd h => ?_
  replace hs := h.trans hs
  refine Silent.wp_bind (Silent.pureCall.inFrame _) (fun _ _ h => cut_nil (h.trans hs))
    fun message s₂ hm h => ?_
  replace hs := h.trans hs
  refine Silent.wp_bind (Silent.build.inFrame _) (fun _ _ h => cut_nil (h.trans hs))
    fun record s₃ hid h => ?_
  refine wp_inFrame (wp_sinkAppend (h.trans hs) ?_ ?_)
  · exact fun s' hs' => cut_nil hs'
  · intro e s' hs' r hr hun
    obtain rfl : r = _ := List.mem_singleton.mp (hs' ▸ hr)
    exact ⟨rfl, hs', hid, hun.apart.addFrame _ _⟩

theorem cut_finalise (hs : s.raised = []) :
    (op.finalise log outcome fields handled).wp (watchSem X k) s
      (Cut handled (Terminates op.ref)) := by
  rw [AuditOperation.finalise, Prog.wp_bind]
  refine wp_handle' fun state cell hstate => ?_
  show Prog.wp _ (if _ then _ else _) _ _
  split
  · refine Prog.wp_mono (Silent.raiseNew (P := fun _ => True) _) fun _ _ h => ?_
    exact cut_nil (h.1.trans hs)
  · rw [Prog.wp_elim]
    refine wp_inFrame (Prog.wp_mono (cut_appendOutcome hs) fun res s' hq => ?_)
    cases res with
    | ok a =>
      refine wp_handle' fun _ _ _ => fun r hr hun => ?_
      cases (hq r hr hun).1
    | error e =>
      show Prog.wp _ (_ >>= _) _ _
      rw [Prog.wp_bind]
      refine wp_handle' fun _ cell₁ h₁ => ?_
      show Prog.wp _ (_ >>= _) _ _
      rw [Prog.wp_bind]
      refine wp_handle' fun _ cell₂ h₂ => ?_
      have hfailed := state_of_setState h₁
      obtain rfl := cell_of_setFailure h₂
      show Prog.wp _ (if e.isA .auditPersistenceError then _ else _) _ _
      split
      · rw [Prog.wp_bind]
        refine wp_normalizedPersistenceError ?_
        show Prog.wp _ (_ >>= _) _ _
        rw [Prog.wp_bind]
        refine wp_handle' fun _ cell₃ h₃ => wp_raiseExc fun r hr hun => ?_
        obtain ⟨he, hraised, hid, hapart⟩ := hq r hr hun
        cases he
        have hsev := Severed.of_alloc op.operationId
          (hapart.addFrame r.exc (auditFrame "_finalise" 316))
        refine ⟨_, rfl, hid ▸ hsev.raise hsev.off (by rintro _ ⟨⟩) hun.handled _, cell₃, ?_, ?_⟩
        · exact Watched.cells_setCell _ _ _
        · obtain rfl := cell_of_setFailure h₃
          exact ⟨hfailed, rfl⟩
      · rename_i hnot
        intro r hr hun
        obtain ⟨he, -, -, -⟩ := hq r hr hun
        cases he
        exact absurd hun.persistence hnot

theorem cut_record {kw : Keywords AuditOperation.methodParams} (hs : s.raised = []) :
    (op.record log outcome kw handled).wp (watchSem X k) s (Cut handled (Terminates op.ref)) := by
  cases outcome
  · exact cut_inFrame (fun _ _ _ h => h.addFrame _) (cut_finalise hs)
  · exact cut_inFrame (fun _ _ _ h => h.addFrame _) (cut_finalise hs)
  · exact cut_inFrame (fun _ _ _ h => h.addFrame _) (cut_finalise hs)

/-- An `AuditFinalisationError` for a failure. -/
def Finalisation (h : Heap) (e N : Exc) : Prop :=
  ∃ o, h[e.ref]? = some o ∧ o.cls = AuditFinalisationError ∧ o.finalisationException = some N

omit [PyRuntime] in
theorem Finalisation.keep {h h' : Heap} {e N : Exc} (hf : Finalisation h e N) (hsaid : h.Says h') :
    Finalisation h' e N := by
  obtain ⟨o, ho, hcls, hfin⟩ := hf
  obtain ⟨o', ho', heq⟩ := hsaid _ o ho
  refine ⟨o', ho', ?_, ?_⟩
  · exact (congrArg ExcObj.cls heq).trans hcls
  · exact (congrArg ExcObj.finalisationException heq).trans hfin

/-- How an exception leaves `__exit__` for a stored failure. -/
structure Leaves (T : Nat → Prop) (h₁ h : Heap) (ref : Nat) (N e : Exc) (s : Watched ω) : Prop where
  apart : Apart T h₁ s.heap
  said : h.Says s.heap
  stores : Stores s.state ref N
  off : ¬T e.ref
  leaves : e = N ∨ Finalisation s.heap e N

omit [PyRuntime] in
theorem Leaves.addFrame {T : Nat → Prop} {h₁ h : Heap} {ref : Nat} {N e : Exc}
    (hl : Leaves T h₁ h ref N e s) (loc : CodeLocation) :
    Leaves T h₁ h ref N e (s.setHeap (s.heap.addFrame e loc)) where
  apart := hl.apart.addFrame e loc
  said := hl.said.trans (.addFrame _ e loc)
  stores := hl.stores
  off := hl.off
  leaves := hl.leaves.imp_right fun hf => hf.keep (.addFrame _ e loc)

omit [PyRuntime] in
theorem wp_raiseFinalisationError' {body : Exc} :
    (op.raiseFinalisationError body handled : AuditProg α).wp (watchSem X k) s fun res s' =>
      s'.raised = s.raised ∧ ∀ T h₁ N, Apart T h₁ s.heap → ¬T N.ref → N.cls = AuditPersistenceError →
        Stores s.state op.ref N → (∀ f, handled = some f → ¬T f.ref) →
        ∃ e, res = .error e ∧ Leaves T h₁ s.heap op.ref N e s' := by
  rw [AuditOperation.raiseFinalisationError, Prog.wp_bind]
  refine wp_handle' fun failure cell hfail => ?_
  show Prog.wp _ (_ >>= _) _ _
  rw [Prog.wp_bind]
  refine wp_heap ?_
  -- the error, raised from the stored failure or from nothing
  have raised : ∀ (o : ExcObj) (cause : RaiseFrom) (loc : CodeLocation),
      o.cls = AuditFinalisationError → o.finalisationException = failure → o.cause = none →
      o.context = none → (∀ c, cause = .fromExc c → failure = some c) →
      (raiseExc (s.heap.alloc o).1 cause handled loc : AuditProg α).wp (watchSem X k)
        ((s.setCell op.ref cell).setHeap (s.heap.alloc o).2) fun res s' =>
          s'.raised = s.raised ∧ ∀ T h₁ N, Apart T h₁ s.heap → ¬T N.ref →
            N.cls = AuditPersistenceError → Stores s.state op.ref N →
            (∀ f, handled = some f → ¬T f.ref) →
            ∃ e, res = .error e ∧ Leaves T h₁ s.heap op.ref N e s' := by
    intro o cause loc hcls hfin hcause hcontext hfrom
    refine wp_raiseExc ⟨rfl, fun T h₁ N ha hN _ hst hh => ⟨_, rfl, ?_⟩⟩
    obtain ⟨cell', hcell, hstate, hfailure⟩ := hst
    have hfail : (HandleOp.getFailure op.ref).apply k (s.state.cells op.ref) = some (failure, cell) :=
      hfail
    rw [hcell] at hfail
    cases hfail
    obtain ⟨hoff, ha'⟩ := ha.alloc (o := o) ⟨by simp [hcause], by simp [hcontext]⟩
    have hc : ∀ c, cause = .fromExc c → ¬T c.ref := by
      intro c hcf
      have := hfrom c hcf
      rw [hfailure] at this
      cases this
      exact hN
    have hsaid := Heap.Says.raise (s.heap.alloc o).2 (s.heap.alloc o).1 cause handled loc
    refine ⟨ha'.raise hoff hc hh loc, (Heap.Says.alloc s.heap o).trans hsaid,
      ⟨_, Watched.cells_setCell _ _ _, hstate, hfailure⟩, hoff, .inr ?_⟩
    exact Finalisation.keep ⟨o, by simp [Heap.alloc], hcls, by rw [hfin, hfailure]⟩ hsaid
  dsimp only
  cases failure with
  | none => exact raised _ _ _ rfl rfl rfl rfl (by rintro _ ⟨⟩)
  | some cause =>
    show Prog.wp _ (if _ then _ else _) _ _
    split
    · exact raised _ _ _ rfl rfl rfl rfl (by rintro _ ⟨⟩; rfl)
    · exact raised _ _ _ rfl rfl rfl rfl (by rintro _ ⟨⟩)

omit [PyRuntime] in
/-- What a handle with a stored failure is read as. -/
theorem apply_of_stores {ref : Nat} {N : Exc} (hst : Stores s.state ref N) {state : OperationState}
    {cell : OperationCell}
    (h : (HandleOp.getState ref).apply k (s.state.cells ref) = some (state, cell)) :
    state = .FINALISATION_FAILED ∧ cell.failure = some N ∧ Stores (s.setCell ref cell).state ref N := by
  obtain ⟨cell', hcell, hstate, hfailure⟩ := hst
  rw [hcell] at h
  cases h
  exact ⟨hstate, hfailure, _, Watched.cells_setCell _ _ _, hstate, hfailure⟩

/-- `__exit__` for a stored failure. -/
theorem wp_exit_stored {exc : Option Exc} {T : Nat → Prop} {h₁ : Heap} {N : Exc}
    (ha : Apart T h₁ s.heap) (hN : ¬T N.ref) (hcls : N.cls = AuditPersistenceError)
    (hst : Stores s.state op.ref N) (hh : ∀ f, handled = some f → ¬T f.ref) :
    (op.exit log exc handled).wp (watchSem X k) s fun res s' =>
      ∀ e, res = .error e → Leaves T h₁ s.heap op.ref N e s' := by
  rw [AuditOperation.exit, Prog.wp_bind]
  refine wp_handle' fun state cell hstate => ?_
  obtain ⟨rfl, hfailure, hst₁⟩ := apply_of_stores hst hstate
  have hget : ∀ {failure : Option Exc} {cell' : OperationCell},
      (HandleOp.getFailure op.ref).apply k ((s.setCell op.ref cell).state.cells op.ref) =
        some (failure, cell') → failure = some N ∧ cell' = cell := by
    intro failure cell' h
    rw [Watched.cells_setCell] at h
    cases h
    exact ⟨hfailure, rfl⟩
  have hst₂ : Stores ((s.setCell op.ref cell).setCell op.ref cell).state op.ref N := by
    obtain ⟨c, hc, hstate, hfailure⟩ := hst₁
    rw [Watched.cells_setCell] at hc
    cases hc
    exact ⟨_, Watched.cells_setCell _ _ _, hstate, hfailure⟩
  cases exc with
  | none =>
    show Prog.wp _ (_ >>= _) _ _
    rw [Prog.wp_bind]
    refine wp_handle' fun failure cell' hfail => ?_
    obtain ⟨rfl, rfl⟩ := hget hfail
    refine wp_raiseExc ?_
    rintro _ ⟨⟩
    exact ⟨ha.raise hN (by rintro _ ⟨⟩) hh _, .raise _ _ _ _ _, hst₂, hN, .inl rfl⟩
  | some body =>
    show Prog.wp _ (_ >>= _) _ _
    rw [Prog.wp_bind]
    refine wp_handle' fun failure cell' hfail => ?_
    obtain ⟨rfl, rfl⟩ := hget hfail
    show Prog.wp _ (if _ then _ else _) _ _
    split
    · rintro _ ⟨⟩
    · refine wp_inFrame (Prog.wp_mono wp_raiseFinalisationError' fun res s' hq => ?_)
      obtain ⟨e, rfl, hl⟩ := hq.2 T h₁ N ha hN hcls hst₂ hh
      rintro _ ⟨⟩
      exact hl.addFrame _

/-- How the sink's exception comes to leave `__exit__`. -/
def Quits (ref : Nat) (r : SinkRaise) (res : Except Exc α) (s : Watched ω) : Prop :=
  ∃ N e, res = .error e ∧ Severed r r.record.operationId N s.heap ∧ Stores s.state ref N ∧
    ¬r.heap.Reaching r.exc e.ref ∧ (e = N ∨ Finalisation s.heap e N)

theorem cut_exit {exc : Option Exc} (hs : s.raised = []) :
    (op.exit log exc handled).wp (watchSem X k) s (Cut handled (Quits op.ref)) := by
  have silent : ∀ {p : AuditProg Bool} {s₁ : Watched ω}, s₁.raised = [] →
      Silent X k p (fun _ => True) → p.wp (watchSem X k) s₁ (Cut handled (Quits op.ref)) :=
    fun hs₁ hp => Prog.wp_mono (hp _) fun _ _ h => cut_nil (h.1.trans hs₁)
  rw [AuditOperation.exit, Prog.wp_bind]
  refine wp_handle' fun state cell hstate => ?_
  have finalisation : ∀ {body : Exc} {handled : Option Exc},
      Silent X k (op.raiseFinalisationError body handled : AuditProg Bool) fun _ => True :=
    fun _ => Prog.wp_mono wp_raiseFinalisationError' fun _ _ h => ⟨h.1, fun _ _ => trivial⟩
  cases state with
  | FINALISED => exact silent hs (.ret trivial)
  | FINALISATION_FAILED =>
    cases exc with
    | none =>
      refine silent hs ((Silent.handle _).bind fun failure _ => ?_)
      cases failure with
      | none => exact .raiseNew
      | some f => exact .raiseExc
    | some body =>
      refine silent hs ((Silent.handle _).bind fun failure _ => ?_)
      show Silent X k (if _ then _ else _) _
      split
      · exact .ret trivial
      · exact finalisation.inFrame _
  | OPEN =>
    cases exc with
    | none => exact silent hs .raiseNew
    | some body =>
      show Prog.wp _ (Prog.elim _ _ _) _ _
      rw [Prog.wp_elim]
      have hrec : ∀ {s₁ : Watched ω}, s₁.raised = [] →
          (op.record log .indeterminate .empty handled).wp (watchSem X k) s₁
            (Cut handled (Terminates op.ref)) := cut_record
      refine Prog.wp_mono (cut_inFrame (fun _ _ _ h => h.addFrame _) (hrec hs)) fun res s' hq => ?_
      cases res with
      | ok a =>
        intro r hr hun
        obtain ⟨N, hN, -⟩ := hq r hr hun
        cases hN
      | error failure =>
        show Prog.wp _ (if failure.isA .exception then _ else _) _ _
        split
        · refine wp_inFrame (Prog.wp_mono wp_raiseFinalisationError' fun res s₂ hfin => ?_)
          have hcut : Cut handled (Quits op.ref) res s₂ := by
            intro r hr hun
            obtain ⟨_, ⟨⟩, hsev, hst⟩ := hq r (hfin.1 ▸ hr) hun
            obtain ⟨e, rfl, hl⟩ := hfin.2 _ _ failure hsev.apart hsev.off hsev.cls hst
              (by rintro _ ⟨⟩; exact hsev.off)
            exact ⟨failure, e, rfl, hsev.keep hl.apart hl.said, hl.stores, hl.off, hl.leaves⟩
          cases res with
          | ok a => exact hcut
          | error e =>
            intro r hr hun
            obtain ⟨N, _, ⟨⟩, hsev, hst, hoff, hleaves⟩ := hcut r hr hun
            exact ⟨N, e, rfl, hsev.addFrame _ _, hst, hoff,
              hleaves.imp_right fun hf => hf.keep (.addFrame _ _ _)⟩
        · intro r hr hun
          obtain ⟨_, ⟨⟩, hsev, hst⟩ := hq r hr hun
          exact ⟨failure, failure, rfl, hsev, hst, hsev.off, .inl rfl⟩

end

/-! ## Off the chain -/

/-- The exception that is handled while a call is made. -/
def AuditCall.handled : AuditCall → Option Exc
  | .complete handled | .intent _ _ _ handled | .operation _ _ _ handled
  | .record _ _ _ handled | .exit _ _ handled => handled

/-- Nothing that was there before has come to reach an exception. -/
def Heap.Unlinked (f : Exc) (h h' : Heap) : Prop :=
  ∀ e : Exc, e.ref < h.length → ¬h.Reaches e f → ¬h'.Reaches e f

/-- The sink's exception `O` is off the chain of an exception that leaves the facade, which is
the normalised error `N` or one for it, and only frames were added to it since `before`. -/
structure OffChain (O N : Exc) (before h : Heap) (e : Exc) : Prop where
  off : ¬h.Reaches e O
  leaves : e = N ∨ Finalisation h e N
  unmutated : Heap.Untouched (fun i => i = O.ref) before h

variable {X : Externals ω}

theorem Apart.offChain {O N e : Exc} {before h₁ h : Heap} (ha : Apart (before.Reaching O) h₁ h)
    (hbefore : Heap.Untouched (fun i => i = O.ref) before h) (he : ¬before.Reaching O e.ref)
    (hl : e = N ∨ Finalisation h e N) : OffChain O N before h e :=
  ⟨ha.agree.not_reaches he .refl, hl, hbefore⟩

theorem Heap.Untouched.self {O : Exc} {before h : Heap}
    (hu : Heap.Untouched (before.Reaching O) before h) :
    Heap.Untouched (fun i => i = O.ref) before h := by
  rintro i o rfl ho
  exact hu O.ref o .refl ho

variable [PyRuntime] {log : AuditLog}

/-- A later `__exit__` raises nothing that reaches the sink's exception, if nothing was linked to
it in between. -/
theorem exit_stored {op : AuditOperation} {exc handled : Option Exc} {O N : Exc} {k : Nat}
    {s s' : AuditState ω} {res : Except Exc Bool} (hO : O.ref < s.memory.1.length)
    (hN : ¬s.memory.1.Reaches N O) (hcls : N.cls = AuditPersistenceError) (hst : Stores s op.ref N)
    (hh : ∀ f, handled = some f → ¬s.memory.1.Reaches f O)
    (h : (op.exit log exc handled).Runs (auditSem X k) s res s') {e : Exc} (he : res = .error e) :
    OffChain O N s.memory.1 s'.memory.1 e := by
  obtain ⟨raised', hw⟩ := exists_watched h []
  have hl := hw.post (wp_exit_stored (Apart.reaching hO) hN hcls hst hh) e he
  exact hl.apart.offChain hl.apart.untouched.self hl.off hl.leaves

/-- What the facade makes of an exception that its sink raised in a call: the call raises, and
later exits from the block of its handle may raise again. -/
structure SinkRaise.KeptOff (log : AuditLog) (X : Externals ω) (r : SinkRaise) (c : AuditCall)
    (res : Except Exc AuditValue) (s : AuditState ω) (N : Exc) : Prop where
  /-- The sink's exception is off the chain of the one that leaves the call. -/
  raised : ∃ e, res = .error e ∧ OffChain r.exc N r.heap s.memory.1 e
  /-- The normalised error holds it, and the operation id. -/
  normalised : ∃ o, s.memory.1[N.ref]? = some o ∧ o.cls = AuditPersistenceError ∧
    o.sinkFailure = some r.exc ∧ o.operationId = r.record.operationId
  /-- The handle stores the normalised error, and it is off the chain of what a later exit raises,
  if nothing was linked to it in between and the exception handled then does not reach it. -/
  later : ∀ op, c.on = some op → Stores s op.ref N ∧
    ∀ (s₁ s₂ : AuditState ω) (j : Nat) (exc handled : Option Exc) (res' : Except Exc Bool),
      s₁.cells op.ref = s.cells op.ref → r.exc.ref < s₁.memory.1.length →
      s.memory.1.Unlinked r.exc s₁.memory.1 →
      (∀ f, handled = some f → ¬s₁.memory.1.Reaches f r.exc) →
      (op.exit log exc handled).Runs (auditSem X j) s₁ res' s₂ →
      ∀ e, res' = .error e → OffChain r.exc N s₁.memory.1 s₂.memory.1 e

theorem Severed.keptOff {c : AuditCall} {r : SinkRaise} {s : Watched ω} {N e : Exc}
    (hsev : Severed r r.record.operationId N s.heap) (hoff : ¬r.heap.Reaching r.exc e.ref)
    (hleaves : e = N ∨ Finalisation s.heap e N)
    (hst : ∀ op, c.on = some op → Stores s.state op.ref N) :
    r.KeptOff log X c (.error e) s.state N := by
  obtain ⟨o, ho, hsaid⟩ := hsev.normal
  have hN : ¬s.heap.Reaches N r.exc := hsev.apart.agree.not_reaches hsev.off .refl
  refine ⟨⟨e, rfl, hsev.apart.offChain hsev.apart.untouched.self hoff hleaves⟩, ?_, ?_⟩
  · exact ⟨o, ho, congrArg ExcObj.cls hsaid, congrArg ExcObj.sinkFailure hsaid,
      congrArg ExcObj.operationId hsaid⟩
  · intro op hon
    refine ⟨hst op hon, fun s₁ s₂ j exc handled res hcell hO hunl hh hrun e he => ?_⟩
    have hst₁ : Stores s₁ op.ref N := by
      rw [Stores, hcell]
      exact hst op hon
    exact exit_stored hO (hunl N (List.getElem?_eq_some_iff.mp ho).1 hN) hsev.cls hst₁ hh hrun he

omit [PyRuntime] in
/-- What a call that returns a value of its own comes to. -/
theorem Cut.post {α : Type} {k : Nat} {s s' : Watched ω} {p : AuditProg α} {f : α → AuditValue}
    {handled : Option Exc} {Q : SinkRaise → Except Exc α → Watched ω → Prop}
    {res : Except Exc AuditValue} (hp : p.wp (watchSem X k) s (Cut handled Q))
    (h : (p >>= fun a => .ret (f a)).Runs (watchSem X k) s res s') {r : SinkRaise}
    (hr : r ∈ s'.raised) (hun : r.Unreached handled) : ∃ res₀, res = res₀.map f ∧ Q r res₀ s' := by
  have hcall : (p >>= fun a => .ret (f a)).wp (watchSem X k) s fun res s' =>
      ∀ r ∈ s'.raised, r.Unreached handled → ∃ res₀, res = res₀.map f ∧ Q r res₀ s' := by
    rw [Prog.wp_bind]
    refine Prog.wp_mono hp fun res₀ s' hq => ?_
    cases res₀ with
    | ok a => exact fun r hr hun => ⟨.ok a, rfl, hq r hr hun⟩
    | error e => exact fun r hr hun => ⟨.error e, rfl, hq r hr hun⟩
  exact h.post hcall r hr hun

/-- **A sink's persistence exception stays off the chain** of all that leaves the facade as a
consequence. -/
theorem AuditLog.off_chain {c : AuditCall} {i : Nat} {s : AuditState ω} {s' : Watched ω}
    {res : Except Exc AuditValue}
    (h : (log.call c).Runs (watchSem X (c.key i)) ⟨s, []⟩ res s') {r : SinkRaise}
    (hr : r ∈ s'.raised) (hun : r.Unreached c.handled) : ∃ N, r.KeptOff log X c res s'.state N := by
  have made : ∀ {res₀ : Except Exc AuditOperation}, c.on = none →
      res = res₀.map AuditValue.handle → Normalises r res₀ s' →
      ∃ N, r.KeptOff log X c res s'.state N := by
    rintro _ hon rfl ⟨N, rfl, hsev⟩
    exact ⟨N, hsev.keptOff hsev.off (.inl rfl) fun op h => nomatch hon.symm.trans h⟩
  cases c with
  | complete handled =>
    have hsilent : Silent X i (AuditLog.complete handled) fun _ => True := by
      refine .op (fun _ _ => rfl) fun atomic => ?_
      show Silent X i (if _ then _ else _) _
      split
      · exact .raiseNew
      · exact .raiseNew
    have hraised := h.post ((hsilent.bind fun _ _ => .ret trivial) ⟨s, []⟩ : Prog.wp _ _ _ fun _ s' =>
      s'.raised = [] ∧ ∀ a, _ → True)
    rw [hraised.1] at hr
    cases hr
  | intent event actor kw handled =>
    obtain ⟨res₀, hres, hq⟩ := Cut.post (cut_intent rfl) h hr hun
    exact made rfl hres hq
  | operation event actor kw handled =>
    obtain ⟨res₀, hres, hq⟩ := Cut.post (cut_operation rfl) h hr hun
    exact made rfl hres hq
  | record op outcome kw handled =>
    obtain ⟨res₀, rfl, N, rfl, hsev, hst⟩ := Cut.post (f := fun _ => .none) (cut_record rfl) h hr hun
    exact ⟨N, hsev.keptOff hsev.off (.inl rfl) fun op' h => (by cases h; exact hst)⟩
  | exit op exc handled =>
    obtain ⟨res₀, rfl, N, e, rfl, hsev, hst, hoff, hl⟩ := Cut.post (cut_exit rfl) h hr hun
    exact ⟨N, hsev.keptOff hoff hl fun op' h => (by cases h; exact hst)⟩

/-! ## A failing sink -/

omit [PyRuntime]

/-- A sink that raises an `AuditPersistenceError` with a text of its own. -/
def failing : ScriptedExternals Nat where
  clock _ m := (.ok firstHour, m)
  factory _ m := (.ok (.str (natText m.2)), m.1, m.2 + 1)
  sink _ _ m :=
    (.error (m.1.alloc (.ofError ⟨AuditPersistenceError, lit "secret"⟩)).1,
      (m.1.alloc (.ofError ⟨AuditPersistenceError, lit "secret"⟩)).2, m.2)

/-- The answer of an operation, watched. -/
def ScriptedExternals.watch {ω : Type} (F : ScriptedExternals ω) (k : Nat) (s : Watched ω) (o : AuditOp) :
    Option (auditSig.Ret o × Watched ω) :=
  (F.answer k s.state o).map fun (r, state) =>
    (r, ⟨state, s.raised ++ sinkRaises state.memory.1 ⟨o, r⟩⟩)

theorem ScriptedExternals.step_of_watch {ω : Type} {F : ScriptedExternals ω} {k : Nat}
    {s s' : Watched ω} {o : AuditOp} {r : auditSig.Ret o} (h : F.watch k s o = some (r, s')) :
    (watchSem F.externals k).step s o r s' := by
  obtain ⟨⟨r', state⟩, ha, heq⟩ := Option.map_eq_some_iff.mp h
  cases heq
  exact ⟨step_of_answer ha, rfl⟩

/-- An intent that the failing sink refuses. -/
theorem AuditLog.off_chain_failing : ∃ (r : SinkRaise) (res : Except Exc AuditValue)
    (s' : Watched Nat) (N : Exc), r ∈ s'.raised ∧
    @SinkRaise.KeptOff Nat PyRuntime.plain userLog failing.externals r
      (.intent (.str (lit "user.created")) (.str (lit "alice")) .empty none) res s'.state N := by
  obtain ⟨res, s', r, hrun, hraised, hpers, hobj⟩ : ∃ (res : Except Exc AuditValue) (s' : Watched Nat)
      (r : SinkRaise),
      (@AuditLog.call PyRuntime.plain userLog
        (.intent (.str (lit "user.created")) (.str (lit "alice")) .empty none)).run?
        (failing.watch 0) ⟨{ memory := ([], 0) }, []⟩ = some (res, s') ∧ s'.raised = [r] ∧
      r.exc.isA .auditPersistenceError = true ∧ r.exc.ref < r.heap.length :=
    ⟨_, _, _, rfl, rfl, rfl, by decide⟩
  have hr : r ∈ s'.raised := by rw [hraised]; exact List.mem_singleton_self r
  obtain ⟨N, hN⟩ := @AuditLog.off_chain Nat failing.externals PyRuntime.plain userLog
    (.intent (.str (lit "user.created")) (.str (lit "alice")) .empty none) 0 { memory := ([], 0) } s' res
    (Prog.runs_run? ScriptedExternals.step_of_watch hrun) r hr ⟨hpers, hobj, by rintro _ ⟨⟩⟩
  exact ⟨r, res, s', N, hr, hN⟩

end NmLogging
