import NmLogging.AuditRules
import NmLogging.Framework.Cells

/-!
# One audited operation

What a call sees of the state of a run is its own operation: the attributes of the handle,
and the calls of the sink and of the id factory made on its behalf (`OperationView`).
`cellSem` is the facade's semantics on that view, with what each operation may assume; in
particular a handle leaves `OPEN` once, an INTENT is appended first, and an OUTCOME is
appended by an open handle with one append before it.

`History` lists the histories that an operation can have, and every operation that is
allowed keeps them (`History.moves`). A handle that is no longer open stays as it is, and
nothing more is appended for it (`OperationView.Terminal.moves`).
-/

namespace NmLogging

/-- A record of an operation: it has the operation's id, event, category and actor. -/
structure AuditRecord.BelongsTo (record : AuditRecord) (op : AuditOperation) : Prop where
  operationId : record.operationId = op.operationId
  event : record.event = op.event
  category : record.category = op.schema.category.getD .admin
  actor : record.actor = op.actor

/-- What is seen of an operation. -/
structure OperationView where
  cell : Option OperationCell
  appends : List AppendEntry
  ids : List (Nat × PyAtom)

def AuditState.view {ω : Type} (s : AuditState ω) (k : Nat) : OperationView :=
  ⟨s.cells k, s.appends.filter fun a => a.owner = k, s.ids.filter fun i => i.1 = k⟩

/-- What may be assumed of an operation that a call performs for the operation `k`. -/
def OperationView.Allows (k : Nat) (v : OperationView) : AuditOp → Prop
  | .newOperationId _ => v.cell = none ∧ v.appends = [] ∧ v.ids = []
  | .append record _ =>
    v.cell = none ∧ v.appends = [] ∧ v.ids = [(k, record.operationId)] ∧ record.stage = .intent ∨
      ∃ cell, v.cell = some cell ∧ cell.state = .OPEN ∧ v.appends.length = 1 ∧
        record.stage = .outcome ∧ record.BelongsTo cell.op
  | .handle (.newHandle event schema actor id) =>
    v.cell = none ∧ v.ids = [(k, id)] ∧ ∃ record : AuditRecord, v.appends = [⟨k, record, .ok ()⟩] ∧
      record.stage = .intent ∧ record.BelongsTo ⟨k, event, schema, actor, id⟩
  | .handle (.setState ref state) =>
    ref = k ∧ state ≠ .OPEN ∧ (∃ cell, v.cell = some cell ∧ cell.state = .OPEN) ∧
      (state = .FINALISED ↔ ∃ a b, v.appends = [a, b] ∧ b.result = .ok ())
  | .handle o => o.ref k = k
  | _ => True

/-- What operations do to the view of their operation, with what is known of the clock. -/
def cellSem (clock : Except Exc Datetime → Prop) (k : Nat) : Semantics auditSig OperationView where
  pre := OperationView.Allows k
  step v
    | .now _, r, v' => v' = v ∧ clock r
    | .newOperationId _, r, v' => v' = { v with ids := v.ids ++ issued k r }
    | .append record _, r, v' => v' = { v with appends := v.appends ++ [⟨k, record, r⟩] }
    | .supportsAtomic, _, v' => v' = v
    | .heap o, r, v' => v' = v ∧ o.Answers r
    | .handle o, r, v' => ∃ cell, o.apply k v.cell = some (r, cell) ∧ v' = { v with cell := some cell }

section

variable {clock : Except Exc Datetime → Prop} {k : Nat}

theorem quiet_cellSem : Quiet (cellSem clock k) clock where
  heap_pre _ _ := trivial
  heap_step h := h
  now_pre _ _ := trivial
  now_step h := h
  atomic_pre _ := trivial
  atomic_step h := h

theorem OperationView.Allows.ref {v : OperationView} {o : HandleOp} (h : v.Allows k (.handle o)) :
    o.ref k = k := by
  cases o with
  | newHandle => rfl
  | setState => exact h.1
  | getState => exact h
  | getFailure => exact h
  | setFailure => exact h
  | setAsContextManager => exact h

variable {ω : Type} {X : Externals ω} {s s' : AuditState ω}

/-- The operations of a call do to its own view what `cellSem` says. -/
theorem auditStep_view (hX : ∀ {handled m r m'}, X.clock handled m r m' → clock r) {o : AuditOp}
    {r : auditSig.Ret o} (hp : (s.view k).Allows k o) (h : auditStep X k s o r s') :
    (cellSem clock k).step (s.view k) o r (s'.view k) := by
  cases o with
  | now handled =>
    obtain ⟨m, hm, rfl⟩ := h
    exact ⟨rfl, hX hm⟩
  | newOperationId handled =>
    obtain ⟨m, -, rfl⟩ := h
    have hids : (issued k r).filter (fun i => i.1 = k) = issued k r := by
      cases (r : Except Exc PyAtom) <;> simp [issued]
    simp only [cellSem, AuditState.view, List.filter_append, hids]
  | append record handled =>
    obtain ⟨m, -, rfl⟩ := h
    simp [cellSem, AuditState.view, List.filter_append]
  | supportsAtomic =>
    obtain ⟨-, rfl⟩ := h
    rfl
  | heap o =>
    obtain ⟨rfl, rfl⟩ := h
    exact ⟨rfl, o.answers_apply _ _⟩
  | handle o =>
    obtain ⟨cell, hcell, rfl⟩ := h
    rw [hp.ref] at hcell
    refine ⟨cell, hcell, ?_⟩
    simp [AuditState.view, hp.ref]

/-- And they do not change the views of other operations. -/
theorem auditStep_other {o : AuditOp} {r : auditSig.Ret o} (hp : (s.view k).Allows k o)
    (h : auditStep X k s o r s') {j : Nat} (hj : j ≠ k) : s'.view j = s.view j := by
  cases o with
  | now handled =>
    obtain ⟨m, -, rfl⟩ := h
    rfl
  | newOperationId handled =>
    obtain ⟨m, -, rfl⟩ := h
    have hids : (issued k r).filter (fun i => i.1 = j) = [] := by
      cases (r : Except Exc PyAtom) <;> simp [issued, Ne.symm hj]
    simp only [AuditState.view, List.filter_append, hids, List.append_nil]
  | append record handled =>
    obtain ⟨m, -, rfl⟩ := h
    simp [AuditState.view, List.filter_append, Ne.symm hj]
  | supportsAtomic =>
    obtain ⟨-, rfl⟩ := h
    rfl
  | heap o =>
    obtain ⟨-, rfl⟩ := h
    rfl
  | handle o =>
    obtain ⟨cell, -, rfl⟩ := h
    simp [AuditState.view, hp.ref, Function.update_of_ne hj]

end

/-! ## Histories -/

/-- The histories of the operation `k`. -/
inductive History (k : Nat) : OperationView → Prop where
  | unused : History k ⟨none, [], []⟩
  | named {id : PyAtom} : History k ⟨none, [], [(k, id)]⟩
  | intended {record : AuditRecord} {r : Except Exc Unit} (stage : record.stage = .intent) :
    History k ⟨none, [⟨k, record, r⟩], [(k, record.operationId)]⟩
  | opened {cell : OperationCell} {record : AuditRecord} (ref : cell.op.ref = k)
    (stage : record.stage = .intent) (belongs : record.BelongsTo cell.op)
    (state : cell.state ≠ .FINALISED) :
    History k ⟨some cell, [⟨k, record, .ok ()⟩], [(k, cell.op.operationId)]⟩
  | recorded {cell : OperationCell} {record record' : AuditRecord} {r : Except Exc Unit}
    (ref : cell.op.ref = k) (stage : record.stage = .intent) (belongs : record.BelongsTo cell.op)
    (stage' : record'.stage = .outcome) (belongs' : record'.BelongsTo cell.op)
    (state : cell.state ≠ .OPEN → (cell.state = .FINALISED ↔ r = .ok ())) :
    History k ⟨some cell, [⟨k, record, .ok ()⟩, ⟨k, record', r⟩], [(k, cell.op.operationId)]⟩

/-- No call is in the middle of recording an outcome. -/
def OperationView.Settled (v : OperationView) : Prop :=
  ∀ cell, v.cell = some cell → (cell.state = .OPEN → v.appends.length = 1) ∧
    (cell.state = .FINALISATION_FAILED → cell.failure.isSome)

/-- A handle that got into a state which it does not leave, and the appends made by then. -/
def OperationView.Terminal (state : OperationState) (op : AuditOperation)
    (appends : List AppendEntry) (v : OperationView) : Prop :=
  ∃ cell, v.cell = some cell ∧ cell.state = state ∧ cell.op = op ∧ v.appends = appends

section

variable {clock : Except Exc Datetime → Prop} {k : Nat} {v v' : OperationView} {o : AuditOp}
  {r : auditSig.Ret o}

/-- Operations on a handle other than `setState` keep what it is a handle of, and its state. -/
theorem HandleOp.apply_some {o : HandleOp} {r : o.Ret} {cell cell' : OperationCell}
    (h : o.apply k (some cell) = some (r, cell')) :
    cell'.op = cell.op ∧ (cell'.state = cell.state ∨ ∃ ref, o = .setState ref cell'.state) := by
  cases o <;> simp only [HandleOp.apply, Option.some.injEq, Prod.mk.injEq, reduceCtorEq] at h <;>
    obtain ⟨-, rfl⟩ := h
  case setState ref st => exact ⟨rfl, .inr ⟨ref, rfl⟩⟩
  all_goals exact ⟨rfl, .inl rfl⟩

theorem HandleOp.apply_none {o : HandleOp} {r : o.Ret} {cell : OperationCell}
    (h : o.apply k none = some (r, cell)) :
    ∃ event schema actor id, o = .newHandle event schema actor id ∧
      cell = { op := ⟨k, event, schema, actor, id⟩ } := by
  cases o <;> simp only [HandleOp.apply, Option.some.injEq, Prod.mk.injEq, reduceCtorEq] at h
  obtain ⟨-, rfl⟩ := h
  exact ⟨_, _, _, _, rfl, rfl⟩

/-- A handle stays. -/
theorem cell_of_step {cell : OperationCell} (hc : v.cell = some cell)
    (hs : (cellSem clock k).step v o r v') : ∃ cell', v'.cell = some cell' ∧ cell'.op = cell.op := by
  cases o with
  | now => obtain ⟨rfl, -⟩ := hs; exact ⟨cell, hc, rfl⟩
  | newOperationId => cases hs; exact ⟨cell, hc, rfl⟩
  | append => cases hs; exact ⟨cell, hc, rfl⟩
  | supportsAtomic => cases hs; exact ⟨cell, hc, rfl⟩
  | heap => obtain ⟨rfl, -⟩ := hs; exact ⟨cell, hc, rfl⟩
  | handle o =>
    obtain ⟨cell', happly, rfl⟩ := hs
    rw [hc] at happly
    exact ⟨cell', rfl, (HandleOp.apply_some happly).1⟩

/-- A handle of the history keeps it as long as its state stays true to the last append. -/
theorem History.setCell {cell cell' : OperationCell} (h : History k v) (hc : v.cell = some cell)
    (hop : cell'.op = cell.op) (hs : cell'.state ≠ .OPEN → (cell'.state = .FINALISED ↔
      ∃ a b, v.appends = [a, b] ∧ b.result = .ok ())) :
    History k { v with cell := some cell' } := by
  cases h with
  | unused => cases hc
  | named => cases hc
  | intended => cases hc
  | @opened cell₀ record ref stage belongs state =>
    cases hc
    rw [← hop] at ref belongs ⊢
    refine .opened ref stage belongs fun hfin => ?_
    obtain ⟨a, b, hab, -⟩ := (hs (by rw [hfin]; decide)).mp hfin
    cases hab
  | @recorded cell₀ record record' r ref stage belongs stage' belongs' state =>
    cases hc
    rw [← hop] at ref belongs belongs' ⊢
    refine .recorded ref stage belongs stage' belongs' fun hne => (hs hne).trans ?_
    constructor
    · rintro ⟨a, b, hab, hb⟩
      cases hab
      exact hb
    · intro hr
      exact ⟨_, _, rfl, hr⟩

/-- The state of a handle of the history is true to the last append. -/
theorem History.finalised_iff {cell : OperationCell} (h : History k v) (hc : v.cell = some cell)
    (hne : cell.state ≠ .OPEN) :
    cell.state = .FINALISED ↔ ∃ a b, v.appends = [a, b] ∧ b.result = .ok () := by
  cases h with
  | unused => cases hc
  | named => cases hc
  | intended => cases hc
  | opened ref stage belongs state =>
    cases hc
    refine ⟨fun h => absurd h state, ?_⟩
    rintro ⟨a, b, hab, -⟩
    cases hab
  | recorded ref stage belongs stage' belongs' state =>
    cases hc
    rw [state hne]
    constructor
    · intro hr
      exact ⟨_, _, rfl, hr⟩
    · rintro ⟨a, b, hab, hb⟩
      cases hab
      exact hb

/-- A history goes on as a history. -/
theorem History.moves (h : History k v) (hp : v.Allows k o) (hs : (cellSem clock k).step v o r v') :
    History k v' := by
  cases o with
  | now handled => obtain ⟨rfl, -⟩ := hs; exact h
  | supportsAtomic => cases hs; exact h
  | heap o => obtain ⟨rfl, -⟩ := hs; exact h
  | newOperationId handled =>
    obtain ⟨hcell, happends, hids⟩ := hp
    obtain ⟨cell, appends, ids⟩ := v
    subst hcell happends hids
    cases hs
    cases (r : Except Exc PyAtom) with
    | ok id => exact .named
    | error e => exact .unused
  | append record handled =>
    cases hs
    rcases hp with ⟨hcell, happends, hids, hstage⟩ | ⟨cell, hcell, hopen, hlen, hstage, hbelongs⟩
    · obtain ⟨cell, appends, ids⟩ := v
      subst hcell happends hids
      exact .intended hstage
    · cases h with
      | unused => cases hcell
      | named => cases hcell
      | intended => cases hcell
      | opened ref stage belongs state =>
        cases hcell
        exact .recorded ref stage belongs hstage hbelongs fun hne => absurd hopen hne
      | recorded => cases hlen
  | handle o =>
    obtain ⟨cell', happly, rfl⟩ := hs
    cases hc : v.cell with
    | none =>
      rw [hc] at happly
      obtain ⟨event, schema, actor, id, rfl, rfl⟩ := HandleOp.apply_none happly
      obtain ⟨-, hids, record, happends, hstage, hbelongs⟩ := hp
      rw [hids, happends]
      exact .opened rfl hstage hbelongs nofun
    | some cell =>
      rw [hc] at happly
      obtain ⟨hop, hstate | ⟨ref, rfl⟩⟩ := HandleOp.apply_some happly
      · refine h.setCell hc hop fun hne => ?_
        rw [hstate] at hne ⊢
        exact h.finalised_iff hc hne
      · exact h.setCell hc hop fun _ => hp.2.2.2

/-- A state other than `OPEN` is not left, and nothing is appended in it. -/
theorem OperationView.Terminal.moves {state : OperationState} {op : AuditOperation}
    {appends : List AppendEntry} (hne : state ≠ .OPEN) (h : v.Terminal state op appends)
    (hp : v.Allows k o) (hs : (cellSem clock k).step v o r v') : v'.Terminal state op appends := by
  obtain ⟨cell, hc, hstate, hop, happends⟩ := h
  cases o with
  | now handled => obtain ⟨rfl, -⟩ := hs; exact ⟨cell, hc, hstate, hop, happends⟩
  | supportsAtomic => cases hs; exact ⟨cell, hc, hstate, hop, happends⟩
  | heap o => obtain ⟨rfl, -⟩ := hs; exact ⟨cell, hc, hstate, hop, happends⟩
  | newOperationId handled =>
    obtain ⟨hnone, -, -⟩ := hp
    rw [hc] at hnone
    cases hnone
  | append record handled =>
    rcases hp with ⟨hnone, -⟩ | ⟨cell', hc', hopen, -⟩
    · rw [hc] at hnone
      cases hnone
    · rw [hc] at hc'
      cases hc'
      exact absurd (hstate.symm.trans hopen) hne
  | handle o =>
    obtain ⟨cell', happly, rfl⟩ := hs
    rw [hc] at happly
    obtain ⟨hop', hstate' | ⟨ref, rfl⟩⟩ := HandleOp.apply_some happly
    · exact ⟨cell', rfl, hstate'.trans hstate, hop'.trans hop, happends⟩
    · obtain ⟨-, -, ⟨cell'', hc'', hopen⟩, -⟩ := hp
      rw [hc] at hc''
      cases hc''
      exact absurd (hstate.symm.trans hopen) hne

end

end NmLogging
