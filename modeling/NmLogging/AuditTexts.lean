import NmLogging.AuditChain
import NmLogging.AuditRules
import NmLogging.Evidence

/-!
# Texts of the sink's exceptions

Two sinks that behave alike but for the texts of exceptions that they raise. Where only the
texts of `AuditPersistenceError`s differ, every exception that leaves the facade has the
same evidence in both runs (`AuditLog.evidence_alike`): such an exception of the sink never
leaves, and nothing that leaves is linked to it. An `EventSchemaError` of the sink leaves as
it is, and its text is rendered (`AuditLog.not_evidence_alike`).

What is seen of both runs is a `Veil`: which objects may differ, and what the handles hold.
The facade's programs are proved on it once (`call_ends`); two runs of a program keep it
(`run_veiled`), and so do two runs of any calls (`TwoRuns.behind`).
-/

namespace NmLogging

/-! ## The veil -/

/-- What is seen of two runs: how many exception objects there are, those whose texts may
differ, and the handles. -/
structure Veil where
  size : Nat
  hidden : Nat → Prop
  cells : Nat → Option OperationCell

namespace Veil

/-- An exception object that is the same in both runs. -/
def Sees (v : Veil) (e : Exc) : Prop := e.ref < v.size ∧ ¬v.hidden e.ref

def SeesAll (v : Veil) (o : Option Exc) : Prop := ∀ e, o = some e → v.Sees e

/-- Objects are added, and no object is hidden that was there. -/
structure Grows (v v' : Veil) : Prop where
  size : v.size ≤ v'.size
  hidden : ∀ i, v'.hidden i → v.hidden i ∨ v.size ≤ i

/-- The failures that handles store are seen. -/
def Kept (v : Veil) : Prop :=
  ∀ ref cell, v.cells ref = some cell → v.SeesAll cell.failure

variable {v v' v'' : Veil}

theorem Grows.refl (v : Veil) : v.Grows v := ⟨Nat.le_refl _, fun _ => .inl⟩

theorem Grows.trans (h : v.Grows v') (h' : v'.Grows v'') : v.Grows v'' where
  size := h.size.trans h'.size
  hidden i hi := by
    rcases h'.hidden i hi with hi | hi
    · exact h.hidden i hi
    · exact .inr (h.size.trans hi)

theorem Sees.grow {e : Exc} (he : v.Sees e) (h : v.Grows v') : v'.Sees e := by
  refine ⟨he.1.trans_le h.size, fun hi => ?_⟩
  rcases h.hidden _ hi with hi | hi
  · exact he.2 hi
  · exact absurd he.1 (by omega)

theorem SeesAll.grow {o : Option Exc} (ho : v.SeesAll o) (h : v.Grows v') : v'.SeesAll o :=
  fun e he => (ho e he).grow h

theorem Kept.grow (hk : v.Kept) (h : v.Grows v') (hc : v'.cells = v.cells) : v'.Kept :=
  fun ref cell hcell => (hk ref cell (hc ▸ hcell)).grow h

theorem seesAll_none : v.SeesAll none := nofun

theorem seesAll_some {e : Exc} (he : v.Sees e) : v.SeesAll (some e) := by
  rintro _ ⟨⟩
  exact he

end Veil

/-- What the operations of a call do to the veil, and what they must not be given: an exception
that is hidden is no cause, and is not handled. -/
def veilSem (k : Nat) : Semantics auditSig Veil where
  pre v
    | .now handled => v.SeesAll handled
    | .newOperationId handled => v.SeesAll handled
    | .append _ handled => v.SeesAll handled
    | .heap (.alloc o) => o.cause = none ∧ o.context = none
    | .heap (.pureError _ _ handled) => v.SeesAll handled
    | .heap (.raise _ cause handled _) => (∀ c, cause = .fromExc c → v.Sees c) ∧ v.SeesAll handled
    | _ => True
  step v
    | .now _, r, v' => v.Grows v' ∧ v'.cells = v.cells ∧ ∀ e, r = .error e → v'.Sees e
    | .newOperationId _, r, v' => v.Grows v' ∧ v'.cells = v.cells ∧ ∀ e, r = .error e → v'.Sees e
    | .append _ _, r, v' => v.Grows v' ∧ v'.cells = v.cells ∧
      ∀ e, r = .error e → e.isA .auditPersistenceError = true ∨ v'.Sees e
    | .heap (.alloc _), r, v' => v.Grows v' ∧ v'.cells = v.cells ∧ v'.Sees r
    | .heap (.pureError _ _ _), r, v' => v.Grows v' ∧ v'.cells = v.cells ∧ v'.Sees r
    | .heap (.raise _ _ _ _), _, v' => v.Grows v' ∧ v'.cells = v.cells
    | .heap (.addFrame _ _), _, v' => v.Grows v' ∧ v'.cells = v.cells
    | .supportsAtomic, _, v' => v' = v
    | .handle o, r, v' => ∃ cell, o.apply k (v.cells (o.ref k)) = some (r, cell) ∧
      v' = { v with cells := Function.update v.cells (o.ref k) (some cell) }

/-- How a program ends: all that handles store is seen, and so is what is raised; from where the
sink is called, it may also be an exception of the sink (`raw`). -/
def Ends {α : Type} (raw : Bool) (v : Veil) (res : Except Exc α) (v' : Veil) : Prop :=
  v.Grows v' ∧ v'.Kept ∧
    ∀ e, res = .error e → (raw = true ∧ e.isA .auditPersistenceError = true) ∨ v'.Sees e

section

variable {k : Nat} {raw : Bool} {v v' v'' : Veil} {α β : Type} {p : AuditProg α}
  {f : α → AuditProg β} {handled : Option Exc}

theorem Ends.trans {res : Except Exc α} (h : v.Grows v') (h' : Ends raw v' res v'') :
    Ends raw v res v'' := ⟨h.trans h'.1, h'.2⟩

theorem ends_ok (a : α) (h : v.Grows v') (hk : v'.Kept) : Ends raw v (.ok a) v' :=
  ⟨h, hk, fun _ he => by cases he⟩

theorem ends_error {e : Exc} (h : v.Grows v') (hk : v'.Kept) (he : v'.Sees e) :
    Ends raw v (.error e : Except Exc α) v' :=
  ⟨h, hk, fun _ h => .inr (by cases h; exact he)⟩

theorem bind_ends (hp : p.wp (veilSem k) v (Ends raw v))
    (hf : ∀ a v', v.Grows v' → v'.Kept → (f a).wp (veilSem k) v' (Ends raw v')) :
    (p >>= f).wp (veilSem k) v (Ends raw v) := by
  rw [Prog.wp_bind]
  refine Prog.wp_mono hp fun res v' h => ?_
  cases res with
  | ok a => exact Prog.wp_mono (hf a v' h.1 h.2.1) fun _ _ h' => h'.trans h.1
  | error e => exact ⟨h.1, h.2.1, fun e' he => h.2.2 e' (by cases he; rfl)⟩

theorem inFrame_ends {loc : CodeLocation} (hp : p.wp (veilSem k) v (Ends raw v)) :
    (inFrame loc p).wp (veilSem k) v (Ends raw v) := by
  rw [inFrame, Prog.wp_elim]
  refine Prog.wp_mono hp fun res v' h => ?_
  cases res with
  | ok a => exact h
  | error e =>
    refine ⟨trivial, fun _ v'' hs => ?_⟩
    refine ⟨h.1.trans hs.1, h.2.1.grow hs.1 hs.2, fun e' he => ?_⟩
    cases he
    exact (h.2.2 e rfl).imp_right fun he => he.grow hs.1

theorem alloc_ends {o : ExcObj} {f : Exc → AuditProg β} {Q : Except Exc β → Veil → Prop}
    (ho : o.cause = none ∧ o.context = none)
    (hf : ∀ e v', v.Grows v' → v'.cells = v.cells → v'.Sees e → (f e).wp (veilSem k) v' Q) :
    (AuditProg.heap (.alloc o) >>= f).wp (veilSem k) v Q := by
  rw [Prog.wp_bind]
  exact ⟨ho, fun e v' hs => hf e v' hs.1 hs.2.1 hs.2.2⟩

theorem pureCall_ends {call : PureCall} {res : Except PyError α} (hk : v.Kept)
    (hh : v.SeesAll handled) : (pureCall call handled res).wp (veilSem k) v (Ends raw v) := by
  cases res with
  | ok a => exact ends_ok a (.refl v) hk
  | error e => exact ⟨hh, fun x v' hs => ends_error hs.1 (hk.grow hs.1 hs.2.1) hs.2.2⟩

theorem raiseExc_ends {e : Exc} {cause : RaiseFrom} {loc : CodeLocation} (hk : v.Kept)
    (he : v.Sees e) (hc : ∀ c, cause = .fromExc c → v.Sees c) (hh : v.SeesAll handled) :
    (raiseExc e cause handled loc : AuditProg α).wp (veilSem k) v (Ends raw v) :=
  ⟨⟨hc, hh⟩, fun _ _ hs => ends_error hs.1 (hk.grow hs.1 hs.2) (he.grow hs.1)⟩

theorem raiseNew_ends {e : PyError} {loc : CodeLocation} (hk : v.Kept) (hh : v.SeesAll handled) :
    (raiseNew e handled loc : AuditProg α).wp (veilSem k) v (Ends raw v) := by
  refine alloc_ends ⟨rfl, rfl⟩ fun x v' hg hc hx => ?_
  exact Prog.wp_mono (raiseExc_ends (hk.grow hg hc) hx (fun c h => by cases h) (hh.grow hg))
    fun _ _ h => h.trans hg

theorem clockNow_ends (hk : v.Kept) (hh : v.SeesAll handled) :
    (clockNow handled).wp (veilSem k) v (Ends raw v) := by
  refine ⟨hh, fun r v' hs => ?_⟩
  cases (r : Except Exc Datetime) with
  | ok t => exact ends_ok t hs.1 (hk.grow hs.1 hs.2.1)
  | error e => exact ends_error hs.1 (hk.grow hs.1 hs.2.1) (hs.2.2 e rfl)

theorem newOperationId_ends (hk : v.Kept) (hh : v.SeesAll handled) :
    (newOperationId handled).wp (veilSem k) v (Ends raw v) := by
  refine ⟨hh, fun r v' hs => ?_⟩
  cases (r : Except Exc PyAtom) with
  | ok id => exact ends_ok id hs.1 (hk.grow hs.1 hs.2.1)
  | error e => exact ends_error hs.1 (hk.grow hs.1 hs.2.1) (hs.2.2 e rfl)

/-- Only the sink raises what may not be seen. -/
theorem sinkAppend_ends {record : AuditRecord} (hk : v.Kept) (hh : v.SeesAll handled) :
    (sinkAppend record handled).wp (veilSem k) v (Ends true v) := by
  refine ⟨hh, fun r v' hs => ?_⟩
  cases (r : Except Exc Unit) with
  | ok u => exact ends_ok u hs.1 (hk.grow hs.1 hs.2.1)
  | error e =>
    refine ⟨hs.1, hk.grow hs.1 hs.2.1, fun e' he => ?_⟩
    cases he
    exact (hs.2.2 e rfl).imp_left fun h => ⟨rfl, h⟩

theorem build_ends {log : AuditLog} {event actor message operationId : PyAtom}
    {category : Category} {stage : Stage} {fields : Dict PyAtom PyObj} {outcome : Option Outcome}
    (hk : v.Kept) (hh : v.SeesAll handled) :
    (log.build event category actor stage fields message operationId outcome handled).wp
      (veilSem k) v (Ends raw v) :=
  bind_ends (inFrame_ends (clockNow_ends hk hh)) fun _ _ hg hk' =>
    inFrame_ends (pureCall_ends hk' (hh.grow hg))

/-! ## Handles -/

/-- The failure of a handle changes only where it is set. -/
theorem failure_of_apply {o : HandleOp} {r : o.Ret} {c : Option OperationCell}
    {cell : OperationCell} (h : o.apply k c = some (r, cell))
    (ho : ∀ ref e, o ≠ .setFailure ref e) :
    cell.failure = none ∨ ∃ cell', c = some cell' ∧ cell.failure = cell'.failure := by
  cases c with
  | none =>
    cases o with
    | newHandle => cases h; exact .inl rfl
    | _ => cases h
  | some cell' =>
    refine .inr ⟨cell', rfl, ?_⟩
    cases o with
    | newHandle => cases h
    | setFailure ref e => exact absurd rfl (ho ref e)
    | _ => cases h; rfl

theorem Veil.Kept.update (hk : v.Kept) {ref : Nat} {cell : OperationCell}
    (hc : v.SeesAll cell.failure) :
    ({ v with cells := Function.update v.cells ref (some cell) } : Veil).Kept := by
  intro ref' cell' h
  have h : Function.update v.cells ref (some cell) ref' = some cell' := h
  by_cases href : ref' = ref
  · subst href
    rw [Function.update_self] at h
    cases h
    exact hc
  · rw [Function.update_of_ne href] at h
    exact hk ref' cell' h

theorem handle_ends {o : HandleOp} (hk : v.Kept) (ho : ∀ ref e, o ≠ .setFailure ref e) :
    (AuditProg.handle o).wp (veilSem k) v (Ends raw v) := by
  refine ⟨trivial, ?_⟩
  rintro r _ ⟨cell, hcell, rfl⟩
  refine ends_ok r ⟨Nat.le_refl _, fun _ => .inl⟩ (hk.update ?_)
  rcases failure_of_apply hcell ho with hf | ⟨cell', hc, hf⟩
  · rw [hf]
    exact Veil.seesAll_none
  · rw [hf]
    exact hk _ cell' hc

theorem failure_of_setFailure {ref : Nat} {e : Exc} {r : Unit} {c : Option OperationCell}
    {cell : OperationCell} (h : (HandleOp.setFailure ref e).apply k c = some (r, cell)) :
    cell.failure = some e := by
  cases c with
  | none => cases h
  | some c =>
    cases h
    rfl

/-- The failure that a handle stores. -/
theorem getFailure_ends {ref : Nat} {f : Option Exc → AuditProg β} (hk : v.Kept)
    (hf : ∀ failure, v.SeesAll failure → (f failure).wp (veilSem k) v (Ends raw v)) :
    (AuditProg.handle (.getFailure ref) >>= f).wp (veilSem k) v (Ends raw v) := by
  rw [Prog.wp_bind]
  refine ⟨trivial, ?_⟩
  rintro r _ ⟨cell, hcell, rfl⟩
  cases hc : v.cells ref with
  | none =>
    have hnone : HandleOp.apply k (.getFailure ref) none = some (r, cell) := hc ▸ hcell
    cases hnone
  | some c =>
    have hsome : HandleOp.apply k (.getFailure ref) (some c) = some (r, cell) := hc ▸ hcell
    cases hsome
    have hsame : Function.update v.cells ref (some cell) = v.cells := by
      rw [← hc]
      exact Function.update_eq_self _ _
    show (f cell.failure).wp (veilSem k)
      { v with cells := Function.update v.cells ref (some cell) } _
    rw [hsame]
    exact hf _ (hk ref cell hc)

/-! ## Methods -/

variable [PyRuntime] {log : AuditLog}

omit [PyRuntime] in
/-- Raising the normalised error. -/
theorem normalised_ends {id : PyAtom} {original : Exc} {loc : CodeLocation} (hk : v.Kept)
    (hh : v.SeesAll handled) :
    ((do
      let normalized ← normalizedPersistenceError id original
      raiseExc normalized .fromNone handled loc) : AuditProg α).wp (veilSem k) v (Ends raw v) := by
  refine alloc_ends ⟨rfl, rfl⟩ fun x v' hg hc hx => ?_
  exact Prog.wp_mono (raiseExc_ends (hk.grow hg hc) hx (fun c h => by cases h) (hh.grow hg))
    fun _ _ h => h.trans hg

theorem intent_ends {event actor : PyAtom} {kw : Keywords AuditLog.methodParams} (hk : v.Kept)
    (hh : v.SeesAll handled) :
    (log.intent event actor kw handled).wp (veilSem k) v (Ends false v) := by
  refine bind_ends (inFrame_ends (pureCall_ends hk hh)) fun schema v₁ hg₁ hk₁ => ?_
  have hh₁ := hh.grow hg₁
  refine bind_ends (inFrame_ends (pureCall_ends hk₁ hh₁)) fun validated v₂ hg₂ hk₂ => ?_
  have hh₂ := hh₁.grow hg₂
  refine bind_ends (inFrame_ends (pureCall_ends hk₂ hh₂)) fun message v₃ hg₃ hk₃ => ?_
  have hh₃ := hh₂.grow hg₃
  refine bind_ends (inFrame_ends (newOperationId_ends hk₃ hh₃)) fun id v₄ hg₄ hk₄ => ?_
  have hh₄ := hh₃.grow hg₄
  refine bind_ends (inFrame_ends (build_ends hk₄ hh₄)) fun record v₅ hg₅ hk₅ => ?_
  have hh₅ := hh₄.grow hg₅
  show Prog.wp _ (Prog.elim _ _ _) _ _
  rw [Prog.wp_elim]
  refine Prog.wp_mono (inFrame_ends (sinkAppend_ends hk₅ hh₅)) fun res v₆ h => ?_
  cases res with
  | ok u => exact Prog.wp_mono (handle_ends h.2.1 nofun) fun _ _ h' => h'.trans h.1
  | error e =>
    show Prog.wp _ (if _ then _ else _) _ _
    split
    · exact Prog.wp_mono (normalised_ends h.2.1 (hh₅.grow h.1)) fun _ _ h' => h'.trans h.1
    · rename_i hne
      rcases h.2.2 e rfl with ⟨-, hp⟩ | he
      · exact absurd hp hne
      · exact ends_error h.1 h.2.1 he

theorem operation_ends {event actor : PyAtom} {kw : Keywords AuditLog.methodParams} (hk : v.Kept)
    (hh : v.SeesAll handled) :
    (log.operation event actor kw handled).wp (veilSem k) v (Ends false v) := by
  refine bind_ends (inFrame_ends (pureCall_ends hk hh)) fun schema v₁ hg₁ hk₁ => ?_
  have hh₁ := hh.grow hg₁
  show Prog.wp _ (if _ then _ else _) _ _
  split
  · exact raiseNew_ends hk₁ hh₁
  · refine bind_ends (inFrame_ends (intent_ends hk₁ hh₁)) fun op v₂ hg₂ hk₂ => ?_
    exact bind_ends (handle_ends hk₂ nofun) fun _ v₃ _ hk₃ => ends_ok op (.refl v₃) hk₃

variable {op : AuditOperation}

theorem appendOutcome_ends {outcome : Outcome} {fields : Dict PyAtom PyObj} (hk : v.Kept)
    (hh : v.SeesAll handled) :
    (log.appendOutcome op outcome fields handled).wp (veilSem k) v (Ends true v) := by
  refine bind_ends (inFrame_ends (pureCall_ends hk hh)) fun validated v₁ hg₁ hk₁ => ?_
  have hh₁ := hh.grow hg₁
  refine bind_ends (inFrame_ends (pureCall_ends hk₁ hh₁)) fun message v₂ hg₂ hk₂ => ?_
  have hh₂ := hh₁.grow hg₂
  refine bind_ends (inFrame_ends (build_ends hk₂ hh₂)) fun record v₃ hg₃ hk₃ => ?_
  exact inFrame_ends (sinkAppend_ends hk₃ (hh₂.grow hg₃))

/-- What the sink raised is stored before it is looked at, and is replaced where it may not be
seen. -/
theorem finalise_ends {outcome : Outcome} {fields : Dict PyAtom PyObj} (hk : v.Kept)
    (hh : v.SeesAll handled) :
    (op.finalise log outcome fields handled).wp (veilSem k) v (Ends false v) := by
  refine bind_ends (handle_ends hk nofun) fun state v₁ hg₁ hk₁ => ?_
  have hh₁ := hh.grow hg₁
  show Prog.wp _ (if _ then _ else _) _ _
  split
  · exact raiseNew_ends hk₁ hh₁
  show Prog.wp _ (Prog.elim _ _ _) _ _
  rw [Prog.wp_elim]
  refine Prog.wp_mono (inFrame_ends (appendOutcome_ends hk₁ hh₁)) fun res v₂ h => ?_
  have hh₂ := hh₁.grow h.1
  cases res with
  | ok u => exact Prog.wp_mono (handle_ends h.2.1 nofun) fun _ _ h' => h'.trans h.1
  | error e =>
    refine Prog.wp_mono (Q := Ends false v₂) (bind_ends (handle_ends h.2.1 nofun)
      fun _ v₃ hg₃ hk₃ => ?_) fun _ _ h' => h'.trans h.1
    have hh₃ := hh₂.grow hg₃
    rw [Prog.wp_bind]
    refine ⟨trivial, ?_⟩
    rintro _ _ ⟨cell, hcell, rfl⟩
    have hfailure : cell.failure = some e := failure_of_setFailure hcell
    show Prog.wp _ (if _ then _ else _) _ _
    split
    · refine alloc_ends ⟨rfl, rfl⟩ fun x v₄ hg₄ hc₄ hx => ?_
      rw [Prog.wp_bind]
      refine ⟨trivial, ?_⟩
      rintro _ _ ⟨cell', hcell', rfl⟩
      have hk₄ : ({ v₄ with cells := v₃.cells } : Veil).Kept :=
        hk₃.grow ⟨hg₄.size, hg₄.hidden⟩ rfl
      have hk₅ :
          ({ v₄ with cells := Function.update v₃.cells op.ref (some cell') } : Veil).Kept := by
        refine hk₄.update ?_
        rw [failure_of_setFailure hcell']
        exact Veil.seesAll_some hx
      have hg₅ : v₃.Grows { v₄ with cells := Function.update v₃.cells op.ref (some cell') } :=
        ⟨hg₄.size, hg₄.hidden⟩
      have hcells : Function.update v₄.cells op.ref (some cell') =
          Function.update v₃.cells op.ref (some cell') := by
        rw [hc₄]
        exact Function.update_idem ..
      show Prog.wp _ (raiseExc _ _ _ _)
        { v₄ with cells := Function.update v₄.cells op.ref (some cell') } _
      rw [hcells]
      exact Prog.wp_mono (raiseExc_ends hk₅ hx (fun c h => by cases h) (hh₃.grow hg₅))
        fun _ _ h' => h'.trans hg₅
    · rename_i hne
      rcases h.2.2 e rfl with ⟨-, hp⟩ | he
      · exact absurd hp hne
      · have he₃ := he.grow hg₃
        refine ends_error ⟨Nat.le_refl _, fun _ => .inl⟩ (hk₃.update ?_) he₃
        rw [hfailure]
        exact Veil.seesAll_some he₃

theorem record_ends {outcome : Outcome} {kw : Keywords AuditOperation.methodParams} (hk : v.Kept)
    (hh : v.SeesAll handled) :
    (op.record log outcome kw handled).wp (veilSem k) v (Ends false v) := by
  cases outcome
  all_goals exact inFrame_ends (finalise_ends hk hh)

omit [PyRuntime] in
theorem raiseFinalisationError_ends {body : Exc} (hk : v.Kept) (hh : v.SeesAll handled) :
    (op.raiseFinalisationError body handled : AuditProg α).wp (veilSem k) v (Ends raw v) := by
  refine getFailure_ends hk fun failure hf => ?_
  refine alloc_ends ⟨rfl, rfl⟩ fun x v' hg hc hx => ?_
  have hk' := hk.grow hg hc
  have raised : ∀ {cause : RaiseFrom} {loc : CodeLocation}, (∀ c, cause = .fromExc c → v.Sees c) →
      (raiseExc x cause handled loc : AuditProg α).wp (veilSem k) v' (Ends raw v) := by
    intro cause loc hcause
    exact Prog.wp_mono (raiseExc_ends hk' hx (fun c h => (hcause c h).grow hg) (hh.grow hg))
      fun _ _ h => h.trans hg
  cases failure with
  | none => exact raised fun c h => by cases h
  | some cause =>
    show Prog.wp _ (if _ then _ else _) _ _
    split
    · exact raised fun c h => by cases h; exact hf _ rfl
    · exact raised fun c h => by cases h

theorem exit_ends {exc : Option Exc} (hk : v.Kept) (hh : v.SeesAll handled) :
    (op.exit log exc handled).wp (veilSem k) v (Ends false v) := by
  refine bind_ends (handle_ends hk nofun) fun state v₁ hg₁ hk₁ => ?_
  have hh₁ := hh.grow hg₁
  cases (state : OperationState) with
  | FINALISED => exact ends_ok false (.refl v₁) hk₁
  | FINALISATION_FAILED =>
    cases exc with
    | none =>
      refine getFailure_ends hk₁ fun failure hf => ?_
      cases failure with
      | none => exact raiseNew_ends hk₁ hh₁
      | some f => exact raiseExc_ends hk₁ (hf f rfl) (fun c h => by cases h) hh₁
    | some e =>
      refine getFailure_ends hk₁ fun failure hf => ?_
      show Prog.wp _ (if _ then _ else _) _ _
      split
      · exact ends_ok false (.refl v₁) hk₁
      · exact inFrame_ends (raiseFinalisationError_ends hk₁ hh₁)
  | OPEN =>
    cases exc with
    | none => exact raiseNew_ends hk₁ hh₁
    | some e =>
      show Prog.wp _ (Prog.elim _ _ _) _ _
      rw [Prog.wp_elim]
      refine Prog.wp_mono (inFrame_ends (inFrame_ends (finalise_ends hk₁ hh₁))) fun res v₂ h => ?_
      cases res with
      | ok u => exact ends_ok false h.1 h.2.1
      | error failure =>
        have hfailure : v₂.Sees failure := by
          rcases h.2.2 failure rfl with ⟨hraw, -⟩ | hs
          · cases hraw
          · exact hs
        show Prog.wp _ (if _ then _ else _) _ _
        split
        · exact Prog.wp_mono (inFrame_ends (raiseFinalisationError_ends h.2.1
            (Veil.seesAll_some hfailure))) fun _ _ h' => h'.trans h.1
        · exact ends_error h.1 h.2.1 hfailure

/-- Every call of the facade. -/
theorem call_ends {c : AuditCall} (hk : v.Kept) (hh : v.SeesAll c.handled) :
    (log.call c).wp (veilSem k) v (Ends false v) := by
  cases c with
  | complete handled =>
    refine bind_ends ?_ fun _ v₁ _ hk₁ => ends_ok _ (.refl v₁) hk₁
    rw [AuditLog.complete, Prog.wp_bind]
    refine ⟨trivial, ?_⟩
    rintro _ _ rfl
    show Prog.wp _ (if _ then _ else _) _ _
    split
    · exact raiseNew_ends hk hh
    · exact raiseNew_ends hk hh
  | intent event actor kw handled =>
    exact bind_ends (intent_ends hk hh) fun _ v₁ _ hk₁ => ends_ok _ (.refl v₁) hk₁
  | operation event actor kw handled =>
    exact bind_ends (operation_ends hk hh) fun _ v₁ _ hk₁ => ends_ok _ (.refl v₁) hk₁
  | record op outcome kw handled =>
    exact bind_ends (record_ends hk hh) fun _ v₁ _ hk₁ => ends_ok _ (.refl v₁) hk₁
  | exit op exc handled =>
    exact bind_ends (exit_ends hk hh) fun _ v₁ _ hk₁ => ends_ok _ (.refl v₁) hk₁

end

/-! ## Two runs -/

variable {ω ω' : Type}

/-- The references of a heap that are not shared: of the objects in `T`, and those without an
object. -/
def Heap.Beyond (h : Heap) (T : Nat → Prop) (i : Nat) : Prop := T i ∨ h.length ≤ i

/-- Two heaps that differ in the texts of the objects in `T` at most, to which no other object
links. Every link leads to an object. -/
structure Heap.Alike (T : Nat → Prop) (h h' : Heap) : Prop where
  agree : h.Agree (h.Beyond T) h'
  bounded : ∀ i, T i → i < h.length

/-- Two memories that differ in these texts at most, where the worlds outside are alike. -/
structure SameBut (R : ω → ω' → Prop) (T : Nat → Prop) (m : Heap × ω) (m' : Heap × ω') : Prop where
  heaps : m.1.Alike T m'.1
  world : R m.2 m'.2

/-- An exception that there is, with the same text in both memories. -/
def Shared (T : Nat → Prop) (h : Heap) (e : Exc) : Prop := e.ref < h.length ∧ ¬T e.ref

/-- Two calls of an object outside, in memories that are the same but for `T`: they return or
raise the same, and leave memories that are the same but for the texts of objects in `T` and
of new ones. Only an exception that may `differ` can be one of these. -/
def AnswersAlike {α : Type} (R : ω → ω' → Prop) (differ : Exc → Prop) (T : Nat → Prop)
    (m : Heap × ω) (q : Except Exc α × (Heap × ω)) (q' : Except Exc α × (Heap × ω')) : Prop :=
  q.1 = q'.1 ∧ ∃ T', SameBut R T' q.2 q'.2 ∧ m.1.length ≤ q.2.1.length ∧
    (∀ i, T' i → T i ∨ m.1.length ≤ i) ∧ ∀ e, q.1 = .error e → differ e ∨ Shared T' q.2.1 e

/-- Two environments that behave alike but for the texts of exceptions of the sink that may
`differ`. An exception that is handled beneath the facade has no cause. -/
structure AlikeBut (R : ω → ω' → Prop) (differ : Exc → Prop) (F : ScriptedExternals ω)
    (F' : ScriptedExternals ω') : Prop where
  clock : ∀ {T m m' handled}, SameBut R T m m' → (∀ e, handled = some e → Shared T m.1 e) →
    AnswersAlike R (fun _ => False) T m (F.clock handled m) (F'.clock handled m')
  factory : ∀ {T m m' handled}, SameBut R T m m' → (∀ e, handled = some e → Shared T m.1 e) →
    AnswersAlike R (fun _ => False) T m (F.factory handled m) (F'.factory handled m')
  sink : ∀ {T m m' handled} record, SameBut R T m m' → (∀ e, handled = some e → Shared T m.1 e) →
    AnswersAlike R differ T m (F.sink record handled m) (F'.sink record handled m')
  atomic : F.atomic = F'.atomic
  trace : F.trace = F'.trace
  beneath : ∀ call, ∀ o ∈ (F.trace call).beneath, o.cause = none

/-- What is seen of two runs. -/
structure Veiled (R : ω → ω' → Prop) (v : Veil) (s : AuditState ω) (s' : AuditState ω') : Prop where
  same : SameBut R v.hidden s.memory s'.memory
  size : v.size = s.memory.1.length
  cells : s.cells = v.cells
  cells' : s'.cells = v.cells

section

variable {T : Nat → Prop} {h h' : Heap}

/-- A new object at the end of two heaps, which may be one of those whose texts differ. -/
theorem Heap.Agree.push {T' : Nat → Prop} (ha : h.Agree T h') {o o' : ExcObj} (hsame : o.Same o')
    (hsub : ∀ i, T' i → T i) (hnew : ∀ i, T i → T' i ∨ i = h.length)
    (ho : ¬T' h.length → o = o' ∧ o.LinksOutside T') : Agree T' (h ++ [o]) (h' ++ [o']) where
  length := by simp [ha.length]
  equal i hi := by
    by_cases hl : i = h.length
    · subst hl
      rw [List.getElem?_concat_length, ha.length, List.getElem?_concat_length, (ho hi).1]
    · have hT : ¬T i := fun ht => (hnew i ht).elim hi hl
      simp only [List.getElem?_append, ← ha.length, ha.equal i hT, List.getElem?_singleton]
      split
      · rfl
      · rw [if_neg (by omega), if_neg (by omega)]
  same i p p' hp hp' := by
    simp only [List.getElem?_append, ← ha.length] at hp hp'
    split at hp
    · rename_i hlt
      rw [if_pos hlt] at hp'
      exact ha.same i p p' hp hp'
    · rename_i hlt
      rw [if_neg hlt] at hp'
      rw [List.getElem?_singleton] at hp hp'
      split at hp
      · rename_i h0
        rw [if_pos h0] at hp'
        cases hp
        cases hp'
        exact hsame
      · cases hp
  outside i p hi hp := by
    rcases getElem?_concat hp with hp | ⟨rfl, rfl⟩
    · have hlen := (List.getElem?_eq_some_iff.mp hp).1
      have hT : ¬T i := fun ht => (hnew i ht).elim hi hlen.ne
      obtain ⟨hc, hx⟩ := ha.outside i p hT hp
      exact ⟨fun e he ht => hc e he (hsub _ ht), fun e he ht => hx e he (hsub _ ht)⟩
    · exact (ho hi).2

theorem Heap.Alike.shared (e : Exc) : ¬h.Beyond T e.ref ↔ Shared T h e := by
  rw [Heap.Beyond, not_or, Nat.not_le, and_comm]
  rfl

/-- A new object that is the same in both, and links to shared ones only. -/
theorem Heap.Alike.alloc (ha : h.Alike T h') {o : ExcObj} (ho : o.LinksOutside (h.Beyond T)) :
    (h.alloc o).1 = (h'.alloc o).1 ∧ Alike T (h.alloc o).2 (h'.alloc o).2 ∧
      Shared T (h.alloc o).2 (h.alloc o).1 := by
  have hlen : (h.alloc o).2.length = h.length + 1 := by simp [Heap.alloc]
  have hsub : ∀ i, (h.alloc o).2.Beyond T i → h.Beyond T i := by
    rintro i (hi | hi)
    · exact .inl hi
    · exact .inr (by omega)
  refine ⟨by simp only [Heap.alloc, ha.agree.length],
    ⟨ha.agree.push (.refl o) hsub ?_ ?_, ?_⟩, ?_, ?_⟩
  · rintro i (hi | hi)
    · exact .inl (.inl hi)
    · by_cases hl : i = h.length
      · exact .inr hl
      · exact .inl (.inr (by omega))
  · intro _
    exact ⟨rfl, fun e he ht => ho.1 e he (hsub _ ht), fun e he ht => ho.2 e he (hsub _ ht)⟩
  · exact fun i hi => (ha.bounded i hi).trans_le (by omega)
  · show h.length < (h.alloc o).2.length
    omega
  · exact fun hi => absurd (ha.bounded _ hi) (Nat.lt_irrefl _)

/-- A new object whose texts differ. -/
theorem Heap.Alike.alloc_hidden (ha : h.Alike T h') {o o' : ExcObj} (hsame : o.Same o') :
    Alike (fun i => T i ∨ i = h.length) (h.alloc o).2 (h'.alloc o').2 := by
  have hlen : (h.alloc o).2.length = h.length + 1 := by simp [Heap.alloc]
  refine ⟨ha.agree.push hsame ?_ ?_ fun hn => absurd (.inl (.inr rfl)) hn, ?_⟩
  · rintro i ((hi | rfl) | hi)
    · exact .inl hi
    · exact .inr (Nat.le_refl _)
    · exact .inr (by omega)
  · rintro i (hi | hi)
    · exact .inl (.inl (.inl hi))
    · by_cases hl : i = h.length
      · exact .inr hl
      · exact .inl (.inr (by omega))
  · rintro i (hi | rfl)
    · exact (ha.bounded i hi).trans_le (by omega)
    · omega

theorem Heap.allocChain_cons (h : Heap) (context : Option Exc) (o : ExcObj) (os : List ExcObj) :
    h.allocChain context (o :: os) =
      (h.alloc { o with context := context }).2.allocChain
        (some (h.alloc { o with context := context }).1) os := rfl

theorem Heap.Alike.allocChain (ha : h.Alike T h') {context : Option Exc}
    (hc : ∀ e, context = some e → Shared T h e) {os : List ExcObj}
    (hos : ∀ o ∈ os, o.cause = none) :
    (h.allocChain context os).1 = (h'.allocChain context os).1 ∧
      (h.allocChain context os).2.Alike T (h'.allocChain context os).2 ∧
      h.length ≤ (h.allocChain context os).2.length ∧
      ∀ e, (h.allocChain context os).1 = some e → Shared T (h.allocChain context os).2 e := by
  induction os generalizing h h' context with
  | nil => exact ⟨rfl, ha, Nat.le_refl _, hc⟩
  | cons o os ih =>
    obtain ⟨ho, hos⟩ := List.forall_mem_cons.mp hos
    have hlinks : ({ o with context := context } : ExcObj).LinksOutside (h.Beyond T) :=
      ⟨fun e he => (by cases ho.symm.trans he), fun e he => (Heap.Alike.shared e).mpr (hc e he)⟩
    obtain ⟨href, halike, hshared⟩ := ha.alloc hlinks
    have hlen : (h.alloc { o with context := context }).2.length = h.length + 1 := by
      simp [Heap.alloc]
    have hnew : ∀ e, some (h.alloc { o with context := context }).1 = some e →
        Shared T (h.alloc { o with context := context }).2 e := by
      rintro _ ⟨⟩
      exact hshared
    obtain ⟨h₁, h₂, h₃, h₄⟩ := ih halike hnew hos
    rw [Heap.allocChain_cons, Heap.allocChain_cons, ← href]
    exact ⟨h₁, h₂, by omega, h₄⟩

end

section

variable {R : ω → ω' → Prop} {differ : Exc → Prop} {F : ScriptedExternals ω}
  {F' : ScriptedExternals ω'} {k : Nat} {v : Veil} {s t : AuditState ω} {s' t' : AuditState ω'}

theorem Veiled.shared (hv : Veiled R v s s') {e : Exc} (he : v.Sees e) :
    Shared v.hidden s.memory.1 e := ⟨hv.size ▸ he.1, he.2⟩

/-- What is done to exception objects keeps the veil. -/
theorem heap_veiled {trace : PureCall → PureTrace}
    (hbeneath : ∀ call, ∀ o ∈ (trace call).beneath, o.cause = none) (hv : Veiled R v s s')
    {o : HeapOp} (hp : (veilSem k).pre v (.heap o)) :
    (o.apply trace s.memory.1).1 = (o.apply trace s'.memory.1).1 ∧
      ∃ v', Veiled R v' { s with memory := ((o.apply trace s.memory.1).2, s.memory.2) }
        { s' with memory := ((o.apply trace s'.memory.1).2, s'.memory.2) } ∧
      (veilSem k).step v (.heap o) (o.apply trace s.memory.1).1 v' := by
  have beyond : ∀ {e : Exc}, v.Sees e → ¬s.memory.1.Beyond v.hidden e.ref :=
    fun he => (Heap.Alike.shared _).mpr (hv.shared he)
  have grows : ∀ {n : Nat}, s.memory.1.length ≤ n → v.Grows { v with size := n } :=
    fun hn => ⟨hv.size ▸ hn, fun _ => .inl⟩
  have ha := hv.same.heaps
  cases o with
  | alloc o =>
    obtain ⟨hcause, hcontext⟩ : o.cause = none ∧ o.context = none := hp
    have hlinks : o.LinksOutside (s.memory.1.Beyond v.hidden) :=
      ⟨fun e he => (by rw [hcause] at he; cases he), fun e he => (by rw [hcontext] at he; cases he)⟩
    obtain ⟨href, halike, hshared⟩ := ha.alloc hlinks
    have hlen : (s.memory.1.alloc o).2.length = s.memory.1.length + 1 := by simp [Heap.alloc]
    exact ⟨href, { v with size := (s.memory.1.alloc o).2.length },
      ⟨⟨halike, hv.same.world⟩, rfl, hv.cells, hv.cells'⟩, grows (by omega), rfl, hshared⟩
  | pureError call e handled =>
    obtain ⟨hctx, halike, hle, hctxs⟩ :=
      ha.allocChain (fun e he => hv.shared (hp e he)) (hbeneath call)
    simp only [HeapOp.apply]
    rw [← hctx]
    generalize s.memory.1.allocChain handled (trace call).beneath = c at hctx halike hle hctxs ⊢
    generalize s'.memory.1.allocChain handled (trace call).beneath = c' at hctx halike ⊢
    let o : ExcObj := { ExcObj.ofError e with
      context := c.1
      suppressContext := (trace call).suppress
      traceback := (trace call).frames }
    have hcause : o.cause = none := rfl
    have hlinks : o.LinksOutside (c.2.Beyond v.hidden) :=
      ⟨fun e he => (by rw [hcause] at he; cases he),
        fun e he => (Heap.Alike.shared e).mpr (hctxs e he)⟩
    obtain ⟨href, halike', hshared⟩ := halike.alloc hlinks
    have hlen : (c.2.alloc o).2.length = c.2.length + 1 := by simp [Heap.alloc]
    exact ⟨href, { v with size := (c.2.alloc o).2.length },
      ⟨⟨halike', hv.same.world⟩, rfl, hv.cells, hv.cells'⟩, grows (by omega), rfl, hshared⟩
  | raise e cause handled loc =>
    have hagree := ha.agree.raise e (fun c hc => beyond (hp.1 c hc))
      (fun f hf => beyond (hp.2 f hf)) loc
    have hlen := Heap.length_raise s.memory.1 e cause handled loc
    have hbeyond : (s.memory.1.raise e cause handled loc).Beyond v.hidden =
        s.memory.1.Beyond v.hidden := by
      unfold Heap.Beyond
      rw [hlen]
    exact ⟨rfl, v, ⟨⟨⟨hbeyond ▸ hagree, fun i hi => (ha.bounded i hi).trans_eq hlen.symm⟩,
      hv.same.world⟩, hv.size.trans hlen.symm, hv.cells, hv.cells'⟩, .refl v, rfl⟩
  | addFrame e loc =>
    have hlen : (s.memory.1.addFrame e loc).length = s.memory.1.length := Heap.length_update ..
    have hbeyond : (s.memory.1.addFrame e loc).Beyond v.hidden = s.memory.1.Beyond v.hidden := by
      unfold Heap.Beyond
      rw [hlen]
    exact ⟨rfl, v, ⟨⟨⟨hbeyond ▸ ha.agree.addFrame e loc,
      fun i hi => (ha.bounded i hi).trans_eq hlen.symm⟩, hv.same.world⟩, hv.size.trans hlen.symm,
      hv.cells, hv.cells'⟩, .refl v, rfl⟩

theorem AnswersAlike.veiled {α : Type} {q : Except Exc α × (Heap × ω)}
    {q' : Except Exc α × (Heap × ω')} (h : AnswersAlike R differ v.hidden s.memory q q')
    (hv : Veiled R v s s') :
    q.1 = q'.1 ∧ ∃ v' : Veil, v.Grows v' ∧ v'.cells = v.cells ∧
      (∀ e, q.1 = .error e → differ e ∨ v'.Sees e) ∧ v'.size = q.2.1.length ∧
      SameBut R v'.hidden q.2 q'.2 := by
  obtain ⟨hres, T, hsame, hlen, hgrow, herr⟩ := h
  refine ⟨hres, ⟨q.2.1.length, T, v.cells⟩, ⟨?_, fun i hi => ?_⟩, rfl, herr, rfl, hsame⟩
  · rw [hv.size]
    exact hlen
  · rw [hv.size]
    exact hgrow i hi

/-- What an operation answers is the same in both runs, and the veil is kept. -/
theorem answer_veiled (hF : AlikeBut R (fun e => e.isA .auditPersistenceError = true) F F')
    (hv : Veiled R v s s') {o : AuditOp} {r r' : auditSig.Ret o} (hp : (veilSem k).pre v o)
    (h : F.answer k s o = some (r, t)) (h' : F'.answer k s' o = some (r', t')) :
    r = r' ∧ ∃ v', Veiled R v' t t' ∧ (veilSem k).step v o r v' := by
  have shared : ∀ {handled : Option Exc}, v.SeesAll handled →
      ∀ e, handled = some e → Shared v.hidden s.memory.1 e := fun hh e he => hv.shared (hh e he)
  cases o with
  | now handled =>
    cases h
    cases h'
    obtain ⟨hres, v', hg, hc, herr, hsize, hsame⟩ := (hF.clock hv.same (shared hp)).veiled hv
    exact ⟨hres, v', ⟨hsame, hsize, hv.cells.trans hc.symm, hv.cells'.trans hc.symm⟩, hg, hc,
      fun e he => (herr e he).resolve_left id⟩
  | newOperationId handled =>
    cases h
    cases h'
    obtain ⟨hres, v', hg, hc, herr, hsize, hsame⟩ := (hF.factory hv.same (shared hp)).veiled hv
    exact ⟨hres, v', ⟨hsame, hsize, hv.cells.trans hc.symm, hv.cells'.trans hc.symm⟩, hg, hc,
      fun e he => (herr e he).resolve_left id⟩
  | append record handled =>
    cases h
    cases h'
    obtain ⟨hres, v', hg, hc, herr, hsize, hsame⟩ :=
      (hF.sink record hv.same (shared hp)).veiled hv
    exact ⟨hres, v', ⟨hsame, hsize, hv.cells.trans hc.symm, hv.cells'.trans hc.symm⟩, hg, hc, herr⟩
  | supportsAtomic =>
    cases h
    cases h'
    exact ⟨hF.atomic, v, hv, rfl⟩
  | heap o =>
    cases h
    cases h'
    rw [← hF.trace]
    exact heap_veiled hF.beneath hv hp
  | handle o =>
    obtain ⟨⟨r₁, cell⟩, hcell, heq⟩ := Option.map_eq_some_iff.mp h
    obtain ⟨⟨r₂, cell'⟩, hcell', heq'⟩ := Option.map_eq_some_iff.mp h'
    cases heq
    cases heq'
    rw [hv.cells] at hcell
    rw [hv.cells', hcell] at hcell'
    cases hcell'
    exact ⟨rfl, { v with cells := Function.update v.cells (o.ref k) (some cell) },
      ⟨hv.same, hv.size, by rw [hv.cells], by rw [hv.cells']⟩, cell, hcell, rfl⟩

/-- Two runs of a program end alike, as it ends on the veil. -/
theorem run_veiled (hF : AlikeBut R (fun e => e.isA .auditPersistenceError = true) F F') {α : Type}
    {p : AuditProg α} {res res' : Except Exc α} {Q : Except Exc α → Veil → Prop}
    (hv : Veiled R v s s') (hp : p.wp (veilSem k) v Q)
    (h : p.run? (F.answer k) s = some (res, t)) (h' : p.run? (F'.answer k) s' = some (res', t')) :
    res = res' ∧ ∃ v', Veiled R v' t t' ∧ Q res v' := by
  induction p generalizing s s' v with
  | ret a =>
    cases h
    cases h'
    exact ⟨rfl, v, hv, hp⟩
  | throw e =>
    cases h
    cases h'
    exact ⟨rfl, v, hv, hp⟩
  | op o c ih =>
    obtain ⟨r, s₁, hans, h⟩ := Prog.run?_op_eq_some.mp h
    obtain ⟨r', s₁', hans', h'⟩ := Prog.run?_op_eq_some.mp h'
    obtain ⟨rfl, v₁, hv₁, hstep⟩ := answer_veiled hF hv hp.1 hans hans'
    exact ih r hv₁ (hp.2 _ _ hstep) h h'

end

/-! ## Runs of calls -/

/-- Something the caller does to exceptions, in a memory that is not otherwise touched. -/
def AuditState.onHeap (s : AuditState ω) (o : HeapOp) : AuditState ω :=
  { s with memory := ((o.apply (fun _ => {}) s.memory.1).2, s.memory.2) }

/-- The exception that leaves a call. -/
def leaving {α : Type} : Except Exc α → List Exc
  | .ok _ => []
  | .error e => [e]

variable [PyRuntime]

/-- Two runs of the same calls on a log, one after the other, in two environments. The caller
knows some exceptions from before and those that left the calls (`known`); it makes, raises
and handles exceptions between the calls. -/
inductive TwoRuns (R : ω → ω' → Prop) (log : AuditLog) (F : ScriptedExternals ω)
    (F' : ScriptedExternals ω') :
    List Exc → List (Except Exc AuditValue) → List (Except Exc AuditValue) →
      AuditState ω → AuditState ω' → Prop
  /-- Every link of the exceptions that there are leads to one of them. -/
  | start {known : List Exc} {h : Heap} {w : ω} {w' : ω'} :
    R w w' → (∀ e ∈ known, e.ref < h.length) →
    (∀ (i : Nat) (o : ExcObj), h[i]? = some o → o.LinksOutside fun j => h.length ≤ j) →
    TwoRuns R log F F' known [] [] { memory := (h, w) } { memory := (h, w') }
  | call {known : List Exc} {rs rs' : List (Except Exc AuditValue)} {s t : AuditState ω}
      {s' t' : AuditState ω'} {c : AuditCall} {res res' : Except Exc AuditValue} :
    TwoRuns R log F F' known rs rs' s s' → (∀ e, c.handled = some e → e ∈ known) →
    (log.call c).run? (F.answer (c.key rs.length)) s = some (res, t) →
    (log.call c).run? (F'.answer (c.key rs'.length)) s' = some (res', t') →
    TwoRuns R log F F' (known ++ leaving res) (rs ++ [res]) (rs' ++ [res']) t t'
  | alloc {known : List Exc} {rs rs' : List (Except Exc AuditValue)} {s : AuditState ω}
      {s' : AuditState ω'} {o : ExcObj} :
    TwoRuns R log F F' known rs rs' s s' → o.cause = none → o.context = none →
    TwoRuns R log F F' (known ++ [(s.memory.1.alloc o).1]) rs rs' (s.onHeap (.alloc o))
      (s'.onHeap (.alloc o))
  | raise {known : List Exc} {rs rs' : List (Except Exc AuditValue)} {s : AuditState ω}
      {s' : AuditState ω'} {e : Exc} {cause : RaiseFrom} {handled : Option Exc}
      {loc : CodeLocation} :
    TwoRuns R log F F' known rs rs' s s' → (∀ c, cause = .fromExc c → c ∈ known) →
    (∀ f, handled = some f → f ∈ known) →
    TwoRuns R log F F' known rs rs' (s.onHeap (.raise e cause handled loc))
      (s'.onHeap (.raise e cause handled loc))
  | addFrame {known : List Exc} {rs rs' : List (Except Exc AuditValue)} {s : AuditState ω}
      {s' : AuditState ω'} {e : Exc} {loc : CodeLocation} :
    TwoRuns R log F F' known rs rs' s s' →
    TwoRuns R log F F' known rs rs' (s.onHeap (.addFrame e loc)) (s'.onHeap (.addFrame e loc))
  | outside {known : List Exc} {rs rs' : List (Except Exc AuditValue)} {s : AuditState ω}
      {s' : AuditState ω'} {w : ω} {w' : ω'} :
    TwoRuns R log F F' known rs rs' s s' → R w w' →
    TwoRuns R log F F' known rs rs' { s with memory := (s.memory.1, w) }
      { s' with memory := (s'.memory.1, w') }

section

variable {R : ω → ω' → Prop} {log : AuditLog} {F : ScriptedExternals ω} {F' : ScriptedExternals ω'}
  {known : List Exc} {rs rs' : List (Except Exc AuditValue)} {s : AuditState ω}
  {s' : AuditState ω'}

/-- What holds in two runs: the calls return and raise the same, and what the caller knows is
seen. -/
structure Behind (R : ω → ω' → Prop) (known : List Exc) (rs rs' : List (Except Exc AuditValue))
    (s : AuditState ω) (s' : AuditState ω') (v : Veil) : Prop where
  results : rs = rs'
  left : ∀ e, .error e ∈ rs → e ∈ known
  veiled : Veiled R v s s'
  kept : v.Kept
  sees : ∀ e ∈ known, v.Sees e

omit [PyRuntime] in
theorem Behind.seesAll {v : Veil} (hb : Behind R known rs rs' s s' v) {o : Option Exc}
    (ho : ∀ e, o = some e → e ∈ known) : v.SeesAll o := fun e he => hb.sees e (ho e he)

omit [PyRuntime] in
/-- What the caller does to exceptions keeps what holds, and what it makes is seen. -/
theorem Behind.onHeap {v : Veil} (hb : Behind R known rs rs' s s' v) {o : HeapOp}
    (hp : (veilSem 0).pre v (.heap o)) :
    ∃ v', Behind R known rs rs' (s.onHeap o) (s'.onHeap o) v' ∧
      (veilSem 0).step v (.heap o) (o.apply (fun _ => {}) s.memory.1).1 v' := by
  have hbeneath : ∀ call, ∀ o ∈ ((fun _ => {} : PureCall → PureTrace) call).beneath,
      o.cause = none := fun _ _ ho => (by cases ho)
  obtain ⟨-, v', hv', hstep⟩ := heap_veiled hbeneath hb.veiled hp
  have hgrow : v.Grows v' ∧ v'.cells = v.cells := by
    cases o with
    | alloc o => exact ⟨hstep.1, hstep.2.1⟩
    | pureError call e handled => exact ⟨hstep.1, hstep.2.1⟩
    | raise e cause handled loc => exact hstep
    | addFrame e loc => exact hstep
  exact ⟨v', ⟨hb.results, hb.left, hv', hb.kept.grow hgrow.1 hgrow.2,
    fun e he => (hb.sees e he).grow hgrow.1⟩, hstep⟩

/-- A call keeps what holds. -/
theorem Behind.call (hF : AlikeBut R (fun e => e.isA .auditPersistenceError = true) F F')
    {v : Veil} (hb : Behind R known rs rs' s s' v) {c : AuditCall} {t : AuditState ω}
    {t' : AuditState ω'} {res res' : Except Exc AuditValue}
    (hc : ∀ e, c.handled = some e → e ∈ known)
    (h : (log.call c).run? (F.answer (c.key rs.length)) s = some (res, t))
    (h' : (log.call c).run? (F'.answer (c.key rs'.length)) s' = some (res', t')) :
    ∃ v', Behind R (known ++ leaving res) (rs ++ [res]) (rs' ++ [res']) t t' v' := by
  rw [← hb.results] at h'
  obtain ⟨rfl, v', hv', hgrow, hkept, herr⟩ :=
    run_veiled hF hb.veiled (call_ends hb.kept (hb.seesAll hc)) h h'
  refine ⟨v', by rw [hb.results], fun e he => ?_, hv', hkept, fun e he => ?_⟩
  · rcases List.mem_append.mp he with he | he
    · exact List.mem_append_left _ (hb.left e he)
    · cases List.mem_singleton.mp he
      exact List.mem_append_right _ List.mem_cons_self
  · rcases List.mem_append.mp he with he | he
    · exact (hb.sees e he).grow hgrow
    · cases res with
      | ok a => cases he
      | error e' =>
        cases List.mem_singleton.mp he
        rcases herr _ rfl with ⟨hraw, -⟩ | hs
        · cases hraw
        · exact hs

theorem TwoRuns.behind (hF : AlikeBut R (fun e => e.isA .auditPersistenceError = true) F F')
    (h : TwoRuns R log F F' known rs rs' s s') : ∃ v, Behind R known rs rs' s s' v := by
  induction h with
  | @start known h w w' hw hknown hlinks =>
    refine ⟨⟨h.length, fun _ => False, fun _ => none⟩, rfl, fun _ he => (by cases he),
      ⟨⟨⟨⟨rfl, fun _ _ => rfl, fun i o o' ho ho' => ?_, fun i o _ ho => ?_⟩, fun _ hi => hi.elim⟩,
        hw⟩, rfl, rfl, rfl⟩, fun _ _ hcell => (by cases hcell), fun e he => ⟨hknown e he, id⟩⟩
    · cases ho.symm.trans ho'
      exact .refl o
    · obtain ⟨hcause, hcontext⟩ := hlinks i o ho
      exact ⟨fun e he hi => hcause e he (hi.resolve_left id),
        fun e he hi => hcontext e he (hi.resolve_left id)⟩
  | call _ hc hrun hrun' ih =>
    obtain ⟨v, hb⟩ := ih
    exact hb.call hF hc hrun hrun'
  | alloc _ hcause hcontext ih =>
    obtain ⟨v, hb⟩ := ih
    obtain ⟨v', hb', -, -, hnew⟩ := hb.onHeap (o := .alloc _) ⟨hcause, hcontext⟩
    refine ⟨v', hb'.results, fun e he => List.mem_append_left _ (hb'.left e he), hb'.veiled,
      hb'.kept, fun e he => ?_⟩
    rcases List.mem_append.mp he with he | he
    · exact hb'.sees e he
    · cases List.mem_singleton.mp he
      exact hnew
  | @raise known rs rs' s s' e cause handled loc _ hcause hhandled ih =>
    obtain ⟨v, hb⟩ := ih
    obtain ⟨v', hb', -⟩ := hb.onHeap (o := .raise e cause handled loc)
      ⟨fun c hc => hb.sees c (hcause c hc), hb.seesAll hhandled⟩
    exact ⟨v', hb'⟩
  | @addFrame known rs rs' s s' e loc _ ih =>
    obtain ⟨v, hb⟩ := ih
    obtain ⟨v', hb', -⟩ := hb.onHeap (o := .addFrame e loc) trivial
    exact ⟨v', hb'⟩
  | outside _ hw ih =>
    obtain ⟨v, hb⟩ := ih
    exact ⟨v, hb.results, hb.left, ⟨⟨hb.veiled.same.heaps, hw⟩, hb.veiled.size, hb.veiled.cells,
      hb.veiled.cells'⟩, hb.kept, hb.sees⟩

/-- Two environments that behave alike but for the texts of `AuditPersistenceError`s of the
sink: whatever the calls, they return the same, raise the same, and each exception that leaves
a call has the same evidence in both runs. -/
theorem AuditLog.evidence_alike
    (hF : AlikeBut R (fun e => e.isA .auditPersistenceError = true) F F')
    (h : TwoRuns R log F F' known rs rs' s s') :
    rs = rs' ∧ ∀ e, .error e ∈ rs → buildEvidence s.memory.1 e = buildEvidence s'.memory.1 e := by
  obtain ⟨v, hb⟩ := h.behind hF
  refine ⟨hb.results, fun e he => ?_⟩
  exact buildEvidence_agree hb.veiled.same.heaps.agree
    ((Heap.Alike.shared e).mpr (hb.veiled.shared (hb.sees e (hb.left e he))))

end

/-! ## Sinks that raise -/

omit [PyRuntime]

/-- A sink that raises a new exception on every append. -/
def refusing (e : PyError) : ScriptedExternals Nat :=
  { obliging with
    sink := fun _ handled m =>
      let (exc, h) := m.1.alloc { ExcObj.ofError e with context := handled }
      (.error exc, h, m.2) }

/-- A sink raises only what `AuditSink.append` may raise. -/
def ScriptedExternals.Conforms (F : ScriptedExternals ω) : Prop :=
  ∀ (record : AuditRecord) (handled : Option Exc) (m : Heap × ω) (e : Exc),
    (F.sink record handled m).1 = .error e →
      e.isA .auditPersistenceError = true ∨ e.isA .eventSchemaError = true

theorem conforms_refusing {e : PyError}
    (h : e.isA .auditPersistenceError = true ∨ e.isA .eventSchemaError = true) :
    (refusing e).Conforms := by
  intro record handled m exc hres
  cases hres
  exact h

/-- Two of these sinks behave alike but for the texts. -/
theorem alikeBut_refusing {e e' : PyError} {differ : Exc → Prop} (hcls : e.cls = e'.cls)
    (hd : ∀ i, differ ⟨i, e.cls⟩) : AlikeBut Eq differ (refusing e) (refusing e') where
  clock hsame _ :=
    ⟨rfl, _, hsame, Nat.le_refl _, fun _ => .inl, fun _ he => (by cases he)⟩
  factory {T m m' _} hsame _ := by
    refine ⟨?_, T, ⟨hsame.heaps, ?_⟩, Nat.le_refl _, fun _ => .inl, fun _ he => (by cases he)⟩
    · show Except.ok (PyAtom.str (natText m.2)) = Except.ok (PyAtom.str (natText m'.2))
      rw [hsame.world]
    · show m.2 + 1 = m'.2 + 1
      rw [hsame.world]
  sink {T m m' handled} _ hsame _ := by
    have hobj : ({ ExcObj.ofError e with context := handled } : ExcObj).Same
        { ExcObj.ofError e' with context := handled } := by
      simp only [ExcObj.Same, ExcObj.ofError, PyError.isA, hcls]
    refine ⟨?_, _, ⟨hsame.heaps.alloc_hidden hobj, hsame.world⟩, ?_, ?_, ?_⟩
    · show Except.error (Exc.mk m.1.length e.cls) = Except.error (Exc.mk m'.1.length e'.cls)
      rw [hsame.heaps.agree.length, hcls]
    · exact (Nat.le_succ _).trans_eq (by simp [refusing, Heap.alloc])
    · rintro i (hi | rfl)
      · exact .inl hi
      · exact .inr (Nat.le_refl _)
    · rintro _ ⟨⟩
      exact .inl (hd _)
  atomic := rfl
  trace := rfl
  beneath _ _ ho := by cases ho

def aliceIntent : AuditCall :=
  .intent (.str (lit "user.created")) (.str (lit "alice")) .empty none

theorem twoRuns_aliceIntent {e e' : PyError} {exc : Exc} {t t' : AuditState Nat}
    (h : (@AuditLog.call PyRuntime.plain userLog aliceIntent).run? ((refusing e).answer 0)
      { memory := ([], 0) } = some (.error exc, t))
    (h' : (@AuditLog.call PyRuntime.plain userLog aliceIntent).run? ((refusing e').answer 0)
      { memory := ([], 0) } = some (.error exc, t')) :
    @TwoRuns Nat Nat PyRuntime.plain Eq userLog (refusing e) (refusing e') [exc] [.error exc]
      [.error exc] t t' := by
  let _ := PyRuntime.plain
  have hstart : TwoRuns Eq userLog (refusing e) (refusing e') [] [] [] { memory := ([], 0) }
      { memory := ([], 0) } :=
    .start rfl (List.forall_mem_nil _) fun i o ho => (by cases ho)
  exact hstart.call (c := aliceIntent) (fun f hf => (by cases hf)) h h'

/-- An `AuditPersistenceError` of the sink does not leave, but a new one. -/
theorem run_aliceIntent_persistence (text : PyStr) : ∃ t : AuditState Nat,
    (@AuditLog.call PyRuntime.plain userLog aliceIntent).run?
      ((refusing ⟨AuditPersistenceError, text⟩).answer 0) { memory := ([], 0) } =
        some (.error ⟨1, AuditPersistenceError⟩, t) := ⟨_, rfl⟩

/-- An `EventSchemaError` of the sink leaves with its text. -/
theorem run_aliceIntent_schema (text : PyStr) : ∃ (t : AuditState Nat) (o : ExcObj),
    (@AuditLog.call PyRuntime.plain userLog aliceIntent).run?
      ((refusing ⟨EventSchemaError, text⟩).answer 0) { memory := ([], 0) } =
        some (.error ⟨0, EventSchemaError⟩, t) ∧
    t.memory.1[0]? = some o ∧ o.cause = none ∧ o.context = none ∧ safeMessage o = some text :=
  ⟨_, _, rfl, rfl, rfl, rfl, rfl⟩

/-- The text of an `AuditPersistenceError` is not in the evidence. -/
theorem AuditLog.evidence_alike_persistence : ∃ s s' : AuditState Nat,
    @TwoRuns Nat Nat PyRuntime.plain Eq userLog
      (refusing ⟨AuditPersistenceError, lit "disk full"⟩)
      (refusing ⟨AuditPersistenceError, lit "secret"⟩) [⟨1, AuditPersistenceError⟩]
      [.error ⟨1, AuditPersistenceError⟩] [.error ⟨1, AuditPersistenceError⟩] s s' ∧
    buildEvidence s.memory.1 ⟨1, AuditPersistenceError⟩ =
      buildEvidence s'.memory.1 ⟨1, AuditPersistenceError⟩ := by
  obtain ⟨s, h⟩ := run_aliceIntent_persistence (lit "disk full")
  obtain ⟨s', h'⟩ := run_aliceIntent_persistence (lit "secret")
  have hrun := twoRuns_aliceIntent h h'
  have halike : AlikeBut Eq (fun e => e.isA .auditPersistenceError = true)
      (refusing ⟨AuditPersistenceError, lit "disk full"⟩)
      (refusing ⟨AuditPersistenceError, lit "secret"⟩) := alikeBut_refusing rfl fun _ => rfl
  exact ⟨s, s', hrun, (@AuditLog.evidence_alike Nat Nat PyRuntime.plain Eq userLog _ _ _ _ _ s s'
    halike hrun).2 _ List.mem_cons_self⟩

/-- The text of an `EventSchemaError` is. -/
theorem AuditLog.not_evidence_alike : ∃ (F F' : ScriptedExternals Nat) (exc : Exc)
    (s s' : AuditState Nat), F.Conforms ∧ F'.Conforms ∧
    AlikeBut Eq (fun e => e.isA .auditPersistenceError = true ∨ e.isA .eventSchemaError = true)
      F F' ∧
    @TwoRuns Nat Nat PyRuntime.plain Eq userLog F F' [exc] [.error exc] [.error exc] s s' ∧
    buildEvidence s.memory.1 exc ≠ buildEvidence s'.memory.1 exc := by
  obtain ⟨s, o, h, ho, hc, hx, htext⟩ := run_aliceIntent_schema (lit "disk full")
  obtain ⟨s', o', h', ho', hc', hx', htext'⟩ := run_aliceIntent_schema (lit "secret")
  refine ⟨refusing ⟨EventSchemaError, lit "disk full"⟩, refusing ⟨EventSchemaError, lit "secret"⟩,
    ⟨0, EventSchemaError⟩, s, s', conforms_refusing (.inr rfl), conforms_refusing (.inr rfl),
    alikeBut_refusing rfl fun _ => .inr rfl, twoRuns_aliceIntent h h', fun heq => ?_⟩
  rw [buildEvidence_unlinked ho hc hx, buildEvidence_unlinked ho' hc' hx'] at heq
  have hmessage : (evidenceFor o none).message = (evidenceFor o' none).message := by
    rw [List.singleton_inj.mp (congrArg Evidence.chain heq)]
  have htexts : some (lit "disk full") = some (lit "secret") :=
    htext.symm.trans (hmessage.trans htext')
  exact absurd htexts (by decide)

end NmLogging
