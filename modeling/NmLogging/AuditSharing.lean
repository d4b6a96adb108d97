import NmLogging.AuditContext

/-!
# One handle, many callers

`_finalise` reads the state of the handle, appends the outcome, and then sets the state, with
no lock around the three. `AuditOperation.sharing` has the runs in which any number of calls
record outcomes of one operation at the same time.

Two callers that both read `OPEN` both append (`two_outcomes_userCreated`). There is one
OUTCOME in every run in which no call reads `OPEN` while another is between its read and its
end (`AuditOperation.one_outcome`): the call that read `OPEN` then runs as if it were alone,
and all others find the operation closed and do no more than raise.
-/

namespace NmLogging

open Relation (ReflTransGen)

variable [PyRuntime] {ω : Type}

/-- Calls that record an outcome of one operation, interleaved in any order. -/
def AuditOperation.sharing (log : AuditLog) (op : AuditOperation) (X : Externals ω) :
    System auditSig Exc Unit Attempt (AuditState ω) where
  prog a := op.record log a.outcome a.kw a.handled
  sem _ _ := auditSem X op.ref

/-! ## Runs where one call at a time is past an open read -/

/-- In this step, no call reads `OPEN` while another has read the state and has not ended. -/
def AuditOperation.ReadsAlone (log : AuditLog) (op : AuditOperation)
    (cfg cfg' : Config auditSig Exc Unit Attempt (AuditState ω)) : Prop :=
  ∀ (i : Nat) (a : Attempt), cfg.calls[i]? = some (a, op.record log a.outcome a.kw a.handled) →
    cfg'.calls[i]? ≠ cfg.calls[i]? → cfg.shared.isOpen op.ref = true →
      ∀ (j : Nat) (b : Attempt) (p : AuditProg Unit), j ≠ i → cfg.calls[j]? = some (b, p) →
        p = op.record log b.outcome b.kw b.handled ∨ p.result? ≠ none

/-- A call that does no more than raise. -/
def raising : Semantics auditSig Unit where
  pre
    | _, .heap _ | _, .now _ | _, .supportsAtomic => True
    | _, _ => False
  step
    | _, .heap o, r, _ => o.Answers r
    | _, _, _, _ => True

omit [PyRuntime] in
theorem quiet_raising : Quiet raising fun _ => True where
  heap_pre _ _ := trivial
  heap_step h := ⟨rfl, h⟩
  now_pre _ _ := trivial
  now_step _ := ⟨rfl, trivial⟩
  atomic_pre _ := trivial
  atomic_step _ := rfl

/-- An `AuditUsageError`. -/
def IsUsageError (res : Except Exc Unit) : Prop := ∃ e, res = .error e ∧ e.cls = AuditUsageError

section

variable {log : AuditLog} {op : AuditOperation} {X : Externals ω}

omit [PyRuntime] in
/-- A step of a call that does no more than raise changes nothing of the operation. -/
theorem raising_view {s s' : AuditState ω} {o : AuditOp} {r : auditSig.Ret o}
    (hp : raising.pre () o) (h : auditStep X op.ref s o r s') :
    s'.view op.ref = s.view op.ref ∧ raising.step () o r () := by
  cases o with
  | heap o =>
    obtain ⟨rfl, rfl⟩ := h
    exact ⟨rfl, o.answers_apply _ _⟩
  | now handled =>
    obtain ⟨m, -, rfl⟩ := h
    exact ⟨rfl, trivial⟩
  | supportsAtomic =>
    obtain ⟨-, rfl⟩ := h
    exact ⟨rfl, trivial⟩
  | newOperationId => cases hp
  | append => cases hp
  | handle => cases hp

/-- The semantics of the operation's view, for the call that read `OPEN`. -/
abbrev viewSem (op : AuditOperation) : Semantics auditSig OperationView :=
  cellSem (fun _ => True) op.ref

/-- The call that read `OPEN` closes the operation. -/
def Closes (op : AuditOperation) (p : AuditProg Unit) (v : OperationView) : Prop :=
  p.wp (viewSem op) v fun _ v' => ∀ cell, v'.cell = some cell → cell.state ≠ .OPEN

/-- A call that records an outcome reads the state. If that is `OPEN` it closes the operation,
and otherwise it does no more than raise. -/
theorem record_reads (log : AuditLog) (op : AuditOperation) (a : Attempt) :
    ∃ k, op.record log a.outcome a.kw a.handled = .op (.handle (.getState op.ref)) k ∧
      (∀ state : OperationState, state ≠ .OPEN → (k state).wp raising () fun res _ => IsUsageError res) ∧
      ∀ cell v, v.cell = some cell → cell.op = op → cell.state = .OPEN → v.appends.length = 1 →
        Closes op (k .OPEN) v := by
  obtain ⟨k, hk⟩ : ∃ k, op.record log a.outcome a.kw a.handled =
      .op (.handle (.getState op.ref)) k := by
    obtain ⟨outcome, kw, handled⟩ := a
    cases outcome <;> exact ⟨_, rfl⟩
  refine ⟨k, hk, fun state hne => ?_, fun cell v hc hop hopen hlen => ?_⟩
  · have hraise : ∀ {e : PyError} {loc loc' : CodeLocation} {p : AuditProg Unit},
        e.cls = AuditUsageError →
          Prog.wp raising (inFrame loc (if state ≠ .OPEN then raiseNew e a.handled loc' else p)) ()
            fun res _ => IsUsageError res := by
      intro e loc loc' p he
      rw [if_pos hne]
      exact quiet_raising.inFrame (quiet_raising.raiseNew fun x hx => ⟨x, rfl, hx.trans he⟩)
    obtain ⟨outcome, kw, handled⟩ := a
    cases outcome <;>
      · cases hk
        exact hraise rfl
  · obtain ⟨c, appends, ids⟩ := v
    subst hc
    have hrec : (op.record log a.outcome a.kw a.handled).wp (viewSem op) ⟨some cell, appends, ids⟩
        fun _ v' => ∀ cell, v'.cell = some cell → cell.state ≠ .OPEN := by
      refine wp_record (Prog.wp_mono (wp_finalise_open hop rfl hopen hlen) fun res v' hfin => ?_)
      cases hfin with
      | recorded => intro cell' hc; cases hc; nofun
      | prevented => intro cell' hc; cases hc; nofun
      | refused => intro cell' hc; cases hc; nofun
    have hread : (viewSem op).step ⟨some cell, appends, ids⟩ (.handle (.getState op.ref)) cell.state
        ⟨some cell, appends, ids⟩ := ⟨cell, rfl, rfl⟩
    rw [hopen] at hread
    rw [hk] at hrec
    exact hrec.2 _ _ hread

/-- In a run of the condition: at most one call, `closer`, has read `OPEN`; every other has not
read yet, or does no more than raise. -/
structure OneCloser (log : AuditLog) (op : AuditOperation)
    (cfg : Config auditSig Exc Unit Attempt (AuditState ω)) (closer : Option Nat) : Prop where
  history : History op.ref (cfg.shared.view op.ref)
  handle : ∃ cell, (cfg.shared.view op.ref).cell = some cell ∧ cell.op = op ∧
    (closer = none → cell.state = .OPEN ∧ (cfg.shared.view op.ref).appends.length = 1)
  closes : ∀ i ∈ closer, ∃ a p, cfg.calls[i]? = some (a, p) ∧
    Closes op p (cfg.shared.view op.ref) ∧
      Relation.TransGen Prog.Child p (op.record log a.outcome a.kw a.handled)
  others : ∀ (i : Nat) (a : Attempt) (p : AuditProg Unit), cfg.calls[i]? = some (a, p) →
    closer ≠ some i → p = op.record log a.outcome a.kw a.handled ∨
      p.wp raising () fun res _ => IsUsageError res

/-- The next operation of a call that is not the closer, which leaves what is seen of the
operation, after which the call does no more than raise. -/
theorem OneCloser.keep {s s' : AuditState ω} {cs : List (Attempt × AuditProg Unit)}
    {closer : Option Nat} (h : OneCloser log op ⟨s, cs⟩ closer) {i : Nat} {a : Attempt}
    {p : AuditProg Unit} (hview : s'.view op.ref = s.view op.ref) (hne : closer ≠ some i)
    (hraise : p.wp raising () fun res _ => IsUsageError res) :
    OneCloser log op ⟨s', cs.set i (a, p)⟩ closer := by
  obtain ⟨cell, hcell, hop, hnone⟩ := h.handle
  refine ⟨hview ▸ h.history, ⟨cell, hview ▸ hcell, hop, hview ▸ hnone⟩, fun j hj => ?_,
    fun j b q hq hj => ?_⟩
  · obtain ⟨b, q, hq, hcl, hchild⟩ := h.closes j hj
    have hji : j ≠ i := fun e => hne (e ▸ hj)
    refine ⟨b, q, ?_, hview ▸ hcl, hchild⟩
    rw [List.getElem?_set_ne (Ne.symm hji)]
    exact hq
  · rcases Cells.getElem?_set_cases hq with ⟨rfl, e⟩ | ⟨-, hq⟩
    · cases e
      exact .inr hraise
    · exact h.others j b q hq hj

/-- The next operation of the closer. -/
theorem OneCloser.goesOn {s s' : AuditState ω} {cs : List (Attempt × AuditProg Unit)} {i : Nat}
    (h : OneCloser log op ⟨s, cs⟩ (some i)) {a : Attempt} {o : AuditOp}
    {k : auditSig.Ret o → AuditProg Unit} {r : auditSig.Ret o}
    (hi : cs[i]? = some (a, .op o k)) (hstep : auditStep X op.ref s o r s') :
    OneCloser log op ⟨s', cs.set i (a, k r)⟩ (some i) := by
  obtain ⟨cell, hcell, hop, -⟩ := h.handle
  obtain ⟨b, p, hp, hcl, hchild⟩ := h.closes i rfl
  change cs[i]? = some (b, p) at hp
  rw [hi] at hp
  cases hp
  have hlt := (List.getElem?_eq_some_iff.mp hi).1
  have hview := auditStep_view (X := X) (fun _ => trivial) hcl.1 hstep
  obtain ⟨cell', hcell', hop'⟩ := cell_of_step hcell hview
  have hnext : Prog.Child (k r) (.op o k) := Prog.Child.mk (S := auditSig) o k r
  refine ⟨h.history.moves hcl.1 hview, ⟨cell', hcell', hop'.trans hop, nofun⟩, fun j hj => ?_,
    fun j b p hp hj => ?_⟩
  · cases hj
    exact ⟨a, k r, List.getElem?_set_self hlt, hcl.2 r _ hview, hchild.head hnext⟩
  · rcases Cells.getElem?_set_cases hp with ⟨rfl, -⟩ | ⟨-, hp⟩
    · exact absurd rfl hj
    · exact h.others j b p hp hj

/-- Where the operation is open, the closer has not ended. -/
theorem OneCloser.result?_eq_none {s : AuditState ω} {cs : List (Attempt × AuditProg Unit)}
    {closer : Option Nat} (h : OneCloser log op ⟨s, cs⟩ closer)
    (hopen : s.isOpen op.ref = true) {j : Nat} (hj : j ∈ closer) :
    ∃ b p, cs[j]? = some (b, p) ∧ p ≠ op.record log b.outcome b.kw b.handled ∧
      p.result? = none := by
  obtain ⟨cell, hcell, -, -⟩ := h.handle
  obtain ⟨b, p, hp, hcl, hchild⟩ := h.closes j hj
  refine ⟨b, p, hp, Prog.ne_of_child hchild, ?_⟩
  by_contra hend
  obtain ⟨res, hres⟩ := Option.ne_none_iff_exists'.mp hend
  have hclosed := (Prog.wp_of_result hres).mp hcl cell hcell
  rw [s.isOpen_eq hcell] at hopen
  exact hclosed (of_decide_eq_true hopen)

/-- The read of a call that has not read yet. -/
theorem OneCloser.reads {s s' : AuditState ω} {cs : List (Attempt × AuditProg Unit)}
    {closer : Option Nat} (h : OneCloser log op ⟨s, cs⟩ closer) {i : Nat} {a : Attempt}
    {o : AuditOp} {k : auditSig.Ret o → AuditProg Unit} {r : auditSig.Ret o}
    (hi : cs[i]? = some (a, .op o k)) (hne : closer ≠ some i)
    (hfresh : .op o k = op.record log a.outcome a.kw a.handled)
    (hstep : auditStep X op.ref s o r s')
    (hc : op.ReadsAlone log ⟨s, cs⟩ ⟨s', cs.set i (a, k r)⟩) :
    ∃ closer', OneCloser log op ⟨s', cs.set i (a, k r)⟩ closer' := by
  obtain ⟨cell, hcell, hop, hnone⟩ := h.handle
  have hlt := (List.getElem?_eq_some_iff.mp hi).1
  obtain ⟨k', hk', hclosed, hopen⟩ := record_reads log op a
  have hstart : cs[i]? = some (a, op.record log a.outcome a.kw a.handled) := hfresh ▸ hi
  rw [hk'] at hfresh
  cases hfresh
  have hcells : s.cells op.ref = some cell := hcell
  obtain ⟨cell', happly, rfl⟩ := hstep
  simp only [HandleOp.ref, hcells] at happly
  cases happly
  have hview : (AuditState.view { s with cells := Function.update s.cells op.ref (some cell) }
      op.ref) = s.view op.ref := by simp [AuditState.view, hcells]
  by_cases hs : cell.state = .OPEN
  · -- then no other call is past its read
    have hread : closer = none := by
      refine Option.eq_none_iff_forall_not_mem.mpr fun j hj => ?_
      have hisOpen : s.isOpen op.ref = true := by
        rw [s.isOpen_eq hcell, hs]
        rfl
      have hmoved : (cs.set i (a, k' cell.state))[i]? ≠ cs[i]? := by
        rw [List.getElem?_set_self hlt, hi]
        intro e
        exact Prog.ne_of_child (.single (.mk _ k' cell.state))
          (congrArg Prod.snd (Option.some.inj e))
      obtain ⟨b, p, hp, hpast, hgoing⟩ := h.result?_eq_none hisOpen hj
      rcases hc i a hstart hmoved hisOpen j b p (fun e => hne (e ▸ hj)) hp with e | hend
      · exact hpast e
      · exact hend hgoing
    obtain ⟨-, hlen⟩ := hnone hread
    refine ⟨some i, hview ▸ h.history, ⟨cell, hview ▸ hcell, hop, by rintro ⟨⟩⟩, fun j hj => ?_,
      fun j b p hp hj => ?_⟩
    · cases hj
      refine ⟨a, _, List.getElem?_set_self hlt, ?_, hk' ▸ .single (.mk _ k' cell.state)⟩
      rw [hs]
      exact hview ▸ hopen cell _ hcell hop hs hlen
    · rcases Cells.getElem?_set_cases hp with ⟨rfl, -⟩ | ⟨-, hp⟩
      · exact absurd rfl hj
      · exact h.others j b p hp (by rw [hread]; rintro ⟨⟩)
  · exact ⟨closer, h.keep hview hne (hclosed _ hs)⟩

/-- A step of a run of the condition. -/
theorem OneCloser.step {cfg cfg' : Config auditSig Exc Unit Attempt (AuditState ω)}
    {closer : Option Nat} (h : OneCloser log op cfg closer)
    (hs : (op.sharing log X).Step cfg cfg') (hc : op.ReadsAlone log cfg cfg') :
    ∃ closer', OneCloser log op cfg' closer' := by
  cases hs with
  | @start s cs a hstart =>
    refine ⟨closer, h.history, h.handle, fun i hi => ?_, fun i b p hp hne => ?_⟩
    · obtain ⟨b, p, hp, hcl⟩ := h.closes i hi
      refine ⟨b, p, ?_, hcl⟩
      rw [List.getElem?_append_left (List.getElem?_eq_some_iff.mp hp).1]
      exact hp
    · rcases getElem?_concat hp with hp | ⟨rfl, e⟩
      · exact h.others i b p hp hne
      · cases e
        exact .inl rfl
  | @perform s s' cs i a o k r hi hstep =>
    by_cases hi' : closer = some i
    · subst hi'
      exact ⟨some i, h.goesOn hi hstep⟩
    · rcases h.others i a _ hi hi' with hfresh | hraise
      · exact h.reads hi hi' hfresh hstep hc
      · obtain ⟨hview, hr⟩ := raising_view hraise.1 hstep
        exact ⟨closer, h.keep hview hi' (hraise.2 r () hr)⟩

/-- The start: a handle that has been returned, and its INTENT. -/
theorem OneCloser.init {s : AuditState ω} {cm : Bool}
    (h : Intended log op.event op.actor op.ref cm op (s.view op.ref)) :
    OneCloser log op ⟨s, []⟩ none := by
  obtain ⟨-, -, -, -, -, record, hstage, hbelongs, hview⟩ := h
  refine ⟨?_, ⟨_, by rw [hview], rfl, fun _ => ⟨rfl, by rw [hview]; rfl⟩⟩, nofun,
    fun i a p hi => (by simp at hi)⟩
  show History op.ref (s.view op.ref)
  rw [hview]
  exact .opened rfl hstage hbelongs nofun

omit [PyRuntime] in
theorem History.outcomes_le {s : AuditState ω} (h : History op.ref (s.view op.ref)) :
    (s.outcomes op.ref).length ≤ 1 := by
  rw [AuditState.outcomes]
  generalize s.view op.ref = v at h
  cases h with
  | unused => simp
  | named => simp
  | intended => exact List.length_filter_le _ _
  | opened => exact List.length_filter_le _ _
  | recorded ref stage =>
    rw [List.filter_cons_of_neg (by simp [stage])]
    exact List.length_filter_le _ _

end

/-- In every run from a returned handle in which no call reads `OPEN` while another is between
its read and its end, the sink is given at most one OUTCOME of the operation, and all calls but
one end with `AuditUsageError`. -/
theorem AuditOperation.one_outcome (log : AuditLog) (op : AuditOperation) (X : Externals ω)
    {s : AuditState ω} {cm : Bool}
    (hs : Intended log op.event op.actor op.ref cm op (s.view op.ref))
    {cfg : Config auditSig Exc Unit Attempt (AuditState ω)}
    (h : ReflTransGen (fun c c' => (op.sharing log X).Step c c' ∧ op.ReadsAlone log c c')
      ⟨s, []⟩ cfg) :
    (cfg.shared.outcomes op.ref).length ≤ 1 ∧
      ∀ i j a b ri rj, i ≠ j → cfg.Ended i a ri → cfg.Ended j b rj →
        IsUsageError ri ∨ IsUsageError rj := by
  obtain ⟨closer, hinv⟩ : ∃ closer, OneCloser log op cfg closer := by
    induction h with
    | refl => exact ⟨none, .init hs⟩
    | tail _ hstep ih =>
      obtain ⟨closer, hinv⟩ := ih
      exact hinv.step hstep.1 hstep.2
  refine ⟨hinv.history.outcomes_le, fun i j a b ri rj hne hi hj => ?_⟩
  have usage : ∀ {i a r}, closer ≠ some i → cfg.Ended i a r → IsUsageError r := by
    rintro i a r hi ⟨p, hp, hres⟩
    rcases hinv.others i a p hp hi with rfl | hraise
    · obtain ⟨k, hk, -⟩ := record_reads log op a
      rw [hk] at hres
      cases hres
    · exact (Prog.wp_of_result hres).mp hraise
  by_cases hi' : closer = some i
  · exact .inr (usage (fun e => hne (Option.some.inj (hi'.symm.trans e))) hj)
  · exact .inl (usage hi' hi)

section

omit [PyRuntime]

/-- The handle of the first operation of a log with the event. -/
def firstUser : AuditOperation :=
  ⟨0, .str (lit "user.created"), userCreated, .str (lit "alice"), .str (lit "0")⟩

/-- An attempt to record its success. -/
def recordSuccess : Attempt := ⟨.success, .empty, none⟩

theorem readsAlone_of_length [PyRuntime] {log : AuditLog} {op : AuditOperation}
    {cfg cfg' : Config auditSig Exc Unit Attempt (AuditState ω)} (h : cfg.calls.length ≤ 1) :
    op.ReadsAlone log cfg cfg' := by
  intro i a hi _ _ j b p hne hj
  have := (List.getElem?_eq_some_iff.mp hi).1
  have := (List.getElem?_eq_some_iff.mp hj).1
  omega

/-- A call may read while no other is between its read and its end. -/
theorem readsAlone_set [PyRuntime] {log : AuditLog} {op : AuditOperation} {s s' : AuditState ω}
    {cs : List (Attempt × AuditProg Unit)} {i : Nat} {x y : Attempt × AuditProg Unit}
    (h : ∀ j b p, j ≠ i → cs[j]? = some (b, p) →
      p = op.record log b.outcome b.kw b.handled ∨ p.result? ≠ none) :
    op.ReadsAlone log ⟨s, cs.set i x⟩ ⟨s', cs.set i y⟩ := by
  intro i' a hi hmoved _ j b p hne hj
  have hsame : i' = i := by
    by_contra hne
    refine hmoved ?_
    rw [List.getElem?_set_ne (Ne.symm hne), List.getElem?_set_ne (Ne.symm hne)]
  subst hsame
  rw [List.getElem?_set_ne (Ne.symm hne)] at hj
  exact h j b p hne hj

/-- Two calls of `success` on one handle, of which the second reads the state when the first has
ended. -/
theorem one_outcome_userCreated :
    let _ := PyRuntime.plain
    ∃ (s : AuditState Nat) (cfg : Config auditSig Exc Unit Attempt (AuditState Nat)) (e : Exc),
      Intended userLog firstUser.event firstUser.actor 0 false firstUser (s.view 0) ∧
      ReflTransGen (fun c c' => (firstUser.sharing userLog obliging.externals).Step c c' ∧
        firstUser.ReadsAlone userLog c c') ⟨s, []⟩ cfg ∧
      cfg.Ended 0 recordSuccess (.ok ()) ∧ cfg.Ended 1 recordSuccess (.error e) ∧
      e.cls = AuditUsageError ∧ (cfg.shared.outcomes 0).length ≤ 1 := by
  intro _
  obtain ⟨s, s₁, s₂, e, h, h₁, h₂⟩ :
      ∃ (s s₁ s₂ : AuditState Nat) (e : Exc),
        (userLog.intent firstUser.event firstUser.actor .empty none).run? (obliging.answer 0)
          { memory := ([], 0) } = some (.ok firstUser, s) ∧
        (firstUser.record userLog .success .empty none).run? (obliging.answer 0) s =
          some (.ok (), s₁) ∧
        (firstUser.record userLog .success .empty none).run? (obliging.answer 0) s₁ =
          some (.error e, s₂) :=
    ⟨_, _, _, _, rfl, rfl, rfl⟩
  have hint := runs_view (X := obliging.externals) (fun {_ _ _ _} _ => trivial)
    (Prog.runs_run? ScriptedExternals.step_of_answer h) (@wp_intent _ (fun _ => True) _ _ _ _ _ _)
  let Y := firstUser.sharing userLog obliging.externals
  let fresh := firstUser.record userLog .success .empty none
  have start₀ : Y.Step ⟨s, []⟩ ⟨s, [(recordSuccess, fresh)]⟩ := .start trivial
  have start₁ : Y.Step ⟨s, [(recordSuccess, fresh)]⟩
      ⟨s, [(recordSuccess, fresh), (recordSuccess, fresh)]⟩ := .start trivial
  have started : ReflTransGen (fun c c' => Y.Step c c' ∧ firstUser.ReadsAlone userLog c c')
      ⟨s, []⟩ ⟨s, [(recordSuccess, fresh), (recordSuccess, fresh)]⟩ :=
    (ReflTransGen.refl.tail ⟨start₀, readsAlone_of_length (Nat.zero_le 1)⟩).tail
      ⟨start₁, readsAlone_of_length (Nat.le_refl 1)⟩
  have first := System.steps_begin_in (Y := Y) (R := firstUser.ReadsAlone userLog)
    [(recordSuccess, fresh), (recordSuccess, fresh)] (i := 0) (c := recordSuccess) (by decide)
    (readsAlone_set fun j b p hne hj => by
      rcases j with _ | _ | j
      · exact absurd rfl hne
      · cases hj
        exact .inl rfl
      · cases hj)
    (Prog.runs_run? ScriptedExternals.step_of_answer h₁).begins
  have second := System.steps_begin_in (Y := Y) (R := firstUser.ReadsAlone userLog)
    [(recordSuccess, .ret ()), (recordSuccess, fresh)] (i := 1) (c := recordSuccess) (by decide)
    (readsAlone_set fun j b p hne hj => by
      rcases j with _ | _ | j
      · cases hj
        exact .inr (by rintro ⟨⟩)
      · exact absurd rfl hne
      · cases hj)
    (Prog.runs_run? ScriptedExternals.step_of_answer h₂).begins
  have runs : ReflTransGen (fun c c' => Y.Step c c' ∧ firstUser.ReadsAlone userLog c c')
      ⟨s, []⟩ ⟨s₂, [(recordSuccess, .ret ()), (recordSuccess, .throw e)]⟩ :=
    (started.trans first).trans second
  obtain ⟨hle, husage⟩ :=
    AuditOperation.one_outcome userLog firstUser obliging.externals hint runs
  refine ⟨s, _, e, hint, runs, ⟨_, rfl, rfl⟩, ⟨_, rfl, rfl⟩, ?_, hle⟩
  rcases husage 0 1 recordSuccess recordSuccess (.ok ()) (.error e) (by decide) ⟨_, rfl, rfl⟩
    ⟨_, rfl, rfl⟩ with ⟨e', he, -⟩ | ⟨e', he, hcls⟩
  · cases he
  · cases he
    exact hcls

/-- Two calls of `success` both read `OPEN`, and then both append. -/
theorem two_outcomes_userCreated :
    ∃ (s : AuditState Nat) (cfg : Config auditSig Exc Unit Attempt (AuditState Nat)),
      @Intended userLog firstUser.event firstUser.actor 0 false firstUser (s.view 0) ∧
      (@AuditOperation.sharing PyRuntime.plain Nat userLog firstUser obliging.externals).Reachable s
        cfg ∧ (cfg.shared.outcomes 0).length = 2 := by
  let _ := PyRuntime.plain
  obtain ⟨s, s₁, s₂, s₃, s₄, k, h, hk, h₁, h₂, h₃, h₄, hlen⟩ :
      ∃ (s s₁ s₂ s₃ s₄ : AuditState Nat) (k : OperationState → AuditProg Unit),
        (userLog.intent firstUser.event firstUser.actor .empty none).run? (obliging.answer 0)
          { memory := ([], 0) } = some (.ok firstUser, s) ∧
        firstUser.record userLog .success .empty none = .op (.handle (.getState 0)) k ∧
        obliging.answer 0 s (.handle (.getState 0)) = some (.OPEN, s₁) ∧
        obliging.answer 0 s₁ (.handle (.getState 0)) = some (.OPEN, s₂) ∧
        (k .OPEN).run? (obliging.answer 0) s₂ = some (.ok (), s₃) ∧
        (k .OPEN).run? (obliging.answer 0) s₃ = some (.ok (), s₄) ∧
        (s₄.outcomes 0).length = 2 :=
    ⟨_, _, _, _, _, _, rfl, rfl, rfl, rfl, rfl, rfl, rfl⟩
  have hint := runs_view (X := obliging.externals) (fun {_ _ _ _} _ => trivial)
    (Prog.runs_run? ScriptedExternals.step_of_answer h) (@wp_intent _ (fun _ => True) _ _ _ _ _ _)
  let Y := firstUser.sharing userLog obliging.externals
  have start : Y.Reachable s ⟨s, [(recordSuccess, .op (.handle (.getState 0)) k),
      (recordSuccess, .op (.handle (.getState 0)) k)]⟩ := by
    rw [← hk]
    exact (Relation.ReflTransGen.refl.tail (.start trivial)).tail (.start trivial)
  have read₁ := start.tail (.perform (i := 0) rfl (ScriptedExternals.step_of_answer h₁))
  have read₂ := read₁.tail (.perform (i := 1) rfl (ScriptedExternals.step_of_answer h₂))
  have end₁ := System.Reachable.finish (i := 0) read₂ rfl
    (Prog.runs_run? ScriptedExternals.step_of_answer h₃)
  have end₂ := System.Reachable.finish (i := 1) end₁ rfl
    (Prog.runs_run? ScriptedExternals.step_of_answer h₄)
  exact ⟨s, _, hint, end₂, hlen⟩

end

end NmLogging
