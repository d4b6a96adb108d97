import NmLogging.AuditMethods

/-!
# Audited operations in interleaved runs

The calls of a log are calls on separate cells (`operations`, `operations_sound`): what is
seen of an operation is the cell of the calls made for it. So in every run, with calls on any
number of operations interleaved in any order, each operation has a history, and only calls
for it go on with the history.

`AuditLog.outcome_discipline` says what that means for the records that a sink is given: an
INTENT first, and at most one OUTCOME, after it; and a handle that tells whether the OUTCOME
was stored.
-/

namespace NmLogging

open Relation (ReflTransGen)

variable [PyRuntime] {ω : Type}

/-! ## Operations as cells -/

/-- The operations of a run, as the cells that its calls use. -/
def operations (log : AuditLog) (X : Externals ω) : Cells (log.system X) OperationView where
  key i c := c.key i
  view := AuditState.view
  sem := cellSem fun _ => True
  own hp hs := auditStep_view (fun _ => trivial) hp hs
  other hp hs hj := auditStep_other hp hs hj

/-- What holds of an operation for which no call is being made, and after a call: a handle
that was returned is there. -/
def operationSpec : Cells.Spec AuditCall Exc AuditValue OperationView where
  start := ⟨none, [], []⟩
  Idle k v := History k v ∧ v.Settled
  Post k c res v := ∀ op, res = .ok (.handle op) → c.on = none ∧ op.ref = k ∧
    ∃ cell, v.cell = some cell ∧ cell.op = op

section

variable {log : AuditLog} {X : Externals ω} {k : Nat} {v v' : OperationView}

/-- A call for which it is shown that the operation is left settled. -/
theorem safe_of_settled {c : AuditCall} (hh : History k v)
    (h : (log.call c).wp (cellSem (fun _ => True) k) v fun res v' =>
      v'.Settled ∧ operationSpec.Post k c res v') :
    (operations log X).Safe operationSpec k c (log.call c) v :=
  Prog.wp_mono (Prog.wp_inv (fun hp hs hj => hj.moves hp hs) h hh)
    fun _ _ ⟨⟨hsettled, hpost⟩, hist⟩ => ⟨⟨hist, hsettled⟩, hpost⟩

omit [PyRuntime] in
theorem settled_of_cell_none (h : v.cell = none) : v.Settled := by
  intro cell hc
  rw [h] at hc
  cases hc

/-- Calls that make an operation. -/
theorem safe_new {c : AuditCall} (hc : c.on = none) :
    (operations log X).Safe operationSpec k c (log.call c) ⟨none, [], []⟩ := by
  have raised : ∀ {e : Exc} {v : OperationView}, v.cell = none →
      v.Settled ∧ operationSpec.Post k c (.error e) v :=
    fun hv => ⟨settled_of_cell_none hv, fun op h => by cases h⟩
  have returned : ∀ {event actor : PyAtom} {cm : Bool} {op : AuditOperation} {v : OperationView},
      Intended log event actor k cm op v →
        v.Settled ∧ operationSpec.Post k c (.ok (.handle op)) v := by
    rintro event actor cm op v ⟨href, -, -, -, -, record, -, -, rfl⟩
    refine ⟨fun cell hc => ?_, fun op' h => ?_⟩
    · cases hc
      exact ⟨fun _ => rfl, nofun⟩
    · cases h
      exact ⟨hc, href, _, rfl, rfl⟩
  refine safe_of_settled .unused ?_
  cases c with
  | complete handled =>
    refine (Prog.wp_bind _ _ _ _).mpr (quiet_cellSem.complete fun x _ => ?_)
    exact raised rfl
  | intent event actor kw handled =>
    refine (Prog.wp_bind _ _ _ _).mpr (Prog.wp_mono wp_intent fun res v h => ?_)
    cases res with
    | ok op => exact returned h
    | error e => exact raised h
  | operation event actor kw handled =>
    refine (Prog.wp_bind _ _ _ _).mpr (Prog.wp_mono wp_operation fun res v h => ?_)
    cases res with
    | ok op => exact returned h.2
    | error e => exact raised h
  | record => cases hc
  | exit => cases hc

theorem Finalised.settled {op : AuditOperation} {outcome : Outcome} {fields : Dict PyAtom PyObj}
    {clock : Except Exc Datetime → Prop} {cell : OperationCell} {appends : List AppendEntry}
    {ids : List (Nat × PyAtom)} {r : Except Exc Unit}
    (h : Finalised log op outcome fields clock k cell appends ids r v) : v.Settled := by
  cases h with
  | recorded => intro cell' hc; cases hc; exact ⟨nofun, nofun⟩
  | prevented => intro cell' hc; cases hc; exact ⟨nofun, fun _ => rfl⟩
  | refused => intro cell' hc; cases hc; exact ⟨nofun, fun _ => rfl⟩

/-- Calls on a handle. -/
theorem safe_on {c : AuditCall} {op : AuditOperation} {cell : OperationCell} (hc : c.on = some op)
    (hcell : v.cell = some cell) (hop : cell.op = op) (href : op.ref = k)
    (hv : History k v ∧ v.Settled) : (operations log X).Safe operationSpec k c (log.call c) v := by
  obtain ⟨hist, hsettled⟩ := hv
  refine safe_of_settled hist ?_
  obtain ⟨cell₀, appends, ids⟩ := v
  subst hcell
  have hlen := (hsettled cell rfl).1
  cases c with
  | complete => cases hc
  | intent => cases hc
  | operation => cases hc
  | record op' outcome kw handled =>
    cases hc
    refine (Prog.wp_bind _ _ _ _).mpr (wp_record ?_)
    by_cases hs : cell.state = .OPEN
    · refine Prog.wp_mono (wp_finalise_open hop href hs (hlen hs)) fun res v h => ?_
      cases res with
      | ok u => exact ⟨h.settled, fun op h => by cases h⟩
      | error e => exact ⟨h.settled, fun op h => by cases h⟩
    · exact wp_finalise_closed href hs fun e _ => ⟨hsettled, fun op h => by cases h⟩
  | exit op' exc handled =>
    cases hc
    refine (Prog.wp_bind _ _ _ _).mpr (Prog.wp_mono (wp_exit hop href hlen) fun res v h => ?_)
    have settled : v.Settled := by
      revert h
      cases cell.state <;> cases exc <;> rintro ⟨h₁, h₂⟩
      · exact h₂ ▸ hsettled
      · exact h₂.1.settled
      all_goals exact h₂ ▸ hsettled
    cases res with
    | ok b => exact ⟨settled, fun op h => by cases h⟩
    | error e => exact ⟨settled, fun op h => by cases h⟩

/-- A handle on which a call may start was made for its operation, and is there. -/
theorem handle_of_canStart {s : AuditState ω} {cs : List (AuditCall × AuditProg AuditValue)}
    {c : AuditCall} {op : AuditOperation} (hinv : (operations log X).Inv operationSpec ⟨s, cs⟩)
    (hstart : c.canStart cs) (hon : c.on = some op) :
    (∃ (c' : AuditCall), cs[op.ref]? = some (c', .ret (.handle op))) ∧
      ∃ cell, (s.view op.ref).cell = some cell ∧ cell.op = op := by
  obtain ⟨⟨j, c', hj⟩, -⟩ := hstart op hon
  obtain ⟨hon', href, cell, hcell, hop⟩ := hinv.ended j c' _ _ hj rfl op rfl
  change op.ref = c'.key j at href
  change (s.view (c'.key j)).cell = some cell at hcell
  rw [AuditCall.key, hon'] at href hcell
  exact ⟨⟨c', by rw [href]; exact hj⟩, cell, by rw [href]; exact hcell, hop⟩

theorem alone_of_canStart {s : AuditState ω} {cs : List (AuditCall × AuditProg AuditValue)}
    {c : AuditCall} (hinv : (operations log X).Inv operationSpec ⟨s, cs⟩) (hstart : c.canStart cs)
    {i : Nat} {c' : AuditCall} {p : AuditProg AuditValue} (hi : cs[i]? = some (c', p))
    (hr : p.result? = none) : c'.key i ≠ c.key cs.length := by
  intro hkey
  have hlt := (List.getElem?_eq_some_iff.mp hi).1
  cases hon : c.on with
  | none =>
    have hle : c'.key i ≤ i := hinv.key_le i c' p hi
    rw [hkey, AuditCall.key, hon] at hle
    exact absurd (Nat.lt_of_le_of_lt hle hlt) (Nat.lt_irrefl _)
  | some op =>
    obtain ⟨⟨c'', hj⟩, -⟩ := handle_of_canStart hinv hstart hon
    rw [AuditCall.key, AuditCall.key, hon] at hkey
    cases hon' : c'.on with
    | none =>
      rw [hon'] at hkey
      obtain rfl : i = op.ref := hkey
      rw [hi] at hj
      cases hj
      cases hr
    | some op' =>
      rw [hon'] at hkey
      exact (hstart op hon).2 i c' p op' hi hr hon' hkey

end

variable (log : AuditLog) (X : Externals ω)

/-- In the system, no two calls are made for one operation at a time, and each leaves its
operation settled. -/
theorem operations_sound : (operations log X).Sound operationSpec where
  idle_start k := ⟨.unused, settled_of_cell_none rfl⟩
  stable := by
    intro k c res v v' hm hpost op hres
    obtain ⟨hon, href, cell, hc, hop⟩ := hpost op hres
    obtain ⟨o, r, -, hs⟩ := hm
    obtain ⟨cell', hc', hop'⟩ := cell_of_step hc hs
    exact ⟨hon, href, cell', hc', hop'.trans hop⟩
  alone hinv hstart i c' p hi hr := alone_of_canStart hinv hstart hi hr
  begin := by
    intro s cs c hinv hstart
    change c.key cs.length ≤ cs.length ∧ (operations log X).Safe operationSpec (c.key cs.length) c
      (log.call c) (s.view (c.key cs.length))
    have hidle := hinv.idle (c.key cs.length) fun i c' p hi hkey hr =>
      alone_of_canStart hinv hstart hi hr hkey
    cases hon : c.on with
    | none =>
      have hview : s.view cs.length = ⟨none, [], []⟩ := hinv.fresh cs.length (Nat.le_refl _)
      rw [AuditCall.key, hon]
      refine ⟨Nat.le_refl _, ?_⟩
      dsimp only
      rw [hview]
      exact safe_new hon
    | some op =>
      obtain ⟨⟨c', hj⟩, cell, hcell, hop⟩ := handle_of_canStart hinv hstart hon
      rw [AuditCall.key, hon] at hidle ⊢
      exact ⟨Nat.le_of_lt (List.getElem?_eq_some_iff.mp hj).1,
        safe_on hon hcell hop rfl hidle⟩

/-! ## What the sink was given -/

section

omit [PyRuntime]

/-- The append of the operation's INTENT returned. -/
def AuditState.IntentReturned (s : AuditState ω) (op : AuditOperation) : Prop :=
  ∃ a ∈ s.appends, a.record.stage = .intent ∧ a.record.BelongsTo op ∧ a.result = .ok ()

/-- An append of an OUTCOME with the operation's id returned. -/
def AuditState.OutcomeReturned (s : AuditState ω) (op : AuditOperation) : Prop :=
  ∃ a ∈ s.appends, a.record.stage = .outcome ∧ a.record.operationId = op.operationId ∧
    a.result = .ok ()

variable {k : Nat} {v : OperationView} {cell : OperationCell}

/-- The history of an operation with a handle. -/
theorem History.of_cell (h : History k v) (hc : v.cell = some cell) :
    cell.op.ref = k ∧ v.ids = [(k, cell.op.operationId)] ∧ ∃ intent : AuditRecord,
      intent.stage = .intent ∧ intent.BelongsTo cell.op ∧
        (v.appends = [⟨k, intent, .ok ()⟩] ∧ cell.state ≠ .FINALISED ∨
          ∃ (record : AuditRecord) (r : Except Exc Unit),
            v.appends = [⟨k, intent, .ok ()⟩, ⟨k, record, r⟩] ∧ record.stage = .outcome ∧
              record.BelongsTo cell.op ∧
              (cell.state ≠ .OPEN → (cell.state = .FINALISED ↔ r = .ok ()))) := by
  cases h with
  | unused => cases hc
  | named => cases hc
  | intended => cases hc
  | opened ref stage belongs state =>
    cases hc
    exact ⟨ref, rfl, _, stage, belongs, .inl ⟨rfl, state⟩⟩
  | recorded ref stage belongs stage' belongs' state =>
    cases hc
    exact ⟨ref, rfl, _, stage, belongs, .inr ⟨_, _, rfl, stage', belongs', state⟩⟩

/-- An OUTCOME of a history is its second and last append. -/
theorem History.of_outcome {before after : List AppendEntry} {a : AppendEntry} (h : History k v)
    (happ : v.appends = before ++ a :: after) (hstage : a.record.stage = .outcome) :
    ∃ (cell : OperationCell) (intent : AuditRecord), v.cell = some cell ∧
      before = [⟨k, intent, .ok ()⟩] ∧ after = [] ∧ v.ids = [(k, cell.op.operationId)] ∧
        intent.stage = .intent ∧ intent.BelongsTo cell.op ∧ a.record.BelongsTo cell.op ∧
          (cell.state ≠ .OPEN → (cell.state = .FINALISED ↔ a.result = .ok ())) := by
  have single : ∀ {intent : AuditRecord} {r : Except Exc Unit}, intent.stage = .intent →
      before ++ a :: after ≠ [⟨k, intent, r⟩] := by
    intro intent r hintent e
    rcases before with _ | ⟨b, before⟩
    · obtain ⟨rfl, -⟩ := List.cons.inj e
      cases hintent.symm.trans hstage
    · simp at e
  cases h with
  | unused => simp at happ
  | named => simp at happ
  | intended stage => exact absurd happ.symm (single stage)
  | opened _ stage => exact absurd happ.symm (single stage)
  | @recorded cell intent record r ref stage belongs stage' belongs' state =>
    rcases before with _ | ⟨b, before⟩
    · obtain ⟨rfl, -⟩ := List.cons.inj happ
      cases stage.symm.trans hstage
    · obtain ⟨rfl, e⟩ := List.cons.inj happ
      rcases before with _ | ⟨b, before⟩
      · obtain ⟨rfl, rfl⟩ := List.cons.inj e
        exact ⟨cell, intent, rfl, rfl, rfl, rfl, stage, belongs, belongs', state⟩
      · simp at e

variable {s : AuditState ω}

theorem mem_appends_of_view {a : AppendEntry} (h : a ∈ (s.view k).appends) : a ∈ s.appends :=
  List.mem_of_mem_filter h

theorem mem_ids_of_view {i : Nat × PyAtom} (h : i ∈ (s.view k).ids) : i ∈ s.ids :=
  List.mem_of_mem_filter h

/-- The operations of a state have histories, and the factory never repeated an id. -/
structure AuditState.Disciplined (s : AuditState ω) : Prop where
  history : ∀ k, History k (s.view k)
  nodup : (s.ids.map Prod.snd).Nodup

namespace AuditState.Disciplined

theorem intentReturned (h : s.Disciplined) (hc : s.cells k = some cell) :
    cell.op.ref = k ∧ s.IntentReturned cell.op := by
  obtain ⟨href, -, intent, hstage, hbelongs, happ⟩ := (h.history k).of_cell hc
  refine ⟨href, ⟨k, intent, .ok ()⟩, mem_appends_of_view (k := k) ?_, hstage, hbelongs, rfl⟩
  rcases happ with ⟨e, -⟩ | ⟨record, r, e, -⟩
  · rw [e]; exact List.mem_cons_self
  · rw [e]; exact List.mem_cons_self

theorem outcomeReturned (h : s.Disciplined) (hc : s.cells k = some cell)
    (hfin : cell.state = .FINALISED) : s.OutcomeReturned cell.op := by
  obtain ⟨-, -, intent, -, -, ⟨-, hne⟩ | ⟨record, r, e, hstage, hbelongs, hr⟩⟩ :=
    (h.history k).of_cell hc
  · exact absurd hfin hne
  · refine ⟨⟨k, record, r⟩, mem_appends_of_view (k := k) (by rw [e]; simp), hstage,
      hbelongs.operationId, (hr (by rw [hfin]; decide)).mp hfin⟩

/-- An operation id belongs to one operation. -/
theorem eq_of_operationId (h : s.Disciplined) {j : Nat} {cell' : OperationCell}
    (hc : s.cells k = some cell) (hc' : s.cells j = some cell')
    (hid : cell.op.operationId = cell'.op.operationId) : k = j := by
  have mem : ∀ {i : Nat} {c : OperationCell}, s.cells i = some c → (i, c.op.operationId) ∈ s.ids := by
    intro i c hc
    obtain ⟨-, hids, -⟩ := (h.history i).of_cell hc
    exact mem_ids_of_view (k := i) (by rw [hids]; exact List.mem_singleton_self _)
  exact congrArg Prod.fst (List.inj_on_of_nodup_map h.nodup (mem hc) (mem hc') hid)

/-- The handle of an OUTCOME, and the INTENT before it. -/
theorem of_outcome (h : s.Disciplined) {before after : List AppendEntry} {a : AppendEntry}
    (happ : s.appends = before ++ a :: after) (hstage : a.record.stage = .outcome) :
    ∃ (cell : OperationCell) (intent : AuditRecord), s.cells a.owner = some cell ∧
      (before.filter fun b => b.owner = a.owner) = [⟨a.owner, intent, .ok ()⟩] ∧
        (after.filter fun b => b.owner = a.owner) = [] ∧ intent.stage = .intent ∧
          intent.BelongsTo cell.op ∧ a.record.BelongsTo cell.op ∧
            (cell.state ≠ .OPEN → (cell.state = .FINALISED ↔ a.result = .ok ())) := by
  have hview : (s.view a.owner).appends = (before.filter fun b => b.owner = a.owner) ++
      a :: after.filter fun b => b.owner = a.owner := by
    simp [AuditState.view, happ, List.filter_append]
  obtain ⟨cell, intent, hcell, hbefore, hafter, -, hrest⟩ :=
    (h.history a.owner).of_outcome hview hstage
  exact ⟨cell, intent, hcell, hbefore, hafter, hrest⟩

/-- The handle that an OUTCOME with its operation id belongs to. -/
theorem owner_eq (h : s.Disciplined) (hc : s.cells k = some cell) {a : AppendEntry}
    (ha : a ∈ s.appends) (hstage : a.record.stage = .outcome)
    (hid : a.record.operationId = cell.op.operationId) : a.owner = k := by
  obtain ⟨before, after, happ⟩ := List.append_of_mem ha
  obtain ⟨cell', -, hc', -, -, -, -, hbelongs, -⟩ := h.of_outcome happ hstage
  exact h.eq_of_operationId hc' hc (hbelongs.operationId.symm.trans hid)

/-- The INTENT comes before the OUTCOME, and there is one OUTCOME for an operation id. -/
theorem outcome_linked (h : s.Disciplined) {before after : List AppendEntry} {a : AppendEntry}
    (happ : s.appends = before ++ a :: after) (hstage : a.record.stage = .outcome) :
    (∃ b ∈ before, b.record.stage = .intent ∧ b.result = .ok () ∧
      b.record.operationId = a.record.operationId ∧ b.record.event = a.record.event ∧
        b.record.category = a.record.category ∧ b.record.actor = a.record.actor) ∧
      ∀ b ∈ before ++ after, b.record.stage = .outcome →
        b.record.operationId ≠ a.record.operationId := by
  obtain ⟨cell, intent, hcell, hbefore, hafter, hintent, hbelongs, hbelongs', -⟩ :=
    h.of_outcome happ hstage
  constructor
  · refine ⟨⟨a.owner, intent, .ok ()⟩, ?_, hintent, rfl, ?_, ?_, ?_, ?_⟩
    · exact List.mem_of_mem_filter (hbefore ▸ List.mem_singleton_self _)
    · exact hbelongs.operationId.trans hbelongs'.operationId.symm
    · exact hbelongs.event.trans hbelongs'.event.symm
    · exact hbelongs.category.trans hbelongs'.category.symm
    · exact hbelongs.actor.trans hbelongs'.actor.symm
  · intro b hb hstage' hid
    have hmem : b ∈ s.appends := by
      rw [happ]
      rcases List.mem_append.mp hb with hb | hb
      · exact List.mem_append_left _ hb
      · exact List.mem_append_right _ (List.mem_cons_of_mem _ hb)
    have howner := h.owner_eq hcell hmem hstage' (hid.trans hbelongs'.operationId)
    rcases List.mem_append.mp hb with hb | hb
    · have : b ∈ before.filter fun b => b.owner = a.owner :=
        List.mem_filter.mpr ⟨hb, decide_eq_true howner⟩
      rw [hbefore, List.mem_singleton] at this
      rw [this] at hstage'
      cases hintent.symm.trans hstage'
    · have : b ∈ after.filter fun b => b.owner = a.owner :=
        List.mem_filter.mpr ⟨hb, decide_eq_true howner⟩
      rw [hafter] at this
      cases this

/-- A handle on which no call is being made is finalised if its OUTCOME was stored. -/
theorem finalised (h : s.Disciplined) (hs : (s.view k).Settled) (hc : s.cells k = some cell)
    (hret : s.OutcomeReturned cell.op) : cell.state = .FINALISED := by
  obtain ⟨a, ha, hstage, hid, hok⟩ := hret
  have howner := h.owner_eq hc ha hstage hid
  obtain ⟨before, after, happ⟩ := List.append_of_mem ha
  obtain ⟨cell', intent, hc', hbefore, hafter, -, -, -, hstate⟩ := h.of_outcome happ hstage
  rw [howner] at hc' hbefore hafter
  rw [hc] at hc'
  cases hc'
  refine (hstate fun hopen => ?_).mpr hok
  have hlen := (hs cell hc).1 hopen
  simp [AuditState.view, happ, List.filter_append, hbefore, hafter, howner] at hlen

end AuditState.Disciplined

end

/-- No call is being made for the operation `ref`. -/
def Config.Free (cfg : Config auditSig Exc AuditValue AuditCall (AuditState ω)) (ref : Nat) :
    Prop :=
  ∀ (i : Nat) (c : AuditCall) (p : AuditProg AuditValue), cfg.calls[i]? = some (c, p) →
    c.key i = ref → p.result? ≠ none

/-- A call that records an outcome, made when the operation is no longer open, refuses. -/
def Refuses (c : AuditCall) (res : Except Exc AuditValue) : Prop :=
  ∀ op outcome kw handled, c = .record op outcome kw handled →
    ∃ e, res = .error e ∧ e.cls = AuditUsageError

variable {log X} in
theorem refuses_of_terminal {k : Nat} {state : OperationState} {op : AuditOperation}
    {appends : List AppendEntry} (hne : state ≠ .OPEN) {s : AuditState ω}
    {cs : List (AuditCall × AuditProg AuditValue)} {c : AuditCall}
    (hinv : (operations log X).Inv operationSpec ⟨s, cs⟩) (hstart : c.canStart cs)
    (hkey : c.key cs.length = k) (hT : (s.view k).Terminal state op appends) :
    (log.call c).wp (cellSem (fun _ => True) k) (s.view k) fun res _ => Refuses c res := by
  subst hkey
  have hsafe := ((operations_sound log X).begin hinv hstart).2
  cases c with
  | record op' outcome kw handled =>
    obtain ⟨cell, hc, hstate, -, -⟩ := hT
    change (s.view op'.ref).cell = some cell at hc
    change Prog.wp _ _ (s.view op'.ref) _
    generalize s.view op'.ref = v at hc ⊢
    obtain ⟨cell', appends', ids⟩ := v
    subst hc
    exact (Prog.wp_bind _ _ _ _).mpr (wp_record (wp_finalise_closed rfl (hstate ▸ hne)
      fun e he _ _ _ _ _ => ⟨e, rfl, he⟩))
  | _ => exact Prog.wp_mono hsafe fun _ _ _ _ _ _ _ h => by cases h

/-- In every run of a log whose operation ids never repeat, over any sink: a handle is there
only when the append of its INTENT returned; an OUTCOME is appended after that, with the id,
event, category and actor of the INTENT, and once for an operation id; a handle is finalised
when the append of its OUTCOME returned, and only then; and a handle that is no longer open
stays so, appends nothing, and refuses every further outcome. -/
theorem AuditLog.outcome_discipline {m : Heap × ω}
    {cfg : Config auditSig Exc AuditValue AuditCall (AuditState ω)}
    (h : (log.system X).Reachable { memory := m } cfg)
    (hids : (cfg.shared.ids.map Prod.snd).Nodup) :
    (∀ i c op, cfg.Ended i c (.ok (.handle op)) →
      ∃ cell, cfg.shared.cells op.ref = some cell ∧ cell.op = op) ∧
    (∀ ref cell, cfg.shared.cells ref = some cell →
      cell.op.ref = ref ∧ cfg.shared.IntentReturned cell.op) ∧
    (∀ before a after, cfg.shared.appends = before ++ a :: after → a.record.stage = .outcome →
      (∃ b ∈ before, b.record.stage = .intent ∧ b.result = .ok () ∧
        b.record.operationId = a.record.operationId ∧ b.record.event = a.record.event ∧
          b.record.category = a.record.category ∧ b.record.actor = a.record.actor) ∧
        ∀ b ∈ before ++ after, b.record.stage = .outcome →
          b.record.operationId ≠ a.record.operationId) ∧
    (∀ ref cell, cfg.shared.cells ref = some cell →
      (cell.state = .FINALISED → cfg.shared.OutcomeReturned cell.op) ∧
        (cfg.Free ref → cfg.shared.OutcomeReturned cell.op → cell.state = .FINALISED)) ∧
    ∀ ref cell cfg', cfg.shared.cells ref = some cell → cell.state ≠ .OPEN →
      ReflTransGen (log.system X).Step cfg cfg' →
        (∃ cell', cfg'.shared.cells ref = some cell' ∧ cell'.state = cell.state) ∧
        (cfg'.shared.appends.filter fun a => a.owner = ref) =
          (cfg.shared.appends.filter fun a => a.owner = ref) ∧
        ∀ i op outcome kw handled res, cfg.calls.length ≤ i → op.ref = ref →
          cfg'.Ended i (.record op outcome kw handled) res →
            ∃ e, res = .error e ∧ e.cls = AuditUsageError := by
  have hsound := operations_sound log X
  have hstart : ∀ k, (operations log X).view ({ memory := m } : AuditState ω) k =
      operationSpec.start := fun k => rfl
  have hinv := hsound.inv hstart h
  have hd : cfg.shared.Disciplined := by
    refine ⟨fun k => ?_, hids⟩
    exact hsound.views (J := History) hstart (fun k => .unused)
      (fun ⟨o, r, hp, hs⟩ hj => hj.moves hp hs) h k
  refine ⟨fun i c op hend => ?_, fun ref cell hc => hd.intentReturned hc,
    fun before a after happ hstage => hd.outcome_linked happ hstage, fun ref cell hc =>
      ⟨hd.outcomeReturned hc, fun hfree hret => hd.finalised ?_ hc hret⟩,
    fun ref cell cfg' hc hne hr => ?_⟩
  · obtain ⟨p, hi, hres⟩ := hend
    obtain ⟨-, href, cell, hc, hop⟩ := hinv.ended i c p _ hi hres op rfl
    exact ⟨cell, href ▸ hc, hop⟩
  · exact (hinv.idle ref fun i c p hi hkey => hfree i c p hi hkey).2
  · have hT : (cfg.shared.view ref).Terminal cell.state cell.op (cfg.shared.view ref).appends :=
      ⟨cell, hc, rfl, rfl, rfl⟩
    obtain ⟨⟨cell', hc', hstate, -, happ⟩, hcalls⟩ := hsound.later (k := ref) (Q := Refuses)
      (fun ⟨o, r, hp, hs⟩ hT => hT.moves hne hp hs) (refuses_of_terminal hne) hinv hT hr
    refine ⟨⟨cell', hc', hstate⟩, happ, fun i op outcome kw handled res hle href hend => ?_⟩
    obtain ⟨p, hi, hres⟩ := hend
    exact (Prog.wp_of_result hres).mp (hcalls i _ p hle hi href) op outcome kw handled rfl

omit [PyRuntime] in
/-- An operation is begun, and its success recorded. -/
theorem outcome_discipline_userCreated :
    ∃ (cfg : Config auditSig Exc AuditValue AuditCall (AuditState Nat)) (cell : OperationCell),
      (@AuditLog.system Nat PyRuntime.plain userLog obliging.externals).Reachable
        { memory := ([], 0) } cfg ∧ cfg.shared.cells 0 = some cell ∧ cell.state = .FINALISED ∧
          cfg.shared.IntentReturned cell.op ∧ cfg.shared.OutcomeReturned cell.op := by
  let event : PyAtom := .str (lit "user.created")
  let op : AuditOperation := ⟨0, event, userCreated, .str (lit "alice"), .str (lit "0")⟩
  let c₀ : AuditCall := .intent event op.actor .empty none
  let c₁ : AuditCall := .record op .success .empty none
  obtain ⟨s₁, s₂, cell, h₁, h₂, hids, hcell, hstate⟩ : ∃ (s₁ s₂ : AuditState Nat) (cell : OperationCell),
      (@AuditLog.call PyRuntime.plain userLog c₀).run? (obliging.answer 0) { memory := ([], 0) } =
        some (.ok (.handle op), s₁) ∧
      (@AuditLog.call PyRuntime.plain userLog c₁).run? (obliging.answer 0) s₁ =
        some (.ok .none, s₂) ∧
      s₂.ids = [(0, .str (lit "0"))] ∧ s₂.cells 0 = some cell ∧ cell.state = .FINALISED :=
    ⟨_, _, _, rfl, rfl, rfl, rfl, rfl⟩
  have hr₁ : (@AuditLog.system Nat PyRuntime.plain userLog obliging.externals).Reachable
      { memory := ([], 0) } ⟨s₁, [] ++ [(c₀, .ended (.ok (.handle op)))]⟩ :=
    System.Reachable.call .refl (fun _ h => by cases h)
      (Prog.runs_run? ScriptedExternals.step_of_answer h₁)
  have hr₂ : (@AuditLog.system Nat PyRuntime.plain userLog obliging.externals).Reachable
      { memory := ([], 0) }
      ⟨s₂, [(c₀, .ended (.ok (.handle op)))] ++ [(c₁, .ended (.ok .none))]⟩ := by
    refine System.Reachable.call hr₁ ?_ (Prog.runs_run? ScriptedExternals.step_of_answer h₂)
    intro op' hop
    cases hop
    refine ⟨⟨0, c₀, rfl⟩, fun i c' p op' hi hres _ => ?_⟩
    rcases i with _ | i
    · cases hi
      cases hres
    · simp at hi
  obtain ⟨-, hintent, -, hfin, -⟩ := @AuditLog.outcome_discipline PyRuntime.plain Nat userLog
    obliging.externals ([], 0) _ hr₂ (by rw [hids]; decide)
  exact ⟨_, cell, hr₂, hcell, hstate, (hintent 0 cell hcell).2, (hfin 0 cell hcell).1 hstate⟩

end NmLogging
