import NmLogging.AuditHistory
import NmLogging.Conformance
import NmLogging.Reader.Conforming
import NmLogging.Sinks.Disk

/-!
# The audit trail on a disk

A log over a `JsonlAuditSink` with a file of its own, which may fail at any operation, and
may lose what was not synced. What survives is the first `k` bytes of the file, with `k` at
least what was synced, and this is what a reader gets. The file is a `Trail` of the appends in
every run: the lines of records that were appended, in their order, and among them the line of
every append that returned. The runs are those of `AuditLog.system` over `diskStep`: calls are
interleaved, but on one handle made one at a time, and `os.write` and `os.fsync` raise nothing but
`OSError`. Another exception of theirs can leave a torn line behind a stream that is not latched
(`Sinks.Interrupt`), and two calls at once on one handle can record two outcomes (`AuditSharing`).

So the protocol of the facade can be read off the file. Wherever it is cut, an outcome that is
read is preceded by its intent, and an operation id has one intent and one outcome at most
(`AuditLog.trail_linked`); what is synced has the intent of every handle, and the outcome of
every finalised one (`AuditLog.trail_reconciles`); and once the stream is latched or the sink is
closed, nothing changes any more and no handle is handed out (`AuditLog.trail_blocked`).
-/

namespace NmLogging

open Relation (ReflTransGen)

/-! ## A file under a log -/

/-- Nothing was done to the file of a sink, unless the sink was closed. -/
structure Disk.Spared (f f' : Disk) : Prop where
  content : f'.content = f.content
  durable : f'.durable = f.durable
  latched : f'.latched = f.latched
  closed : f.closed = true → f'.closed = true

/-- A new file. -/
def Disk.new : Disk := ⟨[], 0, false, false⟩

variable [PyRuntime]

omit [PyRuntime] in
/-- A `close` of the sink does no more. -/
theorem Disk.spared_close {f f' : Disk} {res : Except PyError Unit}
    (h : JsonlAuditSink.close.Runs (allowing diskStep) f res f') : f.Spared f' := by
  rw [h.post jsonlAuditSink_close_disk]
  exact ⟨rfl, rfl, rfl, fun _ => rfl⟩

/-- A `JsonlAuditSink` with a file of its own. The clock and the factory of operation ids are
anything. -/
def diskExternals (trace : PureCall → PureTrace) : Externals Disk where
  clock _ m _ m' := m.2.Spared m'.2
  factory _ m _ m' := m.2.Spared m'.2
  sink record _ m r m' := ∃ res : Except PyError Unit,
    (JsonlAuditSink.append (.audit record)).Runs (allowing diskStep) m.2 res m'.2 ∧
      (r = .ok () ↔ res = .ok ())
  atomic _ b := b = false
  trace := trace

/-! ## The trail -/

omit [PyRuntime] in
/-- The record that was given to the sink. -/
def AppendEntry.audited (a : AppendEntry) : Record := .audit a.record

/-- The lines of appends. -/
def trailLines (written : List AppendEntry) : List Bytes :=
  (written.map AppendEntry.audited).map (Record.line .audit)

/-- The file of a sink as the appends `es` tell it: the lines of the records written, then a
torn part. What was appended by an append that returned is synced. -/
structure Trail (es : List AppendEntry) (f : Disk) (written : List AppendEntry) (torn : Bytes) :
    Prop where
  content : f.content = (trailLines written).flatten ++ torn
  lines : ∀ a ∈ written, a.audited.HasLine .audit
  order : written.Sublist es
  stored : ∀ a ∈ es, a.result = .ok () → ∃ before after, written = before ++ a :: after ∧
    (trailLines (before ++ [a])).flatten.length ≤ f.durable
  bound : f.durable ≤ f.content.length
  latched : torn ≠ [] → f.latched = true
  newline_notMem : newline ∉ torn

theorem trailLines_append (xs ys : List AppendEntry) :
    trailLines (xs ++ ys) = trailLines xs ++ trailLines ys := by
  simp [trailLines]

theorem length_trailLines (es : List AppendEntry) : (trailLines es).length = es.length := by
  simp [trailLines]

namespace Trail

variable {es written : List AppendEntry} {f f' : Disk} {torn : Bytes} {a : AppendEntry}

theorem new : Trail [] Disk.new [] [] where
  content := rfl
  lines _ h := by cases h
  order := .slnil
  stored _ h := by cases h
  bound := Nat.le_refl _
  latched h := absurd rfl h
  newline_notMem h := by cases h

theorem spared (h : Trail es f written torn) (hf : f.Spared f') : Trail es f' written torn where
  content := hf.content.trans h.content
  lines := h.lines
  order := h.order
  stored a ha hok := by
    rw [hf.durable]
    exact h.stored a ha hok
  bound := by
    rw [hf.durable, hf.content]
    exact h.bound
  latched ht := hf.latched.trans (h.latched ht)
  newline_notMem := h.newline_notMem

/-- An append that did nothing. -/
theorem refused (h : Trail es f written torn) (ha : a.result ≠ .ok ()) :
    Trail (es ++ [a]) f written torn :=
  { h with
    order := h.order.trans (List.sublist_append_left _ _)
    stored := fun b hb hok => by
      rcases List.mem_append.mp hb with hb | hb
      · exact h.stored b hb hok
      · rw [List.mem_singleton.mp hb] at hok
        exact absurd hok ha }

/-- The line of a record is written, and synced up to `durable`. -/
theorem write (h : Trail es f written []) {line : Bytes} {durable : Nat}
    (hline : StreamKind.audit.encodeLine a.audited = .ok line)
    (hle : f.durable ≤ durable) (hbound : durable ≤ (f.content ++ line).length)
    (hok : a.result = .ok () → durable = (f.content ++ line).length) :
    Trail (es ++ [a]) { f with content := f.content ++ line, durable := durable }
      (written ++ [a]) [] := by
  have hcontent : f.content ++ line = (trailLines (written ++ [a])).flatten := by
    have hsingle : trailLines [a] = [line] := by
      rw [trailLines, List.map_singleton, List.map_singleton, Record.line_eq hline]
    rw [h.content, trailLines_append, hsingle]
    simp
  refine ⟨?_, fun b hb => ?_, h.order.append (List.Sublist.refl _), fun b hb hbok => ?_, hbound,
    fun ht => absurd rfl ht, by simp⟩
  · rw [List.append_nil]
    exact hcontent
  · rcases List.mem_append.mp hb with hb | hb
    · exact h.lines b hb
    · rw [List.mem_singleton.mp hb]
      exact ⟨line, hline⟩
  · rcases List.mem_append.mp hb with hb | hb
    · obtain ⟨before, after, hwritten, hlen⟩ := h.stored b hb hbok
      refine ⟨before, after ++ [a], by rw [hwritten]; simp, Nat.le_trans hlen hle⟩
    · rw [List.mem_singleton.mp hb] at hbok ⊢
      refine ⟨written, [], rfl, ?_⟩
      rw [← hcontent]
      exact Nat.le_of_eq (hok hbok).symm

/-- An append, whatever becomes of it, leaves a trail. -/
theorem append (h : Trail es f written torn) {line : Bytes} {res : Except PyError Unit}
    (hline : StreamKind.audit.encodeLine a.audited = .ok line)
    (hres : a.result = .ok () ↔ res = .ok ()) (hd : DiskAppend line f res f') :
    ∃ written' torn', Trail (es ++ [a]) f' written' torn' := by
  have sound : f.latched = false → torn = [] := by
    intro hl
    by_contra hne
    rw [h.latched hne] at hl
    cases hl
  have raised : ∀ {e : PyError}, res = .error e → a.result ≠ .ok () := by
    intro e he hok
    rw [hres.mp hok] at he
    cases he
  have hlong : f.content.length ≤ (f.content ++ line).length := by simp
  cases hd with
  | refused => exact ⟨_, _, h.refused (raised rfl)⟩
  | nothing => exact ⟨_, _, h.refused (raised rfl)⟩
  | @torn _ t _ _ latched piece strict =>
    obtain rfl := sound latched
    have h' := h.refused (raised rfl)
    refine ⟨written, t, ⟨?_, h'.lines, h'.order, h'.stored, ?_, fun _ => rfl, ?_⟩⟩
    · show f.content ++ t = _
      rw [h.content, List.append_nil]
    · show f.durable ≤ (f.content ++ t).length
      exact Nat.le_trans h.bound (by simp)
    · exact (encodeLine_ok hline).1.newline_notMem_piece piece strict
  | unsynced _ _ latched =>
    obtain rfl := sound latched
    exact ⟨_, _, h.write hline (Nat.le_refl _) (Nat.le_trans h.bound hlong)
      fun hok => absurd hok (raised rfl)⟩
  | stored _ latched =>
    obtain rfl := sound latched
    exact ⟨_, _, h.write hline (Nat.le_trans h.bound hlong) (Nat.le_refl _) fun _ => rfl⟩

theorem mem_of_ok (h : Trail es f written torn) (ha : a ∈ es) (hok : a.result = .ok ()) :
    a ∈ written := by
  obtain ⟨before, after, rfl, -⟩ := h.stored a ha hok
  simp

/-- What is read of the first `k` bytes: the records of the first lines. -/
theorem reads (h : Trail es f written torn)
    (hnames : ∀ a ∈ es, StringNames a.audited) (k : Nat) :
    ∃ whole rest, written = whole ++ rest ∧ (iterate (f.content.take k)).error = none ∧
      List.Forall₂ (fun a obj => a.audited.ReadsAs obj) whole (iterate (f.content.take k)).records ∧
      (f.durable ≤ k → ∀ a ∈ es, a.result = .ok () → a ∈ whole) := by
  have hrecords : ∀ r ∈ written.map AppendEntry.audited, r.HasLine .audit ∧ StringNames r := by
    intro r hr
    obtain ⟨a, ha, rfl⟩ := List.mem_map.mp hr
    exact ⟨h.lines a ha, hnames a (h.order.subset ha)⟩
  obtain ⟨hread, herror⟩ := iterate_recordLines hrecords h.newline_notMem k
  have hcontent : ((written.map AppendEntry.audited).map (Record.line .audit)).flatten ++ torn =
      f.content := h.content.symm
  rw [hcontent, ← List.map_take, List.forall₂_map_left_iff] at hread
  rw [hcontent] at herror
  refine ⟨_, _, (List.take_append_drop _ written).symm, herror, hread, fun hk a ha hok => ?_⟩
  obtain ⟨before, after, hwritten, hlen⟩ := h.stored a ha hok
  have hwithin : before.length < linesWithin (trailLines written) k := by
    refine lt_linesWithin.mpr ⟨?_, ?_⟩
    · rw [length_trailLines, hwritten]
      simp
    · have htake : (trailLines written).take (before.length + 1) = trailLines (before ++ [a]) := by
        rw [hwritten, show before ++ a :: after = (before ++ [a]) ++ after by simp,
          trailLines_append, List.take_left']
        simp [trailLines]
      rw [htake]
      exact Nat.le_trans hlen hk
  refine List.mem_take_iff_getElem.mpr ⟨before.length, ?_, ?_⟩
  · rw [hwritten]
    refine Nat.lt_min.mpr ⟨?_, by simp⟩
    rw [← hwritten]
    exact hwithin
  · simp [hwritten]

end Trail

/-! ## Every run leaves a trail -/

variable {log : AuditLog} {trace : PureCall → PureTrace} {heap : Heap}
  {cfg cfg' : Config auditSig Exc AuditValue AuditCall (AuditState Disk)}

theorem trail_step {k : Nat} {s s' : AuditState Disk} {o : AuditOp} {r : auditSig.Ret o}
    {written : List AppendEntry} {torn : Bytes} (h : Trail s.appends s.memory.2 written torn)
    (hs : auditStep (diskExternals trace) k s o r s') :
    ∃ written' torn', Trail s'.appends s'.memory.2 written' torn' := by
  cases o with
  | now handled =>
    obtain ⟨m, hm, rfl⟩ := hs
    exact ⟨_, _, h.spared hm⟩
  | newOperationId handled =>
    obtain ⟨m, hm, rfl⟩ := hs
    exact ⟨_, _, h.spared hm⟩
  | append record handled =>
    obtain ⟨m, ⟨res, hrun, hres⟩, rfl⟩ := hs
    have hpost := hrun.post jsonlAuditSink_append_disk
    show ∃ written' torn', Trail (s.appends ++ [⟨k, record, r⟩]) m.2 written' torn'
    cases hline : auditLineBytes (.audit record) with
    | error e =>
      rw [hline] at hpost
      obtain ⟨rfl, hm⟩ := hpost
      rw [hm]
      refine ⟨_, _, h.refused fun hok => ?_⟩
      cases hres.mp hok
    | ok line =>
      rw [hline] at hpost
      exact h.append (a := ⟨k, record, r⟩) hline hres hpost
  | supportsAtomic =>
    obtain ⟨-, rfl⟩ := hs
    exact ⟨_, _, h⟩
  | heap o =>
    obtain ⟨-, rfl⟩ := hs
    exact ⟨_, _, h⟩
  | handle o =>
    obtain ⟨cell, -, rfl⟩ := hs
    exact ⟨_, _, h⟩

/-- In every run, the file is a trail of the appends. -/
theorem exists_trail
    (h : (log.system (diskExternals trace)).Reachable { memory := (heap, .new) } cfg) :
    ∃ written torn, Trail cfg.shared.appends cfg.shared.memory.2 written torn := by
  refine System.Reachable.inv (I := fun cfg => ∃ written torn,
    Trail cfg.shared.appends cfg.shared.memory.2 written torn) h ⟨_, _, .new⟩ ?_
  rintro _ _ ⟨written, torn, ht⟩ hstep
  cases hstep with
  | start _ => exact ⟨_, _, ht⟩
  | perform _ hs => exact trail_step ht hs

theorem AuditLog.Conforms.stringNames {a : AppendEntry} (h : log.Conforms a.record) :
    StringNames a.audited := by
  obtain ⟨schema, -, -, hdescribes⟩ := h.schema
  exact hdescribes.accepts.isStr

section

variable {ω : Type} {X : Externals ω} {m : Heap × ω}
  {cfg : Config auditSig Exc AuditValue AuditCall (AuditState ω)}

theorem AuditLog.histories (h : (log.system X).Reachable { memory := m } cfg) (k : Nat) :
    History k (cfg.shared.view k) :=
  (operations_sound log X).views (J := History) (fun _ => rfl) (fun _ => .unused)
    (by rintro _ _ _ ⟨o, r, hp, hs⟩ hj; exact hj.moves hp hs) h k

/-- Operations of runs in which no id repeats are disciplined. -/
theorem AuditLog.disciplined (h : (log.system X).Reachable { memory := m } cfg)
    (hids : (cfg.shared.ids.map Prod.snd).Nodup) : cfg.shared.Disciplined :=
  ⟨AuditLog.histories h, hids⟩

theorem AuditLog.operations_inv (h : (log.system X).Reachable { memory := m } cfg) :
    (operations log X).Inv operationSpec cfg :=
  (operations_sound log X).inv (fun _ => rfl) h

omit [PyRuntime] in
/-- The records of an operation have the id that was made for it. -/
theorem History.id_mem {k : Nat} {v : OperationView} (h : History k v) :
    ∀ a ∈ v.appends, (k, a.record.operationId) ∈ v.ids := by
  intro a ha
  cases h with
  | unused => cases ha
  | named => cases ha
  | intended =>
    rw [List.mem_singleton.mp ha]
    exact List.mem_singleton_self _
  | opened _ _ belongs =>
    rw [List.mem_singleton.mp ha, belongs.operationId]
    exact List.mem_singleton_self _
  | recorded _ _ belongs _ belongs' =>
    rcases List.mem_cons.mp ha with rfl | ha
    · rw [belongs.operationId]
      exact List.mem_singleton_self _
    · rw [List.mem_singleton.mp ha, belongs'.operationId]
      exact List.mem_singleton_self _

omit [PyRuntime] in
/-- An operation has one record of a stage. -/
theorem History.stages_nodup {k : Nat} {v : OperationView} (h : History k v) :
    (v.appends.map fun a => a.record.stage).Nodup := by
  cases h with
  | unused => exact List.nodup_nil
  | named => exact List.nodup_nil
  | intended => exact List.nodup_singleton _
  | opened => exact List.nodup_singleton _
  | recorded _ stage _ stage' => simp [stage, stage']

end

namespace AuditState.Disciplined

omit [PyRuntime]

variable {ω : Type} {s : AuditState ω}

/-- An operation id has one record of a stage. -/
theorem unique (h : s.Disciplined) {before after : List AppendEntry} {a : AppendEntry}
    (happ : s.appends = before ++ a :: after) :
    ∀ b ∈ before ++ after, b.record.stage = a.record.stage →
      b.record.operationId ≠ a.record.operationId := by
  have hid : ∀ b ∈ s.appends, (b.owner, b.record.operationId) ∈ s.ids := fun b hb =>
    mem_ids_of_view ((h.history b.owner).id_mem b (List.mem_filter.mpr ⟨hb, by simp⟩))
  intro b hb hstage hsame
  have hmem : b ∈ s.appends := by
    rw [happ]
    simp only [List.mem_append, List.mem_cons] at hb ⊢
    tauto
  have hkey := List.inj_on_of_nodup_map h.nodup (hid b hmem) (hid a (by rw [happ]; simp)) hsame
  have howner : b.owner = a.owner := congrArg Prod.fst hkey
  have hnd := (h.history a.owner).stages_nodup
  have hview : (s.view a.owner).appends = (before.filter fun b => b.owner = a.owner) ++
      a :: after.filter fun b => b.owner = a.owner := by
    simp [AuditState.view, happ, List.filter_append]
  rw [hview, List.map_append, List.map_cons] at hnd
  obtain ⟨-, hnd', hdisjoint⟩ := List.nodup_append.mp hnd
  rcases List.mem_append.mp hb with hb | hb
  · refine hdisjoint b.record.stage ?_ a.record.stage List.mem_cons_self hstage
    exact List.mem_map.mpr ⟨b, List.mem_filter.mpr ⟨hb, decide_eq_true howner⟩, rfl⟩
  · refine (List.nodup_cons.mp hnd').1 ?_
    rw [← hstage]
    exact List.mem_map.mpr ⟨b, List.mem_filter.mpr ⟨hb, decide_eq_true howner⟩, rfl⟩

end AuditState.Disciplined

/-! ## What is read of a trail -/

omit [PyRuntime] in
theorem Stage.value_inj {s t : Stage} (h : s.value = t.value) : s = t := by
  revert h
  cases s <;> cases t <;> decide

/-- What was read shows an audit record of a stage, with an operation id. -/
structure ShowsRecord (obj : JsonObject) (stage : Stage) (id : PyAtom) : Prop where
  stage : valueAt obj "stage" = some (.atom (.str stage.value))
  operationId : valueAt obj "operation_id" = some (.atom id)

/-- Two objects that were read are about one event, of one category, by one actor. -/
structure SameFact (obj obj' : JsonObject) : Prop where
  event : valueAt obj "event" = valueAt obj' "event"
  category : valueAt obj "category" = valueAt obj' "category"
  actor : valueAt obj "actor" = valueAt obj' "actor"

omit [PyRuntime] in
/-- A record of an operation is shown by what is read of it. -/
theorem shows_iff {a : AppendEntry} {obj : JsonObject} (h : a.audited.ReadsAs obj)
    (hs : a.record.stage = .intent ∨ a.record.stage = .outcome) {stage : Stage} {id : PyAtom} :
    ShowsRecord obj stage id ↔ stage = a.record.stage ∧ id = a.record.operationId := by
  have hshown := AuditRecord.shownBy h
  constructor
  · intro hshows
    have hstage := hshows.stage.symm.trans hshown.stage
    have hid := hshows.operationId.symm.trans (hshown.operationId hs)
    simp only [Option.some.injEq, PyObj.atom.injEq, PyAtom.str.injEq] at hstage hid
    exact ⟨Stage.value_inj hstage, hid⟩
  · rintro ⟨rfl, rfl⟩
    exact ⟨hshown.stage, hshown.operationId hs⟩

omit [PyRuntime] in
/-- Records of one operation are about one fact. -/
theorem sameFact_of_belongs {a b : AppendEntry} {obj obj' : JsonObject} {op : AuditOperation}
    (h : a.audited.ReadsAs obj) (h' : b.audited.ReadsAs obj') (ha : a.record.BelongsTo op)
    (hb : b.record.BelongsTo op) : SameFact obj obj' := by
  have hshown := AuditRecord.shownBy h
  have hshown' := AuditRecord.shownBy h'
  refine ⟨?_, ?_, ?_⟩
  · rw [hshown.event, hshown'.event, ha.event, hb.event]
  · rw [hshown.category, hshown'.category, ha.category, hb.category]
  · rw [hshown.actor, hshown'.actor, ha.actor, hb.actor]

/-- Before each outcome stands the intent with its operation id, event, category and actor, and
no operation id is shown twice at one stage. -/
def Linked (objs : List JsonObject) : Prop :=
  ∀ before obj after, objs = before ++ obj :: after → ∀ stage id, ShowsRecord obj stage id →
    (stage = .outcome → ∃ obj' ∈ before, ShowsRecord obj' .intent id ∧ SameFact obj' obj) ∧
      ∀ obj' ∈ before ++ after, ¬ShowsRecord obj' stage id

/-- A reader of the trail ends without an exception, and yields mappings of records that were
appended. -/
theorem AuditLog.reads_trail
    (h : (log.system (diskExternals trace)).Reachable { memory := (heap, .new) } cfg) (k : Nat) :
    (iterate (cfg.shared.memory.2.content.take k)).error = none ∧
    ∀ obj ∈ (iterate (cfg.shared.memory.2.content.take k)).records,
      ∃ a ∈ cfg.shared.appends, a.audited.ReadsAs obj ∧ log.Conforms a.record := by
  have hconf := AuditLog.appended_conform h
  obtain ⟨written, torn, ht⟩ := exists_trail h
  obtain ⟨whole, rest, rfl, herror, hread, -⟩ := ht.reads (fun a ha => (hconf a ha).stringNames) k
  refine ⟨herror, fun obj hobj => ?_⟩
  obtain ⟨a, ha, hreads⟩ := exists_of_forall₂_right hread hobj
  have hmem : a ∈ cfg.shared.appends := ht.order.subset (List.mem_append_left _ ha)
  exact ⟨a, hmem, hreads, hconf a hmem⟩

theorem AuditLog.linked
    (h : (log.system (diskExternals trace)).Reachable { memory := (heap, .new) } cfg)
    (hids : (cfg.shared.ids.map Prod.snd).Nodup) (k : Nat) :
    Linked (iterate (cfg.shared.memory.2.content.take k)).records := by
  have hd := AuditLog.disciplined h hids
  have hconf := AuditLog.appended_conform h
  obtain ⟨written, torn, ht⟩ := exists_trail h
  obtain ⟨whole, rest, rfl, -, hread, -⟩ := ht.reads (fun a ha => (hconf a ha).stringNames) k
  intro before obj after hsplit stage id hshows
  rw [hsplit] at hread
  obtain ⟨xs, a, xs', rfl, hbefore, hreads, hafter⟩ := forall₂_middle hread
  rw [List.append_assoc, List.cons_append] at ht
  obtain ⟨bs, cs, happ, hbs, hcs⟩ := sublist_middle ht.order
  have hstages : ∀ b ∈ cfg.shared.appends, b.record.stage = .intent ∨ b.record.stage = .outcome :=
    fun b hb => (hconf b hb).stage
  have hmem : a ∈ cfg.shared.appends := ht.order.subset (by simp)
  obtain ⟨rfl, rfl⟩ := (shows_iff hreads (hstages a hmem)).mp hshows
  refine ⟨fun hstage => ?_, fun obj' hobj' hshows' => ?_⟩
  · obtain ⟨cell, intent, -, hfirst, hlast, hintent, hbelongs, hbelongs', -⟩ :=
      hd.of_outcome happ hstage
    have hi : (⟨a.owner, intent, .ok ()⟩ : AppendEntry) ∈ bs :=
      List.mem_of_mem_filter (hfirst ▸ List.mem_singleton_self _)
    have hwritten := ht.mem_of_ok (by rw [happ]; exact List.mem_append_left _ hi) rfl
    obtain ⟨obj', hobj', hreads'⟩ := exists_of_forall₂_left hbefore
      (a := ⟨a.owner, intent, .ok ()⟩) (by
        rcases List.mem_append.mp hwritten with hx | hx
        · exact hx
        rcases List.mem_cons.mp hx with e | hx
        · rw [← e] at hstage
          cases hintent.symm.trans hstage
        · have hnone : (⟨a.owner, intent, .ok ()⟩ : AppendEntry) ∈
              cs.filter fun b => b.owner = a.owner :=
            List.mem_filter.mpr ⟨hcs.subset hx, by simp⟩
          rw [hlast] at hnone
          cases hnone)
    refine ⟨obj', hobj', (shows_iff hreads' (.inl hintent)).mpr ⟨hintent.symm, ?_⟩,
      sameFact_of_belongs hreads' hreads hbelongs hbelongs'⟩
    exact hbelongs'.operationId.trans hbelongs.operationId.symm
  · have hothers : List.Forall₂ (fun a obj => a.audited.ReadsAs obj) (xs ++ xs')
        (before ++ after) := List.rel_append hbefore hafter
    obtain ⟨b, hb, hreads'⟩ := exists_of_forall₂_right hothers hobj'
    have hb' : b ∈ bs ++ cs := by
      rcases List.mem_append.mp hb with hb | hb
      · exact List.mem_append_left _ (hbs.subset hb)
      · exact List.mem_append_right _ (hcs.subset (List.mem_append_left _ hb))
    have hball : b ∈ cfg.shared.appends := by
      rw [happ]
      simp only [List.mem_append, List.mem_cons] at hb' ⊢
      tauto
    obtain ⟨hstage, hid⟩ := (shows_iff hreads' (hstages b hball)).mp hshows'
    exact hd.unique happ b hb' hstage.symm hid.symm

/-- **What a reader of the trail can rely on.** In every run on a new file, with calls interleaved
in any order, but on one handle made one at a time, whatever `OSError` is raised and wherever the
file is cut, the reader ends without an exception, and each object that it yields is about an
event that is registered, with the category of its schema, and the fields that the schema requires
at its stage. -/
theorem AuditLog.trail_conforms
    (h : (log.system (diskExternals trace)).Reachable { memory := (heap, .new) } cfg) (k : Nat) :
    (iterate (cfg.shared.memory.2.content.take k)).error = none ∧
    ∀ obj ∈ (iterate (cfg.shared.memory.2.content.take k)).records,
      ∃ schema category stage, schema.category = some category ∧
        valueAt obj "category" = some (.atom (.str category.value)) ∧
        (stage = .intent ∨ stage = .outcome) ∧
        valueAt obj "stage" = some (.atom (.str stage.value)) ∧
        ShowsEvent log.application log.emitter log.registry schema (FieldSpec.requiredAt stage)
          obj := by
  obtain ⟨herror, hread⟩ := AuditLog.reads_trail h k
  refine ⟨herror, fun obj hobj => ?_⟩
  obtain ⟨a, -, hreads, hconforms⟩ := hread obj hobj
  exact hconforms.shows hreads

/-- **What the trail tells.** In every run on a new file, with calls interleaved in any order, but
on one handle made one at a time, whatever `OSError` is raised and wherever the file is cut, its
reader yields nothing but the mappings of records that were appended, and these are linked: an
outcome comes after its intent, and no operation has two records of a stage. -/
theorem AuditLog.trail_linked
    (h : (log.system (diskExternals trace)).Reachable { memory := (heap, .new) } cfg)
    (hids : (cfg.shared.ids.map Prod.snd).Nodup) (k : Nat) :
    (∀ obj ∈ (iterate (cfg.shared.memory.2.content.take k)).records,
      ∃ a ∈ cfg.shared.appends, a.audited.ReadsAs obj) ∧
    Linked (iterate (cfg.shared.memory.2.content.take k)).records := by
  refine ⟨fun obj hobj => ?_, AuditLog.linked h hids k⟩
  obtain ⟨a, ha, hreads, -⟩ := (AuditLog.reads_trail h k).2 obj hobj
  exact ⟨a, ha, hreads⟩

/-- What is left when no more is lost than what was not synced shows the outcome of every
finalised handle. -/
theorem AuditLog.outcome_read
    (h : (log.system (diskExternals trace)).Reachable { memory := (heap, .new) } cfg)
    (hids : (cfg.shared.ids.map Prod.snd).Nodup) {k : Nat}
    (hk : cfg.shared.memory.2.durable ≤ k) {ref : Nat} {cell : OperationCell}
    (hc : cfg.shared.cells ref = some cell) (hfin : cell.state = .FINALISED) :
    ∃ obj ∈ (iterate (cfg.shared.memory.2.content.take k)).records,
      ShowsRecord obj .outcome cell.op.operationId := by
  obtain ⟨written, torn, ht⟩ := exists_trail h
  obtain ⟨whole, rest, -, -, hread, hstored⟩ :=
    ht.reads (fun a ha => (AuditLog.appended_conform h a ha).stringNames) k
  obtain ⟨a, ha, hstage, hid, hok⟩ := (AuditLog.disciplined h hids).outcomeReturned hc hfin
  obtain ⟨obj, hobj, hreads⟩ := exists_of_forall₂_left hread (hstored hk a ha hok)
  exact ⟨obj, hobj, (shows_iff hreads (.inr hstage)).mpr ⟨hstage.symm, hid.symm⟩⟩

/-- And the intent of every handle. -/
theorem AuditLog.intent_read
    (h : (log.system (diskExternals trace)).Reachable { memory := (heap, .new) } cfg)
    (hids : (cfg.shared.ids.map Prod.snd).Nodup) {k : Nat}
    (hk : cfg.shared.memory.2.durable ≤ k) {ref : Nat} {cell : OperationCell}
    (hc : cfg.shared.cells ref = some cell) :
    ∃ obj ∈ (iterate (cfg.shared.memory.2.content.take k)).records, ∃ record : AuditRecord,
      record.ShownBy obj ∧ record.stage = .intent ∧ record.BelongsTo cell.op := by
  obtain ⟨written, torn, ht⟩ := exists_trail h
  obtain ⟨whole, rest, -, -, hread, hstored⟩ :=
    ht.reads (fun a ha => (AuditLog.appended_conform h a ha).stringNames) k
  obtain ⟨-, a, ha, hstage, hbelongs, hok⟩ := (AuditLog.disciplined h hids).intentReturned hc
  obtain ⟨obj, hobj, hreads⟩ := exists_of_forall₂_left hread (hstored hk a ha hok)
  exact ⟨obj, hobj, a.record, AuditRecord.shownBy hreads, hstage, hbelongs⟩

/-- **Reconciling handles with the trail.** In every run on a new file, what is left when no
more is lost than what was not synced shows the intent of every handle, and the outcome of
every finalised one. Of a handle that is open, and on which no call is being made, no outcome
is shown. -/
theorem AuditLog.trail_reconciles
    (h : (log.system (diskExternals trace)).Reachable { memory := (heap, .new) } cfg)
    (hids : (cfg.shared.ids.map Prod.snd).Nodup) {k : Nat}
    (hk : cfg.shared.memory.2.durable ≤ k) {ref : Nat} {cell : OperationCell}
    (hc : cfg.shared.cells ref = some cell) :
    (∃ obj ∈ (iterate (cfg.shared.memory.2.content.take k)).records, ∃ record : AuditRecord,
      record.ShownBy obj ∧ record.stage = .intent ∧ record.BelongsTo cell.op) ∧
    (cell.state = .FINALISED →
      ∃ obj ∈ (iterate (cfg.shared.memory.2.content.take k)).records,
        ShowsRecord obj .outcome cell.op.operationId) ∧
    (cfg.Free ref → cell.state = .OPEN →
      ∀ obj ∈ (iterate (cfg.shared.memory.2.content.take k)).records,
        ¬ShowsRecord obj .outcome cell.op.operationId) := by
  have hd := AuditLog.disciplined h hids
  refine ⟨AuditLog.intent_read h hids hk hc, AuditLog.outcome_read h hids hk hc,
    fun hfree hopen obj hobj hshows => ?_⟩
  obtain ⟨a, hmem, hreads, hconforms⟩ := (AuditLog.reads_trail h k).2 obj hobj
  obtain ⟨hstage, hid⟩ := (shows_iff hreads hconforms.stage).mp hshows
  have howner := hd.owner_eq hc hmem hstage.symm hid.symm
  have hview : a ∈ (cfg.shared.view ref).appends :=
    List.mem_filter.mpr ⟨hmem, decide_eq_true howner⟩
  have hsettled := ((AuditLog.operations_inv h).idle ref fun i c p hi hkey =>
    hfree i c p hi hkey).2
  have hlen : (cfg.shared.view ref).appends.length = 1 := (hsettled cell hc).1 hopen
  obtain ⟨-, -, intent, hintent, -, ⟨happ, -⟩ | ⟨record, r, happ, -⟩⟩ :=
    (hd.history ref).of_cell hc
  · rw [happ, List.mem_singleton] at hview
    rw [hview] at hstage
    cases hstage.trans hintent
  · rw [happ] at hlen
    cases hlen

/-! ## A trail that is blocked -/

/-- An operation of a call leaves the file of a blocked sink, and no append returns. -/
theorem blocked_step {k : Nat} {s s' : AuditState Disk} {o : AuditOp} {r : auditSig.Ret o}
    (hb : s.memory.2.closed = true ∨ s.memory.2.latched = true)
    (hs : auditStep (diskExternals trace) k s o r s') :
    (s'.memory.2.closed = true ∨ s'.memory.2.latched = true) ∧
      s'.memory.2.content = s.memory.2.content ∧
      ∀ a ∈ s'.appends, a.result = .ok () → a ∈ s.appends := by
  have spared : ∀ {f' : Disk}, s.memory.2.Spared f' →
      (f'.closed = true ∨ f'.latched = true) ∧ f'.content = s.memory.2.content := by
    intro f' hf
    refine ⟨?_, hf.content⟩
    rcases hb with hb | hb
    · exact .inl (hf.closed hb)
    · exact .inr (hf.latched.trans hb)
  cases o with
  | now handled =>
    obtain ⟨m, hm, rfl⟩ := hs
    exact ⟨(spared hm).1, (spared hm).2, fun a ha _ => ha⟩
  | newOperationId handled =>
    obtain ⟨m, hm, rfl⟩ := hs
    exact ⟨(spared hm).1, (spared hm).2, fun a ha _ => ha⟩
  | append record handled =>
    obtain ⟨m, ⟨res, hrun, hres⟩, rfl⟩ := hs
    have hpost := hrun.post jsonlAuditSink_append_disk
    obtain ⟨hfile, hne⟩ : m.2 = s.memory.2 ∧ res ≠ .ok () := by
      cases hline : auditLineBytes (.audit record) with
      | error e =>
        rw [hline] at hpost
        obtain ⟨rfl, hm⟩ := hpost
        exact ⟨hm, by rintro ⟨⟩⟩
      | ok line =>
        rw [hline] at hpost
        exact DiskAppend.blocked hpost hb
    refine ⟨?_, ?_, fun a ha hok => ?_⟩
    · show m.2.closed = true ∨ m.2.latched = true
      rw [hfile]
      exact hb
    · show m.2.content = _
      rw [hfile]
    · rcases List.mem_append.mp ha with ha | ha
      · exact ha
      · rw [List.mem_singleton.mp ha] at hok
        exact absurd (hres.mp hok) hne
  | supportsAtomic =>
    obtain ⟨-, rfl⟩ := hs
    exact ⟨hb, rfl, fun a ha _ => ha⟩
  | heap o =>
    obtain ⟨-, rfl⟩ := hs
    exact ⟨hb, rfl, fun a ha _ => ha⟩
  | handle o =>
    obtain ⟨cell, -, rfl⟩ := hs
    exact ⟨hb, rfl, fun a ha _ => ha⟩

/-- **Failing closed.** From when the sink is closed or its stream is latched, in every
continuation: the file stays as it is; no append returns; no call that begins then returns a
handle; and each handle that is finalised then or later has an outcome that was appended
before. -/
theorem AuditLog.trail_blocked {m : Heap × Disk}
    (h : (log.system (diskExternals trace)).Reachable { memory := m } cfg)
    (hb : cfg.shared.memory.2.closed = true ∨ cfg.shared.memory.2.latched = true)
    (hr : ReflTransGen (log.system (diskExternals trace)).Step cfg cfg') :
    cfg'.shared.memory.2.content = cfg.shared.memory.2.content ∧
    (∀ a ∈ cfg'.shared.appends, a.result = .ok () → a ∈ cfg.shared.appends) ∧
    (∀ i c op, cfg.calls.length ≤ i → ¬cfg'.Ended i c (.ok (.handle op))) ∧
    ∀ ref cell, cfg'.shared.cells ref = some cell → cell.state = .FINALISED →
      cfg.shared.OutcomeReturned cell.op := by
  obtain ⟨-, hcontent, hold⟩ := (AuditLog.keepsTo_conforming log (diskExternals trace)).later
    (J := fun s => (s.memory.2.closed = true ∨ s.memory.2.latched = true) ∧
      s.memory.2.content = cfg.shared.memory.2.content ∧
      ∀ a ∈ s.appends, a.result = .ok () → a ∈ cfg.shared.appends)
    (h.keeps (AuditLog.keepsTo_conforming log _)) ⟨hb, rfl, fun a ha _ => ha⟩
    (fun _ hs hJ => by
      obtain ⟨hb', hcontent, hold⟩ := blocked_step hJ.1 hs
      exact ⟨hb', hcontent.trans hJ.2.1, fun a ha hok => hJ.2.2 a (hold a ha hok) hok⟩) hr
  have h' := h.trans hr
  have hhist := AuditLog.histories h'
  refine ⟨hcontent, hold, fun i c op hle hend => ?_, fun ref cell hc hfin => ?_⟩
  · obtain ⟨p, hi, hres⟩ := hend
    obtain ⟨hon, href, cell, hc, -⟩ := (AuditLog.operations_inv h').ended i c p _ hi hres op rfl
    change (cfg'.shared.view (c.key i)).cell = some cell at hc
    rw [AuditCall.key, hon] at hc
    have hfirst : ∃ intent : AuditRecord,
        (⟨i, intent, .ok ()⟩ : AppendEntry) ∈ (cfg'.shared.view i).appends := by
      obtain ⟨-, -, intent, -, -, ⟨happ, -⟩ | ⟨record, r, happ, -⟩⟩ := (hhist i).of_cell hc
      · exact ⟨intent, by rw [happ]; exact List.mem_cons_self⟩
      · exact ⟨intent, by rw [happ]; exact List.mem_cons_self⟩
    obtain ⟨intent, hmem⟩ := hfirst
    have hbefore := hold _ (mem_appends_of_view hmem) rfl
    have hfresh : cfg.shared.view i = ⟨none, [], []⟩ :=
      (AuditLog.operations_inv h).fresh i hle
    have hview : (⟨i, intent, .ok ()⟩ : AppendEntry) ∈ (cfg.shared.view i).appends :=
      List.mem_filter.mpr ⟨hbefore, by simp⟩
    rw [hfresh] at hview
    cases hview
  · obtain ⟨-, -, intent, -, -, ⟨-, hne⟩ | ⟨record, r, happ, hstage, hbelongs, hstate⟩⟩ :=
      (hhist ref).of_cell hc
    · exact absurd hfin hne
    · obtain rfl := (hstate (by rw [hfin]; decide)).mp hfin
      have hmem : (⟨ref, record, .ok ()⟩ : AppendEntry) ∈ (cfg'.shared.view ref).appends := by
        rw [happ]
        simp
      exact ⟨_, hold _ (mem_appends_of_view hmem) rfl, hstage, hbelongs.operationId, rfl⟩

/-! ## Trails that are left -/

/-- A clock that stands still, and one at which the sink is closed; one id; and a sink that
writes and syncs whole lines. -/
def diskScript (closing : Bool) (id : PyStr) : ScriptedExternals Disk where
  clock _ m := (.ok firstHour, m.1, { m.2 with closed := m.2.closed || closing })
  factory _ m := (.ok (.str id), m)
  sink record _ m :=
    if m.2.closed then (.error ⟨0, AuditPersistenceError⟩, m)
    else (.ok (), m.1, { m.2 with
      content := m.2.content ++ Record.line .audit (.audit record)
      durable := (m.2.content ++ Record.line .audit (.audit record)).length })

theorem diskScript_step {closing : Bool} {id : PyStr} {k : Nat} {s s' : AuditState Disk}
    {o : AuditOp} {r : auditSig.Ret o} (hlatched : s.memory.2.latched = false)
    (hlines : ∀ a ∈ s'.appends, a.audited.HasLine .audit)
    (hs : (auditSem (diskScript closing id).externals k).step s o r s') :
    (auditSem (diskExternals fun _ => {}) k).step s o r s' ∧ s'.memory.2.latched = false := by
  cases o with
  | now handled =>
    obtain ⟨m, hm, rfl⟩ := hs
    cases hm
    refine ⟨⟨_, ?_, rfl⟩, hlatched⟩
    exact ⟨rfl, rfl, rfl, by simp +contextual⟩
  | newOperationId handled =>
    obtain ⟨m, hm, rfl⟩ := hs
    cases hm
    refine ⟨⟨_, ?_, rfl⟩, hlatched⟩
    exact ⟨rfl, rfl, rfl, fun h => h⟩
  | append record handled =>
    obtain ⟨m, hm, rfl⟩ := hs
    have hline := (hlines ⟨k, record, r⟩ (by simp)).encodeLine
    simp only [ScriptedExternals.externals, diskScript] at hm
    split at hm
    · rename_i hc
      cases hm
      obtain ⟨e, hrun⟩ := runs_append_closed (r := record) hc
      exact ⟨⟨_, ⟨_, hrun, by simp⟩, rfl⟩, hlatched⟩
    · rename_i hc
      cases hm
      exact ⟨⟨_, ⟨_, runs_append_disk hline (by simpa using hc) hlatched, by simp⟩, rfl⟩, hlatched⟩
  | supportsAtomic =>
    obtain ⟨rfl, rfl⟩ := hs
    exact ⟨⟨rfl, rfl⟩, hlatched⟩
  | heap o =>
    obtain ⟨rfl, rfl⟩ := hs
    exact ⟨⟨rfl, rfl⟩, hlatched⟩
  | handle o =>
    obtain ⟨cell, hcell, rfl⟩ := hs
    exact ⟨⟨cell, hcell, rfl⟩, hlatched⟩

omit [PyRuntime] in
theorem auditStep_appends {ω : Type} {X : Externals ω} {k : Nat} {s s' : AuditState ω} {o : AuditOp}
    {r : auditSig.Ret o} (h : auditStep X k s o r s') : s.appends ⊆ s'.appends := by
  cases o with
  | now handled => obtain ⟨m, -, rfl⟩ := h; exact List.Subset.refl _
  | newOperationId handled => obtain ⟨m, -, rfl⟩ := h; exact List.Subset.refl _
  | append record handled => obtain ⟨m, -, rfl⟩ := h; exact List.subset_append_left _ _
  | supportsAtomic => obtain ⟨-, rfl⟩ := h; exact List.Subset.refl _
  | heap o => obtain ⟨-, rfl⟩ := h; exact List.Subset.refl _
  | handle o => obtain ⟨cell, -, rfl⟩ := h; exact List.Subset.refl _

omit [PyRuntime] in
theorem begins_appends {ω : Type} {X : Externals ω} {k : Nat} {α : Type} {p q : AuditProg α}
    {s s' : AuditState ω} (h : p.Begins (auditSem X k) s q s') : s.appends ⊆ s'.appends := by
  induction h with
  | refl => exact List.Subset.refl _
  | op hs _ ih => exact List.Subset.trans (auditStep_appends hs) ih

/-- What is done by the script is done on the file, where the records that are appended have
lines. -/
theorem begins_diskScript {closing : Bool} {id : PyStr} {k : Nat} {α : Type} {p q : AuditProg α}
    {s s' : AuditState Disk} (h : p.Begins (auditSem (diskScript closing id).externals k) s q s')
    (hlatched : s.memory.2.latched = false)
    (hlines : ∀ a ∈ s'.appends, a.audited.HasLine .audit) :
    p.Begins (auditSem (diskExternals fun _ => {}) k) s q s' ∧ s'.memory.2.latched = false := by
  induction h with
  | refl => exact ⟨.refl, hlatched⟩
  | op hstep hrest ih =>
    obtain ⟨hs, hlatched'⟩ :=
      diskScript_step hlatched (fun a ha => hlines a (begins_appends hrest ha)) hstep
    obtain ⟨hbegins, hend⟩ := ih hlatched' hlines
    exact ⟨.op hs hbegins, hend⟩

/-- A run of the script is one on the file, where the records that it appends have lines. -/
theorem runs_diskScript {closing : Bool} {id : PyStr} {k : Nat} {α : Type} {p : AuditProg α}
    {s s' : AuditState Disk} {res : Except Exc α}
    (h : p.run? ((diskScript closing id).answer k) s = some (res, s'))
    (hlatched : s.memory.2.latched = false)
    (hlines : ∀ a ∈ s'.appends, a.audited.HasLine .audit) :
    p.Runs (auditSem (diskExternals fun _ => {}) k) s res s' :=
  Prog.runs_iff_begins.mpr (begins_diskScript
    (Prog.runs_run? ScriptedExternals.step_of_answer h).begins hlatched hlines).1

omit [PyRuntime]

/-- The records of an operation that succeeds. -/
def diskArgs (stage : Stage) (outcome : Option Outcome) : AuditArgs :=
  userLog.recordArgs (.str (lit "user.created")) .admin (.str (lit "alice")) stage Dict.empty .none
    (.str (lit "0")) outcome firstHour

def diskIntent : AuditRecord := ⟨diskArgs .intent none, by decide +kernel⟩

def diskOutcome : AuditRecord := ⟨diskArgs .outcome (some .success), by decide +kernel⟩

theorem hasLine_alice :
    let _ := PyRuntime.plain
    Record.HasLine .audit (.audit diskIntent) ∧ Record.HasLine .audit (.audit diskOutcome) :=
  ⟨exists_eq_ok (by decide +kernel), exists_eq_ok (by decide +kernel)⟩

/-- The handle of an operation, and the calls that begin it and record its success. -/
def alice : AuditOperation :=
  ⟨0, .str (lit "user.created"), userCreated, .str (lit "alice"), .str (lit "0")⟩

def beginAlice : AuditCall := .intent alice.event alice.actor .empty none

def recordAlice : AuditCall := .record alice .success .empty none

/-- The operation is begun, and its success is recorded, when the sink may be closed. -/
theorem runs_alice (closing : Bool) :
    let _ := PyRuntime.plain
    ∃ (s₁ s₂ : AuditState Disk) (cell : OperationCell) (res : Except Exc AuditValue),
      (userLog.call beginAlice).Runs (auditSem (diskExternals fun _ => {}) 0)
        { memory := ([], .new) } (.ok (.handle alice)) s₁ ∧
      (userLog.call recordAlice).Runs (auditSem (diskExternals fun _ => {}) 0) s₁ res s₂ ∧
      s₁.memory.2.closed = false ∧ s₂.ids = [(0, .str (lit "0"))] ∧
      s₂.memory.2.closed = closing ∧ s₂.cells 0 = some cell ∧
      cell.op.operationId = .str (lit "0") ∧
      cell.state = if closing then .FINALISATION_FAILED else .FINALISED := by
  intro _
  obtain ⟨s₁, s₂, cell, res, r, h₁, hopen, hlatched, hfirst, h₂, hboth, hids, hclosed, hcell, hid,
      hstate⟩ :
      ∃ (s₁ s₂ : AuditState Disk) (cell : OperationCell) (res : Except Exc AuditValue)
        (r : Except Exc Unit),
      (userLog.call beginAlice).run? ((diskScript false (lit "0")).answer 0)
        { memory := ([], .new) } = some (.ok (.handle alice), s₁) ∧
      s₁.memory.2.closed = false ∧ s₁.memory.2.latched = false ∧
      s₁.appends = [⟨0, diskIntent, .ok ()⟩] ∧
      (userLog.call recordAlice).run? ((diskScript closing (lit "0")).answer 0) s₁ =
        some (res, s₂) ∧
      s₂.appends = [⟨0, diskIntent, .ok ()⟩, ⟨0, diskOutcome, r⟩] ∧
      s₂.ids = [(0, .str (lit "0"))] ∧ s₂.memory.2.closed = closing ∧ s₂.cells 0 = some cell ∧
      cell.op.operationId = .str (lit "0") ∧
      cell.state = if closing then .FINALISATION_FAILED else .FINALISED := by
    cases closing
    · exact ⟨_, _, _, _, _, rfl, rfl, rfl, rfl, rfl, rfl, rfl, rfl, rfl, rfl, rfl⟩
    · exact ⟨_, _, _, _, _, rfl, rfl, rfl, rfl, rfl, rfl, rfl, rfl, rfl, rfl, rfl⟩
  obtain ⟨hintent, houtcome⟩ := hasLine_alice
  have hr₁ := runs_diskScript h₁ rfl (by
    rw [hfirst]
    simpa [AppendEntry.audited] using hintent)
  have hr₂ := runs_diskScript h₂ hlatched (by
    rw [hboth]
    simpa [AppendEntry.audited] using And.intro hintent houtcome)
  exact ⟨s₁, s₂, cell, res, hr₁, hr₂, hopen, hids, hclosed, hcell, hid, hstate⟩

theorem reachable_alice (closing : Bool) :
    ∃ (cfg : Config auditSig Exc AuditValue AuditCall (AuditState Disk)) (cell : OperationCell),
      (@AuditLog.system Disk PyRuntime.plain userLog (@diskExternals PyRuntime.plain
        fun _ => {})).Reachable { memory := ([], .new) } cfg ∧
      cfg.shared.ids = [(0, .str (lit "0"))] ∧ cfg.shared.memory.2.closed = closing ∧
      cfg.shared.cells 0 = some cell ∧ cell.op.operationId = .str (lit "0") ∧
      cell.state = if closing then .FINALISATION_FAILED else .FINALISED := by
  let _ := PyRuntime.plain
  obtain ⟨s₁, s₂, cell, res, hr₁, hr₂, -, hids, hclosed, hcell, hid, hstate⟩ := runs_alice closing
  have hreach₁ : (userLog.system (diskExternals fun _ => {})).Reachable { memory := ([], .new) }
      ⟨s₁, [] ++ [(beginAlice, .ended (.ok (.handle alice)))]⟩ :=
    System.Reachable.call .refl (fun _ h => by cases h) hr₁
  have hreach₂ : (userLog.system (diskExternals fun _ => {})).Reachable { memory := ([], .new) }
      ⟨s₂, [(beginAlice, .ended (.ok (.handle alice)))] ++ [(recordAlice, .ended res)]⟩ := by
    refine System.Reachable.call hreach₁ ?_ hr₂
    intro op' hop
    cases hop
    refine ⟨⟨0, beginAlice, rfl⟩, fun i c' p op' hi hres _ => ?_⟩
    rcases i with _ | i
    · cases hi
      cases hres
    · simp at hi
  exact ⟨_, cell, hreach₂, hids, hclosed, hcell, hid, hstate⟩

theorem trail_linked_alice :
    let _ := PyRuntime.plain
    ∃ cfg, (userLog.system (diskExternals fun _ => {})).Reachable
      { memory := ([], .new) } cfg ∧ cfg.shared.appends ≠ [] ∧
        ∀ k, Linked (iterate (cfg.shared.memory.2.content.take k)).records := by
  intro _
  obtain ⟨cfg, cell, hr, hids, -, hcell, -, -⟩ := reachable_alice false
  have hnd : (cfg.shared.ids.map Prod.snd).Nodup := by rw [hids]; decide
  obtain ⟨-, a, ha, -⟩ := (AuditLog.disciplined hr hnd).intentReturned hcell
  exact ⟨cfg, hr, List.ne_nil_of_mem ha, fun k => (AuditLog.trail_linked hr hnd k).2⟩

theorem trail_conforms_alice :
    let _ := PyRuntime.plain
    ∃ cfg obj schema stage, (userLog.system (diskExternals fun _ => {})).Reachable
      { memory := ([], .new) } cfg ∧ obj ∈ (iterate cfg.shared.memory.2.content).records ∧
        ShowsEvent userLog.application userLog.emitter userLog.registry schema
          (FieldSpec.requiredAt stage) obj := by
  intro _
  obtain ⟨cfg, cell, hr, hids, -, hcell, -, hstate⟩ := reachable_alice false
  have hnd : (cfg.shared.ids.map Prod.snd).Nodup := by rw [hids]; decide
  obtain ⟨written, torn, ht⟩ := exists_trail hr
  obtain ⟨obj, hobj, -⟩ := AuditLog.outcome_read hr hnd ht.bound hcell hstate
  obtain ⟨-, hshows⟩ := AuditLog.trail_conforms hr cfg.shared.memory.2.content.length
  obtain ⟨schema, -, stage, -, -, -, -, hevent⟩ := hshows obj hobj
  rw [List.take_length] at hobj
  exact ⟨cfg, obj, schema, stage, hr, hobj, hevent⟩

theorem trail_reconciles_alice :
    let _ := PyRuntime.plain
    ∃ cfg obj, (userLog.system (diskExternals fun _ => {})).Reachable
      { memory := ([], .new) } cfg ∧
        obj ∈ (iterate (cfg.shared.memory.2.content.take cfg.shared.memory.2.durable)).records ∧
          ShowsRecord obj .outcome (.str (lit "0")) := by
  intro _
  obtain ⟨cfg, cell, hr, hids, -, hcell, hid, hstate⟩ := reachable_alice false
  have hnd : (cfg.shared.ids.map Prod.snd).Nodup := by rw [hids]; decide
  obtain ⟨-, hfin, -⟩ := AuditLog.trail_reconciles hr hnd (Nat.le_refl _) hcell
  obtain ⟨obj, hobj, hshows⟩ := hfin hstate
  rw [hid] at hshows
  exact ⟨cfg, obj, hr, hobj, hshows⟩

theorem trail_blocked_alice :
    let _ := PyRuntime.plain
    ∃ cfg cfg', (userLog.system (diskExternals fun _ => {})).Reachable
      { memory := ([], .new) } cfg ∧ cfg.shared.memory.2.closed = true ∧
        ReflTransGen (userLog.system (diskExternals fun _ => {})).Step cfg cfg' ∧
          cfg.calls.length < cfg'.calls.length ∧
            cfg'.shared.memory.2.content = cfg.shared.memory.2.content := by
  intro _
  obtain ⟨cfg, -, hr, -, hclosed, -⟩ := reachable_alice true
  have hstep : ReflTransGen (userLog.system (diskExternals fun _ => {})).Step cfg
      ⟨cfg.shared, cfg.calls ++ [(.complete none, userLog.call (.complete none))]⟩ :=
    .single (.start fun _ h => by cases h)
  exact ⟨cfg, _, hr, hclosed, hstep, by simp,
    (AuditLog.trail_blocked hr (.inl hclosed) hstep).1⟩

end NmLogging
