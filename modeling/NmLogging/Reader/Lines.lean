import NmLogging.Framework.Related
import NmLogging.Reader.RoundTrip

/-!
# Reading lines of records

However the lines got there, a file that consists of the lines of records and a torn tail is
read, wherever it is cut, as the records whose lines the cut leaves whole
(`iterate_recordLines`). What is read of a record has under each name what its mapping has
(`valueAt_of_readsAs`), so the envelope of the record can be told from it.
-/

namespace NmLogging

variable [PyRuntime]

/-! ## Lines of records -/

/-- A record that is written, in a file of that kind, as one line. -/
def Record.HasLine (kind : StreamKind) (r : Record) : Prop := ∃ l, kind.encodeLine r = .ok l

/-- The line of a record, if it has one. -/
def Record.line (kind : StreamKind) (r : Record) : Bytes :=
  (kind.encodeLine r).toOption.getD []

omit [PyRuntime] in
/-- An object that was read is the mapping of a record. -/
def Record.ReadsAs (r : Record) (obj : JsonObject) : Prop :=
  ∃ m, toMapping r = .ok m ∧ ReadsBack m obj

variable {kind : StreamKind} {r : Record}

theorem Record.line_eq {l : Bytes} (h : kind.encodeLine r = .ok l) : r.line kind = l := by
  rw [Record.line, h]
  rfl

theorem Record.HasLine.encodeLine (h : r.HasLine kind) : kind.encodeLine r = .ok (r.line kind) := by
  obtain ⟨l, hl⟩ := h
  rw [hl, Record.line_eq hl]

theorem Record.HasLine.isLine (h : r.HasLine kind) : IsLine (r.line kind) :=
  (encodeLine_ok h.encodeLine).1

/-- The objects of the lines of records are the mappings of the records. -/
theorem objectsOf_recordLines {rs : List Record}
    (h : ∀ r ∈ rs, r.HasLine kind ∧ StringNames r) :
    List.Forall₂ Record.ReadsAs rs (objectsOf (rs.map (Record.line kind))) := by
  induction rs with
  | nil => exact .nil
  | cons r rs ih =>
    obtain ⟨hline, hnames⟩ := h r List.mem_cons_self
    obtain ⟨obj, hobj, hreads⟩ := lineObject_of_encodeLine hline.encodeLine
    rw [List.map_cons, objectsOf, hobj]
    exact .cons (hreads hnames) (ih fun r hr => h r (List.mem_cons_of_mem _ hr))

/-- The first `k` bytes of the lines of records and a torn tail are read as the records whose
lines end there. -/
theorem iterate_recordLines {rs : List Record} (h : ∀ r ∈ rs, r.HasLine kind ∧ StringNames r)
    {t : Bytes} (ht : newline ∉ t) (k : Nat) :
    List.Forall₂ Record.ReadsAs (rs.take (linesWithin (rs.map (Record.line kind)) k))
        (iterate (((rs.map (Record.line kind)).flatten ++ t).take k)).records ∧
      (iterate (((rs.map (Record.line kind)).flatten ++ t).take k)).error = none := by
  have hlines : ∀ l ∈ rs.map (Record.line kind), IsLine l := by
    intro l hl
    obtain ⟨r, hr, rfl⟩ := List.mem_map.mp hl
    exact (h r hr).1.isLine
  obtain ⟨t', ht', htake⟩ := take_lines hlines ht k
  generalize linesWithin (rs.map (Record.line kind)) k = n at htake ⊢
  rw [← List.map_take] at htake
  have hwhole : ∀ r ∈ rs.take n, r.HasLine kind ∧ StringNames r :=
    fun r hr => h r (List.mem_of_mem_take hr)
  have hlines' : ∀ l ∈ (rs.take n).map (Record.line kind), IsLine l := by
    intro l hl
    rw [List.map_take] at hl
    exact hlines l (List.mem_of_mem_take hl)
  have hobjects : ∀ l ∈ (rs.take n).map (Record.line kind), (lineObject l).isSome := by
    intro l hl
    obtain ⟨r, hr, rfl⟩ := List.mem_map.mp hl
    obtain ⟨obj, hobj, -⟩ := lineObject_of_encodeLine (hwhole r hr).1.encodeLine
    rw [hobj]
    rfl
  rw [htake]
  refine ⟨?_, (iterate_of_objects hlines' ht' hobjects).1⟩
  rw [iterate_records hlines' ht']
  exact objectsOf_recordLines hwhole

/-! ## What is read of a record -/

omit [PyRuntime]

/-- What an object that was read has under a name. -/
def valueAt (obj : JsonObject) (name : String) : Option PyObj :=
  (assocGet obj (lit name)).bind PyObj.ofJson

/-- What is read of a record has what its mapping has. -/
theorem valueAt_of_readsAs {obj : JsonObject} (h : r.ReadsAs obj) {name : String} {x : PyObj}
    (hx : (key name, x) ∈ mappingEntries r) : valueAt obj name = some x.asList := by
  obtain ⟨m, hm, hback⟩ := h
  obtain ⟨m', hm', hentries⟩ := toMapping_eq r
  cases hm.symm.trans hm'
  rw [ReadsBack, hentries] at hback
  have hkeys : obj.map (fun kv => PyAtom.str kv.1) = (mappingEntries r).map Prod.fst := by
    have := congrArg (List.map Prod.fst) hback
    simpa [List.map_map, Function.comp_def] using this
  have hnd : (obj.map Prod.fst).Nodup := by
    have hn := mappingEntries_nodup r
    rw [← hkeys, ← Function.comp_def PyAtom.str Prod.fst, ← List.map_map] at hn
    exact hn.of_map _
  have hmem : (key name, some x.asList) ∈
      obj.map fun kv => (PyAtom.str kv.1, PyObj.ofJson kv.2) := by
    rw [hback]
    exact List.mem_map.mpr ⟨_, hx, rfl⟩
  obtain ⟨⟨k, v⟩, hkv, e⟩ := List.mem_map.mp hmem
  obtain ⟨hk, hv⟩ := Prod.mk.inj e
  obtain rfl : k = lit name := PyAtom.str.inj hk
  rw [valueAt, (assocGet_eq_some hnd).mpr hkv, Option.bind_some, hv]

/-- An intent and an outcome have operation ids. -/
theorem AuditRecord.operationId_ne_none {a : AuditRecord}
    (h : a.stage = .intent ∨ a.stage = .outcome) : a.operationId ≠ .none := by
  intro hnone
  have hvalid := (AuditArgs.postInit_ok.mp a.ok).operationId
  rw [hnone] at hvalid
  rcases h with h | h <;> rw [h] at hvalid <;> cases hvalid

/-- What tells the operation of an audit record, and where in it the record stands. -/
structure AuditRecord.ShownBy (a : AuditRecord) (obj : JsonObject) : Prop where
  event : valueAt obj "event" = some (.atom a.event)
  category : valueAt obj "category" = some (.atom (.str a.category.value))
  actor : valueAt obj "actor" = some (.atom a.actor)
  stage : valueAt obj "stage" = some (.atom (.str a.stage.value))
  operationId : a.stage = .intent ∨ a.stage = .outcome →
    valueAt obj "operation_id" = some (.atom a.operationId)

/-- What is read of an audit record tells it. -/
theorem AuditRecord.shownBy {a : AuditRecord} {obj : JsonObject}
    (h : Record.ReadsAs (.audit a) obj) : a.ShownBy obj where
  event := valueAt_of_readsAs h (x := .atom a.event)
    (by simp [mappingEntries, envelopeEntries, Record.envelope])
  category := valueAt_of_readsAs h (x := .atom (.str a.category.value))
    (by simp [mappingEntries, kindEntries])
  actor := valueAt_of_readsAs h (x := .atom a.actor) (by simp [mappingEntries, kindEntries])
  stage := valueAt_of_readsAs h (x := .atom (.str a.stage.value))
    (by simp [mappingEntries, kindEntries])
  operationId hs := valueAt_of_readsAs h (x := .atom a.operationId)
    (by simp [mappingEntries, kindEntries, AuditRecord.operationId_ne_none hs])

end NmLogging
