import NmLogging.Conformance
import NmLogging.Reader.Lines

/-!
# What is read conforms to the schemas

A record that conforms to the schema registered for its event is read as an object that the same
schema describes (`EventSchema.ShownBy`): besides the keys of the package it has fields that are
declared, with values that match, and those that are required. So whoever reads a stream can
rely on the schemas of the events, without knowing who wrote it.
-/

namespace NmLogging

variable [PyRuntime]

omit [PyRuntime] in
/-- The fields of an object that was read are as a schema has them. -/
structure EventSchema.ShownBy (schema : EventSchema) (required : FieldSpec → Bool)
    (obj : JsonObject) : Prop where
  declared : ∀ kv ∈ obj, isReserved (.str kv.1) = true ∨ ∃ spec ∈ schema.fields,
    spec.name = .str kv.1 ∧ ∃ x, PyObj.ofJson kv.2 = some x ∧ spec.Matches x
  supplied : ∀ spec ∈ schema.fields, required spec = true → ∃ kv ∈ obj, spec.name = .str kv.1

/-- An object that was read is about an event registered with a schema, which describes it. -/
structure ShowsEvent (application emitter : PyAtom) (registry : EventRegistry)
    (schema : EventSchema) (required : FieldSpec → Bool) (obj : JsonObject) : Prop where
  application : valueAt obj "application" = some (.atom application)
  emitter : valueAt obj "emitter" = some (.atom emitter)
  event : ∃ event, valueAt obj "event" = some (.atom event) ∧ registry.get event = .ok schema
  fields : schema.ShownBy required obj

section

omit [PyRuntime]

theorem FieldSpec.matches_asList {spec : FieldSpec} {x : PyObj} (h : spec.Matches x) :
    spec.Matches x.asList := by
  cases x <;> exact h

theorem isReserved_key {k : PyAtom} (h : k ∈ RESERVED_FIELD_NAMES.map PyAtom.str) :
    isReserved k = true := by
  have hall : ∀ k ∈ RESERVED_FIELD_NAMES.map PyAtom.str, isReserved k = true := by decide
  exact hall k h

/-- The keys of a mapping are the package's own or those of the event fields. -/
theorem reserved_or_mem_fields {r : Record} {e : PyAtom × PyObj} (he : e ∈ mappingEntries r) :
    isReserved e.1 = true ∨ e ∈ r.envelope.fields.entries := by
  simp only [mappingEntries, List.mem_append, or_assoc] at he
  rcases he with he | he | he | he
  · refine .inl (isReserved_key ?_)
    have hkey : e.1 ∈ (envelopeEntries r.envelope).map Prod.fst := List.mem_map_of_mem he
    have hsub : (envelopeEntries r.envelope).map Prod.fst ⊆ RESERVED_FIELD_NAMES.map PyAtom.str := by
      simp only [envelopeEntries, List.map_cons, List.map_nil]
      decide
    exact hsub hkey
  · refine .inl (isReserved_key ?_)
    have hsub : [key "severity", key "category", key "actor", key "stage", key "operation_id",
        key "outcome"] ⊆ RESERVED_FIELD_NAMES.map PyAtom.str := by decide
    exact hsub ((kindEntries_keys r).subset (List.mem_map_of_mem he))
  · exact .inr he
  · unfold messageEntries at he
    split at he
    · cases he
    · refine .inl (isReserved_key ?_)
      rw [List.mem_singleton.mp he]
      simp only
      decide

end

variable {r : Record} {obj : JsonObject} {schema : EventSchema} {required : FieldSpec → Bool}
  {message : PyAtom}

/-- What a schema says of a record is said of what is read of it. -/
theorem EventSchema.Describes.shownBy
    (h : schema.Describes required r.envelope.fields message) (hread : r.ReadsAs obj) :
    schema.ShownBy required obj := by
  obtain ⟨m, hm, hback⟩ := hread
  obtain ⟨m', hm', hentries⟩ := toMapping_eq r
  cases hm.symm.trans hm'
  rw [ReadsBack, hentries] at hback
  refine ⟨fun kv hkv => ?_, fun spec hspec hreq => ?_⟩
  · have hmem : (PyAtom.str kv.1, PyObj.ofJson kv.2) ∈
        (mappingEntries r).map fun e => (e.1, some e.2.asList) := by
      rw [← hback]
      exact List.mem_map.mpr ⟨kv, hkv, rfl⟩
    obtain ⟨⟨k, x⟩, he, heq⟩ := List.mem_map.mp hmem
    obtain ⟨rfl, hx⟩ := Prod.mk.inj heq
    rcases reserved_or_mem_fields he with hres | hfield
    · exact .inl hres
    · obtain ⟨spec, hspec, hname⟩ := h.accepts.declared _ (List.mem_map_of_mem hfield)
      refine .inr ⟨spec, hspec, hname, _, hx.symm, FieldSpec.matches_asList ?_⟩
      exact h.accepts.matching spec hspec x (hname ▸ hfield)
  · obtain ⟨⟨k, x⟩, hfield, hname⟩ := List.mem_map.mp (h.accepts.supplied spec hspec hreq)
    have hmem : (k, some x.asList) ∈
        obj.map fun kv => (PyAtom.str kv.1, PyObj.ofJson kv.2) := by
      rw [hback]
      refine List.mem_map.mpr ⟨(k, x), ?_, rfl⟩
      simp only [mappingEntries, List.mem_append]
      exact .inl (.inr hfield)
    obtain ⟨kv, hkv, heq⟩ := List.mem_map.mp hmem
    exact ⟨kv, hkv, hname.symm.trans (Prod.mk.inj heq).1.symm⟩

/-- What is read of a record of an event shows the event as its schema has it. -/
theorem showsEvent {registry : EventRegistry}
    (hget : registry.get r.envelope.event = .ok schema)
    (h : schema.Describes required r.envelope.fields message) (hread : r.ReadsAs obj) :
    ShowsEvent r.envelope.application r.envelope.emitter registry schema required obj where
  application := valueAt_of_readsAs hread (x := .atom r.envelope.application)
    (by simp [mappingEntries, envelopeEntries])
  emitter := valueAt_of_readsAs hread (x := .atom r.envelope.emitter)
    (by simp [mappingEntries, envelopeEntries])
  event := ⟨_, valueAt_of_readsAs hread (x := .atom r.envelope.event)
    (by simp [mappingEntries, envelopeEntries]), hget⟩
  fields := h.shownBy hread

/-- What is read of an operational record that conforms shows its event, at the severity that the
schema pins. -/
theorem OperationalLog.Conforms.shows {log : OperationalLog} {r : OperationalRecord}
    (h : log.Conforms r) (hread : (Record.operational r).ReadsAs obj) :
    ∃ schema severity, schema.severity = some severity ∧
      valueAt obj "severity" = some (.atom (.str severity.value)) ∧
      ShowsEvent log.application log.emitter log.registry schema (fun spec => spec.required) obj := by
  obtain ⟨schema, hget, hseverity, hdescribes⟩ := h.schema
  have hshows := showsEvent (r := .operational r) hget hdescribes hread
  rw [Record.envelope, h.application, h.emitter] at hshows
  exact ⟨schema, r.severity, hseverity, valueAt_of_readsAs hread
    (x := .atom (.str r.severity.value)) (by simp [mappingEntries, kindEntries]), hshows⟩

/-- What is read of an audit record that conforms shows its event, of the category of the schema,
with the fields that its stage requires. -/
theorem AuditLog.Conforms.shows {log : AuditLog} {r : AuditRecord} (h : log.Conforms r)
    (hread : (Record.audit r).ReadsAs obj) :
    ∃ schema category stage, schema.category = some category ∧
      valueAt obj "category" = some (.atom (.str category.value)) ∧
      (stage = .intent ∨ stage = .outcome) ∧
      valueAt obj "stage" = some (.atom (.str stage.value)) ∧
      ShowsEvent log.application log.emitter log.registry schema (FieldSpec.requiredAt stage)
        obj := by
  obtain ⟨schema, hget, hcategory, hdescribes⟩ := h.schema
  have hshown := AuditRecord.shownBy hread
  have hshows := showsEvent (r := .audit r) hget hdescribes hread
  rw [Record.envelope, h.application, h.emitter] at hshows
  exact ⟨schema, r.category, r.stage, hcategory, hshown.category, h.stage, hshown.stage, hshows⟩

end NmLogging
