import NmLogging.Events

/-!
# What the field guard accepts

`Accepts` says of a schema which field mappings a call may have: declared names only, the
required ones among them, and values that match (`FieldSpec.Matches`). The guard returns on
exactly those, with the fields in the order of the schema, and raises `EventSchemaError` on
all others (`EventSchema.validate_iff`).
-/

namespace NmLogging

/-- A scalar that a field of the type takes. -/
def FieldType.Matches : FieldType → PyAtom → Prop
  | .bool, .bool _ => True
  | .int, .int _ => True
  | .float, .float f => f.isFinite = true
  | .str, .str s =>
    s.length ≤ MAX_FIELD_CHARS ∧ looksLikeEncEnvelope s = false ∧ (encodeUtf8 s).isSome = true
  | _, _ => False

/-- A value that a field takes: a scalar, or for a list field a sequence of scalars. -/
def FieldSpec.Matches (spec : FieldSpec) : PyObj → Prop
  | .atom a => spec.isList = false ∧ spec.type.Matches a
  | .list xs | .tuple xs => spec.isList = true ∧ ∀ a ∈ xs, spec.type.Matches a

/-- The fields that a call of an event may have, where `required` must be given. -/
structure EventSchema.Accepts (schema : EventSchema) (required : FieldSpec → Bool)
    (fields : Dict PyAtom PyObj) : Prop where
  declared : ∀ k ∈ fields.keys, ∃ spec ∈ schema.fields, spec.name = k
  supplied : ∀ spec ∈ schema.fields, required spec = true → spec.name ∈ fields.keys
  matching : ∀ spec ∈ schema.fields, ∀ v, (spec.name, v) ∈ fields.entries → spec.Matches v

/-- What the guard makes of accepted fields: the same fields, in the order of the schema, with
tuples for sequences. -/
structure EventSchema.Normalises (schema : EventSchema) (fields d : Dict PyAtom PyObj) : Prop where
  mem_iff : ∀ k w, (k, w) ∈ d.entries ↔ ∃ v, (k, v) ∈ fields.entries ∧ w = v.frozen
  order : d.keys.Sublist schema.names

/-! ## Values -/

theorem guardScalar_iff {t : FieldType} {a b : PyAtom} :
    guardScalar t a = .ok b ↔ b = a ∧ t.Matches a := by
  constructor
  · intro h
    have hm := guardScalar_ok h
    refine ⟨hm.1, ?_⟩
    cases t <;> cases a <;> first | trivial | exact hm.2
  · rintro ⟨rfl, h⟩
    cases t <;> cases b <;> first | rfl | exact h.elim | skip
    · rename_i s
      obtain ⟨hlen, henv, henc⟩ := h
      simp only [guardScalar, check_eq_ok, require_eq_ok, decide_eq_true_eq, Bool.not_eq_true']
      exact ⟨hlen, henv, henc, rfl⟩
    · rename_i f
      exact if_pos h

theorem guardScalars_iff {t : FieldType} {xs ys : List PyAtom} :
    xs.mapM (guardScalar t) = .ok ys ↔ ys = xs ∧ ∀ a ∈ xs, t.Matches a := by
  rw [mapM_eq_ok]
  simp only [guardScalar_iff]
  constructor
  · intro h
    induction h with
    | nil => exact ⟨rfl, nofun⟩
    | cons h _ ih =>
      obtain ⟨rfl, ha⟩ := h
      obtain ⟨rfl, hxs⟩ := ih
      exact ⟨rfl, List.forall_mem_cons.mpr ⟨ha, hxs⟩⟩
  · rintro ⟨rfl, h⟩
    exact List.forall₂_same.mpr fun a ha => ⟨rfl, h a ha⟩

theorem guardValue_iff {spec : FieldSpec} {v w : PyObj} :
    guardValue spec v = .ok w ↔ w = v.frozen ∧ spec.Matches v := by
  have tuple : ∀ {xs : List PyAtom}, (xs.mapM (guardScalar spec.type)).map PyObj.tuple = .ok w ↔
      w = .tuple xs ∧ ∀ a ∈ xs, spec.type.Matches a := by
    intro xs
    simp only [map_eq_ok, guardScalars_iff]
    constructor
    · rintro ⟨ys, ⟨rfl, h⟩, rfl⟩; exact ⟨rfl, h⟩
    · rintro ⟨rfl, h⟩; exact ⟨xs, ⟨rfl, h⟩, rfl⟩
  have atom : ∀ {a : PyAtom}, (guardScalar spec.type a).map PyObj.atom = .ok w ↔
      w = .atom a ∧ spec.type.Matches a := by
    intro a
    simp only [map_eq_ok, guardScalar_iff]
    constructor
    · rintro ⟨b, ⟨rfl, h⟩, rfl⟩; exact ⟨rfl, h⟩
    · rintro ⟨rfl, h⟩; exact ⟨a, ⟨rfl, h⟩, rfl⟩
  have other : ¬spec.type.Matches (.other 0) := by
    intro h
    cases ht : spec.type <;> rw [ht] at h <;> exact h
  unfold guardValue
  cases hl : spec.isList with
  | true =>
    cases v with
    | atom a => simp [FieldSpec.Matches, hl]
    | list xs => simpa [FieldSpec.Matches, hl, PyObj.frozen] using tuple
    | tuple xs => simpa [FieldSpec.Matches, hl, PyObj.frozen] using tuple
  | false =>
    cases v with
    | atom a => simpa [FieldSpec.Matches, hl, PyObj.frozen] using atom
    | list xs => simp [FieldSpec.Matches, hl, atom, other]
    | tuple xs => simp [FieldSpec.Matches, hl, atom, other]

/-! ## Fields -/

section

variable {fields : Dict PyAtom PyObj} {names : List PyAtom}

/-- The guard returns when each declared field is given and matches, or need not be given. -/
theorem guardSpecs_iff {specs : List FieldSpec} {acc : Dict PyAtom PyObj} :
    (∃ d, guardSpecs fields names specs acc = .ok d) ↔ ∀ spec ∈ specs,
      (spec.name ∈ names → spec.name ∈ fields.keys) ∧
        ∀ v, (spec.name, v) ∈ fields.entries → spec.Matches v := by
  induction specs generalizing acc with
  | nil => simp [guardSpecs]
  | cons spec specs ih =>
    rw [List.forall_mem_cons, guardSpecs]
    cases hv : fields.get? spec.name with
    | none =>
      have hnone := Dict.get?_eq_none.mp hv
      have hentry : ∀ v, (spec.name, v) ∉ fields.entries :=
        fun v h => hnone (List.mem_map_of_mem h)
      by_cases hreq : spec.name ∈ names
      · simp [hreq, hnone]
      · simp only [hreq, if_false, ih, false_implies, true_and]
        exact ⟨fun h => ⟨fun v hm => absurd hm (hentry v), h⟩, fun h => h.2⟩
    | some v =>
      have hmem := Dict.get?_eq_some.mp hv
      have hkey : spec.name ∈ fields.keys := List.mem_map_of_mem hmem
      have hval : (∀ w, (spec.name, w) ∈ fields.entries → spec.Matches w) ↔ spec.Matches v := by
        constructor
        · exact fun h => h v hmem
        · intro h w hw
          rw [← Dict.get?_eq_some, hv] at hw
          cases hw
          exact h
      simp only [bind_eq_ok, guardValue_iff, hval, hkey, implies_true, true_and]
      constructor
      · rintro ⟨d, w, ⟨-, hm⟩, h⟩
        exact ⟨hm, ih.mp ⟨d, h⟩⟩
      · rintro ⟨hm, h⟩
        obtain ⟨d, hd⟩ := ih.mpr h
        exact ⟨d, _, ⟨rfl, hm⟩, hd⟩

variable {schema : EventSchema}

theorem mem_names_filter (p : FieldSpec → Bool) {spec : FieldSpec} (hspec : spec ∈ schema.fields) :
    spec.name ∈ ((schema.fields.filter p).map fun f => f.name) ↔ p spec = true := by
  obtain ⟨-, -, hnodup, -⟩ := schema.postInit_ok
  simp only [List.mem_map, List.mem_filter]
  constructor
  · rintro ⟨f, ⟨hf, hp⟩, hname⟩
    exact List.inj_on_of_nodup_map hnodup hf hspec hname ▸ hp
  · exact fun h => ⟨spec, ⟨hspec, h⟩, rfl⟩

/-- The field guard returns exactly on the accepted fields. -/
theorem guardFields_iff (p : FieldSpec → Bool) :
    (∃ d, schema.guardFields fields ((schema.fields.filter p).map fun f => f.name) = .ok d) ↔
      schema.Accepts p fields := by
  simp only [EventSchemaArgs.guardFields, check_eq_ok, require_eq_ok, List.all_eq_true,
    decide_eq_true_eq, exists_and_left, guardSpecs_iff]
  constructor
  · rintro ⟨hdecl, h⟩
    exact ⟨fun k hk => List.mem_map.mp (hdecl k hk),
      fun spec hspec hp => (h spec hspec).1 ((mem_names_filter p hspec).mpr hp),
      fun spec hspec => (h spec hspec).2⟩
  · rintro ⟨hdecl, hsupp, hmatch⟩
    exact ⟨fun k hk => List.mem_map.mpr (hdecl k hk), fun spec hspec =>
      ⟨fun hn => hsupp spec hspec ((mem_names_filter p hspec).mp hn), hmatch spec hspec⟩⟩

theorem keys_declaredEntries (specs : List FieldSpec) :
    ((declaredEntries fields specs).map Prod.fst).Sublist (specs.map fun f => f.name) := by
  induction specs with
  | nil => exact .slnil
  | cons spec specs ih =>
    rw [declaredEntries, List.filterMap_cons]
    cases fields.get? spec.name with
    | none => exact .cons _ ih
    | some v => exact .cons_cons _ ih

theorem EventSchemaArgs.Guarded.normalises {d : Dict PyAtom PyObj}
    (h : schema.Guarded fields d) : schema.Normalises fields d where
  mem_iff _ _ := h.mem_iff
  order := by
    rw [Dict.keys, h.entries]
    exact keys_declaredEntries schema.fields

end

/-- What a field must be supplied for: every call but that of an outcome, or an outcome. -/
def FieldSpec.requiredAt (stage : Stage) (spec : FieldSpec) : Bool :=
  if stage = .outcome then spec.requiredOnOutcome else spec.required

/-- `validate_operational` and `validate_audit` return exactly where the schema is of that kind
(and of that severity) and accepts the fields, and then with the fields normalised; and they
raise nothing but `EventSchemaError`. -/
theorem EventSchema.validate_iff (schema : EventSchema) (fields : Dict PyAtom PyObj) :
    (∀ severity,
      ((∃ d, schema.validateOperational severity fields = .ok d) ↔
        schema.severity = some severity ∧ schema.Accepts (fun spec => spec.required) fields) ∧
      (∀ d, schema.validateOperational severity fields = .ok d → schema.Normalises fields d) ∧
      ∀ e, schema.validateOperational severity fields = .error e → e.cls = EventSchemaError) ∧
    ∀ stage,
      ((∃ d, schema.validateAudit fields stage = .ok d) ↔
        (∃ category, schema.category = some category) ∧
          schema.Accepts (FieldSpec.requiredAt stage) fields) ∧
      (∀ d, schema.validateAudit fields stage = .ok d → schema.Normalises fields d) ∧
      ∀ e, schema.validateAudit fields stage = .error e → e.cls = EventSchemaError := by
  refine ⟨fun severity => ⟨?_, fun d h => (validateOperational_ok h).normalises,
    fun e h => validateOperational_error h⟩, fun stage => ⟨?_,
      fun d h => (validateAudit_ok h).normalises, fun e h => validateAudit_error h⟩⟩
  · have hpinned : schema.isOperational = true ∧ some severity = schema.severity ↔
        schema.severity = some severity := by
      constructor
      · exact fun h => h.2.symm
      · intro h
        exact ⟨by rw [EventSchemaArgs.isOperational, h]; rfl, h.symm⟩
    rw [← guardFields_iff, ← hpinned]
    simp only [EventSchemaArgs.validateOperational, check_eq_ok, require_eq_ok, decide_eq_true_eq,
      exists_and_left, and_assoc, EventSchemaArgs.requiredFieldNames, Bool.false_eq_true, if_false]
  · have haudit : schema.isAudit = true ↔ ∃ category, schema.category = some category := by
      rw [EventSchemaArgs.isAudit, Option.isSome_iff_exists]
    rw [← guardFields_iff, ← haudit]
    simp only [EventSchemaArgs.validateAudit, check_eq_ok, require_eq_ok, exists_and_left,
      EventSchemaArgs.requiredFieldNames, decide_eq_true_eq]
    exact Iff.rfl

end NmLogging
