import NmLogging.Framework.Format
import NmLogging.Framework.Utf8
import NmLogging.Record

/-!
# Event schemas

`FieldSpec`, `EventSchema` and `EventRegistry` of `events.py`: the checks made when a
schema is declared, the field guard that every call goes through, and the message
template. A field or schema carries the proof that its checks passed.

The guard lets a value through unchanged, but for a list, of which it makes a tuple
(`Guarded.mem_iff`); every scalar that it lets through is `Admitted`, so that no string
has the shape of an encrypted envelope; and all it raises is `EventSchemaError`
(`guardFields_error`).
-/

namespace NmLogging

/-! ## Fields -/

def RESERVED_EVENT_NAMESPACE : PyStr := lit "nmlogging"

/-- The class of a field's values; `other` is any but the four allowed ones. -/
inductive FieldType where
  | str
  | int
  | float
  | bool
  | other
  deriving DecidableEq

/-- `[a-z][a-z0-9_]{0,63}` -/
def fieldNameRe : Regex :=
  .seq (.cls isLower) (.upTo 63 (.cls fun c => isLower c || isDigit c || c == 0x5f))

/-- `_first_segment`. -/
def firstSegment (eventId : PyStr) : PyStr := splitFirst eventId 0x2e

/-- The arguments of `FieldSpec`. -/
structure FieldSpecArgs where
  name : PyAtom
  type : FieldType
  required : Bool := false
  isList : Bool := false
  freeForm : Bool := false
  freeFormPermitted : Bool := false
  requiredOnOutcome : Bool := false
  deriving DecidableEq

/-- `FieldSpec.__post_init__`. -/
def FieldSpecArgs.postInit (f : FieldSpecArgs) : Except PyError Unit := do
  require (match f.name with | .str s => fieldNameRe.fullmatch s | _ => false)
    (configurationError "field name must match [a-z][a-z0-9_]\x7b0,63\x7d")
  require (!isReserved f.name)
    (configurationError "field name collides with a reserved envelope field name")
  require (f.type ≠ .other) (configurationError "field type must be str, int, float, or bool")
  require (!(f.freeForm && !f.freeFormPermitted))
    (configurationError "a free-form field must be explicitly permitted by the schema")

/-- One permitted field of an event. -/
structure FieldSpec extends FieldSpecArgs where
  ok : toFieldSpecArgs.postInit = .ok ()
  deriving DecidableEq

/-- The field of the examples that names something. -/
theorem name_postInit : FieldSpecArgs.postInit
    { name := .str (lit "name"), type := .str, required := true } = .ok () := by
  decide +kernel

/-- The name of a declared field is a string that is not reserved. -/
theorem FieldSpec.name_ok (f : FieldSpec) : (∃ s, f.name = .str s) ∧ isReserved f.name = false := by
  have h := f.ok
  simp only [FieldSpecArgs.postInit, check_eq_ok, require_eq_ok, Bool.not_eq_true'] at h
  obtain ⟨hname, hres, -⟩ := h
  cases hn : f.name with
  | str s => exact ⟨⟨s, rfl⟩, hn ▸ hres⟩
  | _ => simp [hn] at hname

theorem FieldSpec.type_ok (f : FieldSpec) : f.type ≠ .other := by
  have h := f.ok
  simp only [FieldSpecArgs.postInit, check_eq_ok, require_eq_ok, decide_eq_true_eq] at h
  exact h.2.2.1

/-! ## Schemas -/

/-- The arguments of `EventSchema`. -/
structure EventSchemaArgs where
  eventId : PyAtom
  severity : Option Severity := none
  category : Option Category := none
  fields : List FieldSpec := []
  messageTemplate : PyAtom := .none
  deriving DecidableEq

namespace EventSchemaArgs

variable (schema : EventSchemaArgs)

/-- The declared names, in their order. -/
def names : List PyAtom := schema.fields.map fun f => f.name

def validateEventId : Except PyError Unit :=
  match schema.eventId with
  | .str s => do
    require (s.length ≤ MAX_EVENT_ID_CHARS) (configurationError "event id exceeds the maximum length")
    require (eventIdRe.fullmatch s)
      (configurationError "event id must be at least two dot-separated lower-case segments")
  | _ => .error (configurationError "event id must be a string")

/-- An event is operational or audit, and not both. -/
def validateKind : Except PyError Unit :=
  require (schema.severity.isSome ≠ schema.category.isSome)
    (configurationError "an event schema must set exactly one of severity or category")

def buildFieldIndex : Except PyError Unit :=
  require schema.names.Nodup (configurationError "duplicate field name in event schema")

/-- The names of the fields that a template may refer to. -/
def templateNames : List PyAtom := (schema.fields.filter fun f => f.required).map fun f => f.name

/-- What a placeholder of a template has to be: the plain name of a required field. -/
def checkPlaceholder (f : FormatField) : Except PyError Unit := do
  require (f.name ≠ [])
    (configurationError "message template must not use positional placeholders")
  require (!(0x2e ∈ f.name || 0x5b ∈ f.name))
    (configurationError "message template placeholders must be plain field names")
  require f.conversion.isNone
    (configurationError "message template placeholders must not use a conversion")
  require (f.spec = [])
    (configurationError "message template placeholders must not use a format spec")
  require (.str f.name ∈ schema.templateNames)
    (configurationError "message template may reference only required fields")

/-- The placeholders before an error in the template's text are checked first. -/
def validateMessageTemplate : Except PyError Unit :=
  match schema.messageTemplate with
  | .none => .ok ()
  | .str t => do
    ((formatParse t).1.filterMap FormatItem.field).forM schema.checkPlaceholder
    require (formatParse t).2 ⟨ValueError, lit "malformed format string"⟩
  | _ => .error (configurationError "message template must be a string")

/-- `EventSchema.__post_init__`. -/
def postInit : Except PyError Unit := do
  schema.validateEventId
  schema.validateKind
  schema.buildFieldIndex
  schema.validateMessageTemplate

end EventSchemaArgs

/-- A declared event and its permitted fields. -/
structure EventSchema extends EventSchemaArgs where
  ok : toEventSchemaArgs.postInit = .ok ()
  deriving DecidableEq

/-- What the checks of a schema promise. -/
theorem EventSchema.postInit_ok (schema : EventSchema) :
    (∃ s, schema.eventId = .str s ∧ s.length ≤ MAX_EVENT_ID_CHARS ∧ eventIdRe.fullmatch s = true) ∧
      (schema.severity.isSome ↔ schema.category = none) ∧ schema.names.Nodup ∧
      schema.validateMessageTemplate = .ok () := by
  have h := schema.ok
  simp only [EventSchemaArgs.postInit, check_eq_ok] at h
  obtain ⟨hid, hkind, hfields, htemplate⟩ := h
  refine ⟨?_, ?_, ?_, htemplate⟩
  · unfold EventSchemaArgs.validateEventId at hid
    split at hid
    · rename_i s hs
      simp only [check_eq_ok, require_eq_ok, decide_eq_true_eq] at hid
      exact ⟨s, hs, hid⟩
    · cases hid
  · simp only [EventSchemaArgs.validateKind, require_eq_ok, decide_eq_true_eq] at hkind
    cases hs : schema.severity <;> cases hc : schema.category <;> simp [hs, hc] at hkind ⊢
  · simpa [EventSchemaArgs.buildFieldIndex] using hfields

/-! ## The field guard -/

/-- `_guard_scalar`. -/
def guardScalar (expected : FieldType) (value : PyAtom) : Except PyError PyAtom :=
  match expected with
  | .bool =>
    match value with
    | .bool b => .ok (.bool b)
    | _ => .error (schemaError "field expects a bool")
  | .int =>
    match value with
    | .int i => .ok (.int i)
    | _ => .error (schemaError "field expects an int")
  | .float =>
    match value with
    | .float f =>
      if f.isFinite then .ok (.float f) else .error (schemaError "float field is NaN or infinite")
    | _ => .error (schemaError "field expects a float")
  | .str =>
    match value with
    | .str s => do
      require (s.length ≤ MAX_FIELD_CHARS) (schemaError "string field exceeds the maximum length")
      require (!looksLikeEncEnvelope s)
        (schemaError "string field looks like an encrypted envelope and is refused")
      require (encodeUtf8 s).isSome (schemaError "string field is not encodable as UTF-8")
      return .str s
    | _ => .error (schemaError "field expects a str")
  | .other => .error (schemaError "field has an unsupported type")

/-- `_guard_value`: the elements of a list come out as a tuple. -/
def guardValue (spec : FieldSpec) (value : PyObj) : Except PyError PyObj :=
  if spec.isList then
    match value with
    | .list xs | .tuple xs => (xs.mapM (guardScalar spec.type)).map .tuple
    | .atom _ => .error (schemaError "field expects a list of scalars")
  else
    match value with
    | .atom a => (guardScalar spec.type a).map .atom
    -- no container is an instance of a scalar type
    | .list _ | .tuple _ => (guardScalar spec.type (.other 0)).map .atom

/-- The declared fields in their order, each guarded, after those in `result`. -/
def guardSpecs (fields : Dict PyAtom PyObj) (required : List PyAtom) :
    List FieldSpec → Dict PyAtom PyObj → Except PyError (Dict PyAtom PyObj)
  | [], result => .ok result
  | spec :: specs, result =>
    match fields.get? spec.name with
    | some value => do
      let v ← guardValue spec value
      guardSpecs fields required specs (result.set spec.name v)
    | none =>
      if spec.name ∈ required then .error (schemaError "call omitted a required field")
      else guardSpecs fields required specs result

namespace EventSchemaArgs

variable (schema : EventSchemaArgs)

/-- `_required_field_names`. -/
def requiredFieldNames (forOutcome : Bool) : List PyAtom :=
  (schema.fields.filter fun f => if forOutcome then f.requiredOnOutcome else f.required).map
    fun f => f.name

/-- `_guard_fields`: only declared names, and the values of the declared fields. -/
def guardFields (fields : Dict PyAtom PyObj) (required : List PyAtom) :
    Except PyError (Dict PyAtom PyObj) := do
  require (fields.keys.all (· ∈ schema.names))
    (schemaError "call provided a field the event does not declare")
  guardSpecs fields required schema.fields Dict.empty

def isOperational : Bool := schema.severity.isSome

def isAudit : Bool := schema.category.isSome

/-- The automatic outcome of `AuditLog.operation` has no fields. -/
def supportsContextManager : Bool := !schema.fields.any fun f => f.requiredOnOutcome

/-- `validate_operational`. -/
def validateOperational (severity : Severity) (fields : Dict PyAtom PyObj) :
    Except PyError (Dict PyAtom PyObj) := do
  require schema.isOperational (schemaError "event is not an operational event")
  require (some severity = schema.severity)
    (schemaError "severity does not match the event's pinned severity")
  schema.guardFields fields (schema.requiredFieldNames false)

/-- `validate_audit`. -/
def validateAudit (fields : Dict PyAtom PyObj) (stage : Stage) :
    Except PyError (Dict PyAtom PyObj) := do
  require schema.isAudit (schemaError "event is not an audit event")
  schema.guardFields fields (schema.requiredFieldNames (stage = .outcome))

variable [PyRuntime]

/-- `format(fields[name], "")`. -/
def fieldText (fields : Dict PyAtom PyObj) (name : PyStr) : Except PyError PyStr :=
  match fields.get? (.str name) with
  | none => .error ⟨KeyError, PyRuntime.strRepr name⟩
  | some v => v.text

/-- `template.format(**fields)`, where every field of the template is a plain name. -/
def formatFields (template : PyStr) (fields : Dict PyAtom PyObj) : Except PyError PyStr :=
  substitute (fieldText fields) (formatParse template).1

/-- `render_message`: no message where a field of the template is absent. -/
def renderMessage (validated : Dict PyAtom PyObj) : Except PyError PyAtom :=
  match schema.messageTemplate with
  | .str t =>
    match formatFields t validated with
    | .ok s => .ok (.str s)
    | .error e => if e.isA .keyError then .ok .none else .error e
  | _ => .ok .none

end EventSchemaArgs

/-! ## What the guard lets through -/

/-- A scalar that the guard accepts for some type. -/
def Admitted : PyAtom → Prop
  | .str s => s.length ≤ MAX_FIELD_CHARS ∧ looksLikeEncEnvelope s = false ∧ (encodeUtf8 s).isSome
  | .float f => f.isFinite = true
  | .int _ | .bool _ => True
  | .none | .other _ => False

theorem guardScalar_ok {t : FieldType} {a b : PyAtom} (h : guardScalar t a = .ok b) :
    b = a ∧ Admitted a := by
  cases t <;> cases a <;> simp only [guardScalar, check_eq_ok, require_eq_ok, reduceCtorEq] at h
  case str.str s =>
    obtain ⟨hlen, henv, henc, h⟩ := h
    cases h
    exact ⟨rfl, of_decide_eq_true hlen, by simpa using henv, henc⟩
  case float.float f =>
    split at h
    · cases h; exact ⟨rfl, ‹_›⟩
    · cases h
  all_goals (cases h; exact ⟨rfl, trivial⟩)

theorem isScalar_of_admitted {a : PyAtom} (h : Admitted a) : isScalar a = true := by
  cases a <;> first | rfl | cases h

theorem guardScalar_error {t : FieldType} {a : PyAtom} {e : PyError}
    (h : guardScalar t a = .error e) : e.cls = EventSchemaError := by
  cases t <;> cases a <;>
    simp only [guardScalar, bind_eq_error, require_eq_error, reduceCtorEq] at h
  case str.str s =>
    rcases h with ⟨-, rfl⟩ | ⟨-, -, ⟨-, rfl⟩ | ⟨-, -, ⟨-, rfl⟩ | ⟨-, -, h⟩⟩⟩
    · rfl
    · rfl
    · rfl
    · cases h
  case float.float f =>
    split at h <;> cases h
    rfl
  all_goals (cases h; rfl)

theorem guardValue_ok {spec : FieldSpec} {v w : PyObj} (h : guardValue spec v = .ok w) :
    w = v.frozen ∧ isFieldValue w = true ∧ ∀ a ∈ w.atoms, Admitted a := by
  have tuple : ∀ {xs : List PyAtom}, (xs.mapM (guardScalar spec.type)).map PyObj.tuple = .ok w →
      w = .tuple xs ∧ isFieldValue w = true ∧ ∀ a ∈ w.atoms, Admitted a := by
    intro xs h
    obtain ⟨ys, hys, rfl⟩ := map_eq_ok.mp h
    have hadm : ∀ b ∈ ys, Admitted b := by
      intro b hb
      obtain ⟨a, -, hab⟩ := exists_of_mem_mapM hys hb
      exact (guardScalar_ok hab).1 ▸ (guardScalar_ok hab).2
    have heq : xs = ys := List.forall₂_eq_eq_eq ▸
      (mapM_eq_ok.mp hys).imp fun a b hab => (guardScalar_ok hab).1.symm
    refine ⟨by rw [heq], ?_, hadm⟩
    exact List.all_eq_true.mpr fun b hb => isScalar_of_admitted (hadm b hb)
  have atom : ∀ {a : PyAtom}, (guardScalar spec.type a).map PyObj.atom = .ok w →
      w = .atom a ∧ isFieldValue w = true ∧ ∀ a ∈ w.atoms, Admitted a := by
    intro a h
    obtain ⟨b, hb, rfl⟩ := map_eq_ok.mp h
    obtain ⟨rfl, hadm⟩ := guardScalar_ok hb
    exact ⟨rfl, isScalar_of_admitted hadm, by simpa [PyObj.atoms] using hadm⟩
  have other : (guardScalar spec.type (.other 0)).map PyObj.atom ≠ .ok w := by
    intro h
    obtain ⟨-, -, hadm⟩ := atom h
    obtain ⟨b, hb, rfl⟩ := map_eq_ok.mp h
    exact (guardScalar_ok hb).2
  unfold guardValue at h
  split at h
  · split at h
    · exact tuple h
    · exact tuple h
    · cases h
  · split at h
    · exact atom h
    · exact absurd h other
    · exact absurd h other

theorem guardValue_error {spec : FieldSpec} {v : PyObj} {e : PyError}
    (h : guardValue spec v = .error e) : e.cls = EventSchemaError := by
  have list : ∀ {xs : List PyAtom}, (xs.mapM (guardScalar spec.type)).map PyObj.tuple = .error e →
      e.cls = EventSchemaError := by
    intro xs h
    obtain ⟨a, -, ha⟩ := exists_of_mapM_eq_error (map_eq_error.mp h)
    exact guardScalar_error ha
  unfold guardValue at h
  split at h
  · split at h
    · exact list h
    · exact list h
    · cases h; rfl
  · split at h <;> exact guardScalar_error (map_eq_error.mp h)

section

variable {fields d : Dict PyAtom PyObj} {required : List PyAtom} {e : PyError}

/-- What the guard returns for the fields of a schema, when it returns. -/
def declaredEntries (fields : Dict PyAtom PyObj) (specs : List FieldSpec) :
    List (PyAtom × PyObj) :=
  specs.filterMap fun spec => (fields.get? spec.name).map fun v => (spec.name, v.frozen)

theorem guardSpecs_ok {specs : List FieldSpec} {acc : Dict PyAtom PyObj}
    (hn : (acc.keys ++ specs.map fun f => f.name).Nodup)
    (h : guardSpecs fields required specs acc = .ok d) :
    d.entries = acc.entries ++ declaredEntries fields specs ∧
      ∀ spec ∈ specs, ∀ v, fields.get? spec.name = some v →
        isFieldValue v.frozen = true ∧ ∀ a ∈ v.atoms, Admitted a := by
  induction specs generalizing acc with
  | nil => cases h; simp [declaredEntries]
  | cons spec specs ih =>
    rw [List.map_cons, List.nodup_append] at hn
    have hkey : spec.name ∉ acc.keys := fun hm => hn.2.2 _ hm _ List.mem_cons_self rfl
    have hrest : ∀ {acc' : Dict PyAtom PyObj}, (∀ k ∈ acc'.keys, k ∈ acc.keys ∨ k = spec.name) →
        (acc'.keys ++ specs.map fun f => f.name).Nodup := by
      intro acc' hacc
      obtain ⟨hspec, hspecs⟩ := List.nodup_cons.mp hn.2.1
      refine List.nodup_append.mpr ⟨acc'.nodup, hspecs, fun a ha b hb hab => ?_⟩
      rcases hacc a ha with ha | rfl
      · exact hn.2.2 a ha b (List.mem_cons_of_mem _ hb) hab
      · exact hspec (hab ▸ hb)
    rw [guardSpecs] at h
    cases hv : fields.get? spec.name with
    | none =>
      simp only [hv] at h
      split at h
      · cases h
      · obtain ⟨he, hall⟩ := ih (hrest fun k hk => .inl hk) h
        refine ⟨by rw [he, declaredEntries, declaredEntries, List.filterMap_cons, hv]; rfl, ?_⟩
        intro s hs v hsv
        rcases List.mem_cons.mp hs with rfl | hs
        · rw [hv] at hsv; cases hsv
        · exact hall s hs v hsv
    | some v =>
      simp only [hv] at h
      obtain ⟨w, hw, h⟩ := bind_eq_ok.mp h
      obtain ⟨rfl, hfield, hadm⟩ := guardValue_ok hw
      have hset := Dict.entries_set_of_notMem hkey v.frozen
      have hkeys : ∀ k ∈ (acc.set spec.name v.frozen).keys, k ∈ acc.keys ∨ k = spec.name := by
        intro k hk
        rw [Dict.keys, hset, List.map_append, List.mem_append] at hk
        exact hk.imp id (by simp)
      obtain ⟨he, hall⟩ := ih (hrest hkeys) h
      refine ⟨by rw [he, hset, declaredEntries, declaredEntries, List.filterMap_cons, hv]; simp, ?_⟩
      intro s hs v' hsv
      rcases List.mem_cons.mp hs with rfl | hs
      · rw [hv] at hsv
        cases hsv
        exact ⟨hfield, by simpa using hadm⟩
      · exact hall s hs v' hsv

theorem guardSpecs_error {specs : List FieldSpec} {acc : Dict PyAtom PyObj}
    (h : guardSpecs fields required specs acc = .error e) : e.cls = EventSchemaError := by
  induction specs generalizing acc with
  | nil => cases h
  | cons spec specs ih =>
    rw [guardSpecs] at h
    split at h
    · rcases bind_eq_error.mp h with h | ⟨_, -, h⟩
      · exact guardValue_error h
      · exact ih h
    · split at h
      · cases h; rfl
      · exact ih h

/-- Guarded fields: those of the call, all declared, with values the guard accepts. -/
structure EventSchemaArgs.Guarded (schema : EventSchemaArgs) (fields d : Dict PyAtom PyObj) :
    Prop where
  declared : ∀ k ∈ fields.keys, k ∈ schema.names
  entries : d.entries = declaredEntries fields schema.fields
  admitted : ∀ v ∈ fields.values, isFieldValue v.frozen = true ∧ ∀ a ∈ v.atoms, Admitted a

theorem guardFields_ok {schema : EventSchema}
    (h : schema.guardFields fields required = .ok d) : schema.Guarded fields d := by
  obtain ⟨hdecl, h⟩ := check_eq_ok.mp h
  rw [require_eq_ok, List.all_eq_true] at hdecl
  have hdecl : ∀ k ∈ fields.keys, k ∈ schema.names := fun k hk => of_decide_eq_true (hdecl k hk)
  obtain ⟨-, -, hnodup, -⟩ := schema.postInit_ok
  obtain ⟨he, hall⟩ := guardSpecs_ok (by simpa [EventSchemaArgs.names] using hnodup) h
  refine ⟨hdecl, by simpa using he, fun v hv => ?_⟩
  obtain ⟨⟨k, v⟩, hkv, rfl⟩ := List.mem_map.mp hv
  obtain ⟨spec, hspec, hname⟩ := List.mem_map.mp (hdecl k (List.mem_map_of_mem hkv))
  exact hall spec hspec v (by rw [hname]; exact Dict.get?_eq_some.mpr hkv)

theorem guardFields_error {schema : EventSchemaArgs}
    (h : schema.guardFields fields required = .error e) : e.cls = EventSchemaError := by
  rcases bind_eq_error.mp h with h | ⟨_, -, h⟩
  · rw [(require_eq_error.mp h).2.symm]; rfl
  · exact guardSpecs_error h

/-- The guard changes no value, but that a list becomes a tuple. -/
theorem EventSchemaArgs.Guarded.mem_iff {schema : EventSchemaArgs} (h : schema.Guarded fields d)
    {k : PyAtom} {w : PyObj} :
    (k, w) ∈ d.entries ↔ ∃ v, (k, v) ∈ fields.entries ∧ w = v.frozen := by
  simp only [h.entries, declaredEntries, List.mem_filterMap, Option.map_eq_some_iff, Prod.mk.injEq]
  constructor
  · rintro ⟨spec, -, v, hv, rfl, rfl⟩
    exact ⟨v, Dict.get?_eq_some.mp hv, rfl⟩
  · rintro ⟨v, hv, rfl⟩
    obtain ⟨spec, hspec, hname⟩ := List.mem_map.mp (h.declared k (List.mem_map_of_mem hv))
    exact ⟨spec, hspec, v, by rw [hname]; exact Dict.get?_eq_some.mpr hv, hname, rfl⟩

/-- Guarded fields can be the fields of a record. -/
theorem EventSchemaArgs.Guarded.fieldValues {schema : EventSchemaArgs}
    (h : schema.Guarded fields d) :
    (∀ k ∈ d.keys, isReserved k = false) ∧ ∀ w ∈ d.values, isFieldValue w = true := by
  constructor
  · intro k hk
    obtain ⟨⟨k, w⟩, hkw, rfl⟩ := List.mem_map.mp hk
    obtain ⟨v, hv, -⟩ := h.mem_iff.mp hkw
    obtain ⟨spec, -, hname⟩ := List.mem_map.mp (h.declared k (List.mem_map_of_mem hv))
    exact hname ▸ spec.name_ok.2
  · intro w hw
    obtain ⟨⟨k, w⟩, hkw, rfl⟩ := List.mem_map.mp hw
    obtain ⟨v, hv, rfl⟩ := h.mem_iff.mp hkw
    exact (h.admitted v (List.mem_map_of_mem hv)).1

/-- The scalars of guarded fields were accepted by the guard. -/
theorem EventSchemaArgs.Guarded.scalars {schema : EventSchemaArgs} (h : schema.Guarded fields d) :
    ∀ w ∈ d.values, ∀ a ∈ w.atoms, Admitted a := by
  intro w hw a ha
  obtain ⟨⟨k, w⟩, hkw, rfl⟩ := List.mem_map.mp hw
  obtain ⟨v, hv, rfl⟩ := h.mem_iff.mp hkw
  exact (h.admitted v (List.mem_map_of_mem hv)).2 a (by simpa using ha)

/-- And they are the scalars of the call's values. -/
theorem EventSchemaArgs.Guarded.scalar_iff {schema : EventSchemaArgs} (h : schema.Guarded fields d)
    {a : PyAtom} : (∃ w ∈ d.values, a ∈ w.atoms) ↔ ∃ v ∈ fields.values, a ∈ v.atoms := by
  constructor
  · rintro ⟨w, hw, ha⟩
    obtain ⟨⟨k, w⟩, hkw, rfl⟩ := List.mem_map.mp hw
    obtain ⟨v, hv, rfl⟩ := h.mem_iff.mp hkw
    exact ⟨v, List.mem_map_of_mem hv, by simpa using ha⟩
  · rintro ⟨v, hv, ha⟩
    obtain ⟨⟨k, v⟩, hkv, rfl⟩ := List.mem_map.mp hv
    exact ⟨v.frozen, List.mem_map_of_mem (h.mem_iff.mpr ⟨v, hkv, rfl⟩), by simpa using ha⟩

theorem validateOperational_ok {schema : EventSchema} {severity : Severity}
    (h : schema.validateOperational severity fields = .ok d) : schema.Guarded fields d := by
  obtain ⟨-, h⟩ := check_eq_ok.mp h
  exact guardFields_ok (check_eq_ok.mp h).2

theorem validateOperational_error {schema : EventSchemaArgs} {severity : Severity}
    (h : schema.validateOperational severity fields = .error e) : e.cls = EventSchemaError := by
  rcases bind_eq_error.mp h with h | ⟨_, -, h⟩
  · rw [(require_eq_error.mp h).2.symm]; rfl
  rcases bind_eq_error.mp h with h | ⟨_, -, h⟩
  · rw [(require_eq_error.mp h).2.symm]; rfl
  · exact guardFields_error h

theorem validateAudit_ok {schema : EventSchema} {stage : Stage}
    (h : schema.validateAudit fields stage = .ok d) : schema.Guarded fields d :=
  guardFields_ok (check_eq_ok.mp h).2

theorem validateAudit_error {schema : EventSchemaArgs} {stage : Stage}
    (h : schema.validateAudit fields stage = .error e) : e.cls = EventSchemaError := by
  rcases bind_eq_error.mp h with h | ⟨_, -, h⟩
  · rw [(require_eq_error.mp h).2.symm]; rfl
  · exact guardFields_error h

end

/-! ## What rendering raises -/

section

variable [PyRuntime] {fields : Dict PyAtom PyObj} {e : PyError}

/-- Rendering fails only on an integer with too many digits. -/
theorem renderMessage_error {schema : EventSchemaArgs} (h : schema.renderMessage fields = .error e) :
    HasOverlong fields.values ∧ e.cls = ValueError := by
  unfold EventSchemaArgs.renderMessage at h
  split at h
  · split at h
    · cases h
    · rename_i e' hf
      split at h
      · cases h
      · cases h
        rename_i hkey
        obtain ⟨-, -, f, -, hv⟩ := exists_of_substitute_eq_error hf
        unfold EventSchemaArgs.fieldText at hv
        split at hv
        · cases hv; exact absurd rfl hkey
        · rename_i v hget
          obtain ⟨⟨i, hi⟩, hcls⟩ := PyObj.text_error hv
          have hmem : v ∈ fields.values := List.mem_map_of_mem (Dict.get?_eq_some.mp hget)
          exact ⟨⟨v, hmem, i, hi⟩, hcls⟩
  · cases h

/-- A message is a string, if there is one. -/
theorem renderMessage_ok {schema : EventSchemaArgs} {m : PyAtom}
    (h : schema.renderMessage fields = .ok m) : m = .none ∨ ∃ s, m = .str s := by
  unfold EventSchemaArgs.renderMessage at h
  split at h
  · split at h
    · cases h; exact .inr ⟨_, rfl⟩
    · split at h <;> cases h
      exact .inl rfl
  · cases h; exact .inl rfl

end

/-! ## The registry -/

/-- The declared events by their ids. -/
structure EventRegistry where
  schemas : Dict PyAtom EventSchema
  keyed : ∀ e ∈ schemas.entries, e.2.eventId = e.1

namespace EventRegistry

/-- `EventRegistry()`. -/
def empty : EventRegistry := ⟨Dict.empty, by simp⟩

/-- Whether an event id is in the namespace of the package. -/
def inReservedNamespace : PyAtom → Bool
  | .str s => firstSegment s = RESERVED_EVENT_NAMESPACE
  | _ => false

/-- `_insert`. -/
def insert (registry : EventRegistry) (schema : EventSchema) : Except PyError EventRegistry :=
  if h : schema.eventId ∈ registry.schemas.keys then
    .error (configurationError "event is already registered")
  else .ok ⟨registry.schemas.set schema.eventId schema, by
    intro e he
    rw [Dict.entries_set_of_notMem h] at he
    rcases List.mem_append.mp he with he | he
    · exact registry.keyed e he
    · rw [List.mem_singleton.mp he]⟩

def register (registry : EventRegistry) (schema : EventSchema) : Except PyError EventRegistry := do
  require (!inReservedNamespace schema.eventId)
    (configurationError "the nmlogging.* event namespace is reserved for the logging package")
  registry.insert schema

def registerReserved (registry : EventRegistry) (schema : EventSchema) :
    Except PyError EventRegistry := do
  require (inReservedNamespace schema.eventId)
    (configurationError "register_reserved accepts only the reserved nmlogging.* namespace")
  registry.insert schema

def get (registry : EventRegistry) (eventId : PyAtom) : Except PyError EventSchema :=
  match eventId with
  | .str s =>
    match registry.schemas.get? (.str s) with
    | some schema => .ok schema
    | none => .error (schemaError "event is not registered")
  | _ => .error (schemaError "event is not a string")

/-- `in`. -/
def contains (registry : EventRegistry) (eventId : PyAtom) : Bool :=
  eventId.isStr && registry.schemas.contains eventId

theorem get_ok {registry : EventRegistry} {eventId : PyAtom} {schema : EventSchema}
    (h : registry.get eventId = .ok schema) : schema.eventId = eventId := by
  unfold get at h
  split at h
  · split at h
    · cases h
      exact registry.keyed _ (Dict.get?_eq_some.mp ‹_›)
    · cases h
  · cases h

theorem get_error {registry : EventRegistry} {eventId : PyAtom} {e : PyError}
    (h : registry.get eventId = .error e) : e.cls = EventSchemaError := by
  unfold get at h
  split at h
  · split at h
    · cases h
    · cases h; rfl
  · cases h; rfl

end EventRegistry

end NmLogging
