import NmLogging.Serialise

/-!
# Instances of subclasses

The checks of a record are by `isinstance`. So where a record has a string, a number or a tuple,
that may be an instance of a proper subclass: a member of a `StrEnum` or an `IntEnum`, or a
namedtuple. These are the records whose objects have their classes (`RecordInstance`), where a
subclass leaves the methods of the builtin class as they are. Neither the checks nor the encoder
tells the class: a record is accepted, and written, as the one that has objects of the builtin
classes with the same values (`RecordInstance.builtin`, `RecordInstance.encode_builtin`).
-/

namespace NmLogging

/-! ## Objects with their classes -/

/-- A class that has subclasses. -/
def PyAtom.hasSubclasses : PyAtom → Bool
  | .str _ | .int _ | .float _ => true
  | .none | .bool _ | .other _ => false

/-- An object that is no list or tuple: its value, and its class if that is a proper subclass of
the builtin one. -/
structure AtomInstance where
  value : PyAtom
  subclass : Option PyStr
  ok : subclass = none ∨ value.hasSubclasses = true

/-- An object with its class, and the classes of its elements. -/
inductive ObjInstance where
  | atom (a : AtomInstance)
  | list (subclass : Option PyStr) (xs : List AtomInstance)
  | tuple (subclass : Option PyStr) (xs : List AtomInstance)

/-- An object of a builtin class. -/
def AtomInstance.of (a : PyAtom) : AtomInstance := ⟨a, none, .inl rfl⟩

/-- The object of the builtin class with the same value. -/
def ObjInstance.builtin : ObjInstance → PyObj
  | .atom a => .atom a.value
  | .list _ xs => .list (xs.map AtomInstance.value)
  | .tuple _ xs => .tuple (xs.map AtomInstance.value)

/-- `isinstance(a, _PERMITTED_SCALAR_TYPES)`. -/
def AtomInstance.isScalar (a : AtomInstance) : Bool := NmLogging.isScalar a.value

/-- `_is_field_value`. -/
def ObjInstance.isFieldValue : ObjInstance → Bool
  | .atom a => a.isScalar
  | .tuple _ xs => xs.all AtomInstance.isScalar
  | .list _ _ => false

theorem ObjInstance.isFieldValue_builtin (x : ObjInstance) :
    NmLogging.isFieldValue x.builtin = x.isFieldValue := by
  cases x with
  | atom a => rfl
  | list c xs => rfl
  | tuple c xs => exact List.all_map

/-! ## Records -/

/-- A value of a field, with the class of the field's name. -/
structure FieldInstance where
  nameSubclass : Option PyStr
  value : ObjInstance

/-- The arguments of `Record`. -/
structure EnvelopeInstance where
  application : AtomInstance
  emitter : AtomInstance
  event : AtomInstance
  timestamp : Datetime
  fields : Dict PyAtom FieldInstance
  message : AtomInstance

def EnvelopeInstance.builtin (r : EnvelopeInstance) : Envelope where
  application := r.application.value
  emitter := r.emitter.value
  event := r.event.value
  timestamp := r.timestamp
  fields := r.fields.mapValues fun f => f.value.builtin
  message := r.message.value

/-- `Record.__post_init__`. -/
def EnvelopeInstance.postInit (r : EnvelopeInstance) : Except PyError Unit := do
  validateApplication r.application.value
  validateEmitter r.emitter.value
  validateEvent r.event.value
  validateTimestamp r.timestamp
  require (r.message.value = .none || r.message.value.isStr)
    (configurationError "record message must be a string or None")
  require (!r.fields.keys.any isReserved)
    (schemaError "event field name collides with a reserved envelope field")
  require (r.fields.values.all fun f => f.value.isFieldValue)
    (schemaError "record field value must be a scalar or a tuple of scalars")

/-- The arguments of `OperationalRecord`. -/
structure OperationalInstance extends EnvelopeInstance where
  severity : Severity

def OperationalInstance.builtin (r : OperationalInstance) : OperationalArgs :=
  ⟨r.toEnvelopeInstance.builtin, r.severity⟩

/-- The arguments of `AuditRecord`. -/
structure AuditInstance extends EnvelopeInstance where
  category : Category
  actor : AtomInstance
  stage : Stage
  operationId : AtomInstance
  outcome : Option Outcome

def AuditInstance.builtin (r : AuditInstance) : AuditArgs :=
  ⟨r.toEnvelopeInstance.builtin, r.category, r.actor.value, r.stage, r.operationId.value,
    r.outcome⟩

/-- `AuditRecord.__post_init__`. -/
def AuditInstance.postInit (r : AuditInstance) : Except PyError Unit := do
  r.toEnvelopeInstance.postInit
  validateActor r.actor.value
  validateOperationId r.stage r.operationId.value
  validateOutcome r.stage r.outcome

/-- A record of any class. -/
inductive RecordInstance where
  | base (r : EnvelopeInstance) (ok : r.postInit = .ok ())
  | operational (r : OperationalInstance) (ok : r.toEnvelopeInstance.postInit = .ok ())
  | audit (r : AuditInstance) (ok : r.postInit = .ok ())

theorem EnvelopeInstance.postInit_builtin (r : EnvelopeInstance) :
    r.builtin.postInit = r.postInit := by
  have hvalues : r.builtin.fields.values.all isFieldValue =
      r.fields.values.all fun f => f.value.isFieldValue := by
    simp [builtin, ObjInstance.isFieldValue_builtin, Function.comp_def]
  rw [Envelope.postInit, hvalues, postInit, builtin, Dict.keys_mapValues]

theorem AuditInstance.postInit_builtin (r : AuditInstance) : r.builtin.postInit = r.postInit := by
  rw [AuditArgs.postInit, postInit, ← EnvelopeInstance.postInit_builtin]
  rfl

namespace RecordInstance

/-- The record of objects of the builtin classes with the same values. -/
def builtin : RecordInstance → Record
  | base r ok => .base r.builtin (r.postInit_builtin.trans ok)
  | operational r ok =>
    .operational ⟨r.builtin, r.toEnvelopeInstance.postInit_builtin.trans ok⟩
  | audit r ok => .audit ⟨r.builtin, r.postInit_builtin.trans ok⟩

def envelope : RecordInstance → EnvelopeInstance
  | base r _ => r
  | operational r _ => r.toEnvelopeInstance
  | audit r _ => r.toEnvelopeInstance

@[simp] theorem envelope_builtin (r : RecordInstance) :
    r.builtin.envelope = r.envelope.builtin := by
  cases r <;> rfl

/-! ## to_mapping -/

/-- The common envelope. -/
def envelopeEntries (r : EnvelopeInstance) : List (PyAtom × ObjInstance) :=
  [(key "schema_version", .atom (.of (.int SCHEMA_VERSION))),
    (key "timestamp", .atom (.of (.str r.timestamp.isoformat))),
    (key "application", .atom r.application),
    (key "emitter", .atom r.emitter),
    (key "event", .atom r.event)]

/-- The keys of the record's kind. -/
def kindEntries : RecordInstance → List (PyAtom × ObjInstance)
  | base _ _ => []
  | operational r _ => [(key "severity", .atom (.of (.str r.severity.value)))]
  | audit r _ =>
    [(key "category", .atom (.of (.str r.category.value))), (key "actor", .atom r.actor),
      (key "stage", .atom (.of (.str r.stage.value)))] ++
    (if r.operationId.value = .none then [] else [(key "operation_id", .atom r.operationId)]) ++
    (match r.outcome with
      | none => []
      | some o => [(key "outcome", .atom (.of (.str o.value)))])

/-- The event fields. -/
def fieldEntries (r : EnvelopeInstance) : List (PyAtom × ObjInstance) :=
  (r.fields.mapValues FieldInstance.value).entries

/-- The controlled message. -/
def messageEntries (r : EnvelopeInstance) : List (PyAtom × ObjInstance) :=
  if r.message.value = .none then [] else [(key "message", .atom r.message)]

/-- `to_mapping`. -/
def toMapping (r : RecordInstance) : Except PyError (Dict PyAtom ObjInstance) := do
  let m ← placeFields ((Dict.empty.setAll (envelopeEntries r.envelope)).setAll r.kindEntries)
    (fieldEntries r.envelope)
  return m.setAll (messageEntries r.envelope)

/-- What `to_mapping` holds, in its order. -/
def mappingEntries (r : RecordInstance) : List (PyAtom × ObjInstance) :=
  envelopeEntries r.envelope ++ r.kindEntries ++ fieldEntries r.envelope ++
    messageEntries r.envelope

/-- What it holds under the reserved keys. -/
def reservedEntries (r : RecordInstance) : List (PyAtom × ObjInstance) :=
  envelopeEntries r.envelope ++ r.kindEntries ++ messageEntries r.envelope

theorem mappingEntries_builtin (r : RecordInstance) :
    r.mappingEntries.map (fun e => (e.1, e.2.builtin)) = NmLogging.mappingEntries r.builtin := by
  have henvelope : (envelopeEntries r.envelope).map (fun e => (e.1, e.2.builtin)) =
      NmLogging.envelopeEntries r.envelope.builtin := rfl
  have hkind : r.kindEntries.map (fun e => (e.1, e.2.builtin)) =
      NmLogging.kindEntries r.builtin := by
    cases r with
    | base r ok => rfl
    | operational r ok => rfl
    | audit r ok =>
      simp only [kindEntries, NmLogging.kindEntries, builtin, AuditInstance.builtin,
        List.map_append]
      congr 1
      · congr 1
        split <;> rfl
      · cases r.outcome <;> rfl
  have hfields : (fieldEntries r.envelope).map (fun e => (e.1, e.2.builtin)) =
      r.envelope.builtin.fields.entries := by
    simp [fieldEntries, EnvelopeInstance.builtin, Function.comp_def]
  have hmessage : (messageEntries r.envelope).map (fun e => (e.1, e.2.builtin)) =
      NmLogging.messageEntries r.envelope.builtin := by
    unfold messageEntries NmLogging.messageEntries
    by_cases hnone : r.envelope.message.value = .none
    · rw [if_pos hnone, if_pos (show r.envelope.builtin.message = .none from hnone)]
      rfl
    · rw [if_neg hnone, if_neg (show r.envelope.builtin.message ≠ .none from hnone)]
      rfl
  rw [mappingEntries, List.map_append, List.map_append, List.map_append, henvelope, hkind,
    hfields, hmessage, NmLogging.mappingEntries, envelope_builtin]

/-- The keys of the fields are not reserved. -/
theorem not_reserved (r : RecordInstance) :
    ∀ k ∈ (fieldEntries r.envelope).map Prod.fst, isReserved k = false := by
  have hnames := r.builtin.valid.names
  rw [envelope_builtin] at hnames
  intro k hk
  refine hnames k ?_
  rw [EnvelopeInstance.builtin, Dict.keys_mapValues, ← Dict.keys_mapValues FieldInstance.value]
  exact hk

/-- Every record serialises, to its entries. -/
theorem toMapping_eq (r : RecordInstance) :
    ∃ m, r.toMapping = .ok m ∧ m.entries = r.mappingEntries := by
  have hnodup : (r.mappingEntries.map Prod.fst).Nodup := by
    have h := mappingEntries_nodup r.builtin
    rw [← r.mappingEntries_builtin, List.map_map] at h
    exact h
  refine ⟨Dict.empty.setAll r.mappingEntries, ?_, Dict.entries_setAll (by simpa using hnodup)⟩
  simp only [toMapping, placeFields_eq r.not_reserved, mappingEntries, Dict.setAll_append]
  rfl

/-- Under a reserved key a mapping has what is the record's own. -/
theorem mem_mappingEntries_reserved {r : RecordInstance} {k : PyAtom} {v : ObjInstance}
    (hk : isReserved k = true) : (k, v) ∈ r.mappingEntries ↔ (k, v) ∈ r.reservedEntries := by
  have hfield : (k, v) ∉ fieldEntries r.envelope := by
    intro h
    rw [r.not_reserved k (List.mem_map_of_mem h)] at hk
    cases hk
  simp only [mappingEntries, reservedEntries, List.mem_append, hfield, or_false]

/-! ## encode -/

variable [PyRuntime]

/-- `encode`. The encoder writes an instance of a subclass as one of the builtin class. -/
def encode (r : RecordInstance) : Except PyError PyStr := do
  let m ← r.toMapping
  dumps (m.mapValues ObjInstance.builtin)

theorem encode_builtin (r : RecordInstance) : r.encode = NmLogging.encode r.builtin := by
  obtain ⟨m, hm, hentries⟩ := r.toMapping_eq
  obtain ⟨m', hm', hentries'⟩ := NmLogging.toMapping_eq r.builtin
  have hmap : m.mapValues ObjInstance.builtin = m' :=
    Dict.ext (by rw [Dict.entries_mapValues, hentries, hentries', mappingEntries_builtin])
  rw [encode, NmLogging.encode, hm, hm', ← hmap]
  rfl

end RecordInstance

/-! ## Exact classes -/

/-- Nothing is an instance of a proper subclass. -/
def AtomInstance.Exact (a : AtomInstance) : Prop := a.subclass = none

def ObjInstance.Exact : ObjInstance → Prop
  | .atom a => a.Exact
  | .list c xs => c = none ∧ ∀ a ∈ xs, a.Exact
  | .tuple c xs => c = none ∧ ∀ a ∈ xs, a.Exact

def FieldInstance.Exact (f : FieldInstance) : Prop := f.nameSubclass = none ∧ f.value.Exact

structure EnvelopeInstance.Exact (r : EnvelopeInstance) : Prop where
  application : r.application.Exact
  emitter : r.emitter.Exact
  event : r.event.Exact
  fields : ∀ f ∈ r.fields.values, f.Exact
  message : r.message.Exact

def RecordInstance.Exact : RecordInstance → Prop
  | .base r _ => r.Exact
  | .operational r _ => r.toEnvelopeInstance.Exact
  | .audit r _ => r.toEnvelopeInstance.Exact ∧ r.actor.Exact ∧ r.operationId.Exact

theorem AtomInstance.Exact.eq {a b : AtomInstance} (ha : a.Exact) (hb : b.Exact)
    (h : a.value = b.value) : a = b := by
  obtain ⟨v, c, ok⟩ := a
  obtain ⟨v', c', ok'⟩ := b
  cases h
  cases ha
  cases hb
  rfl

/-- Lists are the same whose elements are told by their images. -/
theorem eq_of_map_eq {α β : Type} {f : α → β} {p : α → Prop}
    (hf : ∀ {a b}, p a → p b → f a = f b → a = b) {xs ys : List α} (hx : ∀ a ∈ xs, p a)
    (hy : ∀ a ∈ ys, p a) (h : xs.map f = ys.map f) : xs = ys := by
  induction xs generalizing ys with
  | nil => exact (List.map_eq_nil_iff.mp h.symm).symm
  | cons a xs ih =>
    cases ys with
    | nil => cases h
    | cons b ys =>
      obtain ⟨hhead, htail⟩ := List.cons.inj h
      rw [List.forall_mem_cons] at hx hy
      rw [hf hx.1 hy.1 hhead, ih hx.2 hy.2 htail]

theorem ObjInstance.Exact.eq {x y : ObjInstance} (hx : x.Exact) (hy : y.Exact)
    (h : x.builtin = y.builtin) : x = y := by
  cases x with
  | atom a =>
    cases y with
    | atom b => rw [AtomInstance.Exact.eq hx hy (PyObj.atom.inj h)]
    | list c ys => cases h
    | tuple c ys => cases h
  | list c xs =>
    cases y with
    | atom b => cases h
    | list c' ys =>
      obtain ⟨rfl, hx⟩ := hx
      obtain ⟨rfl, hy⟩ := hy
      rw [eq_of_map_eq AtomInstance.Exact.eq hx hy (PyObj.list.inj h)]
    | tuple c' ys => cases h
  | tuple c xs =>
    cases y with
    | atom b => cases h
    | list c' ys => cases h
    | tuple c' ys =>
      obtain ⟨rfl, hx⟩ := hx
      obtain ⟨rfl, hy⟩ := hy
      rw [eq_of_map_eq AtomInstance.Exact.eq hx hy (PyObj.tuple.inj h)]

theorem EnvelopeInstance.Exact.eq {r r' : EnvelopeInstance} (h : r.Exact) (h' : r'.Exact)
    (hb : r.builtin = r'.builtin) : r = r' := by
  have hfield : ∀ {e e' : PyAtom × FieldInstance}, e.2.Exact → e'.2.Exact →
      (e.1, e.2.value.builtin) = (e'.1, e'.2.value.builtin) → e = e' := by
    rintro ⟨k, c, v⟩ ⟨k', c', v'⟩ ⟨hc, hv⟩ ⟨hc', hv'⟩ he
    obtain ⟨hk, he⟩ := Prod.mk.inj he
    cases hk
    cases hc
    cases hc'
    cases ObjInstance.Exact.eq hv hv' he
    rfl
  have hfields : r.fields = r'.fields := Dict.ext (eq_of_map_eq hfield
    (fun e he => h.fields _ (List.mem_map_of_mem he))
    (fun e he => h'.fields _ (List.mem_map_of_mem he))
    (congrArg (fun r => r.fields.entries) hb))
  have happlication := AtomInstance.Exact.eq h.application h'.application
    (congrArg Envelope.application hb)
  have hemitter := AtomInstance.Exact.eq h.emitter h'.emitter (congrArg Envelope.emitter hb)
  have hevent := AtomInstance.Exact.eq h.event h'.event (congrArg Envelope.event hb)
  have hmessage := AtomInstance.Exact.eq h.message h'.message (congrArg Envelope.message hb)
  have htimestamp : r.timestamp = r'.timestamp := congrArg Envelope.timestamp hb
  obtain ⟨application, emitter, event, timestamp, fields, message⟩ := r
  obtain ⟨application', emitter', event', timestamp', fields', message'⟩ := r'
  cases happlication
  cases hemitter
  cases hevent
  cases htimestamp
  cases hfields
  cases hmessage
  rfl

/-- Records without instances of subclasses are the same if their builtin records are. -/
theorem RecordInstance.Exact.eq {r r' : RecordInstance} (h : r.Exact) (h' : r'.Exact)
    (hb : r.builtin = r'.builtin) : r = r' := by
  cases r with
  | base r ok =>
    cases r' with
    | base r' ok' => cases EnvelopeInstance.Exact.eq h h' (Record.base.inj hb); rfl
    | operational r' ok' => cases hb
    | audit r' ok' => cases hb
  | operational r ok =>
    cases r' with
    | base r' ok' => cases hb
    | operational r' ok' =>
      have hargs : r.builtin = r'.builtin :=
        congrArg OperationalRecord.toOperationalArgs (Record.operational.inj hb)
      obtain ⟨e, severity⟩ := r
      obtain ⟨e', severity'⟩ := r'
      cases EnvelopeInstance.Exact.eq h h' (congrArg OperationalArgs.toEnvelope hargs)
      cases (congrArg OperationalArgs.severity hargs : severity = severity')
      rfl
    | audit r' ok' => cases hb
  | audit r ok =>
    cases r' with
    | base r' ok' => cases hb
    | operational r' ok' => cases hb
    | audit r' ok' =>
      have hargs : r.builtin = r'.builtin :=
        congrArg AuditRecord.toAuditArgs (Record.audit.inj hb)
      obtain ⟨e, category, actor, stage, operationId, outcome⟩ := r
      obtain ⟨e', category', actor', stage', operationId', outcome'⟩ := r'
      obtain ⟨henvelope, hactor, hid⟩ := h
      obtain ⟨henvelope', hactor', hid'⟩ := h'
      cases EnvelopeInstance.Exact.eq henvelope henvelope' (congrArg AuditArgs.toEnvelope hargs)
      cases AtomInstance.Exact.eq hactor hactor' (congrArg AuditArgs.actor hargs)
      cases AtomInstance.Exact.eq hid hid' (congrArg AuditArgs.operationId hargs)
      cases (congrArg AuditArgs.category hargs : category = category')
      cases (congrArg AuditArgs.stage hargs : stage = stage')
      cases (congrArg AuditArgs.outcome hargs : outcome = outcome')
      rfl

end NmLogging
