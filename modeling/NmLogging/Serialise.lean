import NmLogging.Framework.Framing
import NmLogging.Framework.JsonPrefix
import NmLogging.Record

/-!
# Serialisation

`to_mapping` of `serialise.py` and `encode` of `sinks/jsonl.py`. Every record
serialises (`toMapping_eq`): the names its constructor accepted cannot displace
the envelope. The text of a record is one line of JSON that reads back as the
mapping it was made from (`encode_ok`, `loads_encode`).
-/

namespace NmLogging

/-! ## to_mapping -/

/-- A key of the package's own. -/
def key (s : String) : PyAtom := .str (lit s)

/-- The common envelope. -/
def envelopeEntries (r : Envelope) : List (PyAtom × PyObj) :=
  [(key "schema_version", .atom (.int SCHEMA_VERSION)),
    (key "timestamp", .atom (.str r.timestamp.isoformat)),
    (key "application", .atom r.application),
    (key "emitter", .atom r.emitter),
    (key "event", .atom r.event)]

/-- The keys of the record's kind. A field with no value is absent. -/
def kindEntries : Record → List (PyAtom × PyObj)
  | .base _ _ => []
  | .operational r => [(key "severity", .atom (.str r.severity.value))]
  | .audit r =>
    [(key "category", .atom (.str r.category.value)), (key "actor", .atom r.actor),
      (key "stage", .atom (.str r.stage.value))] ++
    (if r.operationId = .none then [] else [(key "operation_id", .atom r.operationId)]) ++
    (match r.outcome with
      | none => []
      | some o => [(key "outcome", .atom (.str o.value))])

/-- The event fields, none of which may displace the envelope. -/
def placeFields {ν : Type} (m : Dict PyAtom ν) : List (PyAtom × ν) → Except PyError (Dict PyAtom ν)
  | [] => .ok m
  | (name, value) :: es =>
    if isReserved name then
      .error (schemaError "event field name collides with a reserved envelope field")
    else placeFields (m.set name value) es

/-- The controlled message, last. -/
def messageEntries (r : Envelope) : List (PyAtom × PyObj) :=
  if r.message = .none then [] else [(key "message", .atom r.message)]

/-- `to_mapping`. -/
def toMapping (r : Record) : Except PyError (Dict PyAtom PyObj) := do
  let m ← placeFields ((Dict.empty.setAll (envelopeEntries r.envelope)).setAll (kindEntries r))
    r.envelope.fields.entries
  return m.setAll (messageEntries r.envelope)

/-- What `to_mapping` holds, in its order. -/
def mappingEntries (r : Record) : List (PyAtom × PyObj) :=
  envelopeEntries r.envelope ++ kindEntries r ++ r.envelope.fields.entries ++
    messageEntries r.envelope

theorem placeFields_eq {ν : Type} {m : Dict PyAtom ν} {es : List (PyAtom × ν)}
    (h : ∀ k ∈ es.map Prod.fst, isReserved k = false) : placeFields m es = .ok (m.setAll es) := by
  induction es generalizing m with
  | nil => rfl
  | cons e es ih =>
    have he := h e.1 (by simp)
    rw [placeFields, if_neg (by simp [he]), ih fun k hk => h k (List.mem_cons_of_mem _ hk)]
    rfl

/-- The keys of the package's own, in a record of any class. -/
theorem kindEntries_keys (r : Record) :
    ((kindEntries r).map Prod.fst).Sublist
      [key "severity", key "category", key "actor", key "stage", key "operation_id",
        key "outcome"] := by
  cases r with
  | base r ok => exact List.nil_sublist _
  | operational r => exact .cons_cons _ (List.nil_sublist _)
  | audit r =>
    have h₁ : (List.map Prod.fst (if r.operationId = .none then [] else
        [(key "operation_id", PyObj.atom r.operationId)])).Sublist [key "operation_id"] := by
      split
      · exact List.nil_sublist _
      · exact List.Sublist.refl _
    have h₂ : (List.map Prod.fst (match r.outcome with
        | none => []
        | some o => [(key "outcome", PyObj.atom (.str o.value))])).Sublist [key "outcome"] := by
      split
      · exact List.nil_sublist _
      · exact List.Sublist.refl _
    simp only [kindEntries, List.map_append, List.map_cons, List.cons_append,
      List.nil_append]
    exact .cons _ (.cons_cons _ (.cons_cons _ (.cons_cons _ (h₁.append h₂))))

/-- The keys of a mapping are distinct. -/
theorem mappingEntries_nodup (r : Record) : ((mappingEntries r).map Prod.fst).Nodup := by
  have hmsg : ((messageEntries r.envelope).map Prod.fst).Sublist [key "message"] := by
    unfold messageEntries
    split
    · exact List.nil_sublist _
    · exact List.Sublist.refl _
  have hown : ((envelopeEntries r.envelope).map Prod.fst ++
      (kindEntries r).map Prod.fst).Sublist (RESERVED_FIELD_NAMES.dropLast.map PyAtom.str) :=
    List.Sublist.append (List.Sublist.refl _) (kindEntries_keys r)
  have hres : ∀ k, k ∈ RESERVED_FIELD_NAMES.map PyAtom.str → isReserved k = true := by decide
  have hfree : ∀ k ∈ r.envelope.fields.entries.map Prod.fst, isReserved k = false :=
    r.valid.names
  simp only [mappingEntries, List.map_append]
  refine List.nodup_append.mpr ⟨List.nodup_append.mpr ⟨?_, r.envelope.fields.nodup, ?_⟩, ?_, ?_⟩
  · exact hown.nodup (by decide)
  · rintro a ha b hb rfl
    have := hres a ((List.dropLast_sublist _).map _ |>.subset (hown.subset ha))
    rw [hfree a hb] at this
    cases this
  · exact hmsg.nodup (by decide)
  · rintro a ha b hb rfl
    have hb' : a = key "message" := by simpa using hmsg.subset hb
    subst hb'
    rcases List.mem_append.mp ha with ha | ha
    · have := hown.subset ha
      revert this
      decide
    · have := hfree _ ha
      revert this
      decide

/-- Every record serialises, to its entries. -/
theorem toMapping_eq (r : Record) : ∃ m, toMapping r = .ok m ∧ m.entries = mappingEntries r := by
  refine ⟨Dict.empty.setAll (mappingEntries r), ?_,
    Dict.entries_setAll (by simpa using mappingEntries_nodup r)⟩
  simp only [toMapping, placeFields_eq r.valid.names, mappingEntries, Dict.setAll_append]
  rfl

/-! ## encode -/

variable [PyRuntime]

/-- `encode`: the one-line JSON text of a record. -/
def encode (r : Record) : Except PyError PyStr := toMapping r >>= dumps

/-- The JSON members that the mapping of a record is written as. -/
def recordJson (r : Record) : Except PyError (List (PyStr × Json.Value PyFloat)) :=
  (mappingEntries r).mapM memberJson

theorem encode_eq (r : Record) :
    encode r = (recordJson r).map fun kvs => Json.render PyRuntime.floatRepr (.obj kvs) := by
  obtain ⟨m, hm, he⟩ := toMapping_eq r
  simp only [encode, hm, bind, Except.bind, dumps, mappingJson, he, recordJson]

theorem encode_ok {r : Record} {s : PyStr} :
    encode r = .ok s ↔
      ∃ kvs, recordJson r = .ok kvs ∧ s = Json.render PyRuntime.floatRepr (.obj kvs) := by
  rw [encode_eq]
  cases recordJson r <;> simp [Except.map, eq_comm]

/-- The text of a record is one line. -/
theorem newline_notMem_encode {r : Record} {s : PyStr} (h : encode r = .ok s) : 10 ∉ s := by
  obtain ⟨kvs, hk, rfl⟩ := encode_ok.mp h
  intro hm
  simp only [Json.render, List.mem_cons, List.mem_append, List.not_mem_nil, or_false] at hm
  rcases hm with hm | hm | hm
  · exact absurd hm (by decide)
  · have := Json.le_of_mem_renderMembers (fun e he c hc => (fits_of_mapM hk e he).le_of_mem hc) hm
    omega
  · exact absurd hm (by decide)

/-- The text of a record reads back as an object, after any white space. -/
theorem loads_encode {r : Record} {s w : PyStr} {kvs : List (PyStr × Json.Value PyFloat)}
    (h : encode r = .ok s) (hk : recordJson r = .ok kvs) (hw : ∀ c ∈ w, Json.isWs c = true) :
    loads (w ++ s) = .ok (.obj (Json.assignAll [] kvs)) := by
  obtain ⟨kvs', hk', rfl⟩ := encode_ok.mp h
  cases hk.symm.trans hk'
  exact Json.loads_members (fits_of_mapM hk) PyRuntime.two_le_jsonDepth hw

/-- The text of a record starts with its first key. -/
theorem head_encode {r : Record} {kvs : List (PyStr × Json.Value PyFloat)}
    (hk : recordJson r = .ok kvs) : ∃ t, Json.render PyRuntime.floatRepr (.obj kvs) =
      0x7b :: 0x22 :: 0x73 :: t := by
  have hlit : lit "schema_version" = 0x73 :: lit "chema_version" := by decide
  have hkvs : ∃ v kvs', kvs = (0x73 :: lit "chema_version", v) :: kvs' := by
    simp only [recordJson, mappingEntries, envelopeEntries, List.cons_append, List.mapM_cons,
      bind_eq_ok] at hk
    obtain ⟨kv, hkv, kvs', -, e⟩ := hk
    cases e
    obtain ⟨h, -⟩ := memberJson_ok.mp hkv
    simp only [key, keyText, Except.ok.injEq, hlit] at h
    exact ⟨kv.2, kvs', by rw [h]⟩
  obtain ⟨v, kvs', rfl⟩ := hkvs
  have hquote : Json.quote (0x73 :: lit "chema_version") =
      0x22 :: 0x73 :: ((lit "chema_version").flatMap Json.escapeChar ++ [0x22]) := rfl
  cases kvs' with
  | nil => simp only [Json.render, Json.renderMembers, hquote, List.cons_append]; exact ⟨_, rfl⟩
  | cons e es => simp only [Json.render, Json.renderMembers, hquote, List.cons_append]; exact ⟨_, rfl⟩

/-- It reads back as an object after white space only. -/
theorem isWs_of_loads_encode {r : Record} {s w : PyStr} {v : Json.Value PyFloat}
    (h : encode r = .ok s) (hl : loads (w ++ s) = .ok v) : ∀ c ∈ w, Json.isWs c = true := by
  obtain ⟨kvs, hk, rfl⟩ := encode_ok.mp h
  obtain ⟨t, ht⟩ := head_encode hk
  exact Json.isWs_of_loads_members (fits_of_mapM hk) ht rfl (by decide) hl

/-! ## What encode raises -/

/-- A scalar that the encoder refuses only for the number of its digits. -/
def JsonScalar : PyAtom → Prop
  | .float f => f.isFinite = true
  | .other _ => False
  | _ => True

omit [PyRuntime] in
theorem PyAtom.toJson_error {a : PyAtom} {e : PyError} (ha : JsonScalar a)
    (h : a.toJson = .error e) : (∃ i, a = .int i ∧ overlong i = true) ∧ e.cls = ValueError := by
  cases a with
  | int i =>
    obtain ⟨hi, hcls⟩ := intStr_error (map_eq_error.mp h)
    exact ⟨⟨i, rfl, hi⟩, hcls⟩
  | float f =>
    have hf : f.isFinite = true := ha
    rw [PyAtom.toJson, if_pos hf] at h
    cases h
  | other t => exact absurd ha id
  | _ => cases h

omit [PyRuntime] in
theorem PyObj.toJson_error {x : PyObj} {e : PyError} (hx : ∀ a ∈ x.atoms, JsonScalar a)
    (h : x.toJson = .error e) : (∃ i, .int i ∈ x.atoms ∧ overlong i = true) ∧ e.cls = ValueError := by
  have elem : (∃ a ∈ x.atoms, a.toJson = .error e) := by
    cases x with
    | atom a => exact ⟨a, List.mem_singleton_self a, h⟩
    | list xs => exact exists_of_mapM_eq_error (map_eq_error.mp h)
    | tuple xs => exact exists_of_mapM_eq_error (map_eq_error.mp h)
  obtain ⟨a, ha, h⟩ := elem
  obtain ⟨⟨i, rfl, hi⟩, hcls⟩ := PyAtom.toJson_error (hx a ha) h
  exact ⟨⟨i, ha, hi⟩, hcls⟩

omit [PyRuntime] in
/-- An integer with too many digits has no JSON text. -/
theorem PyObj.exists_toJson_error {x : PyObj} {i : Int} (hi : .int i ∈ x.atoms)
    (ho : overlong i = true) : ∃ e, x.toJson = .error e := by
  have hint : ∃ e, (PyAtom.int i).toJson = .error e := by
    simp only [PyAtom.toJson, intStr, ho, if_true, Except.map]
    exact ⟨_, rfl⟩
  obtain ⟨e, he⟩ := hint
  have elems : ∀ {xs : List PyAtom}, .int i ∈ xs →
      ∃ e, (xs.mapM PyAtom.toJson).map Json.Value.arr = .error e := by
    intro xs hi
    cases hm : xs.mapM PyAtom.toJson with
    | error e => exact ⟨e, rfl⟩
    | ok vs =>
      obtain ⟨v, -, hv⟩ := exists_of_mapM_eq_ok hm hi
      rw [he] at hv
      cases hv
  cases x with
  | atom a => rw [List.mem_singleton.mp hi] at he; exact ⟨e, he⟩
  | list xs => exact elems hi
  | tuple xs => exact elems hi

/-- A record whose fields have string names and scalars that JSON has. -/
structure Envelope.JsonFields (r : Envelope) : Prop where
  names : ∀ k ∈ r.fields.keys, k.isStr = true
  scalars : ∀ v ∈ r.fields.values, ∀ a ∈ v.atoms, JsonScalar a

omit [PyRuntime] in
/-- The members of the mapping of a record that are not its fields have string keys and a
short integer or a string for their value. -/
theorem mappingEntries_cases {r : Record} {e : PyAtom × PyObj} (he : e ∈ mappingEntries r) :
    e ∈ r.envelope.fields.entries ∨
      (∃ s, e.1 = .str s) ∧ (e.2 = .atom (.int SCHEMA_VERSION) ∨ ∃ s, e.2 = .atom (.str s)) := by
  have hv := r.valid
  simp only [mappingEntries, List.mem_append] at he
  rcases he with ((he | he) | he) | he
  · obtain ⟨app, happ, -⟩ := hv.application
    obtain ⟨em, -, hem⟩ := hv.emitter
    obtain ⟨ev, hev, -⟩ := hv.event
    simp only [envelopeEntries, happ, hem, hev, List.mem_cons, List.not_mem_nil, or_false] at he
    rcases he with rfl | rfl | rfl | rfl | rfl <;> exact .inr ⟨⟨_, rfl⟩, by simp⟩
  · cases r with
    | base r ok => cases he
    | operational r =>
      rw [List.mem_singleton.mp he]
      exact .inr ⟨⟨_, rfl⟩, .inr ⟨_, rfl⟩⟩
    | audit r =>
      have ha := AuditArgs.postInit_ok.mp r.ok
      obtain ⟨actor, hactor, -⟩ := ha.actor
      have hid := ha.operationId
      simp only [kindEntries, hactor, List.mem_append, List.mem_cons, List.not_mem_nil, or_false]
        at he
      rcases he with ((rfl | rfl | rfl) | he) | he
      · exact .inr ⟨⟨_, rfl⟩, .inr ⟨_, rfl⟩⟩
      · exact .inr ⟨⟨_, rfl⟩, .inr ⟨_, rfl⟩⟩
      · exact .inr ⟨⟨_, rfl⟩, .inr ⟨_, rfl⟩⟩
      · split at he
        · cases he
        · rename_i hne
          rw [List.mem_singleton.mp he]
          simp only [validateOperationId, check_eq_ok, require_eq_ok] at hid
          obtain ⟨-, -, hid⟩ := hid
          cases ho : r.operationId with
          | str s => exact .inr ⟨⟨_, rfl⟩, .inr ⟨_, rfl⟩⟩
          | none => exact absurd ho hne
          | _ => simp [ho] at hid
      · split at he
        · cases he
        · rw [List.mem_singleton.mp he]
          exact .inr ⟨⟨_, rfl⟩, .inr ⟨_, rfl⟩⟩
  · exact .inl he
  · unfold messageEntries at he
    split at he
    · cases he
    · rename_i hne
      rw [List.mem_singleton.mp he]
      rcases hv.message with h | ⟨s, h⟩
      · exact absurd h hne
      · exact .inr ⟨⟨_, rfl⟩, .inr ⟨s, by rw [h]⟩⟩

theorem recordJson_eq_error {r : Record} {e : PyError} :
    encode r = .error e ↔ (mappingEntries r).mapM memberJson = .error e := by
  rw [encode_eq, map_eq_error, recordJson]

/-- Encoding fails on an integer with too many digits, -/
theorem encode_error {r : Record} (hr : r.envelope.JsonFields) {e : PyError}
    (h : encode r = .error e) : HasOverlong r.envelope.fields.values ∧ e.cls = ValueError := by
  obtain ⟨⟨k, v⟩, hm, h⟩ := exists_of_mapM_eq_error (recordJson_eq_error.mp h)
  have hscalar : ∀ {k : PyAtom}, k.isStr = true → memberJson (k, v) = .error e →
      v.toJson = .error e := by
    intro k hk h
    rcases bind_eq_error.mp h with h | ⟨_, -, h⟩
    · cases k <;> simp only [PyAtom.isStr, Bool.false_eq_true] at hk
      cases h
    · rcases bind_eq_error.mp h with h | ⟨_, -, h⟩
      · exact h
      · cases h
  rcases mappingEntries_cases hm with hm | ⟨⟨s, rfl⟩, hv⟩
  · have hvm : v ∈ r.envelope.fields.values := List.mem_map_of_mem hm
    obtain ⟨⟨i, hi⟩, hcls⟩ := PyObj.toJson_error (hr.scalars v hvm)
      (hscalar (hr.names k (List.mem_map_of_mem hm)) h)
    exact ⟨⟨v, hvm, i, hi⟩, hcls⟩
  · have := hscalar rfl h
    rcases hv with rfl | ⟨t, rfl⟩
    · have hshort : overlong SCHEMA_VERSION = false := by decide
      simp [PyObj.toJson, PyAtom.toJson, intStr, hshort, Except.map] at this
    · cases this

/-- and always on one. -/
theorem exists_encode_error {r : Record} (h : HasOverlong r.envelope.fields.values) :
    ∃ e, encode r = .error e := by
  obtain ⟨v, hv, i, hi, ho⟩ := h
  obtain ⟨⟨k, v⟩, hm, rfl⟩ := List.mem_map.mp hv
  obtain ⟨e, he⟩ := PyObj.exists_toJson_error hi ho
  cases hj : (mappingEntries r).mapM memberJson with
  | error e => exact ⟨e, recordJson_eq_error.mpr hj⟩
  | ok kvs =>
    obtain ⟨kv, -, hkv⟩ := exists_of_mapM_eq_ok hj (show (k, v) ∈ mappingEntries r by
      simp only [mappingEntries, List.mem_append]; exact .inl (.inr hm))
    obtain ⟨-, hval⟩ := memberJson_ok.mp hkv
    rw [he] at hval
    cases hval

/-! ## What encode takes -/

/-- An object that the encoder writes, as a value or as a key. -/
def PyAtom.Encodable : PyAtom → Prop
  | .int i => overlong i = false
  | .float f => f.isFinite = true
  | .other _ => False
  | _ => True

/-- What the encoder raises. -/
def EncodingError (e : PyError) : Prop := e.cls = ValueError ∨ e.cls = TypeError

omit [PyRuntime] in
theorem decides_intStr (i : Int) : Decides (intStr i) (overlong i = false) EncodingError := by
  unfold intStr
  cases h : overlong i with
  | true => exact (Decides.error (.inl rfl)).congr (by simp)
  | false => exact (Decides.ok _).congr (by simp)

omit [PyRuntime] in
theorem PyAtom.decides_toJson (a : PyAtom) : Decides a.toJson a.Encodable EncodingError := by
  cases a with
  | int i => exact (decides_intStr i).map _
  | float f => exact .ite _ (.inl rfl)
  | other t => exact .error (.inr rfl)
  | none => exact .ok _
  | bool b => exact .ok _
  | str s => exact .ok _

omit [PyRuntime] in
theorem PyObj.decides_toJson (x : PyObj) :
    Decides x.toJson (∀ a ∈ x.atoms, a.Encodable) EncodingError := by
  cases x with
  | atom a => exact a.decides_toJson.congr (by simp [atoms])
  | list xs => exact (Decides.mapM fun a _ => a.decides_toJson).map _
  | tuple xs => exact (Decides.mapM fun a _ => a.decides_toJson).map _

theorem decides_keyText (k : PyAtom) : Decides (keyText k) k.Encodable EncodingError := by
  cases k with
  | int i => exact decides_intStr i
  | float f => exact .ite _ (.inl rfl)
  | other t => exact .error (.inr rfl)
  | none => exact .ok _
  | bool b => exact .ok _
  | str s => exact .ok _

theorem decides_memberJson (e : PyAtom × PyObj) :
    Decides (memberJson e) (e.1.Encodable ∧ ∀ a ∈ e.2.atoms, a.Encodable) EncodingError :=
  ((decides_keyText e.1).bind fun k => e.2.decides_toJson.bind fun v => .ok (k, v)).congr
    (by simp)

/-- A record whose fields the encoder takes. -/
structure Envelope.Encodable (r : Envelope) : Prop where
  names : ∀ k ∈ r.fields.keys, k.Encodable
  scalars : ∀ v ∈ r.fields.values, ∀ a ∈ v.atoms, a.Encodable

/-- Nothing but a record's fields makes `encode` raise. -/
theorem decides_encode (r : Record) : Decides (encode r) r.envelope.Encodable EncodingError := by
  rw [encode_eq]
  refine ((Decides.mapM fun e _ => decides_memberJson e).congr ?_).map _
  constructor
  · intro h
    have hfield : ∀ e ∈ r.envelope.fields.entries, e ∈ mappingEntries r := by
      intro e he
      simp only [mappingEntries, List.mem_append]
      exact .inl (.inr he)
    constructor
    · intro k hk
      obtain ⟨e, he, rfl⟩ := List.mem_map.mp hk
      exact (h e (hfield e he)).1
    · intro v hv
      obtain ⟨e, he, rfl⟩ := List.mem_map.mp hv
      exact (h e (hfield e he)).2
  · intro h e he
    rcases mappingEntries_cases he with he | ⟨⟨s, hk⟩, hv⟩
    · exact ⟨h.names _ (List.mem_map_of_mem he), h.scalars _ (List.mem_map_of_mem he)⟩
    · have hshort : overlong SCHEMA_VERSION = false := by decide
      rw [hk]
      rcases hv with hv | ⟨t, hv⟩ <;> rw [hv] <;> simp [PyAtom.Encodable, PyObj.atoms, hshort]

end NmLogging
