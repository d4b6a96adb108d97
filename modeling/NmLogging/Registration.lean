import NmLogging.Events

/-!
# Registering events

Runs of `register` and `register_reserved` on one registry, with arguments of any kind. A
registry keeps its integrity (`Integrity`) over a run if and only if every argument can be
compared with the reserved namespace (`integrity_iff`): the namespace is looked at before
the type, so an object without an `event_id` is refused by `AttributeError`.
-/

namespace NmLogging

/-- What `register` may be given. An object that is no `EventSchema` is told by what `==` and
`!=` between `_first_segment` of its `event_id` and the reserved namespace come to: the
attribute, the split and the comparison may each raise. -/
inductive Registrand where
  | schema (schema : EventSchema)
  | other (eq ne : Except PyError Bool)

namespace Registrand

/-- `_first_segment(schema.event_id) == RESERVED_EVENT_NAMESPACE` -/
def eqReserved : Registrand → Except PyError Bool
  | .schema s => .ok (EventRegistry.inReservedNamespace s.eventId)
  | .other eq _ => eq

/-- `_first_segment(schema.event_id) != RESERVED_EVENT_NAMESPACE` -/
def neReserved : Registrand → Except PyError Bool
  | .schema s => .ok (!EventRegistry.inReservedNamespace s.eventId)
  | .other _ ne => ne

end Registrand

namespace EventRegistry

/-- `_insert`, and the registry it leaves. -/
def insertAny (registry : EventRegistry) : Registrand → Except PyError Unit × EventRegistry
  | .other _ _ => (.error (configurationError "only an EventSchema may be registered"), registry)
  | .schema schema =>
    match registry.insert schema with
    | .ok registry' => (.ok (), registry')
    | .error e => (.error e, registry)

/-- `register`, and the registry it leaves. -/
def registerAny (registry : EventRegistry) (x : Registrand) :
    Except PyError Unit × EventRegistry :=
  match x.eqReserved with
  | .error e => (.error e, registry)
  | .ok true =>
    (.error (configurationError
      "the nmlogging.* event namespace is reserved for the logging package"), registry)
  | .ok false => registry.insertAny x

/-- `register_reserved`, and the registry it leaves. -/
def registerReservedAny (registry : EventRegistry) (x : Registrand) :
    Except PyError Unit × EventRegistry :=
  match x.neReserved with
  | .error e => (.error e, registry)
  | .ok true =>
    (.error (configurationError
      "register_reserved accepts only the reserved nmlogging.* namespace"), registry)
  | .ok false => registry.insertAny x

/-- `get`, for any object. -/
def getAny (registry : EventRegistry) : PyObj → Except PyError EventSchema
  | .atom eventId => registry.get eventId
  | .list _ | .tuple _ => .error (schemaError "event is not a string")

/-- On a schema, `register` is the registration that the other modules use. -/
theorem registerAny_schema (registry : EventRegistry) (schema : EventSchema) :
    registry.registerAny (.schema schema) =
      match registry.register schema with
      | .ok registry' => (.ok (), registry')
      | .error e => (.error e, registry) := by
  unfold registerAny register
  cases h : inReservedNamespace schema.eventId with
  | true => simp only [Registrand.eqReserved, h]; rfl
  | false => simp only [Registrand.eqReserved, h]; rfl

/-- And so is `register_reserved`. -/
theorem registerReservedAny_schema (registry : EventRegistry) (schema : EventSchema) :
    registry.registerReservedAny (.schema schema) =
      match registry.registerReserved schema with
      | .ok registry' => (.ok (), registry')
      | .error e => (.error e, registry) := by
  unfold registerReservedAny registerReserved
  cases h : inReservedNamespace schema.eventId with
  | true => simp only [Registrand.neReserved, h]; rfl
  | false => simp only [Registrand.neReserved, h]; rfl

/-- Ids of schemas are strings, so the namespace of one is its first segment. -/
theorem inReservedNamespace_schema (schema : EventSchema) :
    ∃ s, schema.eventId = .str s ∧
      (inReservedNamespace schema.eventId = true ↔ firstSegment s = RESERVED_EVENT_NAMESPACE) := by
  obtain ⟨⟨s, hs, -⟩, -⟩ := schema.postInit_ok
  refine ⟨s, hs, ?_⟩
  rw [hs, inReservedNamespace, decide_eq_true_iff]

theorem get_of_mem {registry : EventRegistry} {s : PyStr} {schema : EventSchema}
    (h : (.str s, schema) ∈ registry.schemas.entries) :
    registry.getAny (.atom (.str s)) = .ok schema := by
  rw [getAny, get, Dict.get?_eq_some.mpr h]

theorem getAny_of_notMem {registry : EventRegistry} {x : PyObj}
    (h : ∀ s, x = .atom (.str s) → .str s ∉ registry.schemas.keys) :
    ∃ e, registry.getAny x = .error e ∧ e.cls = EventSchemaError := by
  cases x with
  | atom a =>
    cases a with
    | str s =>
      rw [getAny, get, Dict.get?_eq_none.mpr (h s rfl)]
      exact ⟨_, rfl, rfl⟩
    | none | bool b | int i | float f | other tag => exact ⟨_, rfl, rfl⟩
  | list xs | tuple xs => exact ⟨_, rfl, rfl⟩

end EventRegistry

/-! ## Calls -/

/-- A call that registers. -/
inductive Registering where
  | register (x : Registrand)
  | registerReserved (x : Registrand)

namespace Registering

def arg : Registering → Registrand
  | .register x | .registerReserved x => x

def run (registry : EventRegistry) : Registering → Except PyError Unit × EventRegistry
  | .register x => registry.registerAny x
  | .registerReserved x => registry.registerReservedAny x

/-- The namespaces that a call takes schemas of. -/
def Takes : Registering → PyStr → Prop
  | .register _, s => firstSegment s ≠ RESERVED_EVENT_NAMESPACE
  | .registerReserved _, s => firstSegment s = RESERVED_EVENT_NAMESPACE

/-- The comparison that a call begins with. -/
def compared : Registering → Except PyError Bool
  | .register x => x.eqReserved
  | .registerReserved x => x.neReserved

/-- The argument can be compared with the reserved namespace, or cannot be by
`LoggingConfigurationError`. -/
def Comparable (c : Registering) : Prop :=
  ∀ e, c.compared = .error e → e.isA .loggingConfigurationError

/-- A call adds the schema that it is given under its id, after the entries there are, or it is
refused with `LoggingConfigurationError` and nothing changes. -/
inductive Settles (c : Registering) (registry : EventRegistry) :
    Except PyError Unit × EventRegistry → Prop
  | added {schema : EventSchema} {s : PyStr} {registry' : EventRegistry}
      (arg : c.arg = .schema schema) (id : schema.eventId = .str s) (takes : c.Takes s)
      (fresh : .str s ∉ registry.schemas.keys)
      (entries : registry'.schemas.entries = registry.schemas.entries ++ [(.str s, schema)]) :
      Settles c registry (.ok (), registry')
  | refused {e : PyError} (he : e.isA .loggingConfigurationError) :
      Settles c registry (.error e, registry)

variable {c : Registering} {registry : EventRegistry}

/-- `_insert` settles a call whose namespace is right. -/
theorem insertAny_settles
    (htakes : ∀ schema s, c.arg = .schema schema → schema.eventId = .str s → c.Takes s) :
    c.Settles registry (registry.insertAny c.arg) := by
  cases harg : c.arg with
  | other eq ne => exact .refused (by decide)
  | schema schema =>
    obtain ⟨s, hs, -⟩ := EventRegistry.inReservedNamespace_schema schema
    rw [EventRegistry.insertAny, EventRegistry.insert]
    by_cases hkey : schema.eventId ∈ registry.schemas.keys
    · rw [dif_pos hkey]
      exact .refused (by decide)
    · rw [dif_neg hkey]
      refine .added harg hs (htakes schema s harg hs) (hs ▸ hkey) ?_
      rw [← hs]
      exact Dict.entries_set_of_notMem hkey schema

/-- Where the comparison raises, so does the call. -/
theorem run_of_compared_error {e : PyError} (h : c.compared = .error e) :
    c.run registry = (.error e, registry) := by
  cases c with
  | register x => rw [run, EventRegistry.registerAny, show x.eqReserved = .error e from h]
  | registerReserved x =>
    rw [run, EventRegistry.registerReservedAny, show x.neReserved = .error e from h]

/-- A call settles if and only if its argument can be compared. -/
theorem run_settles_iff : c.Settles registry (c.run registry) ↔ c.Comparable := by
  cases hcmp : c.compared with
  | error e =>
    rw [run_of_compared_error hcmp]
    refine ⟨fun h e' he' => ?_, fun h => .refused (h e hcmp)⟩
    rw [hcmp] at he'
    cases he'
    cases h with
    | refused he => exact he
  | ok b =>
    refine ⟨fun _ e he => (by rw [hcmp] at he; cases he), fun _ => ?_⟩
    cases c with
    | register x =>
      have hcmp : x.eqReserved = .ok b := hcmp
      rw [run, EventRegistry.registerAny, hcmp]
      cases b with
      | true => exact .refused (by decide)
      | false =>
        refine insertAny_settles (c := .register x) fun schema s harg hs => ?_
        obtain ⟨s', hs', hns⟩ := EventRegistry.inReservedNamespace_schema schema
        rw [show x = .schema schema from harg] at hcmp
        cases hs.symm.trans hs'
        have hfree : EventRegistry.inReservedNamespace schema.eventId = false := Except.ok.inj hcmp
        exact fun h => absurd (hns.mpr h) (by rw [hfree]; decide)
    | registerReserved x =>
      have hcmp : x.neReserved = .ok b := hcmp
      rw [run, EventRegistry.registerReservedAny, hcmp]
      cases b with
      | true => exact .refused (by decide)
      | false =>
        refine insertAny_settles (c := .registerReserved x) fun schema s harg hs => ?_
        obtain ⟨s', hs', hns⟩ := EventRegistry.inReservedNamespace_schema schema
        rw [show x = .schema schema from harg] at hcmp
        cases hs.symm.trans hs'
        exact hns.mp (by simpa using Except.ok.inj hcmp)

/-! ## Runs -/

/-- The registry after calls made one after the other on a new one. -/
def after (cs : List Registering) : EventRegistry :=
  cs.foldl (fun registry c => (c.run registry).2) .empty

theorem after_concat (cs : List Registering) (c : Registering) :
    after (cs ++ [c]) = (c.run (after cs)).2 := by
  rw [after, List.foldl_append]
  rfl

/-- What a call leaves, settled or not. -/
theorem entries_run (c : Registering) (registry : EventRegistry) :
    (c.run registry).2 = registry ∨ ∃ schema s, c.arg = .schema schema ∧
      schema.eventId = .str s ∧ c.Takes s ∧
      (c.run registry).2.schemas.entries = registry.schemas.entries ++ [(.str s, schema)] := by
  by_cases hcmp : c.Comparable
  · have h : c.Settles registry (c.run registry) := run_settles_iff.mpr hcmp
    generalize c.run registry = r at h ⊢
    cases h with
    | added harg hid htakes _ hentries => exact .inr ⟨_, _, harg, hid, htakes, hentries⟩
    | refused _ => exact .inl rfl
  · simp only [Comparable, not_forall] at hcmp
    obtain ⟨e, herror, -⟩ := hcmp
    rw [run_of_compared_error herror]
    exact .inl rfl

/-- A registry keeps its integrity over a run: every call settles; an entry is under the id of
its schema, which a call that takes its namespace was given; ids are unique; and `get` finds
what is registered, and refuses everything else. -/
structure Integrity (cs : List Registering) : Prop where
  settles : ∀ done c rest, cs = done ++ c :: rest → c.Settles (after done) (c.run (after done))
  namespaced : ∀ id schema, (id, schema) ∈ (after cs).schemas.entries →
    ∃ s, id = .str s ∧ schema.eventId = .str s ∧
      ∃ c ∈ cs, c.arg = .schema schema ∧ c.Takes s
  unique : (after cs).schemas.keys.Nodup
  found : ∀ id schema, (id, schema) ∈ (after cs).schemas.entries →
    (after cs).getAny (.atom id) = .ok schema
  missed : ∀ x, (∀ s, x = .atom (.str s) → .str s ∉ (after cs).schemas.keys) →
    ∃ e, (after cs).getAny x = .error e ∧ e.cls = EventSchemaError

/-- Every entry was registered by a call that takes its namespace. -/
theorem namespaced_after (cs : List Registering) :
    ∀ id schema, (id, schema) ∈ (after cs).schemas.entries →
      ∃ s, id = .str s ∧ schema.eventId = .str s ∧
        ∃ c ∈ cs, c.arg = .schema schema ∧ c.Takes s := by
  induction cs using List.reverseRecOn with
  | nil => exact fun _ _ h => (by cases h)
  | append_singleton cs c ih =>
    intro id schema h
    have hold : (id, schema) ∈ (after cs).schemas.entries →
        ∃ s, id = .str s ∧ schema.eventId = .str s ∧
          ∃ c' ∈ cs ++ [c], c'.arg = .schema schema ∧ c'.Takes s := by
      intro h
      obtain ⟨s, hid, hs, c', hc', hgiven⟩ := ih id schema h
      exact ⟨s, hid, hs, c', List.mem_append_left _ hc', hgiven⟩
    rw [after_concat] at h
    rcases entries_run c (after cs) with hsame | ⟨new, s, harg, hid, htakes, hentries⟩
    · rw [hsame] at h
      exact hold h
    · rw [hentries] at h
      rcases List.mem_append.mp h with h | h
      · exact hold h
      · cases List.mem_singleton.mp h
        exact ⟨s, rfl, hid, c, List.mem_append_right _ (List.mem_singleton.mpr rfl), harg, htakes⟩

/-- A registry keeps its integrity over a run if and only if every argument of the run can be
compared with the reserved namespace. -/
theorem integrity_iff (cs : List Registering) : Integrity cs ↔ ∀ c ∈ cs, c.Comparable := by
  constructor
  · intro h c hc
    obtain ⟨done, rest, rfl⟩ := List.append_of_mem hc
    exact run_settles_iff.mp (h.settles done c rest rfl)
  · intro h
    exact {
      settles := fun done c rest hcs => run_settles_iff.mpr (h c (by rw [hcs]; simp))
      namespaced := namespaced_after cs
      unique := (after cs).schemas.nodup
      found := fun id schema hentry => by
        obtain ⟨s, rfl, -⟩ := namespaced_after cs id schema hentry
        exact EventRegistry.get_of_mem hentry
      missed := fun x hx => EventRegistry.getAny_of_notMem hx }

/-- `object()` has no `event_id`. -/
def bareObject : Registrand :=
  let e : PyError := ⟨AttributeError, lit "'object' object has no attribute 'event_id'"⟩
  .other (.error e) (.error e)

/-- A call with it is refused by an `AttributeError`. -/
theorem not_integrity : ¬Integrity [.register bareObject] := by
  intro h
  cases h.settles [] (.register bareObject) [] rfl with
  | refused he => exact absurd he (by decide)

end Registering

end NmLogging
