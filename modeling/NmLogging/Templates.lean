import NmLogging.Events
import NmLogging.Framework.FormatGrammar

/-!
# Message templates

What a schema accepts for its template, and what it renders. A template that is accepted is a
format string whose placeholders are plain names of required fields (`plainTemplate_iff`), and
rendering puts the texts of the fields in their places (`renderMessage_expand`). A string that
is no format string is refused with the `ValueError` of the parser, if every placeholder before
the fault is one that could stand there (`template_oneError_iff`).
-/

namespace NmLogging

/-! ## What is accepted -/

/-- A placeholder that a template may have: the plain name of a required field. -/
structure PlainField (schema : EventSchemaArgs) (f : FormatField) : Prop where
  required : .str f.name ∈ schema.templateNames
  conversion : f.conversion = none
  spec : f.spec = []

/-- A format string whose placeholders are plain names of required fields. -/
def PlainTemplate (schema : EventSchemaArgs) (t : PyStr) : Prop :=
  ∃ ps, Template t ps ∧ ∀ f ∈ Piece.fields ps, PlainField schema f

/-- The name of a field is not empty and has letters, digits and underscores only. -/
theorem FieldSpec.name_chars (spec : FieldSpec) {s : PyStr} (h : spec.name = .str s) :
    s ≠ [] ∧ ∀ c ∈ s, isLower c = true ∨ isDigit c = true ∨ c = 0x5f := by
  have hok := spec.ok
  simp only [FieldSpecArgs.postInit, check_eq_ok, require_eq_ok, h] at hok
  have hm := Regex.fullmatch_iff.mp hok.1
  obtain ⟨_, ⟨c, hc, rfl⟩, t, ⟨k, -, ht⟩, rfl⟩ := hm
  refine ⟨List.cons_ne_nil _ _, List.forall_mem_cons.mpr ⟨.inl hc, ?_⟩⟩
  show ∀ x ∈ t, isLower x = true ∨ isDigit x = true ∨ x = 0x5f
  clear hok h
  induction k generalizing t with
  | zero =>
    rw [pow_zero, Language.mem_one] at ht
    rw [ht]
    exact List.forall_mem_nil _
  | succ k ih =>
    obtain ⟨_, ⟨d, hd, rfl⟩, u, hu, rfl⟩ := Regex.mem_pow_succ.mp ht
    have hd : isLower d = true ∨ isDigit d = true ∨ d = 0x5f := by simpa [or_assoc] using hd
    exact List.forall_mem_cons.mpr ⟨hd, ih u hu⟩

variable {schema : EventSchemaArgs}

/-- The checks of a placeholder accept the plain names of required fields. -/
theorem checkPlaceholder_ok {f : FormatField} :
    schema.checkPlaceholder f = .ok () ↔ PlainField schema f := by
  simp only [EventSchemaArgs.checkPlaceholder, check_eq_ok, require_eq_ok, decide_eq_true_eq,
    Option.isNone_iff_eq_none, Bool.not_eq_true', Bool.or_eq_false_iff, decide_eq_false_iff_not]
  constructor
  · rintro ⟨-, -, hconv, hspec, hreq⟩
    exact ⟨hreq, hconv, hspec⟩
  · intro h
    obtain ⟨spec, -, hname⟩ := List.mem_map.mp h.required
    obtain ⟨hne, hchars⟩ := spec.name_chars hname
    refine ⟨hne, ⟨fun hm => ?_, fun hm => ?_⟩, h.conversion, h.spec, h.required⟩
    · rcases hchars _ hm with hc | hc | hc <;> exact absurd hc (by decide)
    · rcases hchars _ hm with hc | hc | hc <;> exact absurd hc (by decide)

theorem checkPlaceholder_error {f : FormatField} {e : PyError}
    (h : schema.checkPlaceholder f = .error e) : e.cls = LoggingConfigurationError := by
  simp only [EventSchemaArgs.checkPlaceholder, bind_eq_error, require_eq_error] at h
  rcases h with ⟨-, rfl⟩ | ⟨-, -, ⟨-, rfl⟩ | ⟨-, -, ⟨-, rfl⟩ | ⟨-, -, ⟨-, rfl⟩ | ⟨-, -, -, rfl⟩⟩⟩⟩ <;>
    rfl

/-- The placeholders of a string up to its end, or up to what makes it no format string. -/
def placeholders (t : PyStr) : List FormatField := (formatParse t).1.filterMap FormatItem.field

theorem placeholders_of_template {t : PyStr} {ps : List Piece} (h : Template t ps) :
    placeholders t = Piece.fields ps := by
  rw [placeholders, ← fields_pieces, (formatParse_iff.mp h).2]

theorem exists_template_iff {t : PyStr} : (∃ ps, Template t ps) ↔ (formatParse t).2 = true :=
  ⟨fun ⟨_, h⟩ => (formatParse_iff.mp h).1, fun h => ⟨_, formatParse_iff.mpr ⟨h, rfl⟩⟩⟩

/-- A template is accepted if it is plain. -/
theorem plainTemplate_iff {t : PyStr} (ht : schema.messageTemplate = .str t) :
    schema.validateMessageTemplate = .ok () ↔ PlainTemplate schema t := by
  have hall : ((placeholders t).forM schema.checkPlaceholder = .ok ()) ↔
      ∀ f ∈ placeholders t, PlainField schema f := by
    rw [forM_eq_ok]
    exact forall₂_congr fun f _ => checkPlaceholder_ok
  rw [EventSchemaArgs.validateMessageTemplate, ht]
  show ((placeholders t).forM schema.checkPlaceholder >>= fun _ => _) = _ ↔ _
  rw [check_eq_ok, require_eq_ok, hall, ← exists_template_iff]
  constructor
  · rintro ⟨hf, ps, hps⟩
    exact ⟨ps, hps, placeholders_of_template hps ▸ hf⟩
  · rintro ⟨ps, hps, hf⟩
    exact ⟨placeholders_of_template hps ▸ hf, ps, hps⟩

/-- A template that is refused for what is no format string behind plain placeholders is refused
with a `ValueError`, and any other with a `LoggingConfigurationError`. -/
theorem validateMessageTemplate_error {t : PyStr} (ht : schema.messageTemplate = .str t)
    {e : PyError} (h : schema.validateMessageTemplate = .error e) :
    ((¬∃ ps, Template t ps) ∧ (∀ f ∈ placeholders t, PlainField schema f) ∧ e.cls = ValueError) ∨
    ((∃ f ∈ placeholders t, ¬PlainField schema f) ∧ e.cls = LoggingConfigurationError) := by
  rw [EventSchemaArgs.validateMessageTemplate, ht] at h
  have h : ((placeholders t).forM schema.checkPlaceholder >>= fun _ =>
    require (formatParse t).2 ⟨ValueError, lit "malformed format string"⟩) = .error e := h
  rcases bind_eq_error.mp h with h | ⟨_, hall, h⟩
  · obtain ⟨f, hf, he⟩ := exists_of_forM_eq_error h
    refine .inr ⟨⟨f, hf, fun hplain => ?_⟩, checkPlaceholder_error he⟩
    rw [checkPlaceholder_ok.mpr hplain] at he
    cases he
  · obtain ⟨hbad, rfl⟩ := require_eq_error.mp h
    refine .inl ⟨?_, fun f hf => checkPlaceholder_ok.mp (forM_eq_ok.mp hall f hf), rfl⟩
    rw [exists_template_iff, hbad]
    exact Bool.false_ne_true

/-- Construction with a template succeeds or raises `LoggingConfigurationError`, and it succeeds
on the plain templates exactly. -/
structure OneErrorType (schema : EventSchemaArgs) (t : PyStr) : Prop where
  error : ∀ e, schema.postInit = .error e → e.cls = LoggingConfigurationError
  ok : schema.postInit = .ok () ↔ PlainTemplate schema t

/-- Whatever the string is, construction of an otherwise valid schema has one error type, if the
string is a format string, or a placeholder before its fault is not plain. -/
theorem template_oneError_iff (hid : schema.validateEventId = .ok ())
    (hkind : schema.validateKind = .ok ()) (hindex : schema.buildFieldIndex = .ok ()) {t : PyStr}
    (ht : schema.messageTemplate = .str t) :
    OneErrorType schema t ↔
      (∃ ps, Template t ps) ∨ ∃ f ∈ placeholders t, ¬PlainField schema f := by
  have hpost : schema.postInit = schema.validateMessageTemplate := by
    rw [EventSchemaArgs.postInit, hid, hkind, hindex]
    rfl
  constructor
  · intro h
    cases hval : schema.validateMessageTemplate with
    | ok u =>
      obtain ⟨ps, hps, -⟩ := (plainTemplate_iff ht).mp hval
      exact .inl ⟨ps, hps⟩
    | error e =>
      have hcls := h.error e (hpost.trans hval)
      rcases validateMessageTemplate_error ht hval with ⟨-, -, hv⟩ | ⟨hf, -⟩
      · exact absurd (hcls.symm.trans hv) (by decide)
      · exact .inr hf
  · intro hcond
    refine ⟨fun e he => ?_, by rw [hpost, plainTemplate_iff ht]⟩
    rcases validateMessageTemplate_error ht (hpost.symm.trans he) with ⟨hbad, hall, -⟩ | ⟨-, hcls⟩
    · rcases hcond with hps | ⟨f, hf, hplain⟩
      · exact absurd hps hbad
      · exact absurd (hall f hf) hplain
    · exact hcls

/-- An audit event without fields, and with a template. -/
def templated (t : PyStr) : EventSchemaArgs where
  eventId := .str (lit "user.created")
  category := some .admin
  messageTemplate := .str t

/-- And one that requires a name. -/
def named (t : PyStr) : EventSchemaArgs :=
  { templated t with
    fields := [{ name := .str (lit "name"), type := .str, required := true, ok := name_postInit }] }

/-- A template that is accepted has the name only; and one with another field is refused as it
should be, also if a brace is left open behind it. -/
theorem template_oneError_named :
    PlainTemplate (named (lit "user \x7bname\x7d created")) (lit "user \x7bname\x7d created") ∧
      ∃ e, (named (lit "\x7bother\x7d \x7b")).postInit = .error e ∧
        e.cls = LoggingConfigurationError := by
  have haccepted : OneErrorType (named (lit "user \x7bname\x7d created"))
      (lit "user \x7bname\x7d created") :=
    (template_oneError_iff (by decide +kernel) rfl (by decide +kernel) rfl).mpr
      (.inl (exists_template_iff.mpr (by decide)))
  have hrefused : OneErrorType (named (lit "\x7bother\x7d \x7b")) (lit "\x7bother\x7d \x7b") :=
    (template_oneError_iff (by decide +kernel) rfl (by decide +kernel) rfl).mpr
      (.inr ⟨⟨lit "other", [], none⟩, by decide, fun h => absurd h.required (by decide)⟩)
  refine ⟨haccepted.ok.mp (by decide +kernel), ?_⟩
  have hpost : (named (lit "\x7bother\x7d \x7b")).postInit ≠ .ok () := by decide +kernel
  cases he : (named (lit "\x7bother\x7d \x7b")).postInit with
  | ok u => exact absurd he hpost
  | error e => exact ⟨e, rfl, hrefused.error e he⟩

/-- A brace alone is refused with a `ValueError`. -/
theorem not_template_oneError : ¬OneErrorType (templated (lit "\x7b")) (lit "\x7b") := by
  intro h
  have herror : (templated (lit "\x7b")).postInit =
      .error ⟨ValueError, lit "malformed format string"⟩ := by decide +kernel
  exact absurd (h.error _ herror) (by decide)

/-! ## What is rendered -/

section

variable {fields m : Dict PyAtom PyObj} {required : List PyAtom}

/-- The guard returns only where every required field is given. -/
theorem guardSpecs_required {specs : List FieldSpec} {acc : Dict PyAtom PyObj}
    (h : guardSpecs fields required specs acc = .ok m) :
    ∀ spec ∈ specs, spec.name ∈ required → (fields.get? spec.name).isSome := by
  induction specs generalizing acc with
  | nil => exact fun spec hs => (by cases hs)
  | cons spec specs ih =>
    rw [guardSpecs] at h
    cases hv : fields.get? spec.name with
    | some v =>
      rw [hv] at h
      obtain ⟨w, -, h⟩ := bind_eq_ok.mp h
      refine List.forall_mem_cons.mpr ⟨fun _ => ?_, ih h⟩
      rw [hv]
      rfl
    | none =>
      simp only [hv] at h
      split at h
      · cases h
      · rename_i hreq
        exact List.forall_mem_cons.mpr ⟨fun hr => absurd hr hreq, ih h⟩

/-- What the guard returns has every required field. -/
theorem mem_keys_of_required {schema : EventSchema}
    (h : schema.guardFields fields required = .ok m) {spec : FieldSpec} (hs : spec ∈ schema.fields)
    (hr : spec.name ∈ required) : spec.name ∈ m.keys := by
  have hguarded := guardFields_ok h
  obtain ⟨-, h⟩ := check_eq_ok.mp h
  obtain ⟨v, hv⟩ := Option.isSome_iff_exists.mp (guardSpecs_required h spec hs hr)
  exact List.mem_map_of_mem (hguarded.mem_iff.mpr ⟨v, Dict.get?_eq_some.mp hv, rfl⟩)

/-- Of a call or of an intent it has what a plain template names. -/
theorem names_mem_keys {schema : EventSchema} {ps : List Piece}
    (hplain : ∀ f ∈ Piece.fields ps, PlainField schema.toEventSchemaArgs f)
    (h : schema.guardFields fields (schema.requiredFieldNames false) = .ok m) :
    ∀ f ∈ Piece.fields ps, .str f.name ∈ m.keys := by
  intro f hf
  have hreq : .str f.name ∈ schema.requiredFieldNames false := (hplain f hf).required
  obtain ⟨spec, hspec, hname⟩ := List.mem_map.mp (hplain f hf).required
  rw [← hname] at hreq ⊢
  exact mem_keys_of_required h (List.mem_of_mem_filter hspec) hreq

variable [PyRuntime]

/-- The default texts of values, by the names of their fields. -/
def Texts (m : Dict PyAtom PyObj) (text : PyStr → PyStr) : Prop :=
  ∀ name v, m.get? (.str name) = some v → v.text = .ok (text name)

theorem fieldText_eq {text : PyStr → PyStr} (ht : Texts m text) {name : PyStr}
    (hn : .str name ∈ m.keys) : EventSchemaArgs.fieldText m name = .ok (text name) := by
  cases hv : m.get? (.str name) with
  | none => exact absurd hn (Dict.get?_eq_none.mp hv)
  | some v => rw [EventSchemaArgs.fieldText, hv]; exact ht name v hv

variable {schema : EventSchemaArgs} {t : PyStr} {ps : List Piece} {text : PyStr → PyStr}

/-- With all of its names there, a template is rendered to its pieces. -/
theorem renderMessage_of_names (hschema : schema.messageTemplate = .str t) (hps : Template t ps)
    (ht : Texts m text) (hn : ∀ f ∈ Piece.fields ps, .str f.name ∈ m.keys) :
    schema.renderMessage m = .ok (.str (expand text ps)) := by
  have hsub : EventSchemaArgs.formatFields t m = .ok (expand text ps) := by
    have hpieces := (formatParse_iff.mp hps).2
    rw [← hpieces]
    refine substitute_eq_expand fun f hf => fieldText_eq ht (hn f ?_)
    rwa [← hpieces, fields_pieces]
  rw [EventSchemaArgs.renderMessage, hschema]
  simp only [hsub]

/-- With one of them missing, there is no message. -/
theorem renderMessage_of_missing (hschema : schema.messageTemplate = .str t) (hps : Template t ps)
    (ht : Texts m text) (hn : ¬∀ f ∈ Piece.fields ps, .str f.name ∈ m.keys) :
    schema.renderMessage m = .ok .none := by
  have hkey : ∀ {name : PyStr} {e : PyError}, EventSchemaArgs.fieldText m name = .error e →
      e.isA .keyError = true := by
    intro name e h
    by_cases hm : .str name ∈ m.keys
    · rw [fieldText_eq ht hm] at h
      cases h
    · rw [EventSchemaArgs.fieldText, Dict.get?_eq_none.mpr hm] at h
      cases h
      rfl
  rw [EventSchemaArgs.renderMessage, hschema]
  cases hsub : EventSchemaArgs.formatFields t m with
  | ok s =>
    refine absurd (fun f hf => ?_) hn
    rw [← (formatParse_iff.mp hps).2, fields_pieces] at hf
    obtain ⟨u, hu⟩ := exists_of_substitute_eq_ok hsub f hf
    by_contra hm
    rw [EventSchemaArgs.fieldText, Dict.get?_eq_none.mpr hm] at hu
    cases hu
  | error e =>
    obtain ⟨-, -, f, -, hf⟩ := exists_of_substitute_eq_error hsub
    simp only [hsub, hkey hf, if_true]

end

/-- A template is rendered by substitution: it has pieces, in one way only, and what is rendered
from the fields of a call or of an intent is each piece of text and the default text of each
placeholder, in their order. From the fields of an outcome it is the same where these have every
name of a placeholder, and nothing where they have not. -/
theorem renderMessage_expand [PyRuntime] {schema : EventSchema} {t : PyStr}
    (hschema : schema.messageTemplate = .str t) :
    ∃ ps, Template t ps ∧ (∀ ps', Template t ps' → ps' = ps) ∧
      (∀ severity fields m text, schema.validateOperational severity fields = .ok m →
        Texts m text → schema.renderMessage m = .ok (.str (expand text ps))) ∧
      (∀ fields m text, schema.validateAudit fields .intent = .ok m →
        Texts m text → schema.renderMessage m = .ok (.str (expand text ps))) ∧
      (∀ fields m text, schema.validateAudit fields .outcome = .ok m → Texts m text →
        schema.renderMessage m =
          .ok (if ∀ f ∈ Piece.fields ps, .str f.name ∈ m.keys then .str (expand text ps)
            else .none)) := by
  obtain ⟨ps, hps, hplain⟩ := (plainTemplate_iff hschema).mp schema.postInit_ok.2.2.2
  refine ⟨ps, hps, fun ps' h => ?_, fun severity fields m text h ht => ?_,
    fun fields m text h ht => ?_, fun fields m text h ht => ?_⟩
  · exact (formatParse_iff.mp h).2.symm.trans (formatParse_iff.mp hps).2
  · obtain ⟨-, h⟩ := check_eq_ok.mp h
    obtain ⟨-, h⟩ := check_eq_ok.mp h
    exact renderMessage_of_names hschema hps ht (names_mem_keys hplain h)
  · obtain ⟨-, h⟩ := check_eq_ok.mp h
    exact renderMessage_of_names hschema hps ht (names_mem_keys hplain h)
  · split
    · rename_i hn
      exact renderMessage_of_names hschema hps ht hn
    · rename_i hn
      exact renderMessage_of_missing hschema hps ht hn

/-- An operational event with one field and a template that names it. -/
def greeting : EventSchema where
  eventId := .str (lit "user.greeted")
  severity := some .info
  fields := [{ name := .str (lit "name"), type := .str, required := true, ok := name_postInit }]
  messageTemplate := .str (lit "\x7b\x7bhello\x7d\x7d \x7bname\x7d")
  ok := by decide +kernel

theorem renderMessage_expand_greeting : ∃ ps,
    Template (lit "\x7b\x7bhello\x7d\x7d \x7bname\x7d") ps ∧
    @EventSchemaArgs.renderMessage greeting.toEventSchemaArgs PyRuntime.plain
      (Dict.empty.set (.str (lit "name")) (.atom (.str (lit "\x7bx\x7d")))) =
        .ok (.str (expand (fun _ => lit "\x7bx\x7d") ps)) := by
  let _ := PyRuntime.plain
  obtain ⟨ps, hps, -, hoperational, -⟩ := @renderMessage_expand PyRuntime.plain greeting _ rfl
  refine ⟨ps, hps, hoperational .info
    (Dict.empty.set (.str (lit "name")) (.atom (.str (lit "\x7bx\x7d")))) _ _ rfl ?_⟩
  intro name v hv
  have hmem := Dict.get?_eq_some.mp hv
  have : v = .atom (.str (lit "\x7bx\x7d")) := by
    simp only [Dict.set, Dict.empty, assocSet, List.mem_singleton] at hmem
    exact (Prod.mk.inj hmem).2
  rw [this]
  rfl

end NmLogging
