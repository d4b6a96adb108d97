import NmLogging.Framework.JsonBytes
import NmLogging.OneLine
import NmLogging.Templates

/-!
# The shortest calls

The fields of a call at their shortest (`FieldSpec.sample`, `EventSchema.samples`): the guard
accepts them (`EventSchema.samples_accepted`), their message is short (`sample_message`), and a
record of them has a line (`Fits.record`). A message that has no encoding is in no line
(`no_line`).
-/

namespace NmLogging

/-! ## Sizes of entries -/

section

variable [PyRuntime] {m n : Nat} {es fs : List (PyAtom × PyObj)}

/-- Entries that JSON can hold, in at most `n` bytes with their commas. -/
def Fits (n : Nat) (es : List (PyAtom × PyObj)) : Prop :=
  ∃ kvs, es.mapM memberJson = .ok kvs ∧
    Encodes n (kvs.flatMap (Json.memberText PyRuntime.floatRepr))

theorem Fits.nil : Fits 0 [] := ⟨[], rfl, .nil⟩

theorem Fits.mono (h : Fits m es) (hmn : m ≤ n) : Fits n es := by
  obtain ⟨kvs, hkvs, hbytes⟩ := h
  exact ⟨kvs, hkvs, hbytes.mono hmn⟩

theorem Fits.append (hes : Fits m es) (hfs : Fits n fs) : Fits (m + n) (es ++ fs) := by
  obtain ⟨kvs, hkvs, hbytes⟩ := hes
  obtain ⟨lvs, hlvs, hlbytes⟩ := hfs
  refine ⟨kvs ++ lvs, ?_, ?_⟩
  · rw [List.mapM_append, hkvs, hlvs]
    rfl
  · rw [List.flatMap_append]
    exact hbytes.append hlbytes

theorem Fits.one {k : PyStr} {v : PyObj} {w : Json.Value PyFloat} (hk : Encodes m (Json.quote k))
    (hv : v.toJson = .ok w) (hw : Encodes n (Json.render PyRuntime.floatRepr w)) :
    Fits (m + n + 2) [(.str k, v)] := by
  refine ⟨[(k, w)], ?_, ?_⟩
  · have hmember : memberJson (.str k, v) = .ok (k, w) := memberJson_ok.mpr ⟨rfl, hv⟩
    rw [List.mapM_cons, hmember]
    rfl
  · rw [List.flatMap_cons, List.flatMap_nil, List.append_nil]
    exact Json.encodes_memberText hk hw

/-- A plain name with a plain string. -/
theorem Fits.str {k s : PyStr} (hk : PlainText m k) (hs : PlainText n s) :
    Fits (m + n + 6) [(.str k, .atom (.str s))] := by
  have hvalue : Encodes (n + 2) (Json.render PyRuntime.floatRepr (.str s)) := by
    rw [Json.render]
    exact Json.encodes_quote_plain hs
  exact (Fits.one (Json.encodes_quote_plain hk) rfl hvalue).mono (by omega)

/-- As many entries of one size. -/
theorem Fits.all (h : ∀ e ∈ es, Fits n [e]) : Fits (es.length * n) es := by
  induction es with
  | nil => exact Fits.nil.mono (Nat.zero_le _)
  | cons e es ih =>
    obtain ⟨he, hes⟩ := List.forall_mem_cons.mp h
    refine (he.append (ih hes)).mono ?_
    rw [List.length_cons, Nat.succ_mul]
    omega

/-- A record whose entries fit has a line. -/
theorem Fits.line {u o : PyError} {r : Record} (h : Fits n (mappingEntries r))
    (hn : n + 3 ≤ MAX_RECORD_BYTES) : ∃ line, lineBytes u o r = .ok line := by
  obtain ⟨kvs, hkvs, hbytes⟩ := h
  obtain ⟨data, hdata, hlen⟩ := Json.encodes_obj hbytes
  refine ⟨_, lineBytes_ok.mpr ⟨_, data, encode_ok.mpr ⟨kvs, hkvs, rfl⟩, hdata, rfl, ?_⟩⟩
  rw [List.length_append, List.length_singleton]
  omega

end

/-! ## Sizes of messages -/

/-- A placeholder is written with its name. -/
theorem FieldText.length_le {u : PyStr} {f : FormatField} (h : FieldText u f) :
    f.name.length ≤ u.length := by
  cases h with
  | plain _ => exact Nat.le_refl _
  | spec _ _ => exact (List.prefix_append _ _).length_le
  | conversion _ => exact (List.prefix_append _ _).length_le
  | both _ _ => exact (List.prefix_append _ _).length_le

section

variable {schema : EventSchemaArgs} {t : PyStr} {ps : List Piece} {text : PyStr → PyStr}

/-- The name of a placeholder is not empty, and its characters have encodings. -/
theorem PlainField.name_valid {f : FormatField} (h : PlainField schema f) :
    f.name ≠ [] ∧ ∀ c ∈ f.name, c.isValidChar := by
  obtain ⟨spec, -, hname⟩ := List.mem_map.mp h.required
  obtain ⟨hne, hchars⟩ := spec.name_chars hname
  refine ⟨hne, fun c hc => isValidChar_of_lt ?_⟩
  rcases hchars c hc with hc | hc | rfl
  · simp only [isLower, Bool.and_eq_true, decide_eq_true_eq] at hc
    omega
  · simp only [isDigit, Bool.and_eq_true, decide_eq_true_eq] at hc
    omega
  · decide

/-- A placeholder has an encoding. -/
theorem FieldText.valid {u : PyStr} {f : FormatField} (h : FieldText u f)
    (hf : PlainField schema f) : ∀ c ∈ u, c.isValidChar := by
  obtain ⟨-, hname⟩ := hf.name_valid
  have hspec := hf.spec
  have hconv := hf.conversion
  have hnul : ∀ {c : Nat}, conversionOf c = none → c.isValidChar := by
    intro c hc
    rw [conversionOf] at hc
    split at hc
    · rename_i hzero
      rw [hzero]
      exact isValidChar_of_lt (by decide)
    · cases hc
  have hcolon : (0x3a : Nat).isValidChar := isValidChar_of_lt (by decide)
  have hbang : (0x21 : Nat).isValidChar := isValidChar_of_lt (by decide)
  cases h with
  | plain _ => exact hname
  | spec _ _ =>
    cases hspec
    exact List.forall_mem_append.mpr ⟨hname, List.forall_mem_singleton.mpr hcolon⟩
  | conversion _ =>
    exact List.forall_mem_append.mpr ⟨hname, List.forall_mem_cons.mpr
      ⟨hbang, List.forall_mem_singleton.mpr (hnul hconv)⟩⟩
  | both _ _ =>
    cases hspec
    exact List.forall_mem_append.mpr ⟨hname, List.forall_mem_cons.mpr
      ⟨hbang, List.forall_mem_cons.mpr ⟨hnul hconv, List.forall_mem_singleton.mpr hcolon⟩⟩⟩

/-- What of a template has no encoding is in its text. -/
theorem Template.text_of_not_valid (h : Template t ps)
    (hf : ∀ f ∈ Piece.fields ps, PlainField schema f) {c : Nat} (hc : c ∈ t)
    (hv : ¬c.isValidChar) : .text c ∈ ps := by
  induction h with
  | nil => cases hc
  | char _ _ _ ih =>
    rcases List.mem_cons.mp hc with rfl | hc
    · exact List.mem_cons_self
    · exact List.mem_cons_of_mem _ (ih hf hc)
  | @brace d s ps hd _ ih =>
    rcases List.mem_cons.mp hc with rfl | hc
    · exact List.mem_cons_self
    rcases List.mem_cons.mp hc with rfl | hc
    · exact List.mem_cons_self
    · exact List.mem_cons_of_mem _ (ih hf hc)
  | @field u s f ps hu _ ih =>
    obtain ⟨hplain, hrest⟩ := List.forall_mem_cons.mp hf
    rcases List.mem_cons.mp hc with rfl | hc
    · exact absurd (isValidChar_of_lt (by decide)) hv
    rcases List.mem_append.mp hc with hc | hc
    · exact absurd (hu.valid hplain c hc) hv
    rcases List.mem_cons.mp hc with rfl | hc
    · exact absurd (isValidChar_of_lt (by decide)) hv
    · exact List.mem_cons_of_mem _ (ih hrest hc)

theorem Template.mem_of_text (h : Template t ps) {c : Nat} (hc : .text c ∈ ps) : c ∈ t := by
  induction h with
  | nil => cases hc
  | char _ _ _ ih =>
    rcases List.mem_cons.mp hc with he | hc
    · cases he
      exact List.mem_cons_self
    · exact List.mem_cons_of_mem _ (ih hc)
  | brace _ _ ih =>
    rcases List.mem_cons.mp hc with he | hc
    · cases he
      exact List.mem_cons_self
    · exact List.mem_cons_of_mem _ (List.mem_cons_of_mem _ (ih hc))
  | field _ _ ih =>
    rcases List.mem_cons.mp hc with he | hc
    · cases he
    · exact List.mem_cons_of_mem _ (List.mem_append_right _ (List.mem_cons_of_mem _ (ih hc)))

theorem mem_expand {c : Nat} :
    c ∈ expand text ps ↔ .text c ∈ ps ∨ ∃ f ∈ Piece.fields ps, c ∈ text f.name := by
  simp only [expand, Piece.fields, List.mem_flatMap, List.mem_filterMap]
  constructor
  · rintro ⟨p, hp, hc⟩
    cases p with
    | text d =>
      rw [List.mem_singleton.mp hc]
      exact .inl hp
    | field f => exact .inr ⟨f, ⟨_, hp, rfl⟩, hc⟩
  · rintro (hc | ⟨f, ⟨p, hp, hf⟩, hc⟩)
    · exact ⟨_, hc, List.mem_singleton_self c⟩
    · cases p with
      | text d => cases hf
      | field g =>
        cases hf
        exact ⟨_, hp, hc⟩

/-- Short texts in the place of placeholders make a message little longer than its template: a
placeholder has three characters at least. -/
theorem Template.length_expand_le (h : Template t ps)
    (hf : ∀ f ∈ Piece.fields ps, f.name ≠ [] ∧ (text f.name).length ≤ 5) :
    3 * (expand text ps).length ≤ 5 * t.length := by
  induction h with
  | nil => exact Nat.le_refl _
  | @char c s ps _ _ _ ih =>
    have hrest := ih hf
    have hexpand : expand text (.text c :: ps) = c :: expand text ps := rfl
    rw [hexpand, List.length_cons, List.length_cons]
    omega
  | @brace c s ps _ _ ih =>
    have hrest := ih hf
    have hexpand : expand text (.text c :: ps) = c :: expand text ps := rfl
    rw [hexpand, List.length_cons, List.length_cons, List.length_cons]
    omega
  | @field u s f ps hu _ ih =>
    obtain ⟨⟨hne, hshort⟩, hrest⟩ := List.forall_mem_cons.mp hf
    have hrest := ih hrest
    have hname := List.length_pos_of_ne_nil hne
    have hlen := hu.length_le
    have hexpand : expand text (.field f :: ps) = text f.name ++ expand text ps := rfl
    rw [hexpand, List.length_append, List.length_cons, List.length_append, List.length_cons]
    omega

end

/-! ## The shortest values -/

/-- The shortest value of a field. -/
def FieldSpec.sample (spec : FieldSpec) : PyObj :=
  if spec.isList then .tuple []
  else
    match spec.type with
    | .str => .atom (.str [])
    | .int => .atom (.int 0)
    | .float => .atom (.float ⟨0⟩)
    | .bool => .atom (.bool false)
    | .other => .atom .none

theorem FieldSpec.sample_matches (spec : FieldSpec) : spec.Matches spec.sample := by
  have htype := spec.type_ok
  cases hl : spec.isList with
  | true =>
    rw [sample, hl, if_pos rfl]
    exact ⟨hl, List.forall_mem_nil _⟩
  | false =>
    rw [sample, hl, if_neg Bool.false_ne_true]
    cases ht : spec.type with
    | other => exact absurd ht htype
    | str => exact ⟨hl, by rw [ht]; exact ⟨by decide, by decide, rfl⟩⟩
    | int => exact ⟨hl, by rw [ht]; trivial⟩
    | float => exact ⟨hl, by rw [ht]; rfl⟩
    | bool => exact ⟨hl, by rw [ht]; trivial⟩

/-- What a value has to be for a short line: its texts are short and have encodings, both that in
a message and that in JSON. -/
structure Short [PyRuntime] (v : PyObj) : Prop where
  text : ∃ s, v.text = .ok s ∧ s.length ≤ 5 ∧ ∀ c ∈ s, c.isValidChar
  json : ∃ w, v.toJson = .ok w ∧ Encodes 5 (Json.render PyRuntime.floatRepr w)

theorem FieldSpec.sample_short [PyRuntime] (hzero : PyRuntime.floatRepr ⟨0⟩ = lit "0.0")
    (spec : FieldSpec) : Short spec.sample.frozen := by
  have hascii : ∀ {s : PyStr}, (∀ c ∈ s, c < 0x80) → s.length ≤ 5 →
      (∀ c ∈ s, c.isValidChar) ∧ Encodes 5 s := fun hs hlen =>
    ⟨fun c hc => isValidChar_of_lt (hs c hc), (Encodes.ascii hs).mono hlen⟩
  cases hl : spec.isList with
  | true =>
    rw [sample, hl, if_pos rfl]
    refine ⟨⟨lit "()", rfl, by decide, (hascii (by decide) (by decide)).1⟩, .arr [], rfl, ?_⟩
    rw [Json.render, Json.renderItems]
    exact (hascii (by decide) (by decide)).2
  | false =>
    rw [sample, hl, if_neg Bool.false_ne_true]
    cases ht : spec.type with
    | other => exact absurd ht spec.type_ok
    | str =>
      refine ⟨⟨[], rfl, by decide, List.forall_mem_nil _⟩, .str [], rfl, ?_⟩
      rw [Json.render]
      exact (hascii (by decide) (by decide)).2
    | int =>
      refine ⟨⟨lit "0", rfl, by decide, (hascii (by decide) (by decide)).1⟩, .int 0, rfl, ?_⟩
      rw [Json.render]
      exact (hascii (by decide) (by decide)).2
    | float =>
      refine ⟨⟨lit "0.0", congrArg Except.ok hzero, by decide, (hascii (by decide) (by decide)).1⟩,
        .float ⟨0⟩, rfl, ?_⟩
      rw [Json.render, hzero]
      exact (hascii (by decide) (by decide)).2
    | bool =>
      refine ⟨⟨lit "False", rfl, by decide, (hascii (by decide) (by decide)).1⟩, .bool false, rfl,
        ?_⟩
      rw [Json.render]
      exact (hascii (by decide) (by decide)).2

/-- The name of a declared field is short. -/
theorem FieldSpec.name_plain (spec : FieldSpec) : ∃ s, spec.name = .str s ∧ PlainText 64 s := by
  obtain ⟨⟨s, hs⟩, -⟩ := spec.name_ok
  have hok := spec.ok
  simp only [FieldSpecArgs.postInit, check_eq_ok, require_eq_ok, hs] at hok
  refine ⟨s, hs, fun c hc => ?_, Regex.length_le_of_fullmatch hok.1⟩
  rcases (spec.name_chars hs).2 c hc with hc | hc | rfl
  · simp only [isLower, Bool.and_eq_true, decide_eq_true_eq] at hc
    exact ⟨by omega, by omega, by omega, by omega⟩
  · exact plain_of_isDigit hc
  · decide

namespace EventSchema

variable (schema : EventSchema)

/-- The shortest values of some of the fields. -/
def samples (p : FieldSpec → Bool) : Dict PyAtom PyObj where
  entries := (schema.fields.filter p).map fun spec => (spec.name, spec.sample)
  nodup := by
    have hnames : schema.names.Nodup := schema.postInit_ok.2.2.1
    rw [List.map_map]
    exact (List.filter_sublist.map _).nodup hnames

variable {schema} {p : FieldSpec → Bool}

/-- What is given is accepted, where nothing else has to be given. -/
theorem samples_accepted : schema.Accepts p (schema.samples p) where
  declared k hk := by
    obtain ⟨e, he, rfl⟩ := List.mem_map.mp hk
    obtain ⟨spec, hspec, rfl⟩ := List.mem_map.mp he
    exact ⟨spec, List.mem_of_mem_filter hspec, rfl⟩
  supplied spec hspec hp := by
    refine List.mem_map.mpr ⟨(spec.name, spec.sample), List.mem_map_of_mem ?_, rfl⟩
    exact List.mem_filter.mpr ⟨hspec, hp⟩
  matching spec hspec v hv := by
    obtain ⟨spec', hspec', he⟩ := List.mem_map.mp hv
    obtain ⟨hname, rfl⟩ := Prod.mk.inj he
    have hsame := List.inj_on_of_nodup_map schema.postInit_ok.2.2.1
      (List.mem_of_mem_filter hspec') hspec hname
    exact hsame ▸ spec'.sample_matches

theorem samples_short [PyRuntime] (hzero : PyRuntime.floatRepr ⟨0⟩ = lit "0.0")
    {d : Dict PyAtom PyObj} (h : schema.Guarded (schema.samples p) d) {k : PyAtom} {w : PyObj}
    (hw : (k, w) ∈ d.entries) : (∃ s, k = .str s ∧ PlainText 64 s) ∧ Short w := by
  obtain ⟨v, hv, rfl⟩ := h.mem_iff.mp hw
  obtain ⟨spec, -, he⟩ := List.mem_map.mp hv
  obtain ⟨rfl, rfl⟩ := Prod.mk.inj he
  exact ⟨spec.name_plain, spec.sample_short hzero⟩

/-- The entries of a call with the shortest values. -/
theorem samples_fit [PyRuntime] (hzero : PyRuntime.floatRepr ⟨0⟩ = lit "0.0")
    (hfields : schema.fields.length ≤ 64) {d : Dict PyAtom PyObj}
    (h : schema.Guarded (schema.samples p) d) : Fits (64 * 73) d.entries := by
  have hone : ∀ e ∈ d.entries, Fits 73 [e] := by
    intro e he
    obtain ⟨⟨s, hs, hplain⟩, hshort⟩ := samples_short hzero h he
    obtain ⟨w, hw, hbytes⟩ := hshort.json
    have hfits := Fits.one (Json.encodes_quote_plain hplain) hw hbytes
    rw [← hs] at hfits
    exact hfits
  have hcount : d.entries.length ≤ 64 := by
    rw [h.entries]
    exact (List.length_filterMap_le _ _).trans hfields
  exact (Fits.all hone).mono (Nat.mul_le_mul_right 73 hcount)

end EventSchema

/-! ## Messages -/

/-- No message, or a short one that has an encoding. -/
def ShortMessage (m : PyAtom) : Prop :=
  m = .none ∨ ∃ s, m = .str s ∧ s.length ≤ 1706 ∧ ∀ c ∈ s, c.isValidChar

theorem ShortMessage.none_or_str {m : PyAtom} (hm : ShortMessage m) :
    m = .none ∨ ∃ s, m = .str s :=
  hm.imp_right fun ⟨s, hs, _⟩ => ⟨s, hs⟩

section

variable [PyRuntime] {schema : EventSchema} {fields d : Dict PyAtom PyObj} {t : PyStr}

/-- The shortest values make a message that is short, and has an encoding if the template has. -/
theorem sample_message (hzero : PyRuntime.floatRepr ⟨0⟩ = lit "0.0")
    (htemplate : ∀ t, schema.messageTemplate = .str t →
      t.length ≤ 1024 ∧ (encodeUtf8 t).isSome = true) {p : FieldSpec → Bool}
    (h : schema.Guarded (schema.samples p) d) :
    ∃ m, schema.renderMessage d = .ok m ∧ ShortMessage m := by
  have hvalid := schema.postInit_ok.2.2.2
  cases ht : schema.messageTemplate with
  | none => exact ⟨.none, by rw [EventSchemaArgs.renderMessage, ht], .inl rfl⟩
  | bool b | int i | float f | other tag =>
    rw [EventSchemaArgs.validateMessageTemplate, ht] at hvalid
    cases hvalid
  | str t =>
    obtain ⟨hlen, hencodes⟩ := htemplate t ht
    obtain ⟨ps, hps, hplain⟩ := (plainTemplate_iff ht).mp hvalid
    -- a name without a value has no text; the template does not name it
    let text : PyStr → PyStr := fun name =>
      ((d.get? (.str name)).bind fun v => v.text.toOption).getD []
    have hshort : ∀ name, (text name).length ≤ 5 ∧ ∀ c ∈ text name, c.isValidChar := by
      intro name
      cases hv : d.get? (.str name) with
      | none => simp [text, hv]
      | some v =>
        obtain ⟨s, hs, hlen, hchars⟩ :=
          (EventSchema.samples_short hzero h (Dict.get?_eq_some.mp hv)).2.text
        have htext : text name = s := by simp [text, hv, hs, Except.toOption]
        rw [htext]
        exact ⟨hlen, hchars⟩
    have htexts : Texts d text := by
      intro name v hv
      obtain ⟨s, hs, -⟩ :=
        (EventSchema.samples_short hzero h (Dict.get?_eq_some.mp hv)).2.text
      simp [text, hv, hs, Except.toOption]
    by_cases hn : ∀ f ∈ Piece.fields ps, .str f.name ∈ d.keys
    · refine ⟨_, renderMessage_of_names ht hps htexts hn, .inr ⟨_, rfl, ?_, ?_⟩⟩
      · have := hps.length_expand_le fun f hf => ⟨(hplain f hf).name_valid.1, (hshort f.name).1⟩
        omega
      · intro c hc
        rcases mem_expand.mp hc with hc | ⟨f, -, hc⟩
        · exact encodeUtf8_isSome.mp hencodes c (hps.mem_of_text hc)
        · exact (hshort f.name).2 c hc
    · exact ⟨_, renderMessage_of_missing ht hps htexts hn, .inl rfl⟩

/-- The entry of such a message. -/
theorem message_fits {r : Envelope} {m : PyAtom} (hr : r.message = m) (hm : ShortMessage m) :
    Fits 10249 (messageEntries r) := by
  rcases hm with rfl | ⟨s, rfl, hlen, hvalid⟩
  · rw [messageEntries, if_pos hr]
    exact Fits.nil.mono (Nat.zero_le _)
  · rw [messageEntries, if_neg (by rw [hr]; rintro ⟨⟩), hr]
    have hname : Encodes 9 (Json.quote (lit "message")) :=
      Json.encodes_quote_plain (by decide : PlainText 7 (lit "message"))
    have hvalue : Encodes 10238 (Json.render PyRuntime.floatRepr (.str s)) := by
      rw [Json.render]
      exact (Json.encodes_quote hvalid).mono (by omega)
    exact Fits.one hname rfl hvalue

/-- A template that has no encoding makes a message that has none. -/
theorem message_not_valid (ht : schema.messageTemplate = .str t)
    (hbad : ¬(encodeUtf8 t).isSome = true)
    (hd : schema.guardFields fields (schema.requiredFieldNames false) = .ok d) {m : PyAtom}
    (hm : schema.renderMessage d = .ok m) :
    ∃ s c, m = .str s ∧ c ∈ s ∧ ¬c.isValidChar := by
  obtain ⟨ps, hps, hplain⟩ := (plainTemplate_iff ht).mp schema.postInit_ok.2.2.2
  simp only [encodeUtf8_isSome, not_forall] at hbad
  obtain ⟨c, hct, hc⟩ := hbad
  have hpieces := (formatParse_iff.mp hps).2
  have hnames := names_mem_keys hplain hd
  rw [EventSchemaArgs.renderMessage, ht] at hm
  simp only at hm
  split at hm
  · rename_i s hs
    cases hm
    have hfields := exists_of_substitute_eq_ok hs
    let text : PyStr → PyStr := fun name => (EventSchemaArgs.fieldText d name).toOption.getD []
    have htext : ∀ f ∈ (formatParse t).1.filterMap FormatItem.field,
        EventSchemaArgs.fieldText d f.name = .ok (text f.name) := by
      intro f hf
      obtain ⟨u, hu⟩ := hfields f hf
      simp [text, hu, Except.toOption]
    have hexpand := substitute_eq_expand htext
    rw [hpieces, ← EventSchemaArgs.formatFields, hs] at hexpand
    refine ⟨_, c, rfl, ?_, hc⟩
    rw [Except.ok.inj hexpand]
    exact mem_expand.mpr (.inl (hps.text_of_not_valid hplain hct hc))
  · rename_i e he
    obtain ⟨item, hitem, f, hf, herror⟩ := exists_of_substitute_eq_error he
    have hname : .str f.name ∈ d.keys := by
      refine hnames f ?_
      rw [← hpieces, fields_pieces]
      exact List.mem_filterMap.mpr ⟨item, hitem, hf⟩
    rw [EventSchemaArgs.fieldText] at herror
    split at herror
    · rename_i hnone
      exact absurd hname (Dict.get?_eq_none.mp hnone)
    · obtain ⟨-, hcls⟩ := PyObj.text_error herror
      rw [if_neg (by rw [OperationalLog.isA_of_cls hcls]; decide)] at hm
      cases hm

/-- And a record with that message has no line. -/
theorem no_line {u o : PyError} {r : Record} {s : PyStr} {c : Nat}
    (hr : r.envelope.message = .str s) (hc : c ∈ s) (hv : ¬c.isValidChar) (line : Bytes) :
    lineBytes u o r ≠ .ok line := by
  intro h
  obtain ⟨x, data, hx, hdata, -⟩ := lineBytes_ok.mp h
  obtain ⟨kvs, hkvs, rfl⟩ := encode_ok.mp hx
  have hmessage : messageEntries r.envelope = [(key "message", .atom (.str s))] := by
    rw [messageEntries, if_neg (by rw [hr]; rintro ⟨⟩), hr]
  have hlast : [(key "message", PyObj.atom (.str s))].mapM memberJson =
      .ok [(lit "message", Json.Value.str s)] := rfl
  rw [recordJson, mappingEntries, hmessage, List.mapM_append, hlast] at hkvs
  obtain ⟨before, -, hkvs⟩ := bind_eq_ok.mp hkvs
  cases hkvs
  have hmem : c ∈ Json.render PyRuntime.floatRepr (.obj (before ++ [(lit "message", .str s)])) :=
    Json.not_valid_mem_obj (List.mem_append_right _ (List.mem_singleton_self _)) hc hv
  have hencodes : (encodeUtf8 (Json.render PyRuntime.floatRepr
      (.obj (before ++ [(lit "message", .str s)])))).isSome = true := by
    rw [hdata]
    rfl
  exact hv (encodeUtf8_isSome.mp hencodes c hmem)

end

/-! ## Sizes of records -/

section

variable [PyRuntime]

/-- The common envelope. -/
theorem envelope_fits {r : Envelope} (h : r.Valid) : Fits 306 (envelopeEntries r) := by
  obtain ⟨app, happ, hre⟩ := h.application
  obtain ⟨em, hem, hemitter⟩ := h.emitter
  obtain ⟨ev, hev, hlen, hid⟩ := h.event
  have hplain : PlainText 7 em := by
    have hall : ∀ s ∈ EMITTERS, PlainText 7 s := by decide
    exact hall em hem
  have hversion : Fits 19 [(key "schema_version", .atom (.int SCHEMA_VERSION))] := by
    refine Fits.one (m := 16) (n := 1) (w := .int SCHEMA_VERSION)
      (Json.encodes_quote_plain (by decide : PlainText 14 (lit "schema_version"))) rfl ?_
    rw [Json.render]
    exact Encodes.ascii (by decide)
  have htime : Fits 47 [(key "timestamp", .atom (.str r.timestamp.isoformat))] :=
    Fits.str (m := 9) (n := 32) (by decide) (Datetime.isoformat_plain h.timestamp)
  have happlication : Fits 81 [(key "application", .atom (.str app))] :=
    Fits.str (m := 11) (n := 64) (by decide) (OperationalLog.application_plain hre)
  have hemitted : Fits 20 [(key "emitter", .atom (.str em))] :=
    Fits.str (m := 7) (n := 7) (by decide) hplain
  have hevent : Fits 139 [(key "event", .atom (.str ev))] :=
    Fits.str (m := 5) (n := 128) (by decide) (OperationalLog.event_plain hlen hid)
  rw [envelopeEntries, happ, hemitter, hev]
  exact hversion.append (htime.append (happlication.append (hemitted.append hevent)))

/-- A record with short values and a short message has a line. -/
theorem Fits.record {u o : PyError} {r : Record} (hkind : Fits 141 (kindEntries r))
    (hfields : Fits (64 * 73) r.envelope.fields.entries)
    (hmessage : Fits 10249 (messageEntries r.envelope)) : ∃ line, lineBytes u o r = .ok line :=
  ((((envelope_fits r.valid).append hkind).append hfields).append hmessage).line (by decide)

theorem severity_fits (r : OperationalRecord) : Fits 141 (kindEntries (.operational r)) := by
  have hplain : PlainText 8 r.severity.value := by
    cases r.severity <;> decide
  exact (Fits.str (m := 8) (n := 8) (by decide) hplain).mono (by decide)

end

end NmLogging
