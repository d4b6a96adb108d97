import NmLogging.Framework.Plain
import NmLogging.Instances
import NmLogging.Reader.RoundTrip

/-!
# The text of a record is its own

Two records with string names and the same text have the same values, and are the same record if
nothing in them is an instance of a proper subclass: of such classes the text tells nothing
(`not_encode_exact`). The mapping of a record holds under every reserved key what the envelope
says (`encode_unambiguous`). The text reads back as the mapping (`loads_encode_members`), which
falls apart at the reserved keys: those of a kind, and the message, are reserved, and no event
field is (`filter_reserved`).
-/

namespace NmLogging

/-! ## Times -/

theorem digitsValue_padded (w n : Nat) : digitsValue (padded w n) = n := by
  have hzeros : ∀ (k : Nat) (s : PyStr), digitsValue (List.replicate k 0x30 ++ s) = digitsValue s := by
    intro k s
    induction k with
    | zero => rfl
    | succ k ih => exact ih
  rw [padded, hzeros, digitsValue_natText]

theorem length_padded {k n : Nat} (h : n < 10 ^ (k + 1)) : (padded (k + 1) n).length = k + 1 := by
  have := length_natText_le h
  rw [padded, List.length_append, List.length_replicate]
  omega

/-- A number written with a fixed width can be told from what follows it. -/
theorem padded_append_inj {k m n : Nat} {s t : PyStr} (hm : m < 10 ^ (k + 1))
    (hn : n < 10 ^ (k + 1)) (h : padded (k + 1) m ++ s = padded (k + 1) n ++ t) :
    m = n ∧ s = t := by
  obtain ⟨hpadded, hrest⟩ :=
    List.append_inj h ((length_padded hm).trans (length_padded hn).symm)
  refine ⟨?_, hrest⟩
  rw [← digitsValue_padded (k + 1) m, hpadded, digitsValue_padded]

/-- A UTC timestamp can be read off its text. -/
theorem Datetime.isoformat_inj {t u : Datetime} (ht : t.utcoffset = some 0)
    (hu : u.utcoffset = some 0) (h : t.isoformat = u.isoformat) : t = u := by
  have hmicro : ∀ {m n : Fin 1000000},
      (if m = 0 then [] else lit "." ++ padded 6 m) = (if n = 0 then [] else lit "." ++ padded 6 n) →
        m = n := by
    intro m n h
    by_cases hm : m = 0
    · by_cases hn : n = 0
      · rw [hm, hn]
      · rw [if_pos hm, if_neg hn] at h
        cases h
    · by_cases hn : n = 0
      · rw [if_neg hm, if_pos hn] at h
        cases h
      · rw [if_neg hm, if_neg hn] at h
        have hpadded := List.append_cancel_left h
        refine Fin.ext ?_
        rw [← digitsValue_padded 6 m, hpadded, digitsValue_padded]
  have htwo : ∀ {m n : Nat} {s v : PyStr}, m < 60 → n < 60 →
      padded 2 m ++ s = padded 2 n ++ v → m = n ∧ s = v :=
    fun hm hn => padded_append_inj (Nat.lt_of_lt_of_le hm (by decide))
      (Nat.lt_of_lt_of_le hn (by decide))
  obtain ⟨year, month, day, hour, minute, second, micro, offset⟩ := t
  obtain ⟨year', month', day', hour', minute', second', micro', offset'⟩ := u
  cases ht
  cases hu
  simp only [isoformat, List.append_assoc] at h
  obtain ⟨hyear, h⟩ := padded_append_inj (k := 3) year.isLt year'.isLt h
  obtain ⟨hmonth, h⟩ := htwo (by omega) (by omega) (List.append_cancel_left h)
  obtain ⟨hday, h⟩ := htwo (by omega) (by omega) (List.append_cancel_left h)
  obtain ⟨hhour, h⟩ := htwo (by omega) (by omega) (List.append_cancel_left h)
  obtain ⟨hminute, h⟩ := htwo minute.isLt minute'.isLt (List.append_cancel_left h)
  obtain ⟨hsecond, h⟩ := htwo second.isLt second'.isLt (List.append_cancel_left h)
  rw [Fin.ext hyear, Fin.ext hmonth, Fin.ext hday, Fin.ext hhour, Fin.ext hminute,
    Fin.ext hsecond, hmicro (List.append_cancel_right h)]

/-! ## Entries -/

/-- What a mapping holds under the reserved keys. -/
def reservedEntries (r : Record) : List (PyAtom × PyObj) :=
  envelopeEntries r.envelope ++ kindEntries r ++ messageEntries r.envelope

/-- What follows the common envelope in a mapping. -/
def restEntries (r : Record) : List (PyAtom × PyObj) :=
  kindEntries r ++ r.envelope.fields.entries ++ messageEntries r.envelope

theorem kindEntries_reserved {r : Record} :
    ∀ e ∈ kindEntries r, isReserved e.1 = true ∧ e.1 ≠ key "message" := by
  intro e he
  have hkey := (kindEntries_keys r).subset (List.mem_map_of_mem he)
  have hall : ∀ k ∈ [key "severity", key "category", key "actor", key "stage", key "operation_id",
      key "outcome"], isReserved k = true ∧ k ≠ key "message" := by decide
  exact hall _ hkey

theorem messageEntries_key {r : Envelope} : ∀ e ∈ messageEntries r, e.1 = key "message" := by
  intro e he
  unfold messageEntries at he
  split at he
  · cases he
  · rw [List.mem_singleton.mp he]

/-- What follows the envelope falls apart at the reserved keys. -/
theorem filter_reserved (r : Record) :
    (restEntries r).filter (fun e => isReserved e.1) = kindEntries r ++ messageEntries r.envelope := by
  have hfields : r.envelope.fields.entries.filter (fun e => isReserved e.1) = [] :=
    List.filter_eq_nil_iff.mpr fun e he =>
      Bool.eq_false_iff.mp (r.valid.names e.1 (List.mem_map_of_mem he))
  have hmessage : ∀ e ∈ messageEntries r.envelope, isReserved e.1 = true := by
    intro e he
    rw [messageEntries_key e he]
    decide
  rw [restEntries, List.filter_append, List.filter_append, hfields, List.append_nil,
    List.filter_eq_self.mpr fun e he => (kindEntries_reserved e he).1,
    List.filter_eq_self.mpr hmessage]

theorem filter_not_reserved (r : Record) :
    (restEntries r).filter (fun e => !isReserved e.1) = r.envelope.fields.entries := by
  have hfields : ∀ e ∈ r.envelope.fields.entries, (!isReserved e.1) = true := by
    intro e he
    rw [r.valid.names e.1 (List.mem_map_of_mem he)]
    rfl
  have hkind : (kindEntries r).filter (fun e => !isReserved e.1) = [] :=
    List.filter_eq_nil_iff.mpr fun e he => by simp [(kindEntries_reserved e he).1]
  have hmessage : (messageEntries r.envelope).filter (fun e => !isReserved e.1) = [] := by
    refine List.filter_eq_nil_iff.mpr fun e he => ?_
    rw [messageEntries_key e he]
    decide
  rw [restEntries, List.filter_append, List.filter_append, hkind, hmessage, List.nil_append,
    List.append_nil, List.filter_eq_self.mpr hfields]

/-- The message is not among the keys of a kind. -/
theorem kind_message_inj {r₁ r₂ : Record}
    (h : kindEntries r₁ ++ messageEntries r₁.envelope =
      kindEntries r₂ ++ messageEntries r₂.envelope) :
    kindEntries r₁ = kindEntries r₂ ∧
      messageEntries r₁.envelope = messageEntries r₂.envelope := by
  have hkind : ∀ r : Record, (kindEntries r ++ messageEntries r.envelope).filter
      (fun e => e.1 ≠ key "message") = kindEntries r := by
    intro r
    have hmessage : (messageEntries r.envelope).filter (fun e => e.1 ≠ key "message") = [] :=
      List.filter_eq_nil_iff.mpr fun e he => by simp [messageEntries_key e he]
    rw [List.filter_append, hmessage, List.append_nil, List.filter_eq_self.mpr]
    exact fun e he => decide_eq_true (kindEntries_reserved e he).2
  have hsame : kindEntries r₁ = kindEntries r₂ := by rw [← hkind r₁, h, hkind r₂]
  exact ⟨hsame, List.append_cancel_left (hsame ▸ h)⟩

/-! ## Attributes -/

theorem messageEntries_inj {r₁ r₂ : Envelope} (h : messageEntries r₁ = messageEntries r₂) :
    r₁.message = r₂.message := by
  unfold messageEntries at h
  by_cases h₁ : r₁.message = .none
  · by_cases h₂ : r₂.message = .none
    · rw [h₁, h₂]
    · rw [if_pos h₁, if_neg h₂] at h
      cases h
  · by_cases h₂ : r₂.message = .none
    · rw [if_neg h₁, if_pos h₂] at h
      cases h
    · rw [if_neg h₁, if_neg h₂] at h
      exact PyObj.atom.inj (Prod.mk.inj (List.cons.inj h).1).2

/-- An envelope is told by its entries. -/
theorem Envelope.eq_of_entries {r₁ r₂ : Envelope} (hv₁ : r₁.Valid) (hv₂ : r₂.Valid)
    (henvelope : envelopeEntries r₁ = envelopeEntries r₂)
    (hfields : r₁.fields.entries = r₂.fields.entries)
    (hmessage : messageEntries r₁ = messageEntries r₂) : r₁ = r₂ := by
  have hmessage := messageEntries_inj hmessage
  have hfields := Dict.ext hfields
  have htime := @Datetime.isoformat_inj _ _ hv₁.timestamp hv₂.timestamp
  simp only [envelopeEntries, List.cons.injEq, Prod.mk.injEq, PyObj.atom.injEq, PyAtom.str.injEq,
    true_and, and_true] at henvelope
  obtain ⟨htimestamp, happ, hemitter, hevent⟩ := henvelope
  have htime := htime htimestamp
  cases r₁
  cases r₂
  simp only at hmessage hfields htime happ hemitter hevent
  rw [hmessage, hfields, htime, happ, hemitter, hevent]

theorem severity_value_inj {s t : Severity} (h : s.value = t.value) : s = t := by
  revert h
  cases s <;> cases t <;> decide

theorem category_value_inj {s t : Category} (h : s.value = t.value) : s = t := by
  revert h
  cases s <;> cases t <;> decide

theorem stage_value_inj {s t : Stage} (h : s.value = t.value) : s = t := by
  revert h
  cases s <;> cases t <;> decide

theorem outcome_value_inj {s t : Outcome} (h : s.value = t.value) : s = t := by
  revert h
  cases s <;> cases t <;> decide

/-- The keys of an audit record that may be absent. -/
theorem optional_inj {a b : PyAtom} {o p : Option Outcome}
    (h : (if a = .none then [] else [(key "operation_id", PyObj.atom a)]) ++
        (match o with
          | none => []
          | some o => [(key "outcome", PyObj.atom (.str o.value))]) =
      (if b = .none then [] else [(key "operation_id", PyObj.atom b)]) ++
        (match p with
          | none => []
          | some o => [(key "outcome", PyObj.atom (.str o.value))])) : a = b ∧ o = p := by
  have hne : key "operation_id" ≠ key "outcome" := by decide
  have houtcomes : ∀ {o p : Option Outcome},
      (match o with
        | none => []
        | some o => [(key "outcome", PyObj.atom (.str o.value))]) =
      (match p with
        | none => []
        | some o => [(key "outcome", PyObj.atom (.str o.value))]) → o = p := by
    intro o p h
    cases o with
    | none =>
      cases p with
      | none => rfl
      | some y => cases h
    | some x =>
      cases p with
      | none => cases h
      | some y =>
        rw [outcome_value_inj (PyAtom.str.inj (PyObj.atom.inj (Prod.mk.inj (List.cons.inj h).1).2))]
  by_cases ha : a = .none
  · by_cases hb : b = .none
    · rw [if_pos ha, if_pos hb] at h
      exact ⟨ha.trans hb.symm, houtcomes h⟩
    · rw [if_pos ha, if_neg hb] at h
      cases o with
      | none => cases h
      | some x => exact absurd (Prod.mk.inj (List.cons.inj h).1).1.symm hne
  · by_cases hb : b = .none
    · rw [if_neg ha, if_pos hb] at h
      cases p with
      | none => cases h
      | some y => exact absurd (Prod.mk.inj (List.cons.inj h).1).1 hne
    · rw [if_neg ha, if_neg hb] at h
      obtain ⟨hhead, htail⟩ := List.cons.inj h
      exact ⟨PyObj.atom.inj (Prod.mk.inj hhead).2, houtcomes htail⟩

/-- A record is told by its envelope and the entries of its kind. -/
theorem Record.eq_of_kindEntries {r₁ r₂ : Record} (henvelope : r₁.envelope = r₂.envelope)
    (h : kindEntries r₁ = kindEntries r₂) : r₁ = r₂ := by
  have hkinds : key "severity" ≠ key "category" := by decide
  cases r₁ with
  | base r ok =>
    cases r₂ with
    | base r' ok' =>
      cases henvelope
      rfl
    | operational r' => cases h
    | audit r' => cases h
  | operational r =>
    cases r₂ with
    | base r' ok' => cases h
    | operational r' =>
      obtain ⟨⟨e, severity⟩, ok⟩ := r
      obtain ⟨⟨e', severity'⟩, ok'⟩ := r'
      cases henvelope
      have hvalue : severity.value = severity'.value :=
        PyAtom.str.inj (PyObj.atom.inj (Prod.mk.inj (List.cons.inj h).1).2)
      cases severity_value_inj hvalue
      rfl
    | audit r' => exact absurd (Prod.mk.inj (List.cons.inj h).1).1 hkinds
  | audit r =>
    cases r₂ with
    | base r' ok' => cases h
    | operational r' => exact absurd (Prod.mk.inj (List.cons.inj h).1).1.symm hkinds
    | audit r' =>
      obtain ⟨⟨e, category, actor, stage, operationId, outcome⟩, ok⟩ := r
      obtain ⟨⟨e', category', actor', stage', operationId', outcome'⟩, ok'⟩ := r'
      cases henvelope
      simp only [kindEntries, List.cons_append, List.nil_append, List.cons.injEq,
        Prod.mk.injEq, PyObj.atom.injEq, PyAtom.str.injEq, true_and] at h
      obtain ⟨hcategory, hactor, hstage, hoptional⟩ := h
      obtain ⟨hid, houtcome⟩ := optional_inj hoptional
      cases category_value_inj hcategory
      cases stage_value_inj hstage
      cases hactor
      cases hid
      cases houtcome
      rfl

/-- A record is told by its mapping. -/
theorem Record.eq_of_mappingEntries {r₁ r₂ : Record} (h : mappingEntries r₁ = mappingEntries r₂) :
    r₁ = r₂ := by
  have hsplit : ∀ r : Record, mappingEntries r = envelopeEntries r.envelope ++ restEntries r := by
    intro r
    simp only [mappingEntries, restEntries, List.append_assoc]
  rw [hsplit, hsplit] at h
  have hlength : ∀ r : Envelope, (envelopeEntries r).length = 5 := fun _ => rfl
  obtain ⟨henvelope, hrest⟩ := List.append_inj h ((hlength _).trans (hlength _).symm)
  have hfields : r₁.envelope.fields.entries = r₂.envelope.fields.entries := by
    rw [← filter_not_reserved, hrest, filter_not_reserved]
  have hreserved : kindEntries r₁ ++ messageEntries r₁.envelope =
      kindEntries r₂ ++ messageEntries r₂.envelope := by
    rw [← filter_reserved, hrest, filter_reserved]
  obtain ⟨hkind, hmessage⟩ := kind_message_inj hreserved
  exact eq_of_kindEntries (Envelope.eq_of_entries r₁.valid r₂.valid henvelope hfields hmessage) hkind

/-! ## Texts -/

/-- The values of a mapping are no lists. -/
theorem frozen_of_mem_mappingEntries {r : Record} {e : PyAtom × PyObj}
    (he : e ∈ mappingEntries r) : e.2.asList.frozen = e.2 := by
  obtain ⟨k, v⟩ := e
  rcases mappingEntries_cases he with he | ⟨-, he⟩
  · have hvalue : isFieldValue v = true := r.valid.values v (List.mem_map_of_mem he)
    cases v with
    | atom a => rfl
    | tuple xs => rfl
    | list xs => cases hvalue
  · rcases he with rfl | ⟨s, rfl⟩ <;> rfl

variable [PyRuntime]

/-- Records with string names and the same text have the same mapping. -/
theorem mappingEntries_of_encode {r₁ r₂ : Record} {s : PyStr} (h₁ : encode r₁ = .ok s)
    (h₂ : encode r₂ = .ok s) (hn₁ : StringNames r₁) (hn₂ : StringNames r₂) :
    mappingEntries r₁ = mappingEntries r₂ := by
  obtain ⟨kvs₁, hk₁, -⟩ := encode_ok.mp h₁
  obtain ⟨kvs₂, hk₂, -⟩ := encode_ok.mp h₂
  obtain ⟨hload₁, hmap₁⟩ := loads_encode_members h₁ hk₁ hn₁
  obtain ⟨hload₂, hmap₂⟩ := loads_encode_members h₂ hk₂ hn₂
  have hkvs : kvs₁ = kvs₂ := Json.Value.obj.inj (Except.ok.inj (hload₁.symm.trans hload₂))
  have hthaw : ∀ r : Record, ((mappingEntries r).map fun e => (e.1, some e.2.asList)).map
      (fun p => (p.1, p.2.map PyObj.frozen)) = (mappingEntries r).map fun e => (e.1, some e.2) := by
    intro r
    rw [List.map_map]
    refine List.map_congr_left fun e he => ?_
    rw [Function.comp_apply, Option.map_some, frozen_of_mem_mappingEntries he]
  have hinj : Function.Injective fun e : PyAtom × PyObj => (e.1, some e.2) := by
    intro e f h
    obtain ⟨hkey, hvalue⟩ := Prod.mk.inj h
    exact Prod.ext hkey (Option.some.inj hvalue)
  refine List.map_injective_iff.mpr hinj ?_
  rw [← hthaw, ← hthaw, ← hmap₁, ← hmap₂, hkvs]

/-- Records with string names and the same text, of which one can be encoded, are the same. -/
theorem Record.eq_of_encode {r₁ r₂ : Record} (hencodable : r₁.envelope.Encodable)
    (hn₁ : StringNames r₁) (hn₂ : StringNames r₂) (h : encode r₁ = encode r₂) : r₁ = r₂ := by
  obtain ⟨s, hs⟩ := (decides_encode r₁).exists_ok_iff.mpr hencodable
  exact Record.eq_of_mappingEntries (mappingEntries_of_encode hs (h ▸ hs) hn₁ hn₂)

/-- The text of a record is its own: records with string names of which one can be encoded have
the same values if their texts are the same, and are the same if besides neither has an instance
of a proper subclass. The mapping of a record holds, under distinct keys, the envelope, the
keys of its kind, its fields and its message, in this order, and under a reserved key what is
the record's own. -/
theorem encode_unambiguous :
    (∀ r₁ r₂ : RecordInstance, r₁.builtin.envelope.Encodable → StringNames r₁.builtin →
      StringNames r₂.builtin → r₁.encode = r₂.encode →
        r₁.builtin = r₂.builtin ∧ (r₁.Exact → r₂.Exact → r₁ = r₂)) ∧
    ∀ r : RecordInstance, ∃ m, r.toMapping = .ok m ∧ m.keys.Nodup ∧
      m.entries = RecordInstance.envelopeEntries r.envelope ++ r.kindEntries ++
        RecordInstance.fieldEntries r.envelope ++ RecordInstance.messageEntries r.envelope ∧
      ∀ k v, isReserved k = true → (m.get? k = some v ↔ (k, v) ∈ r.reservedEntries) := by
  constructor
  · intro r₁ r₂ hencodable hn₁ hn₂ h
    rw [RecordInstance.encode_builtin, RecordInstance.encode_builtin] at h
    have hbuiltin := Record.eq_of_encode hencodable hn₁ hn₂ h
    exact ⟨hbuiltin, fun he₁ he₂ => he₁.eq he₂ hbuiltin⟩
  · intro r
    obtain ⟨m, hm, hentries⟩ := r.toMapping_eq
    refine ⟨m, hm, m.nodup, hentries, fun k v hk => ?_⟩
    rw [Dict.get?_eq_some, hentries]
    exact RecordInstance.mem_mappingEntries_reserved hk

omit [PyRuntime]

/-- An intent with a field. -/
def resultArgs (v : AtomInstance) : AuditInstance where
  application := .of sampleIntent.application
  emitter := .of sampleIntent.emitter
  event := .of sampleIntent.event
  timestamp := firstHour
  fields := Dict.empty.set (key "result") ⟨none, .atom v⟩
  message := .of .none
  category := .admin
  actor := .of sampleIntent.actor
  stage := .intent
  operationId := .of sampleIntent.operationId
  outcome := none

/-- With the int 1, or a member of an `IntEnum` with that value. -/
def resultRecord (subclass : Option PyStr) : RecordInstance :=
  .audit (resultArgs ⟨.int 1, subclass, .inr rfl⟩) (by
    rw [← AuditInstance.postInit_builtin]
    exact (by decide +kernel : (resultArgs (.of (.int 1))).builtin.postInit = .ok ()))

/-- The string of its digit. -/
def textRecord : RecordInstance := .audit (resultArgs (.of (.str (lit "1")))) (by decide +kernel)

theorem encodable_resultRecord (subclass : Option PyStr) :
    (resultRecord subclass).builtin.envelope.Encodable where
  names k hk := by
    cases List.mem_singleton.mp hk
    trivial
  scalars v hv a ha := by
    cases List.mem_singleton.mp hv
    cases List.mem_singleton.mp ha
    exact (by decide : overlong 1 = false)

theorem stringNames_resultRecord (subclass : Option PyStr) :
    StringNames (resultRecord subclass).builtin := by
  intro k hk
  cases List.mem_singleton.mp hk
  rfl

theorem encode_resultRecord [PyRuntime] (subclass : Option PyStr) :
    (resultRecord subclass).encode = (resultRecord none).encode := by
  rw [RecordInstance.encode_builtin, RecordInstance.encode_builtin]
  rfl

/-- The text does not tell an int from a member of an `IntEnum`. -/
theorem not_encode_exact :
    let _ := PyRuntime.plain
    ¬∀ r₁ r₂ : RecordInstance, r₁.builtin.envelope.Encodable → StringNames r₁.builtin →
      StringNames r₂.builtin → r₁.encode = r₂.encode → r₁ = r₂ := by
  intro _ h
  have hsame := h (resultRecord none) (resultRecord (some (lit "Result")))
    (encodable_resultRecord _) (stringNames_resultRecord _) (stringNames_resultRecord _)
    (encode_resultRecord _).symm
  have hsubclass : none = some (lit "Result") := by
    injection hsame with hargs
    injection hargs with henvelope
    injection henvelope with _ _ _ _ hfields
    injection hfields with hentries
    injection hentries with hentry
    injection hentry with _ hvalue
    injection hvalue with _ hatom
    injection hatom with hinstance
    exact (AtomInstance.mk.inj hinstance).2
  cases hsubclass

/-- It is that of the int, and not that of the string of its digits. -/
theorem encode_unambiguous_resultArgs :
    let _ := PyRuntime.plain
    (resultRecord (some (lit "Result"))).builtin = (resultRecord none).builtin ∧
      (resultRecord none).encode ≠ textRecord.encode := by
  intro _
  refine ⟨(encode_unambiguous.1 _ _ (encodable_resultRecord _) (stringNames_resultRecord _)
    (stringNames_resultRecord _) (encode_resultRecord _)).1, fun h => ?_⟩
  have hsame := (encode_unambiguous.1 (resultRecord none) textRecord (encodable_resultRecord _)
    (stringNames_resultRecord _)
    (fun k hk => (by cases List.mem_singleton.mp hk; rfl)) h).1
  exact absurd (congrArg (fun r => r.envelope.fields.entries) hsame) (by decide)

end NmLogging
