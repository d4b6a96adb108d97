import NmLogging.Reader.Jsonl
import NmLogging.Sinks.Framing

/-!
# Reading what was written

At any moment of any run, the reader finds in the first `k` bytes of a file that
started empty the mappings of the records whose lines end there, and nothing else
(`iterate_take`): wherever the file is cut, what is behind the last whole line is
a torn tail. The line of a record is read as its mapping, with tuples as lists
(`lineObject_of_encodeLine`).
-/

namespace NmLogging

/-! ## What is read of a mapping -/

/-- The object that `json.loads` makes of a value that is no array or object. -/
def PyAtom.ofJson : Json.Value PyFloat → Option PyAtom
  | .null => some .none
  | .bool b => some (.bool b)
  | .int i => some (.int i)
  | .float f => some (.float f)
  | .str s => some (.str s)
  | .arr _ | .obj _ => Option.none

/-- The object that `json.loads` makes of a value without nesting. -/
def PyObj.ofJson : Json.Value PyFloat → Option PyObj
  | .arr vs => (vs.mapM PyAtom.ofJson).map .list
  | v => (PyAtom.ofJson v).map .atom

/-- A tuple as a list of the same elements. -/
def PyObj.asList : PyObj → PyObj
  | .tuple xs => .list xs
  | x => x

/-- A mapping that was read has the entries of `m`, in their order, with tuples
as lists. -/
def ReadsBack (m : Dict PyAtom PyObj) (obj : JsonObject) : Prop :=
  obj.map (fun kv => (PyAtom.str kv.1, PyObj.ofJson kv.2)) =
    m.entries.map fun e => (e.1, some e.2.asList)

/-- The names of the event fields are strings. -/
def StringNames (r : Record) : Prop := ∀ k ∈ r.envelope.fields.keys, k.isStr = true

theorem PyAtom.ofJson_toJson {a : PyAtom} {v : Json.Value PyFloat} (h : a.toJson = .ok v) :
    PyAtom.ofJson v = some a := by
  cases a with
  | none => cases h; rfl
  | bool b => cases h; rfl
  | int i =>
    simp only [toJson, intStr] at h
    split at h
    · cases h
    · cases h; rfl
  | float f =>
    simp only [toJson] at h
    split at h
    · cases h; rfl
    · cases h
  | str s => cases h; rfl
  | other t => cases h

theorem mapM_ofJson {xs : List PyAtom} {vs : List (Json.Value PyFloat)}
    (h : xs.mapM PyAtom.toJson = .ok vs) : vs.mapM PyAtom.ofJson = some xs := by
  replace h := mapM_eq_ok.mp h
  induction h with
  | nil => rfl
  | cons hv _ ih => rw [List.mapM_cons, PyAtom.ofJson_toJson hv, ih]; rfl

theorem PyObj.ofJson_toJson {x : PyObj} {v : Json.Value PyFloat} (h : x.toJson = .ok v) :
    PyObj.ofJson v = some x.asList := by
  have atom : ∀ {a : PyAtom}, PyAtom.ofJson v = some a → PyObj.ofJson v = some (.atom a) := by
    intro a ha
    cases v with
    | arr vs => simp [PyAtom.ofJson] at ha
    | obj kvs => simp [PyAtom.ofJson] at ha
    | _ => simp only [ofJson, ha]; rfl
  have arr : ∀ {xs : List PyAtom}, (xs.mapM PyAtom.toJson).map Json.Value.arr = .ok v →
      PyObj.ofJson v = some (.list xs) := by
    intro xs h
    cases hm : xs.mapM PyAtom.toJson with
    | error e => rw [hm] at h; cases h
    | ok vs =>
      rw [hm] at h
      cases h
      simp only [ofJson, mapM_ofJson hm]
      rfl
  cases x with
  | atom a => exact atom (PyAtom.ofJson_toJson h)
  | list xs => exact arr h
  | tuple xs => exact arr h

/-- Every key of a mapping is a string where the names of the fields are. -/
theorem isStr_of_mem_mappingEntries {r : Record} (h : StringNames r) :
    ∀ e ∈ mappingEntries r, e.1.isStr = true := by
  intro e he
  simp only [mappingEntries, List.mem_append, or_assoc] at he
  rcases he with he | he | he | he
  · simp only [envelopeEntries, List.mem_cons, List.not_mem_nil, or_false] at he
    rcases he with rfl | rfl | rfl | rfl | rfl <;> rfl
  · have := (kindEntries_keys r).subset (List.mem_map_of_mem he)
    simp only [List.mem_cons, List.not_mem_nil, or_false] at this
    rcases this with e | e | e | e | e | e <;> rw [e] <;> rfl
  · exact h e.1 (List.mem_map_of_mem he)
  · unfold messageEntries at he
    split at he
    · cases he
    · rw [List.mem_singleton] at he
      subst he
      rfl

variable [PyRuntime]

/-- What the encoder writes for a mapping with string keys reads back as it. -/
theorem entries_of_members {es : List (PyAtom × PyObj)} {kvs : JsonObject}
    (h : es.mapM memberJson = .ok kvs) (hs : ∀ e ∈ es, e.1.isStr = true) :
    kvs.map (fun kv => (PyAtom.str kv.1, PyObj.ofJson kv.2)) =
      es.map fun e => (e.1, some e.2.asList) := by
  replace h := mapM_eq_ok.mp h
  induction h with
  | nil => rfl
  | @cons e kv es kvs hv _ ih =>
    obtain ⟨hk, hv⟩ := memberJson_ok.mp hv
    have he : e.1 = .str kv.1 := by
      have := hs e List.mem_cons_self
      cases h1 : e.1 with
      | str s => rw [h1] at hk; cases hk; rfl
      | _ => rw [h1] at this; cases this
    rw [List.map_cons, List.map_cons, ih fun e he => hs e (List.mem_cons_of_mem _ he), he,
      PyObj.ofJson_toJson hv]

/-- The text of a record with string names reads back as its mapping, with tuples as lists. -/
theorem loads_encode_members {r : Record} {s : PyStr} {kvs : JsonObject} (hs : encode r = .ok s)
    (hk : recordJson r = .ok kvs) (hstr : StringNames r) :
    loads s = .ok (.obj kvs) ∧ kvs.map (fun kv => (PyAtom.str kv.1, PyObj.ofJson kv.2)) =
      (mappingEntries r).map fun e => (e.1, some e.2.asList) := by
  have hmap := entries_of_members hk (isStr_of_mem_mappingEntries hstr)
  have hnd : (kvs.map Prod.fst).Nodup := by
    have hkeys : kvs.map (fun kv => PyAtom.str kv.1) = (mappingEntries r).map Prod.fst := by
      have := congrArg (List.map Prod.fst) hmap
      simpa [List.map_map, Function.comp_def] using this
    have hn := mappingEntries_nodup r
    rw [← hkeys, ← Function.comp_def PyAtom.str Prod.fst, ← List.map_map] at hn
    exact hn.of_map _
  have hload := loads_encode (w := []) hs hk (by simp)
  rw [Json.assignAll_of_nodup (by simpa using hnd), List.nil_append, List.nil_append] at hload
  exact ⟨hload, hmap⟩

/-- The line of a record is read as an object. -/
theorem lineObject_of_encodeLine {kind : StreamKind} {r : Record} {l : Bytes}
    (h : kind.encodeLine r = .ok l) :
    ∃ obj, lineObject l = some obj ∧
      (StringNames r → ∃ m, toMapping r = .ok m ∧ ReadsBack m obj) := by
  obtain ⟨-, -, s, data, hs, hd, rfl⟩ := encodeLine_ok h
  obtain ⟨kvs, hk, -⟩ := encode_ok.mp hs
  have hload := loads_encode (w := []) hs hk (by simp)
  refine ⟨_, lineObject_eq_some.mpr ⟨s, ?_, hload⟩, fun hstr => ?_⟩
  · rw [List.dropLast_concat]
    exact decodeUtf8_encodeUtf8 hd
  · obtain ⟨m, hm, he⟩ := toMapping_eq r
    obtain ⟨hmembers, hmap⟩ := loads_encode_members hs hk hstr
    have hobj : Json.assignAll [] kvs = kvs := by
      rw [List.nil_append, hmembers] at hload
      exact (Json.Value.obj.inj (Except.ok.inj hload)).symm
    refine ⟨m, hm, ?_⟩
    rw [hobj, ReadsBack, he, hmap]

/-- What is read of the line of a record is what `json.loads` makes of its text. -/
theorem loads_of_encodeLine {kind : StreamKind} {r : Record} {l : Bytes} {obj : JsonObject}
    (h : kind.encodeLine r = .ok l) (hobj : lineObject l = some obj) :
    ∃ s, encode r = .ok s ∧ loads s = .ok (.obj obj) := by
  obtain ⟨-, -, s, data, hs, hd, rfl⟩ := encodeLine_ok h
  obtain ⟨text, htext, hload⟩ := lineObject_eq_some.mp hobj
  rw [List.dropLast_concat, decodeUtf8_encodeUtf8 hd] at htext
  cases htext
  exact ⟨s, hs, hload⟩

/-! ## What is read of a file -/

variable {kind : StreamKind}

theorem exists_of_completes {log : List Entry} {e : Entry} (h : e ∈ completes kind log) :
    ∃ sink r, e.call = .write sink r ∧ kind.encodeLine r = .ok e.wrote := by
  have h := of_decide_eq_true (List.mem_filter.mp h).2
  cases hc : e.call with
  | write sink r => rw [hc] at h; exact ⟨sink, r, rfl, lineOf_write.mp h⟩
  | close sink => rw [hc] at h; cases h

/-- The object that is read of the line of an entry is its record's mapping. -/
def EntryReads (e : Entry) (obj : JsonObject) : Prop :=
  ∃ sink r m, e.call = .write sink r ∧ toMapping r = .ok m ∧ ReadsBack m obj

/-- The objects of the lines of entries are the mappings of their records. -/
theorem objectsOf_entries {es : List Entry}
    (h : ∀ e ∈ es, ∃ sink r, e.call = .write sink r ∧ kind.encodeLine r = .ok e.wrote ∧
      StringNames r) : List.Forall₂ EntryReads es (objectsOf (es.map Entry.wrote)) := by
  induction es with
  | nil => exact .nil
  | cons e es ih =>
    obtain ⟨sink, r, hc, hl, hstr⟩ := h e List.mem_cons_self
    obtain ⟨obj, hobj, hm⟩ := lineObject_of_encodeLine hl
    obtain ⟨m, hm, hr⟩ := hm hstr
    rw [List.map_cons, objectsOf, hobj]
    exact .cons ⟨sink, r, m, hc, hm, hr⟩ (ih fun e he => h e (List.mem_cons_of_mem _ he))

/-- A file of the lines of entries and a torn tail is read as their mappings. -/
theorem iterate_entries {es : List Entry}
    (h : ∀ e ∈ es, ∃ sink r, e.call = .write sink r ∧ kind.encodeLine r = .ok e.wrote ∧
      StringNames r) {t : Bytes} (ht : newline ∉ t) :
    List.Forall₂ EntryReads es (iterate ((es.map Entry.wrote).flatten ++ t)).records ∧
      (iterate ((es.map Entry.wrote).flatten ++ t)).error = none ∧
      (iterate ((es.map Entry.wrote).flatten ++ t)).truncated = decide (t ≠ []) := by
  have hline : ∀ l ∈ es.map Entry.wrote, IsLine l ∧ (lineObject l).isSome := by
    intro l hl
    obtain ⟨e, he, rfl⟩ := List.mem_map.mp hl
    obtain ⟨_, _, -, hl, -⟩ := h e he
    obtain ⟨obj, hobj, -⟩ := lineObject_of_encodeLine hl
    exact ⟨(encodeLine_ok hl).1, by rw [hobj]; rfl⟩
  refine ⟨?_, iterate_of_objects (fun l hl => (hline l hl).1) ht fun l hl => (hline l hl).2⟩
  rw [iterate_records (fun l hl => (hline l hl).1) ht]
  exact objectsOf_entries h

variable {cfg : Config (lockSig streamSig) PyError Unit Call (Locked Stream)}

/-- **The reader over a prefix of a file.** In every run on a file that started
empty, the first `k` bytes are read as the records whose lines end within them; and
a file that is not latched is read in full. -/
theorem iterate_take (kind : StreamKind)
    (h : (fileSystem kind).Reachable ⟨none, .fresh []⟩ cfg)
    (hnames : ∀ e ∈ completes kind cfg.shared.payload.log, ∀ sink r, e.call = .write sink r →
      StringNames r) :
    (∀ k ≤ cfg.shared.payload.content.length, ∃ n,
      (∀ j, j < n ↔ j < (completes kind cfg.shared.payload.log).length ∧
        (writtenBytes ((completes kind cfg.shared.payload.log).take (j + 1))).length ≤ k) ∧
      List.Forall₂ EntryReads ((completes kind cfg.shared.payload.log).take n)
        (iterate (cfg.shared.payload.content.take k)).records ∧
      (iterate (cfg.shared.payload.content.take k)).error = none ∧
      ((iterate (cfg.shared.payload.content.take k)).truncated = true ↔
        0 < k ∧ cfg.shared.payload.content[k - 1]? ≠ some newline)) ∧
    (cfg.shared.holder = none → cfg.shared.payload.latched = false →
      List.Forall₂ EntryReads (completes kind cfg.shared.payload.log)
        (iterate cfg.shared.payload.content).records ∧
      (iterate cfg.shared.payload.content).error = none ∧
      (iterate cfg.shared.payload.content).truncated = false) := by
  have hsafe := framing_safe (fun _ _ _ => True) true kind []
  have hentry : ∀ e ∈ completes kind cfg.shared.payload.log,
      ∃ sink r, e.call = .write sink r ∧ kind.encodeLine r = .ok e.wrote ∧ StringNames r := by
    intro e he
    obtain ⟨sink, r, hc, hl⟩ := exists_of_completes he
    exact ⟨sink, r, hc, hl, hnames e he sink r hc⟩
  refine ⟨fun k hk => ?_, fun hfree hopen => ?_⟩
  · obtain ⟨torn, hs⟩ := Monitor.reachable_always hsafe (framing_fresh kind []) (fun _ => rfl) h
    have hcont := hs.content
    rw [List.nil_append, writtenBytes_eq] at hcont
    have hlines : ∀ l ∈ (completes kind cfg.shared.payload.log).map Entry.wrote, IsLine l := by
      intro l hl
      obtain ⟨e, he, rfl⟩ := List.mem_map.mp hl
      obtain ⟨_, _, -, hl, -⟩ := hentry e he
      exact (encodeLine_ok hl).1
    rw [hcont] at hk ⊢
    generalize completes kind cfg.shared.payload.log = es at hk hentry hlines ⊢
    obtain ⟨t', ht', htake⟩ := take_lines hlines hs.newline_notMem k
    have hread := iterate_entries
      (fun e he => hentry e (List.mem_of_mem_take (i := linesWithin (es.map Entry.wrote) k) he)) ht'
    rw [List.map_take, ← htake] at hread
    refine ⟨linesWithin (es.map Entry.wrote) k, fun j => ?_, hread.1, hread.2.1, ?_⟩
    · rw [lt_linesWithin, List.length_map, writtenBytes_eq, List.map_take]
    · rw [hread.2.2, decide_eq_true_iff,
        torn_ne_nil_iff (fun l hl => hlines l (List.mem_of_mem_take hl)) ht', ← htake,
        List.getLast?_take, ← List.length_pos_iff, List.length_take]
      cases k with
      | zero => simp
      | succ k =>
        rw [Nat.add_sub_cancel, List.getElem?_eq_getElem hk]
        simp only [Nat.succ_ne_zero, if_false, Option.some_or, Nat.min_eq_left hk]
  · obtain ⟨t, hs, ht⟩ := Monitor.reachable_free hsafe (framing_fresh kind []) (fun _ => rfl) h hfree
    have hcont := hs.content
    rw [List.nil_append, writtenBytes_eq, ht.mpr hopen] at hcont
    rw [hcont]
    exact iterate_entries hentry (by simp)

omit [PyRuntime] in
/-- Two lines, read from the whole file and from a cut behind the first byte of the second. -/
theorem iterate_take_counted :
    let _ := PyRuntime.plain
    ∃ p l₁ l₂, (fileSystem .audit).Reachable ⟨none, .fresh []⟩
        ⟨⟨none, p⟩, [(.write 0 (.audit countedIntent), .ret ()),
          (.write 0 (.audit countedOutcome), .ret ())]⟩ ∧
      p.content = l₁ ++ l₂ ∧
      List.Forall₂ EntryReads [⟨0, .write 0 (.audit countedIntent), [], l₁, true⟩]
        (iterate (p.content.take (l₁.length + 1))).records ∧
      (iterate (p.content.take (l₁.length + 1))).error = none ∧
      (iterate (p.content.take (l₁.length + 1))).truncated = true ∧
      List.Forall₂ EntryReads [⟨0, .write 0 (.audit countedIntent), [], l₁, true⟩,
          ⟨1, .write 0 (.audit countedOutcome), l₁, l₂, true⟩] (iterate p.content).records ∧
      (iterate p.content).error = none ∧ (iterate p.content).truncated = false := by
  intro _
  obtain ⟨l₁, hl₁⟩ := exists_encodeLine_countedIntent
  obtain ⟨l₂, hl₂⟩ := exists_encodeLine_countedOutcome
  obtain ⟨t, rfl, ht⟩ := head_encodeLine hl₂
  have htpos := List.length_pos_iff.mpr ht
  obtain ⟨p₁, hr, hcont₁, -, hlog₁, hopen₁, hclosed⟩ :=
    @reachable_write _ [] (fun _ _ _ => True) 0 _ _ hl₁ trivial
  obtain ⟨p, hsteps, hcont, -, hlog, hopen, -⟩ := @steps_write _ _ (fun _ _ _ => True)
    [(.write 0 (.audit countedIntent), .ret ())] 0 _ _ hl₂ hclosed hopen₁ (by simp [hlog₁]) trivial
  have hr := Relation.ReflTransGen.trans hr hsteps
  rw [List.nil_append] at hcont₁
  rw [hcont₁] at hcont
  rw [hlog₁, hcont₁] at hlog
  have hcomp : completes .audit p.log = [⟨0, .write 0 (.audit countedIntent), [], l₁, true⟩,
      ⟨1, .write 0 (.audit countedOutcome), l₁, 0x7b :: t, true⟩] := by
    rw [hlog, completes_append, completes_singleton_write hl₁, completes_singleton_write hl₂,
      List.singleton_append, List.length_singleton]
  have hnames : ∀ e ∈ completes .audit p.log, ∀ sink r, e.call = .write sink r →
      StringNames r := by
    rw [hcomp]
    intro e he sink r hc
    simp only [List.mem_cons, List.not_mem_nil, or_false] at he
    rcases he with rfl | rfl <;> cases hc
    · show ∀ k ∈ countedIntent.fields.keys, k.isStr = true
      decide
    · show ∀ k ∈ countedOutcome.fields.keys, k.isStr = true
      decide
  obtain ⟨hcut, hwhole⟩ := iterate_take .audit hr hnames
  obtain ⟨n, hn, hread, herr, htrunc⟩ := hcut (l₁.length + 1)
    (by simp only [hcont, List.length_append, List.length_cons]; omega)
  rw [hcomp] at hn hread
  -- The cut is behind the first line and not behind the second.
  have hone : n = 1 := by
    have h₀ := (hn 0).mpr (by simp [writtenBytes])
    have h₁ := mt (hn 1).mp (by simp [writtenBytes]; omega)
    omega
  subst hone
  have hlast : p.content[l₁.length]? ≠ some newline := by
    rw [hcont, List.getElem?_append_right (Nat.le_refl _), Nat.sub_self]
    simp [newline]
  have hwhole := hwhole rfl hopen
  rw [hcomp] at hwhole
  exact ⟨p, l₁, _, hr, hcont, hread, herr, htrunc.mpr ⟨Nat.succ_pos _, hlast⟩, hwhole⟩

end NmLogging
