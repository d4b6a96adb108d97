import NmLogging.Framework.JsonParse
import NmLogging.Reader.Jsonl

/-!
# Which lines the reader accepts

The reader promises the objects of complete lines up to the first that is no object text,
where it raises, and nothing but a torn tail left out (`ReadAs`). It keeps the promise on a
file exactly where `json.loads` agrees with the grammar on every line as far as that first
one (`iterate_iff`): where no such line is nested more deeply than the interpreter allows,
is an object only by the words that `json` adds to the grammar, or is an object with an
integer that the interpreter does not convert.
-/

namespace NmLogging

variable [PyRuntime]

/-- A line, without its newline, is the UTF-8 encoding of an object text. -/
def IsObjectLine (body : Bytes) (kvs : JsonObject) : Prop :=
  ∃ text d, encodeUtf8 text = some body ∧
    Json.IsText (Json.rfc8259 PyRuntime.floatOfText) d text (.obj kvs)

/-- What is to be read of a file, behind `lineno` lines and `offset` bytes: the objects of
its lines up to the first line that is none, which raises and is named by its number and
where it starts; with no such line the torn tail, if there is one, is reported. -/
inductive ReadAs : Nat → Nat → Bytes → Reading → Prop where
  | tail {lineno offset : Nat} {t : Bytes} : newline ∉ t →
    ReadAs lineno offset t ⟨[], none, decide (t ≠ [])⟩
  | object {lineno offset : Nat} {body f : Bytes} {kvs : JsonObject} {r : Reading} :
    newline ∉ body → IsObjectLine body kvs →
    ReadAs (lineno + 1) (offset + (body ++ [newline]).length) f r →
    ReadAs lineno offset (body ++ newline :: f) { r with records := kvs :: r.records }
  | damaged {lineno offset : Nat} {body f : Bytes} {damage : String} {truncated : Bool} :
    newline ∉ body → (∀ kvs, ¬IsObjectLine body kvs) →
    ReadAs lineno offset (body ++ newline :: f)
      ⟨[], some (readerError damage (lineno + 1) offset), truncated⟩

/-- `json.loads` agrees with the grammar on a line: its text is not nested too deeply, and
is an object for the one as it is for the other. -/
def Agrees (body : Bytes) : Prop :=
  ∀ text, encodeUtf8 text = some body →
    ¬Json.TooDeep decoder.dialect PyRuntime.jsonDepth text ∧
      ∀ kvs, (∃ d, Json.IsText (Json.rfc8259 PyRuntime.floatOfText) d text (.obj kvs)) ↔
        Json.IsText decoder.dialect PyRuntime.jsonDepth text (.obj kvs)

/-- `json.loads` agrees with the grammar on every line with only object texts before it. -/
def AgreesOn (content : Bytes) : Prop :=
  ∀ (good : List Bytes) (body f : Bytes), (∀ l ∈ good, newline ∉ l ∧ ∃ kvs, IsObjectLine l kvs) →
    newline ∉ body → content = good.flatMap (· ++ [newline]) ++ (body ++ newline :: f) → Agrees body

/-! ## One line -/

omit [PyRuntime] in
theorem encodeUtf8_iff {text : PyStr} {body : Bytes} :
    encodeUtf8 text = some body ↔ decodeUtf8 body = some text :=
  ⟨decodeUtf8_encodeUtf8, encodeUtf8_decodeUtf8⟩

theorem agrees_of_decode {text : PyStr} {body : Bytes} (h : decodeUtf8 body = some text) :
    Agrees body ↔ loads text ≠ .error .recursion ∧
      ∀ kvs, (∃ d, Json.IsText (Json.rfc8259 PyRuntime.floatOfText) d text (.obj kvs)) ↔
        loads text = .ok (.obj kvs) := by
  have hdeep : loads text = .error .recursion ↔ Json.TooDeep decoder.dialect PyRuntime.jsonDepth text :=
    Json.loads_recursion_iff
  have hobj : ∀ kvs, loads text = .ok (.obj kvs) ↔
      Json.IsText decoder.dialect PyRuntime.jsonDepth text (.obj kvs) := fun _ => Json.loads_ok_iff
  simp only [Agrees, encodeUtf8_iff, h, Option.some.injEq, forall_eq', ne_eq, hdeep, hobj]

theorem isObjectLine_of_decode {text : PyStr} {body : Bytes} (h : decodeUtf8 body = some text)
    {kvs : JsonObject} : IsObjectLine body kvs ↔
      ∃ d, Json.IsText (Json.rfc8259 PyRuntime.floatOfText) d text (.obj kvs) := by
  simp only [IsObjectLine, encodeUtf8_iff, h, Option.some.injEq, exists_and_left, exists_eq_left']

/-- On an object text `json.loads` agrees where it gives the object. -/
theorem agrees_iff_ok {body : Bytes} {kvs : JsonObject} (h : IsObjectLine body kvs)
    (lineno start : Nat) : Agrees body ↔ readLine lineno start body = .ok kvs := by
  obtain ⟨text, d, henc, htext⟩ := h
  have hdec := encodeUtf8_iff.mp henc
  rw [agrees_of_decode hdec, readLine_ok]
  constructor
  · rintro ⟨-, hagree⟩
    exact ⟨text, hdec, (hagree kvs).mp ⟨d, htext⟩⟩
  · rintro ⟨text', hdec', hloads⟩
    cases hdec.symm.trans hdec'
    refine ⟨fun hrec => ?_, fun kvs' => ⟨?_, ?_⟩⟩
    · rw [hrec] at hloads
      cases hloads
    · rintro ⟨d', htext'⟩
      cases htext.unique htext'
      exact hloads
    · intro hloads'
      cases hloads.symm.trans hloads'
      exact ⟨d, htext⟩

/-- On another text it agrees where the line is reported as damaged. -/
theorem agrees_iff_error {body : Bytes} (h : ∀ kvs, ¬IsObjectLine body kvs) (lineno start : Nat) :
    Agrees body ↔ ∃ damage, readLine lineno start body = .error (readerError damage lineno start) := by
  cases hdec : decodeUtf8 body with
  | none =>
    refine iff_of_true ?_ ⟨"undecodable", by rw [readLine, hdec]⟩
    intro text henc
    rw [encodeUtf8_iff, hdec] at henc
    cases henc
  | some text =>
    have hnone : ∀ kvs, ¬∃ d, Json.IsText (Json.rfc8259 PyRuntime.floatOfText) d text (.obj kvs) :=
      fun kvs hk => h kvs ((isObjectLine_of_decode hdec).mpr hk)
    rw [agrees_of_decode hdec]
    simp only [readLine, hdec, hnone, false_iff]
    cases hloads : loads text with
    | error e =>
      cases e with
      | value => exact iff_of_true ⟨by simp, by simp⟩ ⟨"corrupt", rfl⟩
      | recursion =>
        refine iff_of_false (fun hagree => hagree.1 rfl) ?_
        rintro ⟨damage, hdamage⟩
        have hcls : RecursionError = ReaderError :=
          congrArg PyError.cls (Except.error.inj hdamage)
        exact absurd hcls (by decide)
    | ok v =>
      cases v with
      | obj kvs =>
        refine iff_of_false (fun hagree => hagree.2 kvs rfl) ?_
        rintro ⟨damage, hdamage⟩
        cases hdamage
      | _ => exact iff_of_true ⟨by simp, by simp⟩ ⟨"non-object", rfl⟩

/-! ## The lines of a file -/

omit [PyRuntime] in
/-- The first line of a file is one line. -/
theorem line_inj {body body' f f' : Bytes} (h : newline ∉ body) (h' : newline ∉ body')
    (he : body ++ newline :: f = body' ++ newline :: f') : body = body' ∧ f = f' := by
  rcases List.append_eq_append_iff.mp he with ⟨a, rfl, ha⟩ | ⟨a, rfl, ha⟩
  · cases a with
    | nil => simpa using ha
    | cons b a =>
      cases ha
      simp at h'
  · cases a with
    | nil => simpa [eq_comm] using ha
    | cons b a =>
      cases ha
      simp at h

theorem readAs_line {lineno offset : Nat} {body f : Bytes} {r : Reading} (hb : newline ∉ body) :
    ReadAs lineno offset (body ++ newline :: f) r ↔
      (∃ kvs r', IsObjectLine body kvs ∧
        ReadAs (lineno + 1) (offset + (body ++ [newline]).length) f r' ∧
        r = { r' with records := kvs :: r'.records }) ∨
      ((∀ kvs, ¬IsObjectLine body kvs) ∧ r.records = [] ∧
        ∃ damage, r.error = some (readerError damage (lineno + 1) offset)) := by
  constructor
  · intro h
    generalize hcontent : body ++ newline :: f = content at h
    cases h with
    | tail ht => exact absurd (by simp [← hcontent]) ht
    | object hb' hk hr =>
      obtain ⟨rfl, rfl⟩ := line_inj hb hb' hcontent
      exact .inl ⟨_, _, hk, hr, rfl⟩
    | damaged hb' hk =>
      obtain ⟨rfl, rfl⟩ := line_inj hb hb' hcontent
      exact .inr ⟨hk, rfl, _, rfl⟩
  · rintro (⟨kvs, r', hk, hr, rfl⟩ | ⟨hk, hrecords, damage, herror⟩)
    · exact .object hb hk hr
    · obtain ⟨records, error, truncated⟩ := r
      cases hrecords
      cases herror
      exact .damaged hb hk

theorem agreesOn_line {body f : Bytes} (hb : newline ∉ body) :
    AgreesOn (body ++ newline :: f) ↔
      Agrees body ∧ ((∃ kvs, IsObjectLine body kvs) → AgreesOn f) := by
  constructor
  · intro h
    refine ⟨h [] body f (List.forall_mem_nil _) hb rfl, ?_⟩
    rintro hk good body' f' hgood hb' rfl
    refine h (body :: good) body' f' ?_ hb' (by simp)
    exact List.forall_mem_cons.mpr ⟨⟨hb, hk⟩, hgood⟩
  · rintro ⟨hagree, hrest⟩ good body' f' hgood hb' hcontent
    cases good with
    | nil =>
      obtain ⟨rfl, rfl⟩ := line_inj hb hb' hcontent
      exact hagree
    | cons l good =>
      obtain ⟨⟨hl, hk⟩, hgood'⟩ := List.forall_mem_cons.mp hgood
      rw [List.flatMap_cons, List.append_assoc, List.append_assoc, List.singleton_append] at hcontent
      obtain ⟨rfl, rfl⟩ := line_inj hb hl hcontent
      exact hrest hk good body' f' hgood' hb' rfl

theorem readLines_iff {ls : List Bytes} (h : ∀ l ∈ ls, IsLine l) {t : Bytes} (ht : newline ∉ t)
    (lineno offset : Nat) :
    ReadAs lineno offset (ls.flatten ++ t) (readLines lineno offset (ls ++ splitLines t)) ↔
      AgreesOn (ls.flatten ++ t) := by
  induction ls generalizing lineno offset with
  | nil =>
    have hread : readLines lineno offset (splitLines t) = ⟨[], none, decide (t ≠ [])⟩ := by
      by_cases hne : t = []
      · subst hne; rfl
      · rw [splitLines_torn ht hne, readLines, if_pos]
        exact fun e => ht (List.mem_of_getLast? e)
    simp only [List.flatten_nil, List.nil_append, hread]
    refine iff_of_true (.tail ht) ?_
    rintro good body f - - rfl
    simp at ht
  | cons l ls ih =>
    obtain ⟨body, hb, rfl⟩ := h l List.mem_cons_self
    have ih := ih (fun x hx => h x (List.mem_cons_of_mem _ hx)) (lineno + 1)
      (offset + (body ++ [newline]).length)
    have hcontent : ((body ++ [newline]) :: ls).flatten ++ t = body ++ newline :: (ls.flatten ++ t) := by
      simp
    rw [hcontent, readAs_line hb, agreesOn_line hb, List.cons_append, readLines, if_neg (by simp),
      List.dropLast_concat]
    by_cases hk : ∃ kvs, IsObjectLine body kvs
    · constructor
      · rintro (⟨kvs, r, hkvs, hr, he⟩ | ⟨hno, -⟩)
        · cases hline : readLine (lineno + 1) offset body with
          | error e =>
            rw [hline] at he
            cases he
          | ok kvs' =>
            rw [hline] at he
            simp only [Reading.mk.injEq, List.cons.injEq] at he
            obtain ⟨⟨rfl, hrecords⟩, herror, htruncated⟩ := he
            have hrest : readLines (lineno + 1) (offset + (body ++ [newline]).length)
                (ls ++ splitLines t) = r := by
              rw [Reading.mk.injEq]
              exact ⟨hrecords, herror, htruncated⟩
            rw [← hrest] at hr
            exact ⟨(agrees_iff_ok hkvs _ _).mpr hline, fun _ => ih.mp hr⟩
        · exact absurd hk (not_exists.mpr hno)
      · rintro ⟨hagree, hrest⟩
        obtain ⟨kvs, hkvs⟩ := hk
        rw [(agrees_iff_ok hkvs (lineno + 1) offset).mp hagree]
        exact .inl ⟨kvs, _, hkvs, ih.mpr (hrest ⟨kvs, hkvs⟩), rfl⟩
    · have hno : ∀ kvs, ¬IsObjectLine body kvs := fun kvs hkvs => hk ⟨kvs, hkvs⟩
      constructor
      · rintro (⟨kvs, -, hkvs, -⟩ | ⟨-, hrecords, damage, herror⟩)
        · exact absurd hkvs (hno kvs)
        · cases hline : readLine (lineno + 1) offset body with
          | error e =>
            rw [hline] at herror
            cases herror
            exact ⟨(agrees_iff_error hno _ _).mpr ⟨damage, hline⟩, fun h => absurd h hk⟩
          | ok kvs =>
            rw [hline] at hrecords
            cases hrecords
      · rintro ⟨hagree, -⟩
        obtain ⟨damage, hline⟩ := (agrees_iff_error hno (lineno + 1) offset).mp hagree
        rw [hline]
        exact .inr ⟨hno, rfl, damage, rfl⟩

/-- **The reader accepts the objects of a file, and nothing else, exactly where
`json.loads` agrees with the grammar** on the lines as far as the first that is no object. -/
theorem iterate_iff (content : Bytes) : ReadAs 0 0 content (iterate content) ↔ AgreesOn content := by
  obtain ⟨ls, t, hls, ht, rfl⟩ := exists_lines content
  rw [iterate, splitLines_append hls]
  exact readLines_iff hls ht 0 0

/-! ## A line that is nested too deeply -/

omit [PyRuntime] in
theorem opens_replicate (G : Json.Dialect PyFloat) (d : Nat) :
    Json.Opens G d (List.replicate d 0x5b) := by
  induction d with
  | zero => exact .none
  | succ d ih => exact .array (.first Json.ws_nil) ih

/-- A line of one bracket more than the interpreter nests. -/
def brackets : Bytes := List.replicate (PyRuntime.jsonDepth + 1) 0x5b

theorem newline_notMem_brackets : newline ∉ brackets := fun hm =>
  absurd (List.eq_of_mem_replicate hm) (by decide)

/-- It is no object, yet what it raises is no `ReaderError`. -/
theorem iterate_brackets :
    iterate (brackets ++ [newline]) =
      ⟨[], some ⟨RecursionError, lit "maximum recursion depth exceeded"⟩, false⟩ := by
  have htext : encodeUtf8 (List.replicate (PyRuntime.jsonDepth + 1) 0x5b) = some brackets := by
    rw [encodeUtf8_ascii (fun c hc => by rw [List.eq_of_mem_replicate hc]; decide),
      List.map_replicate]
    rfl
  have hdeep : loads (List.replicate (PyRuntime.jsonDepth + 1) 0x5b) = .error .recursion := by
    refine Json.loads_recursion_iff.mpr ⟨[], List.replicate PyRuntime.jsonDepth 0x5b, 0x5b, [],
      Json.ws_nil, opens_replicate _ _, .inl rfl, ?_⟩
    rw [List.nil_append, List.replicate_succ']
  have hline : IsLine (brackets ++ [newline]) := ⟨brackets, newline_notMem_brackets, rfl⟩
  have hsplit : splitLines (brackets ++ [newline]) = [brackets ++ [newline]] := by
    simpa using splitLines_line_append hline []
  rw [iterate, hsplit, readLines, if_neg (by simp), List.dropLast_concat, readLine,
    encodeUtf8_iff.mp htext]
  simp only [hdeep]

omit [PyRuntime] in
/-- The promise is broken: a line of brackets, nested too deeply, is not reported as
damaged. -/
theorem iterate_not_readAs :
    ¬@ReadAs PyRuntime.plain 0 0 (@brackets PyRuntime.plain ++ [newline])
      (@iterate PyRuntime.plain (@brackets PyRuntime.plain ++ [newline])) := by
  let _ := PyRuntime.plain
  intro h
  rw [iterate_brackets, readAs_line newline_notMem_brackets] at h
  rcases h with ⟨kvs, r, -, -, hr⟩ | ⟨-, -, damage, herror⟩
  · cases hr
  · have hcls : RecursionError = ReaderError := congrArg PyError.cls (Option.some.inj herror)
    exact absurd hcls (by decide)

end NmLogging
