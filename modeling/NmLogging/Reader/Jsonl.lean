import NmLogging.Framework.Framing
import NmLogging.Vocab

/-!
# The reader

`JsonlReader` of `reader/jsonl.py`. Iteration yields the objects of complete
lines until it meets a torn tail, which sets `truncated`, or a complete line
that is no object, which raises. So a file of complete lines and a torn tail is read
as the objects of its lines up to the first that is none (`iterate_records`).
-/

namespace NmLogging

variable [PyRuntime]

/-- A mapping that the reader yields. -/
abbrev JsonObject := List (PyStr × Json.Value PyFloat)

/-- A whole iteration: what it yields, the exception that ends it, if one does,
and `truncated` afterwards. -/
structure Reading where
  records : List JsonObject
  error : Option PyError
  truncated : Bool

/-- The message of a `ReaderError`: the kind of damage and where it is. -/
def readerError (damage : String) (lineno start : Nat) : PyError :=
  ⟨ReaderError, lit damage ++ lit " record at line " ++ natText lineno ++ lit ", byte offset " ++
    natText start⟩

/-- A complete line without its newline. -/
def readLine (lineno start : Nat) (body : Bytes) : Except PyError JsonObject :=
  match decodeUtf8 body with
  | none => .error (readerError "undecodable" lineno start)
  | some text =>
    match loads text with
    | .error .value => .error (readerError "corrupt" lineno start)
    -- not a ValueError: it leaves the iteration as it is
    | .error .recursion => .error ⟨RecursionError, lit "maximum recursion depth exceeded"⟩
    | .ok (.obj kvs) => .ok kvs
    | .ok _ => .error (readerError "non-object" lineno start)

/-- The loop over the lines of the file. -/
def readLines (lineno offset : Nat) : List Bytes → Reading
  | [] => ⟨[], none, false⟩
  | raw :: raws =>
    if raw.getLast? ≠ some newline then ⟨[], none, raw ≠ []⟩
    else
      match readLine (lineno + 1) offset raw.dropLast with
      | .error e => ⟨[], some e, false⟩
      | .ok record =>
        let rest := readLines (lineno + 1) (offset + raw.length) raws
        { rest with records := record :: rest.records }

/-- `JsonlReader.__iter__`, over the content of the file. -/
def iterate (content : Bytes) : Reading := readLines 0 0 (splitLines content)

/-! ## What is read of complete lines -/

/-- The object of a complete line, if it is one. -/
def lineObject (l : Bytes) : Option JsonObject := (readLine 0 0 l.dropLast).toOption

/-- The objects of complete lines up to the first that is none. -/
def objectsOf : List Bytes → List JsonObject
  | [] => []
  | l :: ls =>
    match lineObject l with
    | none => []
    | some kvs => kvs :: objectsOf ls

/-- Whether a line is an object does not depend on where it is. -/
theorem readLine_ok {lineno start : Nat} {body : Bytes} {kvs : JsonObject} :
    readLine lineno start body = .ok kvs ↔
      ∃ text, decodeUtf8 body = some text ∧ loads text = .ok (.obj kvs) := by
  unfold readLine
  cases decodeUtf8 body with
  | none => simp
  | some text =>
    cases h : loads text with
    | error e => cases e <;> simp [h]
    | ok v => cases v <;> simp [h]

theorem lineObject_eq_some {l : Bytes} {kvs : JsonObject} :
    lineObject l = some kvs ↔
      ∃ text, decodeUtf8 l.dropLast = some text ∧ loads text = .ok (.obj kvs) := by
  rw [← @readLine_ok _ 0 0, lineObject]
  cases readLine 0 0 l.dropLast <;> simp [Except.toOption]

theorem lineObject_of_readLine {l : Bytes} (lineno start : Nat) :
    lineObject l = (readLine lineno start l.dropLast).toOption := by
  cases h : lineObject l with
  | some kvs =>
    have : readLine lineno start l.dropLast = .ok kvs := readLine_ok.mpr (lineObject_eq_some.mp h)
    rw [this]
    rfl
  | none =>
    cases h' : readLine lineno start l.dropLast with
    | error e => rfl
    | ok kvs =>
      rw [lineObject_eq_some.mpr (readLine_ok.mp h')] at h
      cases h

/-- A file's records are those of its complete lines. -/
theorem readLines_records {ls : List Bytes} (h : ∀ l ∈ ls, IsLine l) {t : Bytes}
    (ht : newline ∉ t) (lineno offset : Nat) :
    (readLines lineno offset (ls ++ splitLines t)).records = objectsOf ls := by
  induction ls generalizing lineno offset with
  | nil =>
    by_cases hne : t = []
    · subst hne; rfl
    · rw [splitLines_torn ht hne, List.nil_append, readLines, if_pos]
      · rfl
      · intro e
        exact ht (List.mem_of_getLast? e)
  | cons l ls ih =>
    have hl := (h l List.mem_cons_self).getLast?
    rw [List.cons_append, readLines, if_neg (by simp [hl]), objectsOf,
      lineObject_of_readLine (lineno + 1) offset]
    cases readLine (lineno + 1) offset l.dropLast with
    | error e => rfl
    | ok kvs => simp only [Except.toOption, ih fun x hx => h x (List.mem_cons_of_mem _ hx)]

theorem iterate_records {ls : List Bytes} (h : ∀ l ∈ ls, IsLine l) {t : Bytes}
    (ht : newline ∉ t) : (iterate (ls.flatten ++ t)).records = objectsOf ls := by
  rw [iterate, splitLines_append h, readLines_records h ht]

theorem readLines_of_objects {ls : List Bytes} (h : ∀ l ∈ ls, IsLine l) {t : Bytes}
    (ht : newline ∉ t) (hobj : ∀ l ∈ ls, (lineObject l).isSome) (lineno offset : Nat) :
    (readLines lineno offset (ls ++ splitLines t)).error = none ∧
      (readLines lineno offset (ls ++ splitLines t)).truncated = decide (t ≠ []) := by
  induction ls generalizing lineno offset with
  | nil =>
    by_cases hne : t = []
    · subst hne; exact ⟨rfl, rfl⟩
    · rw [splitLines_torn ht hne, List.nil_append, readLines, if_pos]
      · exact ⟨rfl, rfl⟩
      · intro e
        exact ht (List.mem_of_getLast? e)
  | cons l ls ih =>
    have hl := (h l List.mem_cons_self).getLast?
    have hs := hobj l List.mem_cons_self
    rw [lineObject_of_readLine (lineno + 1) offset] at hs
    rw [List.cons_append, readLines, if_neg (by simp [hl])]
    cases hr : readLine (lineno + 1) offset l.dropLast with
    | error e => rw [hr] at hs; cases hs
    | ok kvs =>
      exact ih (fun x hx => h x (List.mem_cons_of_mem _ hx))
        (fun x hx => hobj x (List.mem_cons_of_mem _ hx)) (lineno + 1) (offset + l.length)

/-- A file whose complete lines are objects is read to its end. -/
theorem iterate_of_objects {ls : List Bytes} (h : ∀ l ∈ ls, IsLine l) {t : Bytes}
    (ht : newline ∉ t) (hobj : ∀ l ∈ ls, (lineObject l).isSome) :
    (iterate (ls.flatten ++ t)).error = none ∧
      (iterate (ls.flatten ++ t)).truncated = decide (t ≠ []) := by
  rw [iterate, splitLines_append h]
  exact readLines_of_objects h ht hobj 0 0

theorem readLines_error {ls : List Bytes} (h : ∀ l ∈ ls, IsLine l) {t : Bytes} (ht : newline ∉ t)
    (lineno offset : Nat) :
    (readLines lineno offset (ls ++ splitLines t)).error = none ↔
      ∀ l ∈ ls, (lineObject l).isSome := by
  induction ls generalizing lineno offset with
  | nil =>
    have := readLines_of_objects (List.forall_mem_nil _) ht (List.forall_mem_nil _) lineno offset
    exact iff_of_true this.1 (by simp)
  | cons l ls ih =>
    have hl := (h l List.mem_cons_self).getLast?
    rw [List.cons_append, readLines, if_neg (by simp [hl]), List.forall_mem_cons,
      lineObject_of_readLine (lineno + 1) offset]
    cases readLine (lineno + 1) offset l.dropLast with
    | error e => simp [Except.toOption]
    | ok kvs =>
      simp only [Except.toOption, Option.isSome_some, true_and]
      exact ih (fun x hx => h x (List.mem_cons_of_mem _ hx)) _ _

/-- The reader ends without an exception where every complete line is an object. -/
theorem iterate_error {ls : List Bytes} (h : ∀ l ∈ ls, IsLine l) {t : Bytes} (ht : newline ∉ t) :
    (iterate (ls.flatten ++ t)).error = none ↔ ∀ l ∈ ls, (lineObject l).isSome := by
  rw [iterate, splitLines_append h]
  exact readLines_error h ht 0 0

theorem objectsOf_append {ls : List Bytes} (h : ∀ l ∈ ls, (lineObject l).isSome)
    (ms : List Bytes) : objectsOf (ls ++ ms) = objectsOf ls ++ objectsOf ms := by
  induction ls with
  | nil => rfl
  | cons l ls ih =>
    obtain ⟨kvs, hk⟩ := Option.isSome_iff_exists.mp (h l List.mem_cons_self)
    simp only [List.cons_append, objectsOf, hk, ih fun x hx => h x (List.mem_cons_of_mem _ hx)]

theorem objectsOf_eq_filterMap {ls : List Bytes} (h : ∀ l ∈ ls, (lineObject l).isSome) :
    objectsOf ls = ls.filterMap lineObject := by
  induction ls with
  | nil => rfl
  | cons l ls ih =>
    obtain ⟨kvs, hk⟩ := Option.isSome_iff_exists.mp (h l List.mem_cons_self)
    rw [List.filterMap_cons, objectsOf, hk, ih fun x hx => h x (List.mem_cons_of_mem _ hx)]

/-- Behind a line that is no object nothing more is read. -/
theorem objectsOf_append_of_none {ls : List Bytes} (h : ∃ l ∈ ls, lineObject l = none)
    (ms : List Bytes) : objectsOf (ls ++ ms) = objectsOf ls := by
  induction ls with
  | nil => obtain ⟨l, hl, -⟩ := h; cases hl
  | cons l ls ih =>
    simp only [List.cons_append, objectsOf]
    cases hk : lineObject l with
    | none => rfl
    | some kvs =>
      simp only
      rw [ih]
      obtain ⟨m, hm, hn⟩ := h
      rcases List.mem_cons.mp hm with rfl | hm
      · rw [hk] at hn; cases hn
      · exact ⟨m, hm, hn⟩

end NmLogging
