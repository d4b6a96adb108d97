import Mathlib.Algebra.Group.Int.Defs
import NmLogging.Framework.Except
import NmLogging.Framework.JsonRoundTrip

/-!
# Python objects

The objects that reach the package: scalars, lists and tuples of scalars, and
anything else, of which only the identity is kept. Exceptions are told apart by
the classes they are instances of. What depends on the interpreter (the text of
a float, the repr of a string, how deep the JSON scanner may recurse) is a
`PyRuntime`, with what CPython documents of it.

`dumps` is `json.dumps(…, ensure_ascii=False, separators=(",", ":"),
allow_nan=False)`: first the JSON value of the mapping, or the exception that the
encoder raises, then its text.
-/

namespace NmLogging

/-! ## Exceptions -/

/-- The classes an `except` clause or an `isinstance` names. -/
inductive Base where
  | baseException
  | exception
  | osError
  | valueError
  | typeError
  | keyError
  | recursionError
  | attributeError
  | nmLoggingError
  | loggingConfigurationError
  | eventSchemaError
  | sinkError
  | auditPersistenceError
  | auditUsageError
  | auditFinalisationError
  | readerError
  deriving DecidableEq

/-- The class that one of the named classes derives from. -/
def Base.parent : Base → Option Base
  | .baseException => none
  | .exception => some .baseException
  | .osError | .valueError | .typeError | .keyError | .recursionError | .attributeError
  | .nmLoggingError => some .exception
  | .loggingConfigurationError | .eventSchemaError | .sinkError | .auditPersistenceError
  | .auditUsageError | .auditFinalisationError | .readerError => some .nmLoggingError

/-- The class of an exception: its name, and which of the named classes it is
or derives from. -/
structure ExcClass where
  qualname : PyStr
  bases : List Base
  derived : ∀ b ∈ bases, ∀ p ∈ b.parent, p ∈ bases
  deriving DecidableEq

/-- An exception raised by code that looks at no other: its class and text. -/
structure PyError where
  cls : ExcClass
  text : PyStr
  deriving DecidableEq

/-- `isinstance(e, b)`. -/
def ExcClass.isA (c : ExcClass) (b : Base) : Bool := b ∈ c.bases

def PyError.isA (e : PyError) (b : Base) : Bool := e.cls.isA b

/-- An instance of a class is one of the class that this derives from. -/
theorem ExcClass.isA_parent {c : ExcClass} {b p : Base} (h : c.isA b = true)
    (hp : b.parent = some p) : c.isA p = true :=
  decide_eq_true (c.derived b (of_decide_eq_true h) p hp)

def ValueError : ExcClass :=
  ⟨lit "ValueError", [.valueError, .exception, .baseException], by decide⟩
def TypeError : ExcClass :=
  ⟨lit "TypeError", [.typeError, .exception, .baseException], by decide⟩
def KeyError : ExcClass :=
  ⟨lit "KeyError", [.keyError, .exception, .baseException], by decide⟩
def RecursionError : ExcClass :=
  ⟨lit "RecursionError", [.recursionError, .exception, .baseException], by decide⟩
def AttributeError : ExcClass :=
  ⟨lit "AttributeError", [.attributeError, .exception, .baseException], by decide⟩

def OSError : ExcClass :=
  ⟨lit "OSError", [.osError, .exception, .baseException], by decide⟩

/-- What the handler of an interrupt signal raises; it is no `Exception`. -/
def KeyboardInterrupt : ExcClass := ⟨lit "KeyboardInterrupt", [.baseException], by decide⟩

/-! ## Objects -/

/-- A 64-bit floating point number, by its bits. -/
structure PyFloat where
  bits : BitVec 64
  deriving DecidableEq

/-- `math.isfinite`. -/
def PyFloat.isFinite (f : PyFloat) : Bool := f.bits.extractLsb' 52 11 ≠ 0x7ff#11

/-- An object that is no list or tuple; `other` is anything but a `None`, a
bool, an int, a float or a string. -/
inductive PyAtom where
  | none
  | bool (b : Bool)
  | int (i : Int)
  | float (f : PyFloat)
  | str (s : PyStr)
  | other (tag : Nat)
  deriving DecidableEq

/-- An object. The elements of a list or tuple that are containers themselves
are among the `other`. -/
inductive PyObj where
  | atom (a : PyAtom)
  | list (xs : List PyAtom)
  | tuple (xs : List PyAtom)
  deriving DecidableEq

/-- The object with a list turned into a tuple. -/
def PyObj.frozen : PyObj → PyObj
  | .list xs => .tuple xs
  | x => x

/-- The object itself, or the elements of a list or tuple. -/
def PyObj.atoms : PyObj → List PyAtom
  | .atom a => [a]
  | .list xs => xs
  | .tuple xs => xs

@[simp] theorem PyObj.atoms_frozen (x : PyObj) : x.frozen.atoms = x.atoms := by cases x <;> rfl

/-- `isinstance(a, str)`. -/
def PyAtom.isStr : PyAtom → Bool
  | .str _ => true
  | _ => false

/-- A `datetime`; `utcoffset` is in microseconds, and none of a naive one. -/
structure Datetime where
  year : Fin 10000
  month : Fin 13
  day : Fin 32
  hour : Fin 24
  minute : Fin 60
  second : Fin 60
  microsecond : Fin 1000000
  utcoffset : Option Int
  deriving DecidableEq

/-- The text of a UTC offset. -/
def offsetText (o : Int) : PyStr :=
  let sign := if o < 0 then lit "-" else lit "+"
  let seconds := o.natAbs / 1000000
  let micros := o.natAbs % 1000000
  sign ++ padded 2 (seconds / 3600) ++ lit ":" ++ padded 2 (seconds / 60 % 60) ++
    (if seconds % 60 = 0 ∧ micros = 0 then [] else lit ":" ++ padded 2 (seconds % 60)) ++
    (if micros = 0 then [] else lit "." ++ padded 6 micros)

/-- `datetime.isoformat()`. -/
def Datetime.isoformat (t : Datetime) : PyStr :=
  padded 4 t.year ++ lit "-" ++ padded 2 t.month ++ lit "-" ++ padded 2 t.day ++ lit "T" ++
    padded 2 t.hour ++ lit ":" ++ padded 2 t.minute ++ lit ":" ++ padded 2 t.second ++
    (if t.microsecond = 0 then [] else lit "." ++ padded 6 t.microsecond) ++
    (match t.utcoffset with
      | none => []
      | some o => offsetText o)

/-- What the clocks of the examples say. -/
def firstHour : Datetime := ⟨2024, 1, 2, 3, 4, 5, 0, some 0⟩

/-! ## Calls -/

/-- Keywords that a function takes in its `**fields`: strings that name none of its own
parameters, with their values. -/
structure Keywords (params : List PyStr) where
  fields : Dict PyAtom PyObj
  free : ∀ k ∈ fields.keys, ∃ s, k = .str s ∧ s ∉ params

/-- No keywords. -/
def Keywords.empty {params : List PyStr} : Keywords params := ⟨Dict.empty, by simp⟩

/-- What the call of a function makes of a keyword. -/
def bindKeyword (function : PyStr) (params : List PyStr) : PyAtom → Except PyError Unit
  | .str s =>
    if s ∈ params then
      .error ⟨TypeError, function ++ lit "() got multiple values for argument '" ++ s ++ lit "'"⟩
    else .ok ()
  | _ => .error ⟨TypeError, function ++ lit "() keywords must be strings"⟩

theorem bindKeyword_ok {function : PyStr} {params : List PyStr} {k : PyAtom} :
    bindKeyword function params k = .ok () ↔ ∃ s, k = .str s ∧ s ∉ params := by
  cases k <;> simp [bindKeyword]

/-- `function(…, **m)`: the keywords, or the `TypeError` of the call. -/
def bindKeywords (function : PyStr) (params : List PyStr) (m : Dict PyAtom PyObj) :
    Except PyError (Keywords params) :=
  match h : m.keys.forM (bindKeyword function params) with
  | .ok () => .ok ⟨m, fun k hk => bindKeyword_ok.mp (forM_eq_ok.mp h k hk)⟩
  | .error e => .error e

theorem bindKeywords_cases (function : PyStr) (params : List PyStr) (m : Dict PyAtom PyObj) :
    (∃ kw, bindKeywords function params m = .ok kw ∧ kw.fields = m ∧
      ∀ k ∈ m.keys, ∃ s, k = .str s ∧ s ∉ params) ∨
    (∃ e, bindKeywords function params m = .error e ∧
      ¬∀ k ∈ m.keys, ∃ s, k = .str s ∧ s ∉ params) := by
  unfold bindKeywords
  split
  · rename_i h
    exact .inl ⟨_, rfl, rfl, fun k hk => bindKeyword_ok.mp (forM_eq_ok.mp h k hk)⟩
  · rename_i e h
    refine .inr ⟨e, rfl, fun hall => ?_⟩
    rw [forM_eq_ok.mpr fun k hk => bindKeyword_ok.mpr (hall k hk)] at h
    cases h

/-! ## The interpreter -/

/-- What the interpreter makes of floats, of strings in a container's text and
of nested JSON. -/
class PyRuntime where
  floatRepr : PyFloat → PyStr
  floatOfText : PyStr → PyFloat
  strRepr : PyStr → PyStr
  jsonDepth : Nat
  isReal_floatRepr : ∀ f, f.isFinite = true → Json.IsReal (floatRepr f)
  floatOfText_floatRepr : ∀ f, f.isFinite = true → floatOfText (floatRepr f) = f
  two_le_jsonDepth : 2 ≤ jsonDepth

/-- `sys.int_info.default_max_str_digits`. -/
def maxStrDigits : Nat := 4300

/-- Whether an integer has more digits than its text conversion allows. -/
def overlong (i : Int) : Bool := maxStrDigits < (natText i.natAbs).length

theorem overlong_pow {k : Nat} (h : maxStrDigits ≤ k) : overlong (10 ^ k) = true := by
  have hlong : k < (natText (10 ^ k : Int).natAbs).length :=
    lt_length_natText (by rw [Int.natAbs_pow]; exact Nat.le_refl _)
  exact decide_eq_true (Nat.lt_of_le_of_lt h hlong)

/-- `str(i)`. -/
def intStr (i : Int) : Except PyError PyStr :=
  if overlong i then
    .error ⟨ValueError, lit "Exceeds the limit (4300 digits) for integer string conversion"⟩
  else .ok (intText i)

section

variable [PyRuntime]

/-- `repr(a)`, of an element of a container. -/
def PyAtom.repr : PyAtom → Except PyError PyStr
  | .none => .ok (lit "None")
  | .bool b => .ok (if b then lit "True" else lit "False")
  | .int i => intStr i
  | .float f => .ok (PyRuntime.floatRepr f)
  | .str s => .ok (PyRuntime.strRepr s)
  | .other _ => .ok (lit "<object>")

/-- `str(a)`, which is also `format(a, "")`. -/
def PyAtom.text : PyAtom → Except PyError PyStr
  | .str s => .ok s
  | a => a.repr

/-- `str(x)`, which is also `format(x, "")`. -/
def PyObj.text : PyObj → Except PyError PyStr
  | .atom a => a.text
  | .list xs => do
    let ts ← xs.mapM PyAtom.repr
    return lit "[" ++ join (lit ", ") ts ++ lit "]"
  | .tuple [x] => do
    let t ← x.repr
    return lit "(" ++ t ++ lit ",)"
  | .tuple xs => do
    let ts ← xs.mapM PyAtom.repr
    return lit "(" ++ join (lit ", ") ts ++ lit ")"

/-- Some integer of the values has more digits than its text conversion allows. -/
def HasOverlong (values : List PyObj) : Prop :=
  ∃ v ∈ values, ∃ i, .int i ∈ v.atoms ∧ overlong i = true

omit [PyRuntime] in
theorem intStr_error {i : Int} {e : PyError} (h : intStr i = .error e) :
    overlong i = true ∧ e.cls = ValueError := by
  unfold intStr at h
  split at h
  · cases h; exact ⟨‹_›, rfl⟩
  · cases h

theorem PyAtom.repr_error {a : PyAtom} {e : PyError} (h : a.repr = .error e) :
    (∃ i, a = .int i ∧ overlong i = true) ∧ e.cls = ValueError := by
  cases a <;> simp only [PyAtom.repr, reduceCtorEq] at h
  exact ⟨⟨_, rfl, (intStr_error h).1⟩, (intStr_error h).2⟩

/-- Only an integer can have no text. -/
theorem PyObj.text_error {x : PyObj} {e : PyError} (h : x.text = .error e) :
    (∃ i, .int i ∈ x.atoms ∧ overlong i = true) ∧ e.cls = ValueError := by
  have elems : ∀ {xs : List PyAtom}, xs.mapM PyAtom.repr = .error e →
      (∃ i, .int i ∈ xs ∧ overlong i = true) ∧ e.cls = ValueError := by
    intro xs h
    obtain ⟨a, ha, h⟩ := exists_of_mapM_eq_error h
    obtain ⟨⟨i, rfl, hi⟩, hcls⟩ := PyAtom.repr_error h
    exact ⟨⟨i, ha, hi⟩, hcls⟩
  unfold PyObj.text at h
  split at h
  · rename_i a
    cases a <;> simp only [PyAtom.text, PyAtom.repr, reduceCtorEq] at h
    exact ⟨⟨_, List.mem_singleton_self _, (intStr_error h).1⟩, (intStr_error h).2⟩
  · rcases bind_eq_error.mp h with h | ⟨_, -, h⟩
    · exact elems h
    · cases h
  · rcases bind_eq_error.mp h with h | ⟨_, -, h⟩
    · obtain ⟨⟨i, hi⟩, hcls⟩ := PyAtom.repr_error h
      exact ⟨⟨i, by simp [PyObj.atoms, hi.1], hi.2⟩, hcls⟩
    · cases h
  · rcases bind_eq_error.mp h with h | ⟨_, -, h⟩
    · exact elems h
    · cases h

/-! ## JSON -/

/-- The value the encoder writes for an object that is no container. -/
def PyAtom.toJson : PyAtom → Except PyError (Json.Value PyFloat)
  | .none => .ok .null
  | .bool b => .ok (.bool b)
  | .int i => (intStr i).map fun _ => .int i
  | .float f =>
    if f.isFinite then .ok (.float f)
    else .error ⟨ValueError, lit "Out of range float values are not JSON compliant"⟩
  | .str s => .ok (.str s)
  | .other _ => .error ⟨TypeError, lit "Object is not JSON serializable"⟩

/-- The value the encoder writes for an object. Lists and tuples are arrays. -/
def PyObj.toJson : PyObj → Except PyError (Json.Value PyFloat)
  | .atom a => a.toJson
  | .list xs => (xs.mapM PyAtom.toJson).map .arr
  | .tuple xs => (xs.mapM PyAtom.toJson).map .arr

/-- The name the encoder writes for a key. -/
def keyText : PyAtom → Except PyError PyStr
  | .str s => .ok s
  | .float f =>
    if f.isFinite then .ok (PyRuntime.floatRepr f)
    else .error ⟨ValueError, lit "Out of range float values are not JSON compliant"⟩
  | .bool b => .ok (if b then lit "true" else lit "false")
  | .none => .ok (lit "null")
  | .int i => intStr i
  | .other _ => .error ⟨TypeError, lit "keys must be str, int, float, bool or None"⟩

/-- A member of the object that the encoder writes for a mapping. -/
def memberJson (e : PyAtom × PyObj) : Except PyError (PyStr × Json.Value PyFloat) := do
  let k ← keyText e.1
  let v ← e.2.toJson
  return (k, v)

/-- The members of the object that the encoder writes for a mapping. -/
def mappingJson (m : Dict PyAtom PyObj) : Except PyError (List (PyStr × Json.Value PyFloat)) :=
  m.entries.mapM memberJson

/-- `json.dumps` of a mapping. -/
def dumps (m : Dict PyAtom PyObj) : Except PyError PyStr :=
  (mappingJson m).map fun kvs => Json.render PyRuntime.floatRepr (.obj kvs)

/-- How `json.loads` reads numbers. -/
def decoder : Json.Decoder PyFloat := ⟨PyRuntime.floatOfText, maxStrDigits⟩

/-- `json.loads` of a string. -/
def loads (s : PyStr) : Except Json.LoadsError (Json.Value PyFloat) :=
  Json.loads decoder PyRuntime.jsonDepth s

theorem PyAtom.toJson_fits {a : PyAtom} {v : Json.Value PyFloat} (h : a.toJson = .ok v) (d : Nat) :
    Json.Fits decoder PyRuntime.floatRepr d v := by
  cases a with
  | none => cases h; exact .null
  | bool b => cases h; exact .bool b
  | int i =>
    cases ho : overlong i with
    | true => simp [toJson, intStr, ho, Except.map] at h
    | false =>
      simp only [toJson, intStr, ho, Bool.false_eq_true, if_false, Except.map, Except.ok.injEq] at h
      subst h
      exact .int (by simpa [overlong, decoder] using ho)
  | float f =>
    simp only [toJson] at h
    split at h
    · rename_i hf
      cases h
      exact .float (PyRuntime.isReal_floatRepr f hf) (PyRuntime.floatOfText_floatRepr f hf)
    · cases h
  | str s => cases h; exact .str s
  | other t => cases h

/-- What the encoder writes for an object is read back. -/
theorem PyObj.toJson_fits {x : PyObj} {v : Json.Value PyFloat} (h : x.toJson = .ok v) :
    Json.Fits decoder PyRuntime.floatRepr 1 v := by
  have arr : ∀ {xs : List PyAtom}, (xs.mapM PyAtom.toJson).map Json.Value.arr = .ok v →
      Json.Fits decoder PyRuntime.floatRepr 1 v := by
    intro xs h
    cases hm : xs.mapM PyAtom.toJson with
    | error e => rw [hm] at h; cases h
    | ok vs =>
      rw [hm] at h
      cases h
      refine .arr fun w hw => ?_
      obtain ⟨a, -, ha⟩ := exists_of_mem_mapM hm hw
      exact PyAtom.toJson_fits ha 0
  cases x with
  | atom a => exact PyAtom.toJson_fits h 1
  | list xs => exact arr h
  | tuple xs => exact arr h

theorem memberJson_ok {e : PyAtom × PyObj} {kv : PyStr × Json.Value PyFloat} :
    memberJson e = .ok kv ↔ keyText e.1 = .ok kv.1 ∧ e.2.toJson = .ok kv.2 := by
  simp only [memberJson, bind_eq_ok]
  constructor
  · rintro ⟨k, hk, v, hv, e⟩; cases e; exact ⟨hk, hv⟩
  · rintro ⟨hk, hv⟩; exact ⟨_, hk, _, hv, rfl⟩

theorem fits_of_mapM {es : List (PyAtom × PyObj)} {kvs : List (PyStr × Json.Value PyFloat)}
    (h : es.mapM memberJson = .ok kvs) : ∀ e ∈ kvs, Json.Fits decoder PyRuntime.floatRepr 1 e.2 := by
  intro e he
  obtain ⟨_, -, h⟩ := exists_of_mem_mapM h he
  exact PyObj.toJson_fits (memberJson_ok.mp h).2

end

/-! ## A runtime -/

/-- The text of a float with the value `n`. -/
def realText (n : Nat) : PyStr := natText n ++ lit ".0"

theorem spanDigits_natText (n : Nat) (s : PyStr) (hs : ∀ c t, s = c :: t → isDigit c = false) :
    Json.spanDigits (natText n ++ s) = (natText n, s) := by
  have hd : ∀ c ∈ natText n, isDigit c = true := fun c hc => isDigit_of_mem_natText hc
  rw [Json.spanDigits, List.takeWhile_append_of_pos hd, List.dropWhile_append_of_pos hd]
  cases s with
  | nil => simp
  | cons c t => simp [hs c t rfl]

theorem matchNumber_realText (n : Nat) :
    Json.matchNumber (realText n) = some (⟨[], natText n, lit ".0"⟩, []) := by
  have hspan := spanDigits_natText n (lit ".0") (by rintro c t h; cases h; rfl)
  have hsign : Json.scanSign (realText n) = ([], realText n) := by
    unfold Json.scanSign
    split
    · rename_i t e
      cases h : natText n with
      | nil => exact absurd h (natText_ne_nil n)
      | cons c u =>
        rw [realText, h] at e
        cases e
        exact absurd (isDigit_of_mem_natText (n := n) (c := 0x2d) (by simp [h])) (by decide)
    · rfl
  have hint : Json.scanInt (realText n) = (natText n, lit ".0") := by
    unfold Json.scanInt
    split
    · rename_i t e
      cases h : natText n with
      | nil => exact absurd h (natText_ne_nil n)
      | cons c u =>
        rw [realText, h] at e
        cases e
        obtain ⟨-, rfl⟩ := head_natText h rfl
        rfl
    · exact hspan
  simp only [Json.matchNumber, hsign, hint]
  rw [if_neg (natText_ne_nil n)]
  rfl

/-- An interpreter that writes a float as the number of its bits. -/
@[reducible] def PyRuntime.plain : PyRuntime where
  floatRepr f := realText f.bits.toNat
  floatOfText s := ⟨BitVec.ofNat 64 (digitsValue (Json.spanDigits s).1)⟩
  strRepr s := lit "'" ++ s ++ lit "'"
  jsonDepth := 1000
  isReal_floatRepr f _ := ⟨_, matchNumber_realText f.bits.toNat, by simp [lit]⟩
  floatOfText_floatRepr f _ := by
    rw [realText, spanDigits_natText _ _ (by rintro c t h; cases h; rfl), digitsValue_natText]
    cases f
    simp
  two_le_jsonDepth := by decide

end NmLogging
