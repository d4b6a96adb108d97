import NmLogging.Framework.Text
import NmLogging.Framework.Dict

/-!
# JSON text

The compact writer and the scanner of Python's `json` module. Numbers with a
fraction or an exponent are values of a type `F`: the writer is given their
text and the scanner what to make of a lexeme, so that nothing here depends on
a representation of floating point. The scanner is the recursive descent of
`json.scanner` (`scanOnce`, `object`, `array`), on what is left of the text,
with the depth of nesting that the interpreter still allows.
-/

namespace NmLogging.Json

/-- A JSON value; an object keeps the order of its members. -/
inductive Value (F : Type) where
  | null
  | bool (b : Bool)
  | int (i : Int)
  | float (f : F)
  | str (s : PyStr)
  | arr (vs : List (Value F))
  | obj (kvs : List (PyStr × Value F))

/-! ## Writing -/

def hexDigit (n : Nat) : Nat := if n < 10 then 0x30 + n else 0x57 + n

/-- The text of a character within a string (`ensure_ascii=False`). -/
def escapeChar (c : Nat) : PyStr :=
  if c = 0x22 then lit "\\\""
  else if c = 0x5c then lit "\\\\"
  else if c = 0x08 then lit "\\b"
  else if c = 0x0c then lit "\\f"
  else if c = 0x0a then lit "\\n"
  else if c = 0x0d then lit "\\r"
  else if c = 0x09 then lit "\\t"
  else if c < 0x20 then lit "\\u00" ++ [hexDigit (c / 16), hexDigit (c % 16)]
  else [c]

/-- The text of a string. -/
def quote (s : PyStr) : PyStr := 0x22 :: (s.flatMap escapeChar ++ [0x22])

variable {F : Type}

mutual

/-- The text of a value, with no white space (`separators=(",", ":")`). -/
def render (floatText : F → PyStr) : Value F → PyStr
  | .null => lit "null"
  | .bool true => lit "true"
  | .bool false => lit "false"
  | .int i => intText i
  | .float f => floatText f
  | .str s => quote s
  | .arr vs => 0x5b :: (renderItems floatText vs ++ [0x5d])
  | .obj kvs => 0x7b :: (renderMembers floatText kvs ++ [0x7d])

/-- The items of an array. -/
def renderItems (floatText : F → PyStr) : List (Value F) → PyStr
  | [] => []
  | [v] => render floatText v
  | v :: w :: vs => render floatText v ++ 0x2c :: renderItems floatText (w :: vs)

/-- The members of an object. -/
def renderMembers (floatText : F → PyStr) : List (PyStr × Value F) → PyStr
  | [] => []
  | [(k, v)] => quote k ++ 0x3a :: render floatText v
  | (k, v) :: e :: kvs =>
    quote k ++ 0x3a :: (render floatText v ++ 0x2c :: renderMembers floatText (e :: kvs))

end

/-! ## Scanning -/

/-- Why a text is refused: it is not JSON (`ValueError`), or it is nested too
deeply (`RecursionError`). -/
inductive LoadsError where
  | value
  | recursion
  deriving DecidableEq

def isWs (c : Nat) : Bool := c == 0x20 || c == 0x09 || c == 0x0a || c == 0x0d

def skipWs (s : PyStr) : PyStr := s.dropWhile isWs

def hexVal (c : Nat) : Option Nat :=
  if 0x30 ≤ c ∧ c ≤ 0x39 then some (c - 0x30)
  else if 0x61 ≤ c ∧ c ≤ 0x66 then some (c - 0x57)
  else if 0x41 ≤ c ∧ c ≤ 0x46 then some (c - 0x37)
  else none

/-- Four hexadecimal digits. -/
def hex4 (a b c d : Nat) : Option Nat := do
  let a ← hexVal a
  let b ← hexVal b
  let c ← hexVal c
  let d ← hexVal d
  return ((a * 16 + b) * 16 + c) * 16 + d

/-- A low surrogate written `\uXXXX` at the head of `s`. -/
def lowSurrogate (s : PyStr) : Option Nat :=
  match s with
  | 0x5c :: 0x75 :: a :: b :: c :: d :: _ =>
    match hex4 a b c d with
    | some u => if 0xdc00 ≤ u ∧ u ≤ 0xdfff then some u else none
    | none => none
  | _ => none

/-- The character of a one-letter escape. -/
def simpleEscape (c : Nat) : Option Nat :=
  if c = 0x22 ∨ c = 0x5c ∨ c = 0x2f then some c
  else if c = 0x62 then some 0x08
  else if c = 0x66 then some 0x0c
  else if c = 0x6e then some 0x0a
  else if c = 0x72 then some 0x0d
  else if c = 0x74 then some 0x09
  else none

/-- `scanstring`, strict, after the opening quote: the string and what follows
its closing quote. -/
def scanString : PyStr → Option (PyStr × PyStr)
  | [] => none
  | c :: s =>
    if c = 0x22 then some ([], s)
    else if c = 0x5c then
      match s with
      | [] => none
      | e :: s =>
        if e = 0x75 then
          match s with
          | a :: b :: c :: d :: s =>
            match hex4 a b c d with
            | none => none
            | some u =>
              if 0xd800 ≤ u ∧ u ≤ 0xdbff then
                match lowSurrogate s, s with
                | some w, _ :: _ :: _ :: _ :: _ :: _ :: s =>
                  (scanString s).map fun p =>
                    ((0x10000 + (u - 0xd800) * 0x400 + (w - 0xdc00)) :: p.1, p.2)
                | _, s => (scanString s).map fun p => (u :: p.1, p.2)
              else (scanString s).map fun p => (u :: p.1, p.2)
          | _ => none
        else
          match simpleEscape e with
          | none => none
          | some x => (scanString s).map fun p => (x :: p.1, p.2)
    else if c < 0x20 then none
    else (scanString s).map fun p => (c :: p.1, p.2)

/-- The minus sign at the head of a text, and what follows it. -/
def scanSign (s : PyStr) : PyStr × PyStr :=
  match s with
  | 0x2d :: t => ([0x2d], t)
  | _ => ([], s)

/-- The digits at the head of a text, and what follows them. -/
def spanDigits (s : PyStr) : PyStr × PyStr := (s.takeWhile isDigit, s.dropWhile isDigit)

/-- The digits of an integer: a zero alone, or digits that start otherwise. -/
def scanInt (s : PyStr) : PyStr × PyStr :=
  match s with
  | 0x30 :: t => ([0x30], t)
  | _ => spanDigits s

/-- A fraction, if one is there in full. -/
def scanFrac (s : PyStr) : PyStr × PyStr :=
  match s with
  | 0x2e :: t =>
    if (spanDigits t).1 = [] then ([], s)
    else (0x2e :: (spanDigits t).1, (spanDigits t).2)
  | _ => ([], s)

/-- The sign of an exponent. -/
def scanExpSign (s : PyStr) : PyStr × PyStr :=
  match s with
  | 0x2b :: t => ([0x2b], t)
  | 0x2d :: t => ([0x2d], t)
  | _ => ([], s)

/-- An exponent, if one is there in full. -/
def scanExp (s : PyStr) : PyStr × PyStr :=
  match s with
  | c :: t =>
    if (c = 0x65 ∨ c = 0x45) ∧ (spanDigits (scanExpSign t).2).1 ≠ [] then
      (c :: ((scanExpSign t).1 ++ (spanDigits (scanExpSign t).2).1),
        (spanDigits (scanExpSign t).2).2)
    else ([], s)
  | [] => ([], s)

/-- A number at the head of a text: its sign, its digits before and its text
after the point. -/
structure Number where
  sign : PyStr
  digits : PyStr
  tail : PyStr
  deriving DecidableEq

/-- `match_number`: the longest number at the head of a text. -/
def matchNumber (s : PyStr) : Option (Number × PyStr) :=
  let (sign, s) := scanSign s
  let (digits, s) := scanInt s
  let (frac, s) := scanFrac s
  let (exp, s) := scanExp s
  if digits = [] then none else some (⟨sign, digits, frac ++ exp⟩, s)

/-- What a scanner makes of numbers: the value of a lexeme with a fraction or
an exponent (and of `NaN`, `Infinity`, `-Infinity`), and how many digits the
interpreter converts to an integer. -/
structure Decoder (F : Type) where
  float : PyStr → F
  maxDigits : Nat

/-- The value of a number. -/
def Decoder.number (D : Decoder F) (n : Number) : Except LoadsError (Value F) :=
  if n.tail ≠ [] then .ok (.float (D.float (n.sign ++ n.digits ++ n.tail)))
  else if D.maxDigits < n.digits.length then .error .value
  else .ok (.int (if n.sign = [] then digitsValue n.digits else -digitsValue n.digits))

/-- The words that stand for a value. -/
def Decoder.words (D : Decoder F) : List (PyStr × Value F) :=
  [(lit "null", .null), (lit "true", .bool true), (lit "false", .bool false),
    (lit "NaN", .float (D.float (lit "NaN"))), (lit "Infinity", .float (D.float (lit "Infinity"))),
    (lit "-Infinity", .float (D.float (lit "-Infinity")))]

/-- A word or a number at the head of a text. -/
def Decoder.scalar (D : Decoder F) (s : PyStr) : Except LoadsError (Value F × PyStr) :=
  match D.words.find? fun w => startsWith s w.1 with
  | some (w, v) => .ok (v, s.drop w.length)
  | none =>
    match matchNumber s with
    | none => .error .value
    | some (n, r) => (D.number n).map fun v => (v, r)

mutual

/-- `scan_once`: the value at the head of a text and what follows it. `depth`
is the nesting still allowed; `fuel` is more than twice the length of the text. -/
def scanOnce (D : Decoder F) (fuel depth : Nat) (s : PyStr) :
    Except LoadsError (Value F × PyStr) :=
  match fuel with
  | 0 => .error .value
  | fuel + 1 =>
    match s with
    | [] => .error .value
    | c :: t =>
      if c = 0x22 then
        match scanString t with
        | none => .error .value
        | some (v, r) => .ok (.str v, r)
      else if c = 0x7b then
        match depth with
        | 0 => .error .recursion
        | depth + 1 =>
          match skipWs t with
          | 0x7d :: r => .ok (.obj [], r)
          | t => scanMembers D fuel depth [] t
      else if c = 0x5b then
        match depth with
        | 0 => .error .recursion
        | depth + 1 =>
          match skipWs t with
          | 0x5d :: r => .ok (.arr [], r)
          | t => scanItems D fuel depth [] t
      else D.scalar s

/-- `JSONObject`: the members of an object, from a key. -/
def scanMembers (D : Decoder F) (fuel depth : Nat) (acc : List (PyStr × Value F)) (s : PyStr) :
    Except LoadsError (Value F × PyStr) :=
  match fuel with
  | 0 => .error .value
  | fuel + 1 =>
    match s with
    | 0x22 :: t =>
      match scanString t with
      | none => .error .value
      | some (k, r) =>
        match skipWs r with
        | 0x3a :: r =>
          match scanOnce D fuel depth (skipWs r) with
          | .error e => .error e
          | .ok (v, r) =>
            match skipWs r with
            | 0x7d :: r => .ok (.obj (assocSet acc k v), r)
            | 0x2c :: r => scanMembers D fuel depth (assocSet acc k v) (skipWs r)
            | _ => .error .value
        | _ => .error .value
    | _ => .error .value

/-- `JSONArray`: the items of an array, from one of them. -/
def scanItems (D : Decoder F) (fuel depth : Nat) (acc : List (Value F)) (s : PyStr) :
    Except LoadsError (Value F × PyStr) :=
  match fuel with
  | 0 => .error .value
  | fuel + 1 =>
    match scanOnce D fuel depth s with
    | .error e => .error e
    | .ok (v, r) =>
      match skipWs r with
      | 0x5d :: r => .ok (.arr (acc ++ [v]), r)
      | 0x2c :: r => scanItems D fuel depth (acc ++ [v]) (skipWs r)
      | _ => .error .value

end

/-- `json.loads` of a string. -/
def loads (D : Decoder F) (depth : Nat) (s : PyStr) : Except LoadsError (Value F) :=
  if startsWith s [0xfeff] then .error .value
  else
    match scanOnce D (2 * s.length + 1) depth (skipWs s) with
    | .error e => .error e
    | .ok (v, r) => if skipWs r = [] then .ok v else .error .value

end NmLogging.Json
