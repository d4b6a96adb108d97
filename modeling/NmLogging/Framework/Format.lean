import NmLogging.Framework.Except
import NmLogging.Framework.Text

/-!
# Format strings

Python's replacement-field syntax, as `string.Formatter().parse` and
`str.format` read it: literal text, doubled braces, and fields with a name, a
conversion and a format specification. The parser is a generator, so what it
yields before an error in the text is yielded all the same (`formatParse`).
`substitute` is `str.format` on fields whose values have a default text only,
which is all that a template without conversions and specifications uses.
-/

namespace NmLogging

/-- A replacement field. -/
structure FormatField where
  name : PyStr
  spec : PyStr
  conversion : Option Nat
  deriving DecidableEq

/-- Literal text, and the field that follows it, if one does. -/
structure FormatItem where
  literal : PyStr
  field : Option FormatField
  deriving DecidableEq

/-- What ends a run of literal text. -/
inductive LiteralEnd where
  | done
  | escaped (rest : PyStr)
  | field (rest : PyStr)
  | error
  deriving DecidableEq

/-- The literal text at the head of a format string. Of a doubled brace the
first stays in the literal and the second is skipped. -/
def scanLiteral : PyStr → PyStr × LiteralEnd
  | [] => ([], .done)
  | c :: s =>
    if c = 0x7b ∨ c = 0x7d then
      match s with
      | [] => ([], .error)
      | d :: t =>
        if d = c then ([c], .escaped t)
        else if c = 0x7d then ([], .error)
        else ([], .field (d :: t))
    else (c :: (scanLiteral s).1, (scanLiteral s).2)

/-- The name of a field, what ended it, and what follows. Within brackets only
the closing one is looked for. -/
def scanFieldName (bracket : Bool) : PyStr → Option (PyStr × Nat × PyStr)
  | [] => none
  | c :: s =>
    if bracket then
      (scanFieldName (c ≠ 0x5d) s).map fun r => (c :: r.1, r.2)
    else if c = 0x7b then none
    else if c = 0x7d ∨ c = 0x3a ∨ c = 0x21 then some ([], c, s)
    else (scanFieldName (c = 0x5b) s).map fun r => (c :: r.1, r.2)

/-- A format specification up to the brace that closes the field. -/
def scanSpec (count : Nat) : PyStr → Option (PyStr × PyStr)
  | [] => none
  | c :: s =>
    if c = 0x7b then (scanSpec (count + 1) s).map fun r => (c :: r.1, r.2)
    else if c = 0x7d then
      if count = 1 then some ([], s)
      else (scanSpec (count - 1) s).map fun r => (c :: r.1, r.2)
    else (scanSpec count s).map fun r => (c :: r.1, r.2)

/-- The conversion a character stands for: a NUL is taken for none. -/
def conversionOf (c : Nat) : Option Nat := if c = 0 then none else some c

/-- `parse_field`: a field, after its opening brace, and what follows it. -/
def parseField (s : PyStr) : Option (FormatField × PyStr) :=
  match scanFieldName false s with
  | none => none
  | some (name, c, s) =>
    if c = 0x7d then some (⟨name, [], none⟩, s)
    else if c = 0x3a then (scanSpec 1 s).map fun r => (⟨name, r.1, none⟩, r.2)
    else
      match s with
      | [] => none
      | v :: 0x7d :: s => some (⟨name, [], conversionOf v⟩, s)
      | v :: 0x3a :: s => (scanSpec 1 s).map fun r => (⟨name, r.1, conversionOf v⟩, r.2)
      | _ => none

/-- The items of a format string before its end, or before the first error. -/
def formatItems : Nat → PyStr → List FormatItem × Bool
  | 0, _ => ([], true)
  | fuel + 1, s =>
    if s = [] then ([], true)
    else
      match scanLiteral s with
      | (lit, .done) => ([⟨lit, none⟩], true)
      | (lit, .escaped t) =>
        (⟨lit, none⟩ :: (formatItems fuel t).1, (formatItems fuel t).2)
      | (_, .error) => ([], false)
      | (lit, .field t) =>
        match parseField t with
        | none => ([], false)
        | some (f, t) =>
          (⟨lit, some f⟩ :: (formatItems fuel t).1, (formatItems fuel t).2)

/-- `string.Formatter().parse`: the items, and whether the text was well formed
to its end. -/
def formatParse (s : PyStr) : List FormatItem × Bool := formatItems s.length s

/-- Literal text and the texts of fields, in order; the first field without one
ends it. -/
def substitute {ε : Type} (value : PyStr → Except ε PyStr) : List FormatItem → Except ε PyStr
  | [] => .ok []
  | ⟨lit, none⟩ :: items => (substitute value items).map (lit ++ ·)
  | ⟨lit, some f⟩ :: items =>
    match value f.name with
    | .error e => .error e
    | .ok t => (substitute value items).map fun r => lit ++ (t ++ r)

/-- The exception of a template is that of one of its fields. -/
theorem exists_of_substitute_eq_error {ε : Type} {value : PyStr → Except ε PyStr}
    {items : List FormatItem} {e : ε} (h : substitute value items = .error e) :
    ∃ item ∈ items, ∃ f, item.field = some f ∧ value f.name = .error e := by
  induction items with
  | nil => cases h
  | cons item items ih =>
    obtain ⟨literal, field⟩ := item
    have rest : ∀ {g : PyStr → PyStr}, (substitute value items).map g = .error e →
        ∃ item ∈ ⟨literal, field⟩ :: items, ∃ f, item.field = some f ∧ value f.name = .error e := by
      intro g h
      obtain ⟨i, hi, hf⟩ := ih (map_eq_error.mp h)
      exact ⟨i, List.mem_cons_of_mem _ hi, hf⟩
    cases field with
    | none => exact rest h
    | some f =>
      simp only [substitute] at h
      cases hv : value f.name with
      | error e' => rw [hv] at h; cases h; exact ⟨_, List.mem_cons_self, f, rfl, hv⟩
      | ok t => rw [hv] at h; exact rest h

/-! ## The parser makes progress -/

theorem scanLiteral_length {s t : PyStr} {e : LiteralEnd} (h : (scanLiteral s).2 = e)
    (he : e = .escaped t ∨ e = .field t) : t.length < s.length := by
  induction s with
  | nil => rcases he with rfl | rfl <;> simp [scanLiteral] at h
  | cons c s ih =>
    unfold scanLiteral at h
    split at h
    · split at h
      · rcases he with rfl | rfl <;> simp at h
      · split at h
        · rcases he with rfl | rfl <;> simp at h
          subst h; simp only [List.length_cons]; omega
        · split at h
          · rcases he with rfl | rfl <;> simp at h
          · rcases he with rfl | rfl <;> simp at h
            subst h; simp
    · have := ih h
      simp only [List.length_cons]; omega

theorem scanFieldName_length {b : Bool} {s n t : PyStr} {c : Nat}
    (h : scanFieldName b s = some (n, c, t)) : t.length < s.length := by
  induction s generalizing b n with
  | nil => simp [scanFieldName] at h
  | cons d s ih =>
    have step : ∀ {b' : Bool}, (scanFieldName b' s).map (fun r => (d :: r.1, r.2)) =
        some (n, c, t) → t.length < (d :: s).length := by
      intro b' h
      simp only [Option.map_eq_some_iff, Prod.mk.injEq] at h
      obtain ⟨⟨m, c', u⟩, hm, -, hu⟩ := h
      cases hu
      have := ih hm
      simp only [List.length_cons]; omega
    simp only [scanFieldName] at h
    split at h
    · exact step h
    split at h
    · cases h
    split at h
    · cases h; simp
    · exact step h

theorem scanSpec_length {k : Nat} {s n t : PyStr} (h : scanSpec k s = some (n, t)) :
    t.length < s.length := by
  induction s generalizing k n with
  | nil => simp [scanSpec] at h
  | cons d s ih =>
    have step : ∀ {k' : Nat}, (scanSpec k' s).map (fun r => (d :: r.1, r.2)) = some (n, t) →
        t.length < (d :: s).length := by
      intro k' h
      simp only [Option.map_eq_some_iff, Prod.mk.injEq] at h
      obtain ⟨p, hm, -, rfl⟩ := h
      have := ih hm
      simp only [List.length_cons]; omega
    simp only [scanSpec] at h
    split at h
    · exact step h
    split at h
    · split at h
      · cases h; simp
      · exact step h
    · exact step h

theorem parseField_length {s t : PyStr} {f : FormatField} (h : parseField s = some (f, t)) :
    t.length < s.length := by
  unfold parseField at h
  split at h
  · cases h
  · rename_i name c u hn
    have hu := scanFieldName_length hn
    have spec : ∀ {v w : PyStr} {q : Option Nat}, v.length ≤ u.length →
        (scanSpec 1 v).map (fun r => ((⟨name, r.1, q⟩ : FormatField), r.2)) = some (f, w) →
        w.length < s.length := by
      intro v w q hv h
      simp only [Option.map_eq_some_iff, Prod.mk.injEq] at h
      obtain ⟨⟨m, x⟩, hm, -, rfl⟩ := h
      have : x.length < v.length := scanSpec_length hm
      show x.length < s.length
      omega
    split at h
    · cases h; exact hu
    split at h
    · exact spec (Nat.le_refl _) h
    split at h
    · cases h
    · cases h
      simp only [List.length_cons] at hu
      omega
    · exact spec (by simp only [List.length_cons]; omega) h
    · cases h

/-- More fuel than the text has characters changes nothing. -/
theorem formatItems_fuel {n m : Nat} {s : PyStr} (hn : s.length ≤ n) (hm : s.length ≤ m) :
    formatItems n s = formatItems m s := by
  induction n generalizing m s with
  | zero =>
    have : s = [] := List.length_eq_zero_iff.mp (by omega)
    subst this
    cases m <;> simp [formatItems]
  | succ n ih =>
    cases m with
    | zero =>
      have : s = [] := List.length_eq_zero_iff.mp (by omega)
      subst this
      simp [formatItems]
    | succ m =>
      simp only [formatItems]
      split
      · rfl
      rcases hs : scanLiteral s with ⟨lit, _ | t | t | _⟩
      · rfl
      · have := scanLiteral_length (t := t) (congrArg Prod.snd hs) (.inl rfl)
        simp only [ih (show t.length ≤ n by omega) (show t.length ≤ m by omega)]
      · have ht := scanLiteral_length (t := t) (congrArg Prod.snd hs) (.inr rfl)
        rcases hp : parseField t with _ | ⟨f, u⟩
        · simp only [hp]
        · have hu := parseField_length hp
          simp only [hp, ih (show u.length ≤ n by omega) (show u.length ≤ m by omega)]
      · rfl

end NmLogging
