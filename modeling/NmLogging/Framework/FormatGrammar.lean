import NmLogging.Framework.Format

/-!
# The grammar of format strings

What a format string says, character by character (`Template`): text, doubled braces, and
fields with a name, a conversion and a specification. The parser accepts exactly the strings
of the grammar, with their pieces (`formatParse_iff`), and substitution puts the text of each
field in its place (`substitute_eq_expand`).
-/

namespace NmLogging

/-! ## The grammar -/

/-- The name of a field: within brackets any character may stand but the closing one. -/
inductive FieldName : PyStr → Prop where
  | nil : FieldName []
  | char {c : Nat} {s : PyStr} : c ∉ [0x7b, 0x7d, 0x3a, 0x21, 0x5b] → FieldName s → FieldName (c :: s)
  | bracket {b s : PyStr} : 0x5d ∉ b → FieldName s → FieldName (0x5b :: (b ++ 0x5d :: s))

/-- A specification: every brace in it has its partner. -/
inductive Balanced : PyStr → Prop where
  | nil : Balanced []
  | char {c : Nat} {s : PyStr} : c ≠ 0x7b → c ≠ 0x7d → Balanced s → Balanced (c :: s)
  | nest {a s : PyStr} : Balanced a → Balanced s → Balanced (0x7b :: (a ++ 0x7d :: s))

/-- The text of a field between its braces. -/
inductive FieldText : PyStr → FormatField → Prop where
  | plain {n : PyStr} : FieldName n → FieldText n ⟨n, [], none⟩
  | spec {n s : PyStr} : FieldName n → Balanced s → FieldText (n ++ 0x3a :: s) ⟨n, s, none⟩
  | conversion {n : PyStr} {c : Nat} : FieldName n →
    FieldText (n ++ [0x21, c]) ⟨n, [], conversionOf c⟩
  | both {n s : PyStr} {c : Nat} : FieldName n → Balanced s →
    FieldText (n ++ 0x21 :: c :: 0x3a :: s) ⟨n, s, conversionOf c⟩

/-- A character of text, or a field. -/
inductive Piece where
  | text (c : Nat)
  | field (f : FormatField)
  deriving DecidableEq

/-- A format string and its pieces. -/
inductive Template : PyStr → List Piece → Prop where
  | nil : Template [] []
  | char {c : Nat} {s : PyStr} {ps : List Piece} : c ≠ 0x7b → c ≠ 0x7d → Template s ps →
    Template (c :: s) (.text c :: ps)
  | brace {c : Nat} {s : PyStr} {ps : List Piece} : c = 0x7b ∨ c = 0x7d → Template s ps →
    Template (c :: c :: s) (.text c :: ps)
  | field {u s : PyStr} {f : FormatField} {ps : List Piece} : FieldText u f → Template s ps →
    Template (0x7b :: (u ++ 0x7d :: s)) (.field f :: ps)

/-- The pieces of an item. -/
def FormatItem.pieces (item : FormatItem) : List Piece :=
  item.literal.map .text ++ (item.field.map .field).toList

/-- The fields among pieces. -/
def Piece.fields (ps : List Piece) : List FormatField :=
  ps.filterMap fun p =>
    match p with
    | .text _ => none
    | .field f => some f

/-! ## Names -/

/-- What ends a name. -/
def EndsName (c : Nat) : Prop := c = 0x7d ∨ c = 0x3a ∨ c = 0x21

/-- What is left of a name, within brackets or not. -/
def NameRest (bracket : Bool) (n : PyStr) : Prop :=
  if bracket then ∃ b s, n = b ++ 0x5d :: s ∧ 0x5d ∉ b ∧ FieldName s else FieldName n

theorem nameRest_of_scan {bracket : Bool} {s n t : PyStr} {c : Nat}
    (h : scanFieldName bracket s = some (n, c, t)) :
    s = n ++ c :: t ∧ EndsName c ∧ NameRest bracket n := by
  induction s generalizing bracket n with
  | nil => simp [scanFieldName] at h
  | cons d s ih =>
    have step : ∀ {b : Bool}, (scanFieldName b s).map (fun r => (d :: r.1, r.2)) = some (n, c, t) →
        ∃ m, n = d :: m ∧ d :: s = n ++ c :: t ∧ EndsName c ∧ NameRest b m := by
      intro b h
      obtain ⟨⟨m, c', t'⟩, hm, heq⟩ := Option.map_eq_some_iff.mp h
      cases heq
      obtain ⟨rfl, hc, hrest⟩ := ih hm
      exact ⟨m, rfl, rfl, hc, hrest⟩
    cases bracket with
    | true =>
      obtain ⟨m, rfl, hs, hc, hrest⟩ := step h
      refine ⟨hs, hc, ?_⟩
      by_cases hd : d = 0x5d
      · rw [hd] at hrest ⊢
        exact ⟨[], m, rfl, List.not_mem_nil, hrest⟩
      · simp only [NameRest, ne_eq, hd, not_false_eq_true, decide_true, if_true] at hrest
        obtain ⟨b, s', rfl, hb, hs'⟩ := hrest
        exact ⟨d :: b, s', rfl, List.not_mem_cons_of_ne_of_not_mem (Ne.symm hd) hb, hs'⟩
    | false =>
      simp only [scanFieldName, Bool.false_eq_true, if_false] at h
      split at h
      · cases h
      rename_i hopen
      split at h
      · cases h
        exact ⟨rfl, ‹_›, FieldName.nil⟩
      rename_i hend
      obtain ⟨m, rfl, hs, hc, hrest⟩ := step h
      refine ⟨hs, hc, ?_⟩
      by_cases hd : d = 0x5b
      · simp only [NameRest, hd, decide_true, if_true] at hrest
        obtain ⟨b, s', rfl, hb, hs'⟩ := hrest
        rw [hd]
        exact FieldName.bracket hb hs'
      · simp only [NameRest, hd, decide_false, Bool.false_eq_true, if_false] at hrest
        exact FieldName.char (by simp; tauto) hrest

theorem scanFieldName_bracket {b s : PyStr} (hb : 0x5d ∉ b) :
    scanFieldName true (b ++ 0x5d :: s) =
      (scanFieldName false s).map fun r => (b ++ 0x5d :: r.1, r.2) := by
  induction b with
  | nil => simp [scanFieldName]
  | cons d b ih =>
    obtain ⟨hd, hb⟩ := not_or.mp (mt List.mem_cons.mpr hb)
    have hne : decide (d ≠ 0x5d) = true := decide_eq_true (Ne.symm hd)
    rw [List.cons_append, scanFieldName, if_pos rfl, hne, ih hb, Option.map_map]
    rfl

theorem scanFieldName_name {n : PyStr} (hn : FieldName n) {c : Nat} (hc : EndsName c) (t : PyStr) :
    scanFieldName false (n ++ c :: t) = some (n, c, t) := by
  induction hn with
  | nil =>
    have hopen : c ≠ 0x7b := by rcases hc with rfl | rfl | rfl <;> decide
    have hends : c = 0x7d ∨ c = 0x3a ∨ c = 0x21 := hc
    rw [List.nil_append, scanFieldName, if_neg Bool.false_ne_true, if_neg hopen, if_pos hends]
  | @char d s hd _ ih =>
    simp only [List.mem_cons, List.not_mem_nil, or_false, not_or] at hd
    obtain ⟨h₁, h₂, h₃, h₄, h₅⟩ := hd
    rw [List.cons_append, scanFieldName, if_neg Bool.false_ne_true, if_neg h₁, if_neg (by tauto),
      decide_eq_false h₅, ih]
    rfl
  | @bracket b s hb _ ih =>
    have hnext : scanFieldName true (b ++ 0x5d :: (s ++ c :: t)) = some (b ++ 0x5d :: s, c, t) := by
      rw [scanFieldName_bracket hb, ih]
      rfl
    have htext : 0x5b :: (b ++ 0x5d :: s) ++ c :: t = 0x5b :: (b ++ 0x5d :: (s ++ c :: t)) := by simp
    rw [htext, scanFieldName, if_neg Bool.false_ne_true, if_neg (by decide), if_neg (by decide),
      decide_eq_true rfl, hnext]
    rfl

theorem scanFieldName_iff {s n t : PyStr} {c : Nat} :
    scanFieldName false s = some (n, c, t) ↔ s = n ++ c :: t ∧ EndsName c ∧ FieldName n := by
  constructor
  · exact fun h => nameRest_of_scan h
  · rintro ⟨rfl, hc, hn⟩
    exact scanFieldName_name hn hc t

/-! ## Specifications -/

/-- A text in which `k` braces are closed that were open before it. -/
def ClosesNested : Nat → PyStr → Prop
  | 0, r => Balanced r
  | k + 1, r => ∃ a b, r = a ++ 0x7d :: b ∧ Balanced a ∧ ClosesNested k b

theorem closes_char {k c : Nat} {r : PyStr} (ho : c ≠ 0x7b) (hc : c ≠ 0x7d) (h : ClosesNested k r) :
    ClosesNested k (c :: r) := by
  cases k with
  | zero => exact Balanced.char ho hc h
  | succ k =>
    obtain ⟨a, b, rfl, ha, hb⟩ := h
    exact ⟨c :: a, b, rfl, .char ho hc ha, hb⟩

theorem closes_nest {k : Nat} {a b : PyStr} (ha : Balanced a) (h : ClosesNested k b) :
    ClosesNested k (0x7b :: (a ++ 0x7d :: b)) := by
  cases k with
  | zero => exact Balanced.nest ha h
  | succ k =>
    obtain ⟨c, d, rfl, hc, hd⟩ := h
    exact ⟨0x7b :: (a ++ 0x7d :: c), d, by simp, .nest ha hc, hd⟩

theorem closes_of_scan {k : Nat} {s r t : PyStr} (h : scanSpec (k + 1) s = some (r, t)) :
    s = r ++ 0x7d :: t ∧ ClosesNested k r := by
  induction s generalizing k r with
  | nil => simp [scanSpec] at h
  | cons c s ih =>
    have step : ∀ {m : Nat}, (scanSpec (m + 1) s).map (fun r => (c :: r.1, r.2)) = some (r, t) →
        ∃ r', r = c :: r' ∧ c :: s = r ++ 0x7d :: t ∧ ClosesNested m r' := by
      intro m h
      obtain ⟨⟨r', t'⟩, hr', heq⟩ := Option.map_eq_some_iff.mp h
      cases heq
      obtain ⟨rfl, hr⟩ := ih hr'
      exact ⟨r', rfl, rfl, hr⟩
    rw [scanSpec] at h
    split at h
    · rename_i ho
      obtain ⟨r', rfl, hs, a, b, rfl, ha, hb⟩ := step h
      refine ⟨hs, ?_⟩
      rw [ho]
      exact closes_nest ha hb
    rename_i ho
    split at h
    · rename_i hc
      cases k with
      | zero =>
        rw [if_pos rfl] at h
        cases h
        rw [hc]
        exact ⟨rfl, Balanced.nil⟩
      | succ k =>
        rw [if_neg (by omega)] at h
        obtain ⟨r', rfl, hs, hr⟩ := step h
        refine ⟨hs, ?_⟩
        rw [hc]
        exact ⟨[], r', rfl, .nil, hr⟩
    · rename_i hc
      obtain ⟨r', rfl, hs, hr⟩ := step h
      exact ⟨hs, closes_char ho hc hr⟩

theorem scanSpec_balanced {a : PyStr} (ha : Balanced a) (k : Nat) (u : PyStr) :
    scanSpec (k + 1) (a ++ u) = (scanSpec (k + 1) u).map fun r => (a ++ r.1, r.2) := by
  induction ha generalizing k u with
  | nil => simp
  | @char c s ho hc _ ih =>
    rw [List.cons_append, scanSpec, if_neg ho, if_neg hc, ih, Option.map_map]
    rfl
  | @nest a s _ _ iha ihs =>
    have htext : 0x7b :: (a ++ 0x7d :: s) ++ u = 0x7b :: (a ++ 0x7d :: (s ++ u)) := by simp
    rw [htext, scanSpec, if_pos rfl, iha, scanSpec, if_neg (by decide), if_pos rfl,
      if_neg (by omega), Nat.add_sub_cancel, ihs]
    simp only [Option.map_map, Function.comp_def, List.cons_append, List.append_assoc]

theorem scanSpec_closes {k : Nat} {r : PyStr} (hr : ClosesNested k r) (t : PyStr) :
    scanSpec (k + 1) (r ++ 0x7d :: t) = some (r, t) := by
  induction k generalizing r with
  | zero =>
    rw [scanSpec_balanced hr, scanSpec, if_neg (by decide), if_pos rfl, if_pos rfl]
    simp
  | succ k ih =>
    obtain ⟨a, b, rfl, ha, hb⟩ := hr
    have htext : a ++ 0x7d :: b ++ 0x7d :: t = a ++ 0x7d :: (b ++ 0x7d :: t) := by simp
    rw [htext, scanSpec_balanced ha, scanSpec, if_neg (by decide), if_pos rfl, if_neg (by omega),
      Nat.add_sub_cancel, ih hb]
    rfl

theorem scanSpec_iff {s r t : PyStr} :
    scanSpec 1 s = some (r, t) ↔ s = r ++ 0x7d :: t ∧ Balanced r := by
  constructor
  · exact fun h => closes_of_scan (k := 0) h
  · rintro ⟨rfl, hr⟩
    exact scanSpec_closes (k := 0) hr t

/-! ## Fields -/

theorem parseField_iff {s t : PyStr} {f : FormatField} :
    parseField s = some (f, t) ↔ ∃ u, FieldText u f ∧ s = u ++ 0x7d :: t := by
  constructor
  · intro h
    unfold parseField at h
    split at h
    · cases h
    rename_i n c v hn
    obtain ⟨rfl, hc, hname⟩ := scanFieldName_iff.mp hn
    split at h
    · rename_i hclose
      cases h
      exact ⟨n, .plain hname, by rw [hclose]⟩
    rename_i hclose
    split at h
    · rename_i hcolon
      obtain ⟨⟨r, t'⟩, hr, heq⟩ := Option.map_eq_some_iff.mp h
      cases heq
      obtain ⟨rfl, hbal⟩ := scanSpec_iff.mp hr
      exact ⟨n ++ 0x3a :: r, .spec hname hbal, by rw [hcolon]; simp⟩
    rename_i hcolon
    have hbang : c = 0x21 := (hc.resolve_left hclose).resolve_left hcolon
    split at h
    · cases h
    · rename_i v' u
      cases h
      exact ⟨n ++ [0x21, v'], .conversion hname, by rw [hbang]; simp⟩
    · rename_i v' u
      obtain ⟨⟨r, t'⟩, hr, heq⟩ := Option.map_eq_some_iff.mp h
      cases heq
      obtain ⟨rfl, hbal⟩ := scanSpec_iff.mp hr
      exact ⟨n ++ 0x21 :: v' :: 0x3a :: r, .both hname hbal, by rw [hbang]; simp⟩
    · cases h
  · rintro ⟨u, hu, rfl⟩
    cases hu with
    | plain hn => rw [parseField, scanFieldName_name hn (.inl rfl)]; rfl
    | @spec n r hn hr =>
      have htext : n ++ 0x3a :: r ++ 0x7d :: t = n ++ 0x3a :: (r ++ 0x7d :: t) := by simp
      rw [parseField, htext, scanFieldName_name hn (.inr (.inl rfl))]
      simp only [scanSpec_iff.mpr ⟨rfl, hr⟩]
      rfl
    | @conversion n c hn =>
      have htext : n ++ [0x21, c] ++ 0x7d :: t = n ++ 0x21 :: (c :: 0x7d :: t) := by simp
      rw [parseField, htext, scanFieldName_name hn (.inr (.inr rfl))]
      rfl
    | @both n r c hn hr =>
      have htext : n ++ 0x21 :: c :: 0x3a :: r ++ 0x7d :: t =
          n ++ 0x21 :: (c :: 0x3a :: (r ++ 0x7d :: t)) := by simp
      rw [parseField, htext, scanFieldName_name hn (.inr (.inr rfl))]
      simp only [scanSpec_iff.mpr ⟨rfl, hr⟩]
      rfl

/-- A field does not start with a brace. -/
theorem fieldText_head {u : PyStr} {f : FormatField} (h : FieldText u f) (t : PyStr) :
    ∃ d v, u ++ 0x7d :: t = d :: v ∧ d ≠ 0x7b := by
  have name : ∀ {n w : PyStr} {c : Nat}, FieldName n → EndsName c →
      ∃ d v, n ++ c :: w = d :: v ∧ d ≠ 0x7b := by
    intro n w c hn hc
    cases hn with
    | nil => exact ⟨c, w, rfl, by rcases hc with rfl | rfl | rfl <;> decide⟩
    | char hd _ => exact ⟨_, _, rfl, fun h => hd (by simp [h])⟩
    | bracket _ _ => exact ⟨_, _, rfl, by decide⟩
  cases h with
  | plain hn => exact name hn (.inl rfl)
  | spec hn _ => rw [List.append_assoc]; exact name hn (.inr (.inl rfl))
  | conversion hn => rw [List.append_assoc]; exact name hn (.inr (.inr rfl))
  | both hn _ => rw [List.append_assoc]; exact name hn (.inr (.inr rfl))

/-! ## The parser -/

theorem scanLiteral_text {c : Nat} (h : ¬(c = 0x7b ∨ c = 0x7d)) (s : PyStr) :
    scanLiteral (c :: s) = (c :: (scanLiteral s).1, (scanLiteral s).2) := by
  rw [scanLiteral.eq_def]
  exact if_neg h

theorem scanLiteral_brace {c : Nat} (h : c = 0x7b ∨ c = 0x7d) (d : Nat) (t : PyStr) :
    scanLiteral (c :: d :: t) =
      if d = c then ([c], .escaped t)
      else if c = 0x7d then ([], .error)
      else ([], .field (d :: t)) := by
  rw [scanLiteral.eq_def]
  exact if_pos h

theorem scanLiteral_last {c : Nat} (h : c = 0x7b ∨ c = 0x7d) :
    scanLiteral [c] = ([], .error) := by
  rw [scanLiteral.eq_def]
  exact if_pos h

/-- A text that goes on from literal text. -/
theorem template_of_scanLiteral {s : PyStr} :
    (∀ e, scanLiteral s = (e, .done) → Template s (e.map .text)) ∧
    (∀ e t ps, scanLiteral s = (e, .escaped t) → Template t ps → Template s (e.map .text ++ ps)) ∧
    (∀ e t ps, scanLiteral s = (e, .field t) → Template (0x7b :: t) ps →
      Template s (e.map .text ++ ps)) := by
  induction s with
  | nil =>
    refine ⟨fun e h => ?_, fun e t ps h => (by cases h), fun e t ps h => (by cases h)⟩
    cases h
    exact .nil
  | cons c s ih =>
    by_cases hc : c = 0x7b ∨ c = 0x7d
    · cases s with
      | nil =>
        rw [scanLiteral_last hc]
        exact ⟨fun e h => (by cases h), fun e t ps h => (by cases h), fun e t ps h => (by cases h)⟩
      | cons d t =>
        rw [scanLiteral_brace hc]
        by_cases hd : d = c
        · subst hd
          rw [if_pos rfl]
          refine ⟨fun e h => (by cases h), fun e t ps h ht => ?_, fun e t ps h => (by cases h)⟩
          cases h
          exact .brace hc ht
        · rw [if_neg hd]
          by_cases hclose : c = 0x7d
          · rw [if_pos hclose]
            exact ⟨fun e h => (by cases h), fun e t ps h => (by cases h),
              fun e t ps h => (by cases h)⟩
          · rw [if_neg hclose]
            refine ⟨fun e h => (by cases h), fun e t ps h => (by cases h), fun e t ps h ht => ?_⟩
            cases h
            rw [hc.resolve_right hclose]
            exact ht
    · rw [scanLiteral_text hc]
      obtain ⟨hopen, hclose⟩ := not_or.mp hc
      obtain ⟨hdone, hescaped, hfield⟩ := ih
      generalize scanLiteral s = r at hdone hescaped hfield
      obtain ⟨e, r⟩ := r
      refine ⟨fun e' h => ?_, fun e' t ps h ht => ?_, fun e' t ps h ht => ?_⟩
      · cases h
        exact .char hopen hclose (hdone _ rfl)
      · cases h
        exact .char hopen hclose (hescaped _ _ _ rfl ht)
      · cases h
        exact .char hopen hclose (hfield _ _ _ rfl ht)

/-- What the parser takes to its end is a format string, with its pieces. -/
theorem template_of_formatItems {n : Nat} {s : PyStr} (hn : s.length ≤ n)
    (h : (formatItems n s).2 = true) : Template s ((formatItems n s).1.flatMap FormatItem.pieces) := by
  induction n generalizing s with
  | zero =>
    have hs : s = [] := List.length_eq_zero_iff.mp (by omega)
    subst hs
    exact .nil
  | succ n ih =>
    unfold formatItems at h ⊢
    split at h
    · rename_i hs
      subst hs
      exact .nil
    rename_i hs
    rw [if_neg hs]
    obtain ⟨hdone, hescaped, hfield⟩ := template_of_scanLiteral (s := s)
    rcases hscan : scanLiteral s with ⟨e, _ | t | t | _⟩
    · simpa [FormatItem.pieces] using hdone e hscan
    · have hlt := scanLiteral_length (congrArg Prod.snd hscan) (.inl rfl)
      simp only [hscan] at h
      simpa [FormatItem.pieces] using hescaped e t _ hscan (ih (by omega) h)
    · have hlt := scanLiteral_length (congrArg Prod.snd hscan) (.inr rfl)
      simp only [hscan] at h ⊢
      cases hp : parseField t with
      | none => simp [hp] at h
      | some r =>
        obtain ⟨f, v⟩ := r
        have hlt' := parseField_length hp
        simp only [hp] at h ⊢
        obtain ⟨u, hu, rfl⟩ := parseField_iff.mp hp
        have := hfield e _ _ hscan (.field hu (ih (by omega) h))
        simpa [FormatItem.pieces] using this
    · simp [hscan] at h

/-- A character of text goes to the first item. -/
theorem formatItems_char {n c : Nat} {s : PyStr} (hopen : c ≠ 0x7b) (hclose : c ≠ 0x7d)
    (h : (formatItems (n + 1) s).2 = true) :
    (formatItems (n + 1) (c :: s)).2 = true ∧
      (formatItems (n + 1) (c :: s)).1.flatMap FormatItem.pieces =
        .text c :: (formatItems (n + 1) s).1.flatMap FormatItem.pieces := by
  have hscan := scanLiteral_text (not_or.mpr ⟨hopen, hclose⟩) s
  by_cases hs : s = []
  · subst hs
    simp [formatItems, scanLiteral, hopen, hclose, FormatItem.pieces]
  · rw [formatItems, if_neg (List.cons_ne_nil c s), hscan]
    rw [formatItems, if_neg hs] at h ⊢
    clear hscan
    generalize scanLiteral s = r at h ⊢
    obtain ⟨e, _ | t | t | _⟩ := r
    · simp [FormatItem.pieces]
    · simp only at h
      simp [FormatItem.pieces, h]
    · simp only at h ⊢
      cases hp : parseField t with
      | none => simp [hp] at h
      | some r =>
        simp only [hp] at h
        simp [FormatItem.pieces, h]
    · simp at h

/-- The parser takes every format string to its end, and yields its pieces. -/
theorem formatItems_of_template {s : PyStr} {ps : List Piece} (h : Template s ps) {n : Nat}
    (hn : s.length ≤ n) :
    (formatItems n s).2 = true ∧ (formatItems n s).1.flatMap FormatItem.pieces = ps := by
  induction h generalizing n with
  | nil => cases n <;> exact ⟨rfl, rfl⟩
  | @char c s ps hopen hclose _ ih =>
    cases n with
    | zero => simp at hn
    | succ n =>
      rw [List.length_cons] at hn
      obtain ⟨hok, hps⟩ := ih (n := n + 1) (by omega)
      obtain ⟨hok', hps'⟩ := formatItems_char hopen hclose hok
      exact ⟨hok', by rw [hps', hps]⟩
  | @brace c s ps hc _ ih =>
    cases n with
    | zero => simp at hn
    | succ n =>
      simp only [List.length_cons] at hn
      obtain ⟨hok, hps⟩ := ih (n := n) (by omega)
      have hscan : scanLiteral (c :: c :: s) = ([c], .escaped s) := by
        rw [scanLiteral_brace hc]
        exact if_pos rfl
      rw [formatItems, if_neg (List.cons_ne_nil _ _), hscan]
      exact ⟨hok, by simp [FormatItem.pieces, hps]⟩
  | @field u s f ps hu _ ih =>
    cases n with
    | zero => simp at hn
    | succ n =>
      simp only [List.length_cons, List.length_append] at hn
      obtain ⟨hok, hps⟩ := ih (n := n) (by omega)
      obtain ⟨d, v, hdv, hd⟩ := fieldText_head hu s
      have hscan : scanLiteral (0x7b :: (u ++ 0x7d :: s)) = ([], .field (u ++ 0x7d :: s)) := by
        rw [hdv, scanLiteral_brace (.inl rfl), if_neg hd, if_neg (by decide)]
      have hparse : parseField (u ++ 0x7d :: s) = some (f, s) := parseField_iff.mpr ⟨u, hu, rfl⟩
      rw [formatItems, if_neg (List.cons_ne_nil _ _), hscan]
      simp only [hparse]
      exact ⟨hok, by simp [FormatItem.pieces, hps]⟩

/-- The parser accepts the strings of the grammar, and yields their pieces. -/
theorem formatParse_iff {s : PyStr} {ps : List Piece} :
    Template s ps ↔
      (formatParse s).2 = true ∧ (formatParse s).1.flatMap FormatItem.pieces = ps := by
  constructor
  · exact fun h => formatItems_of_template h (Nat.le_refl _)
  · rintro ⟨hok, rfl⟩
    exact template_of_formatItems (Nat.le_refl _) hok

/-- The fields that the parser yields are those of the pieces. -/
theorem fields_pieces (items : List FormatItem) :
    Piece.fields (items.flatMap FormatItem.pieces) = items.filterMap FormatItem.field := by
  have htext : ∀ s : PyStr, Piece.fields (s.map .text) = [] := by
    intro s
    induction s with
    | nil => rfl
    | cons c s ih => exact ih
  induction items with
  | nil => rfl
  | cons item items ih =>
    obtain ⟨literal, field⟩ := item
    have happend : ∀ ps qs, Piece.fields (ps ++ qs) = Piece.fields ps ++ Piece.fields qs :=
      fun ps qs => List.filterMap_append ..
    rw [List.flatMap_cons, happend, ih, FormatItem.pieces, happend, htext]
    cases field <;> rfl

/-! ## Substitution -/

/-- Pieces with a text for every field: text stays, and a field becomes its own text. -/
def expand (value : PyStr → PyStr) (ps : List Piece) : PyStr :=
  ps.flatMap fun p =>
    match p with
    | .text c => [c]
    | .field f => value f.name

section

variable {ε : Type} {value : PyStr → Except ε PyStr} {items : List FormatItem}

theorem expand_pieces (text : PyStr → PyStr) (item : FormatItem) :
    expand text item.pieces =
      item.literal ++ (item.field.map fun f => text f.name).getD [] := by
  have htext : ∀ s : PyStr, expand text (s.map .text) = s := by
    intro s
    induction s with
    | nil => rfl
    | cons c s ih => rw [List.map_cons, expand, List.flatMap_cons, ← expand, ih]; rfl
  obtain ⟨literal, field⟩ := item
  rw [FormatItem.pieces, expand, List.flatMap_append, ← expand, htext]
  cases field <;> simp

/-- Where every field has a text, each stands in its place. -/
theorem substitute_eq_expand {text : PyStr → PyStr}
    (h : ∀ f ∈ items.filterMap FormatItem.field, value f.name = .ok (text f.name)) :
    substitute value items = .ok (expand text (items.flatMap FormatItem.pieces)) := by
  induction items with
  | nil => rfl
  | cons item items ih =>
    have hcons : expand text ((item :: items).flatMap FormatItem.pieces) =
        expand text item.pieces ++ expand text (items.flatMap FormatItem.pieces) := by
      rw [List.flatMap_cons, expand, List.flatMap_append]
      rfl
    rw [hcons, expand_pieces]
    obtain ⟨literal, field⟩ := item
    cases field with
    | none =>
      rw [substitute, ih fun f hf => h f hf]
      simp [Except.map]
    | some f =>
      rw [substitute, h f (by simp), ih fun f' hf => h f' (List.mem_filterMap.mpr (by
        obtain ⟨item, hi, hf⟩ := List.mem_filterMap.mp hf
        exact ⟨item, List.mem_cons_of_mem _ hi, hf⟩))]
      simp [Except.map]

/-- Every field of a text that was put together has a text. -/
theorem exists_of_substitute_eq_ok {t : PyStr} (h : substitute value items = .ok t) :
    ∀ f ∈ items.filterMap FormatItem.field, ∃ u, value f.name = .ok u := by
  induction items generalizing t with
  | nil => exact fun f hf => (by cases hf)
  | cons item items ih =>
    obtain ⟨literal, field⟩ := item
    cases field with
    | none =>
      obtain ⟨r, hr, -⟩ := map_eq_ok.mp h
      exact ih hr
    | some f =>
      rw [substitute] at h
      cases hv : value f.name with
      | error e => simp [hv] at h
      | ok u =>
        rw [hv] at h
        obtain ⟨r, hr, -⟩ := map_eq_ok.mp h
        intro f' hf'
        have hcons : (⟨literal, some f⟩ :: items).filterMap FormatItem.field =
            f :: items.filterMap FormatItem.field := rfl
        rw [hcons] at hf'
        rcases List.mem_cons.mp hf' with rfl | hf'
        · exact ⟨u, hv⟩
        · exact ih hr f' hf'

end

end NmLogging
