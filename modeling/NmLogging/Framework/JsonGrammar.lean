import NmLogging.Framework.JsonPrefix

/-!
# The grammar of JSON

The grammar of RFC 8259 with what its phrases stand for (`Derives`), over the words
and the integers that a dialect has and the nesting it allows. The scanners of strings
and numbers read exactly the phrases of the grammar (`chars_of_scanString`,
`scanString_of_chars`, `isNumber_of_matchNumber`, `matchNumber_of_isNumber`).
-/

namespace NmLogging.Json

variable {F : Type}

/-- White space. -/
def Ws (s : PyStr) : Prop := ∀ c ∈ s, isWs c = true

/-! ## Strings -/

def IsHigh (u : Nat) : Prop := 0xd800 ≤ u ∧ u ≤ 0xdbff

def IsLow (u : Nat) : Prop := 0xdc00 ≤ u ∧ u ≤ 0xdfff

instance (u : Nat) : Decidable (IsHigh u) := inferInstanceAs (Decidable (_ ∧ _))

/-- The character that a surrogate pair stands for. -/
def pairValue (u w : Nat) : Nat := 0x10000 + (u - 0xd800) * 0x400 + (w - 0xdc00)

/-- The characters of a string between its quotes, and what they stand for. The texts
are of code points, so nothing is above `%x10FFFF`. -/
inductive Chars : PyStr → PyStr → Prop where
  | nil : Chars [] []
  | unescaped {c : Nat} {s v : PyStr} : 0x20 ≤ c → c ≠ 0x22 → c ≠ 0x5c → Chars s v →
    Chars (c :: s) (c :: v)
  | escape {e x : Nat} {s v : PyStr} : simpleEscape e = some x → Chars s v →
    Chars (0x5c :: e :: s) (x :: v)
  | unicode {a b c d u : Nat} {s v : PyStr} : hex4 a b c d = some u →
    ¬(IsHigh u ∧ (lowSurrogate s).isSome) → Chars s v →
    Chars (0x5c :: 0x75 :: a :: b :: c :: d :: s) (u :: v)
  | pair {a b c d u a' b' c' d' w : Nat} {s v : PyStr} : hex4 a b c d = some u → IsHigh u →
    hex4 a' b' c' d' = some w → IsLow w → Chars s v →
    Chars (0x5c :: 0x75 :: a :: b :: c :: d :: 0x5c :: 0x75 :: a' :: b' :: c' :: d' :: s)
      (pairValue u w :: v)

/-- A string with its quotes. -/
def quoted (s : PyStr) : PyStr := 0x22 :: (s ++ [0x22])

theorem hexVal_quote : hexVal 0x22 = none := rfl

theorem lowSurrogate_of_ne {x y : Nat} (h : ¬(x = 0x5c ∧ y = 0x75)) (t : PyStr) :
    lowSurrogate (x :: y :: t) = none := by
  unfold lowSurrogate
  split
  · rename_i e
    cases e
    exact absurd ⟨rfl, rfl⟩ h
  · rfl

/-- No low surrogate is written across the end of a string. -/
theorem lowSurrogate_append (s r : PyStr) : lowSurrogate (s ++ 0x22 :: r) = lowSurrogate s := by
  obtain _ | ⟨x, _ | ⟨y, s⟩⟩ := s
  · rfl
  · have hne : ¬(x = 0x5c ∧ 0x22 = 0x75) := by simp
    rw [List.cons_append, List.nil_append, lowSurrogate_of_ne hne]
    simp [lowSurrogate]
  · by_cases h : x = 0x5c ∧ y = 0x75
    · obtain ⟨rfl, rfl⟩ := h
      -- the quote is no digit
      have hquote : ∀ a b c, hex4 a b c 0x22 = none ∧ hex4 a b 0x22 c = none ∧
          hex4 a 0x22 b c = none ∧ hex4 0x22 a b c = none := by
        intro a b c
        simp [hex4, hexVal_quote]
      obtain _ | ⟨a, _ | ⟨b, _ | ⟨c, _ | ⟨d, s⟩⟩⟩⟩ := s
      · obtain _ | ⟨a, _ | ⟨b, _ | ⟨c, r⟩⟩⟩ := r
        · rfl
        · rfl
        · rfl
        · simp [lowSurrogate, (hquote a b c).2.2.2]
      · obtain _ | ⟨b, _ | ⟨c, r⟩⟩ := r
        · rfl
        · rfl
        · simp [lowSurrogate, (hquote a b c).2.2.1]
      · obtain _ | ⟨c, r⟩ := r
        · rfl
        · simp [lowSurrogate, (hquote a b c).2.1]
      · simp [lowSurrogate, (hquote a b c).1]
      · rfl
    · rw [List.cons_append, List.cons_append, lowSurrogate_of_ne h, lowSurrogate_of_ne h]

theorem lowSurrogate_pair {a b c d w : Nat} (h : hex4 a b c d = some w) (hw : IsLow w) (s : PyStr) :
    lowSurrogate (0x5c :: 0x75 :: a :: b :: c :: d :: s) = some w := by
  simp only [lowSurrogate, h]
  exact if_pos hw

theorem lowSurrogate_ok {s : PyStr} {w : Nat} (h : lowSurrogate s = some w) :
    ∃ a b c d t, s = 0x5c :: 0x75 :: a :: b :: c :: d :: t ∧ hex4 a b c d = some w ∧ IsLow w := by
  unfold lowSurrogate at h
  split at h
  · rename_i a b c d t
    split at h
    · rename_i u hu
      split at h
      · rename_i hlow
        cases h
        exact ⟨a, b, c, d, t, rfl, hu, hlow⟩
      · cases h
    · cases h
  · cases h

/-- A character escaped by its code, with none behind it that completes a pair. -/
theorem scanString_unicode {a b c d u : Nat} {s : PyStr} (h : hex4 a b c d = some u)
    (hp : ¬(IsHigh u ∧ (lowSurrogate s).isSome)) :
    scanString (0x5c :: 0x75 :: a :: b :: c :: d :: s) =
      (scanString s).map fun p => (u :: p.1, p.2) := by
  rw [scanString.eq_def]
  simp only [Nat.reduceEqDiff, if_true, if_false, h]
  split
  · rename_i hu
    split
    · rename_i hw
      exact absurd ⟨hu, by rw [hw]; rfl⟩ hp
    · rfl
  · rfl

theorem scanString_pair {a b c d u a' b' c' d' w : Nat} {s : PyStr} (h : hex4 a b c d = some u)
    (hu : IsHigh u) (h' : hex4 a' b' c' d' = some w) (hw : IsLow w) :
    scanString (0x5c :: 0x75 :: a :: b :: c :: d :: 0x5c :: 0x75 :: a' :: b' :: c' :: d' :: s) =
      (scanString s).map fun p => (pairValue u w :: p.1, p.2) := by
  rw [scanString.eq_def]
  simp only [Nat.reduceEqDiff, if_true, if_false, h, lowSurrogate_pair h' hw]
  exact if_pos hu

theorem scanString_escape {e x : Nat} {s : PyStr} (h : simpleEscape e = some x) :
    scanString (0x5c :: e :: s) = (scanString s).map fun p => (x :: p.1, p.2) := by
  have he : e ≠ 0x75 := by
    rintro rfl
    cases h
  rw [scanString.eq_def]
  simp only [Nat.reduceEqDiff, if_true, if_false, he, h]

theorem scanString_unescaped {c : Nat} {s : PyStr} (h : 0x20 ≤ c) (h₁ : c ≠ 0x22) (h₂ : c ≠ 0x5c) :
    scanString (c :: s) = (scanString s).map fun p => (c :: p.1, p.2) := by
  have hc : ¬c < 0x20 := by omega
  rw [scanString.eq_def]
  simp only [h₁, h₂, hc, if_false]

theorem scanString_of_chars {s v : PyStr} (h : Chars s v) (r : PyStr) :
    scanString (s ++ 0x22 :: r) = some (v, r) := by
  induction h with
  | nil =>
    rw [List.nil_append, scanString.eq_def]
    rfl
  | unescaped h h₁ h₂ _ ih => rw [List.cons_append, scanString_unescaped h h₁ h₂, ih]; rfl
  | escape h _ ih => rw [List.cons_append, List.cons_append, scanString_escape h, ih]; rfl
  | unicode h hp _ ih =>
    simp only [List.cons_append]
    rw [scanString_unicode h (by rwa [lowSurrogate_append]), ih]
    rfl
  | pair h hu h' hw _ ih =>
    simp only [List.cons_append]
    rw [scanString_pair h hu h' hw, ih]
    rfl

theorem chars_of_scanString {s v r : PyStr} (h : scanString s = some (v, r)) :
    ∃ p, s = p ++ 0x22 :: r ∧ Chars p v := by
  induction hn : s.length using Nat.strong_induction_on generalizing s v with
  | _ n ih =>
    subst hn
    -- what a scan of the rest of the text says
    have rest : ∀ {t : PyStr} {x : Nat}, t.length < s.length →
        (scanString t).map (fun p => (x :: p.1, p.2)) = some (v, r) →
        ∃ p w, t = p ++ 0x22 :: r ∧ Chars p w ∧ v = x :: w := by
      intro t x ht h
      simp only [Option.map_eq_some_iff, Prod.mk.injEq] at h
      obtain ⟨⟨w, r'⟩, hw, rfl, rfl⟩ := h
      obtain ⟨p, hp, hc⟩ := ih t.length ht hw rfl
      exact ⟨p, w, hp, hc, rfl⟩
    rw [scanString.eq_def] at h
    split at h
    · cases h
    rename_i c s
    by_cases h₁ : c = 0x22
    · rw [if_pos h₁] at h
      cases h
      exact ⟨[], by rw [h₁]; rfl, .nil⟩
    rw [if_neg h₁] at h
    by_cases h₂ : c = 0x5c
    · subst h₂
      rw [if_pos rfl] at h
      cases s with
      | nil => cases h
      | cons e s =>
        simp only at h
        by_cases h₃ : e = 0x75
        · subst h₃
          rw [if_pos rfl] at h
          split at h
          · rename_i a b c d s
            cases hu : hex4 a b c d with
            | none => rw [hu] at h; cases h
            | some u =>
              rw [hu] at h
              simp only at h
              split at h
              · rename_i hhigh
                split at h
                · rename_i hlow
                  obtain ⟨a', b', c', d', t, ht, hw, hl⟩ := lowSurrogate_ok hlow
                  cases ht
                  obtain ⟨p, w', rfl, hc, rfl⟩ := rest (by simp only [List.length_cons]; omega) h
                  exact ⟨_ :: _ :: _ :: _ :: _ :: _ :: _ :: _ :: _ :: _ :: _ :: _ :: p, rfl,
                    .pair hu hhigh hw hl hc⟩
                · rename_i hnone
                  obtain ⟨p, w', rfl, hc, rfl⟩ := rest (by simp only [List.length_cons]; omega) h
                  refine ⟨_ :: _ :: _ :: _ :: _ :: _ :: p, rfl, .unicode hu ?_ hc⟩
                  rintro ⟨-, hsome⟩
                  rw [← lowSurrogate_append p r, Option.isSome_iff_exists] at hsome
                  obtain ⟨w, hw⟩ := hsome
                  obtain ⟨a', b', c', d', t, ht, -, -⟩ := lowSurrogate_ok hw
                  exact hnone _ _ _ _ _ _ _ _ hw ht
              · rename_i hhigh
                obtain ⟨p, w', rfl, hc, rfl⟩ := rest (by simp only [List.length_cons]; omega) h
                exact ⟨_ :: _ :: _ :: _ :: _ :: _ :: p, rfl, .unicode hu (fun hh => hhigh hh.1) hc⟩
          · cases h
        · rw [if_neg h₃] at h
          cases hx : simpleEscape e with
          | none => rw [hx] at h; cases h
          | some x =>
            rw [hx] at h
            obtain ⟨p, w', rfl, hc, rfl⟩ := rest (by simp only [List.length_cons]; omega) h
            exact ⟨_ :: _ :: p, rfl, .escape hx hc⟩
    · rw [if_neg h₂] at h
      split at h
      · cases h
      · rename_i h₃
        obtain ⟨p, w', rfl, hc, rfl⟩ := rest (by simp only [List.length_cons]; omega) h
        exact ⟨_ :: p, rfl, .unescaped (by omega) h₁ h₂ hc⟩

/-! ## Numbers -/

def IsDigits (s : PyStr) : Prop := s ≠ [] ∧ ∀ c ∈ s, isDigit c = true

/-- `int`: a zero, or digits that start with another one. -/
def IsInt (s : PyStr) : Prop :=
  s = [0x30] ∨ ∃ c t, s = c :: t ∧ c ≠ 0x30 ∧ isDigit c = true ∧ ∀ d ∈ t, isDigit d = true

/-- `[ frac ]` -/
def IsFrac (s : PyStr) : Prop := s = [] ∨ ∃ t, s = 0x2e :: t ∧ IsDigits t

/-- `[ exp ]` -/
def IsExp (s : PyStr) : Prop :=
  s = [] ∨ ∃ c g t, s = c :: (g ++ t) ∧ (c = 0x65 ∨ c = 0x45) ∧ (g = [] ∨ g = [0x2b] ∨ g = [0x2d]) ∧
    IsDigits t

/-- `number = [ minus ] int [ frac ] [ exp ]` -/
structure IsNumber (n : Number) : Prop where
  sign : n.sign = [] ∨ n.sign = [0x2d]
  int : IsInt n.digits
  tail : ∃ f e, n.tail = f ++ e ∧ IsFrac f ∧ IsExp e

def Number.text (n : Number) : PyStr := n.sign ++ (n.digits ++ n.tail)

/-- What a number stands for, the integers among them exactly. -/
def Number.value (float : PyStr → F) (n : Number) : Value F :=
  if n.tail ≠ [] then .float (float (n.sign ++ n.digits ++ n.tail))
  else .int (if n.sign = [] then digitsValue n.digits else -digitsValue n.digits)

theorem spanDigits_of_digits {t r : PyStr} (ht : ∀ c ∈ t, isDigit c = true)
    (hr : ∀ c u, r = c :: u → isDigit c = false) : spanDigits (t ++ r) = (t, r) := by
  have hnone : r.takeWhile isDigit = [] ∧ r.dropWhile isDigit = r := by
    cases r with
    | nil => exact ⟨rfl, rfl⟩
    | cons c u => simp [hr c u rfl]
  rw [spanDigits, List.takeWhile_append_of_pos ht, List.dropWhile_append_of_pos ht, hnone.1,
    hnone.2, List.append_nil]

theorem isDigits_of_span {s : PyStr} (h : (spanDigits s).1 ≠ []) : IsDigits (spanDigits s).1 :=
  ⟨h, fun _ hc => List.mem_takeWhile_imp hc⟩

theorem isInt_scanInt {s : PyStr} (h : (scanInt s).1 ≠ []) : IsInt (scanInt s).1 := by
  unfold scanInt at h ⊢
  split
  · exact .inl rfl
  · rename_i hs
    simp only at h
    obtain ⟨hne, hd⟩ := isDigits_of_span h
    cases s with
    | nil => exact absurd rfl hne
    | cons c s =>
      by_cases hc : isDigit c = true
      · rw [spanDigits, List.takeWhile_cons_of_pos hc] at hd ⊢
        exact .inr ⟨c, _, rfl, fun e => hs s (by rw [e]), hc, fun d hd' =>
          hd d (List.mem_cons_of_mem _ hd')⟩
      · rw [spanDigits, List.takeWhile_cons_of_neg hc] at hne
        exact absurd rfl hne

theorem isFrac_scanFrac (s : PyStr) : IsFrac (scanFrac s).1 := by
  unfold scanFrac
  split
  · split
    · exact .inl rfl
    · rename_i h
      exact .inr ⟨_, rfl, isDigits_of_span h⟩
  · exact .inl rfl

theorem isExp_scanExp (s : PyStr) : IsExp (scanExp s).1 := by
  unfold scanExp
  split
  · rename_i c t
    split
    · rename_i h
      refine .inr ⟨c, _, _, rfl, h.1, ?_, isDigits_of_span h.2⟩
      unfold scanExpSign
      split
      · exact .inr (.inl rfl)
      · exact .inr (.inr rfl)
      · exact .inl rfl
    · exact .inl rfl
  · exact .inl rfl

theorem isNumber_of_matchNumber {s r : PyStr} {n : Number} (h : matchNumber s = some (n, r)) :
    IsNumber n := by
  simp only [matchNumber] at h
  split at h
  · cases h
  rename_i hd
  cases h
  refine ⟨?_, isInt_scanInt hd, _, _, rfl, isFrac_scanFrac _, isExp_scanExp _⟩
  unfold scanSign
  split
  · exact .inr rfl
  · exact .inl rfl

theorem scanExp_of_isExp {e : PyStr} (h : IsExp e) : scanExp e = (e, []) := by
  obtain rfl | ⟨c, g, t, rfl, hc, hg, hne, ht⟩ := h
  · rfl
  have hspan : spanDigits t = (t, []) := by
    have := spanDigits_of_digits (r := []) ht fun c u e => by cases e
    rwa [List.append_nil] at this
  have hsign : scanExpSign (g ++ t) = (g, t) := by
    obtain rfl | rfl | rfl := hg
    · cases t with
      | nil => rfl
      | cons d t =>
        have hd := isDigit_iff.mp (ht d List.mem_cons_self)
        have h₁ : d ≠ 0x2b := by omega
        have h₂ : d ≠ 0x2d := by omega
        simp [scanExpSign, h₁, h₂]
    · rfl
    · rfl
  rw [scanExp]
  simp only [hsign, hspan]
  exact if_pos ⟨hc, hne⟩

/-- What follows a number's digits is no digit. -/
theorem head_of_isExp {e : PyStr} (h : IsExp e) {c : Nat} {u : PyStr} (hu : e = c :: u) :
    isDigit c = false ∧ c ≠ 0x2e := by
  obtain rfl | ⟨c', g, t, rfl, rfl | rfl, -⟩ := h
  · cases hu
  · cases hu; decide
  · cases hu; decide

theorem scanFrac_of_isFrac {f e : PyStr} (hf : IsFrac f) (he : IsExp e) :
    scanFrac (f ++ e) = (f, e) := by
  obtain rfl | ⟨t, rfl, hne, ht⟩ := hf
  · cases e with
    | nil => rfl
    | cons c u =>
      have := (head_of_isExp he rfl).2
      simp [scanFrac, this]
  · have hspan : spanDigits (t ++ e) = (t, e) :=
      spanDigits_of_digits ht fun c u hu => (head_of_isExp he hu).1
    rw [List.cons_append, scanFrac]
    simp only [hspan, hne, if_false]

theorem scanInt_of_isInt {i r : PyStr} (hi : IsInt i) (hr : ∀ c u, r = c :: u → isDigit c = false) :
    scanInt (i ++ r) = (i, r) := by
  obtain rfl | ⟨c, t, rfl, hc, hd, ht⟩ := hi
  · rfl
  · have hspan : spanDigits (c :: t ++ r) = (c :: t, r) := by
      refine spanDigits_of_digits ?_ hr
      intro d hm
      rcases List.mem_cons.mp hm with rfl | hm
      · exact hd
      · exact ht d hm
    rw [← hspan]
    simp [scanInt, hc]

theorem matchNumber_of_isNumber {n : Number} (h : IsNumber n) : matchNumber n.text = some (n, []) := by
  obtain ⟨f, e, htail, hf, he⟩ := h.tail
  have hne : n.digits ≠ [] := by
    obtain h | ⟨c, t, h, -⟩ := h.int <;> rw [h] <;> exact List.cons_ne_nil _ _
  have hhead : ∀ c u, f ++ e = c :: u → isDigit c = false := by
    intro c u hu
    obtain rfl | ⟨t, rfl, -⟩ := hf
    · exact (head_of_isExp he hu).1
    · cases hu; decide
  have hsign : scanSign (n.sign ++ (n.digits ++ n.tail)) = (n.sign, n.digits ++ n.tail) := by
    obtain hs | hs := h.sign
    · rw [hs, List.nil_append]
      obtain hi | ⟨c, t, hi, -, hc, -⟩ := h.int
      · rw [hi]; rfl
      · have := isDigit_iff.mp hc
        have hne : c ≠ 0x2d := by omega
        rw [hi]
        simp [scanSign, hne]
    · rw [hs]; rfl
  simp only [matchNumber, Number.text, hsign]
  rw [htail]
  simp only [scanInt_of_isInt h.int hhead, scanFrac_of_isFrac hf he, scanExp_of_isExp he, hne,
    if_false]
  rw [← htail]

theorem Decoder.number_ok {D : Decoder F} {n : Number} {v : Value F} :
    D.number n = .ok v ↔ (n.tail ≠ [] ∨ n.digits.length ≤ D.maxDigits) ∧ v = n.value D.float := by
  unfold Decoder.number Number.value
  by_cases ht : n.tail = []
  · by_cases hd : D.maxDigits < n.digits.length
    · have : ¬n.digits.length ≤ D.maxDigits := by omega
      simp [ht, hd, this]
    · have : n.digits.length ≤ D.maxDigits := by omega
      simp [ht, hd, this, eq_comm]
  · simp [ht, eq_comm]

/-! ## Values -/

/-- What a phrase stands for: a value, the items of an array or the members of an
object. -/
inductive Phrase (F : Type) where
  | value (v : Value F)
  | items (vs : List (Value F))
  | members (kvs : List (PyStr × Value F))

/-- The words that stand for values, what a number with a fraction or an exponent
stands for, and the numbers that are converted. -/
structure Dialect (F : Type) where
  words : List (PyStr × Value F)
  float : PyStr → F
  converts : Number → Prop

/-- The phrases of the grammar, nested at most `d` deep. Of the members of an object
with one name the last counts. -/
inductive Derives (G : Dialect F) : Nat → PyStr → Phrase F → Prop where
  | word {d : Nat} {w : PyStr} {v : Value F} : (w, v) ∈ G.words → Derives G d w (.value v)
  | number {d : Nat} {n : Number} : IsNumber n → G.converts n →
    Derives G d n.text (.value (n.value G.float))
  | string {d : Nat} {s v : PyStr} : Chars s v → Derives G d (quoted s) (.value (.str v))
  | noItems {d : Nat} {a : PyStr} : Ws a → Derives G (d + 1) (0x5b :: (a ++ [0x5d])) (.value (.arr []))
  | array {d : Nat} {s : PyStr} {vs : List (Value F)} : Derives G d s (.items vs) →
    Derives G (d + 1) (0x5b :: (s ++ [0x5d])) (.value (.arr vs))
  | noMembers {d : Nat} {a : PyStr} : Ws a →
    Derives G (d + 1) (0x7b :: (a ++ [0x7d])) (.value (.obj []))
  | object {d : Nat} {s : PyStr} {kvs : List (PyStr × Value F)} : Derives G d s (.members kvs) →
    Derives G (d + 1) (0x7b :: (s ++ [0x7d])) (.value (.obj (assignAll [] kvs)))
  | lastItem {d : Nat} {a s b : PyStr} {v : Value F} : Ws a → Derives G d s (.value v) → Ws b →
    Derives G d (a ++ (s ++ b)) (.items [v])
  | item {d : Nat} {a s b t : PyStr} {v : Value F} {vs : List (Value F)} : Ws a →
    Derives G d s (.value v) → Ws b → Derives G d t (.items vs) →
    Derives G d (a ++ (s ++ (b ++ 0x2c :: t))) (.items (v :: vs))
  | lastMember {d : Nat} {a k x b c s e : PyStr} {v : Value F} : Ws a → Chars k x → Ws b → Ws c →
    Derives G d s (.value v) → Ws e →
    Derives G d (a ++ (quoted k ++ (b ++ 0x3a :: (c ++ (s ++ e))))) (.members [(x, v)])
  | member {d : Nat} {a k x b c s e t : PyStr} {v : Value F} {kvs : List (PyStr × Value F)} : Ws a →
    Chars k x → Ws b → Ws c → Derives G d s (.value v) → Ws e → Derives G d t (.members kvs) →
    Derives G d (a ++ (quoted k ++ (b ++ 0x3a :: (c ++ (s ++ (e ++ 0x2c :: t))))))
      (.members ((x, v) :: kvs))

/-- `JSON-text = ws value ws` -/
def IsText (G : Dialect F) (d : Nat) (t : PyStr) (v : Value F) : Prop :=
  ∃ a s b, Ws a ∧ Derives G d s (.value v) ∧ Ws b ∧ t = a ++ (s ++ b)

/-- The grammar as it is published: three words, and every number. -/
def rfc8259 (float : PyStr → F) : Dialect F where
  words := [(lit "null", .null), (lit "true", .bool true), (lit "false", .bool false)]
  float := float
  converts _ := True

/-- The dialect that a decoder reads: three more words, and the integers that the
interpreter converts. -/
def Decoder.dialect (D : Decoder F) : Dialect F where
  words := D.words
  float := D.float
  converts n := n.tail ≠ [] ∨ n.digits.length ≤ D.maxDigits

/-! ## Texts that are nested too deeply -/

/-- What stands between the bracket of an array and an item. -/
inductive ItemsBefore (G : Dialect F) (d : Nat) : PyStr → Prop where
  | first {a : PyStr} : Ws a → ItemsBefore G d a
  | next {a s b t : PyStr} {v : Value F} : Ws a → Derives G d s (.value v) → Ws b →
    ItemsBefore G d t → ItemsBefore G d (a ++ (s ++ (b ++ 0x2c :: t)))

/-- What stands between the brace of an object and the value of a member. -/
inductive MembersBefore (G : Dialect F) (d : Nat) : PyStr → Prop where
  | first {a k x b c : PyStr} : Ws a → Chars k x → Ws b → Ws c →
    MembersBefore G d (a ++ (quoted k ++ (b ++ 0x3a :: c)))
  | next {a k x b c s e t : PyStr} {v : Value F} : Ws a → Chars k x → Ws b → Ws c →
    Derives G d s (.value v) → Ws e → MembersBefore G d t →
    MembersBefore G d (a ++ (quoted k ++ (b ++ 0x3a :: (c ++ (s ++ (e ++ 0x2c :: t))))))

/-- A text that opens `d` arrays and objects and closes none of them, where a value is
to follow. -/
inductive Opens (G : Dialect F) : Nat → PyStr → Prop where
  | none : Opens G 0 []
  | array {d : Nat} {s p : PyStr} : ItemsBefore G d s → Opens G d p →
    Opens G (d + 1) (0x5b :: (s ++ p))
  | object {d : Nat} {s p : PyStr} : MembersBefore G d s → Opens G d p →
    Opens G (d + 1) (0x7b :: (s ++ p))

/-- A text that opens one more array or object within `d` that are open. -/
def TooDeep (G : Dialect F) (d : Nat) (t : PyStr) : Prop :=
  ∃ a p c r, Ws a ∧ Opens G d p ∧ (c = 0x5b ∨ c = 0x7b) ∧ t = a ++ (p ++ c :: r)

end NmLogging.Json
