import Mathlib.Data.List.TakeWhile
import NmLogging.Framework.Json

/-!
# Scanning what was written

Scanning the text of a value gives the value back (`Fits.readBack`), for every
value that fits the scanner (`Fits`: integers within its digits, floats whose
text it reads back, objects without repeated keys, nesting within its depth);
`loads_members` is the case of an object, with repeated keys allowed. The
scanners of a number's parts leave alone what cannot continue a number
(`Stop`), so each of them commutes with appending such a text.
-/

namespace NmLogging.Json

variable {F : Type} {D : Decoder F} {ft : F → PyStr}

/-! ## Strings -/

theorem hexVal_hexDigit : ∀ n < 16, hexVal (hexDigit n) = some n := by decide

theorem scanString_escapeChar (c : Nat) (s : PyStr) :
    scanString (escapeChar c ++ s) = (scanString s).map fun p => (c :: p.1, p.2) := by
  unfold escapeChar
  have hs : ∀ e x : Nat, e ≠ 0x75 → simpleEscape e = some x →
      scanString (0x5c :: e :: s) = (scanString s).map fun p => (x :: p.1, p.2) := by
    intro e x he hx
    rw [scanString.eq_def]
    simp only [he, hx, Nat.reduceEqDiff, if_false, if_true]
  split
  · rename_i h; subst h; exact hs 0x22 _ (by decide) rfl
  split
  · rename_i h; subst h; exact hs 0x5c _ (by decide) rfl
  split
  · rename_i h; subst h; exact hs 0x62 _ (by decide) rfl
  split
  · rename_i h; subst h; exact hs 0x66 _ (by decide) rfl
  split
  · rename_i h; subst h; exact hs 0x6e _ (by decide) rfl
  split
  · rename_i h; subst h; exact hs 0x72 _ (by decide) rfl
  split
  · rename_i h; subst h; exact hs 0x74 _ (by decide) rfl
  split
  · rename_i h
    have h₁ := hexVal_hexDigit (c / 16) (by omega)
    have h₂ := hexVal_hexDigit (c % 16) (by omega)
    have h4 : hex4 0x30 0x30 (hexDigit (c / 16)) (hexDigit (c % 16)) = some c := by
      simp only [hex4, h₁, h₂, show hexVal 0x30 = some 0 from rfl, Option.bind_eq_bind,
        Option.bind_some, Option.pure_def, Option.some.injEq]
      omega
    have hl : lit "\\u00" = [0x5c, 0x75, 0x30, 0x30] := rfl
    simp only [hl, List.cons_append, List.nil_append]
    rw [scanString]
    simp only [Nat.reduceEqDiff, if_false, if_true, h4]
    rw [if_neg (by omega)]
  · rename_i h₁ h₂ _ _ _ _ _ h₈
    simp only [List.cons_append, List.nil_append]
    rw [scanString.eq_def]
    simp only [h₁, h₂, h₈, if_false]

theorem scanString_quote (s r : PyStr) :
    scanString (s.flatMap escapeChar ++ 0x22 :: r) = some (s, r) := by
  induction s with
  | nil =>
    rw [List.flatMap_nil, List.nil_append, scanString.eq_def]
    rfl
  | cons c s ih =>
    rw [List.flatMap_cons, List.append_assoc, scanString_escapeChar, ih]
    rfl

/-! ## Numbers -/

/-- A text that does not continue a number. -/
def Stop (s : PyStr) : Prop :=
  ∀ c t, s = c :: t → isDigit c = false ∧ c ≠ 0x2e ∧ c ≠ 0x65 ∧ c ≠ 0x45 ∧ c ≠ 0x2b ∧ c ≠ 0x2d

theorem stop_nil : Stop [] := fun _ _ h => by cases h

theorem stop_cons {c : Nat} {s : PyStr} (h : c = 0x2c ∨ c = 0x5d ∨ c = 0x7d) : Stop (c :: s) := by
  intro d t e
  cases e
  rcases h with rfl | rfl | rfl <;> decide

theorem span_append {s r : PyStr} (hr : Stop r) :
    spanDigits (s ++ r) = ((spanDigits s).1, (spanDigits s).2 ++ r) := by
  simp only [spanDigits]
  induction s with
  | nil =>
    cases r with
    | nil => rfl
    | cons c t => simp [(hr c t rfl).1]
  | cons c s ih =>
    simp only [Prod.mk.injEq] at ih
    by_cases hc : isDigit c = true
    · simp [hc, ih.1, ih.2]
    · simp [hc]

theorem scanSign_append {s r : PyStr} (hr : Stop r) :
    scanSign (s ++ r) = ((scanSign s).1, (scanSign s).2 ++ r) := by
  cases s with
  | nil =>
    cases r with
    | nil => rfl
    | cons c t => simp [scanSign, (hr c t rfl).2.2.2.2.2]
  | cons c s =>
    by_cases hc : c = 0x2d
    · subst hc; rfl
    · simp [scanSign, hc]

theorem scanExpSign_append {s r : PyStr} (hr : Stop r) :
    scanExpSign (s ++ r) = ((scanExpSign s).1, (scanExpSign s).2 ++ r) := by
  cases s with
  | nil =>
    cases r with
    | nil => rfl
    | cons c t => simp [scanExpSign, (hr c t rfl).2.2.2.2.1, (hr c t rfl).2.2.2.2.2]
  | cons c s =>
    by_cases hc : c = 0x2b
    · subst hc; rfl
    by_cases hc' : c = 0x2d
    · subst hc'; rfl
    · simp [scanExpSign, hc, hc']

theorem scanInt_append {s r : PyStr} (hr : Stop r) :
    scanInt (s ++ r) = ((scanInt s).1, (scanInt s).2 ++ r) := by
  have h₀ : ∀ t : PyStr, (∀ u, t ≠ 0x30 :: u) → scanInt t = spanDigits t := by
    intro t ht
    unfold scanInt
    split
    · exact absurd rfl (ht _)
    · rfl
  cases s with
  | nil =>
    have hn : ∀ u, r ≠ 0x30 :: u := fun u e => absurd (hr _ _ e).1 (by decide)
    rw [List.nil_append, h₀ r hn]
    simpa [scanInt, spanDigits] using span_append (s := []) hr
  | cons c s =>
    by_cases hc : c = 0x30
    · subst hc; rfl
    · rw [List.cons_append, h₀ (c :: s) (by simp [hc]), h₀ _ (by simp [hc]), ← List.cons_append,
        span_append hr]

theorem scanFrac_append {s r : PyStr} (hr : Stop r) :
    scanFrac (s ++ r) = ((scanFrac s).1, (scanFrac s).2 ++ r) := by
  cases s with
  | nil =>
    cases r with
    | nil => rfl
    | cons c t => simp [scanFrac, (hr c t rfl).2.1]
  | cons c s =>
    by_cases hc : c = 0x2e
    · subst hc
      simp only [List.cons_append, scanFrac, span_append hr]
      split <;> rfl
    · simp [scanFrac, hc]

theorem scanExp_append {s r : PyStr} (hr : Stop r) :
    scanExp (s ++ r) = ((scanExp s).1, (scanExp s).2 ++ r) := by
  cases s with
  | nil =>
    cases r with
    | nil => rfl
    | cons c t => simp [scanExp, (hr c t rfl).2.2.1, (hr c t rfl).2.2.2.1]
  | cons c s =>
    simp only [List.cons_append, scanExp, scanExpSign_append hr, span_append hr]
    split <;> rfl

/-- A number is scanned the same before a text that does not continue it. -/
theorem matchNumber_append {s r : PyStr} (hr : Stop r) :
    matchNumber (s ++ r) = (matchNumber s).map fun p => (p.1, p.2 ++ r) := by
  simp only [matchNumber, scanSign_append hr, scanInt_append hr, scanFrac_append hr,
    scanExp_append hr]
  split <;> rfl

theorem scanSign_eq (s : PyStr) : s = (scanSign s).1 ++ (scanSign s).2 := by
  unfold scanSign; split <;> rfl

theorem scanExpSign_eq (s : PyStr) : s = (scanExpSign s).1 ++ (scanExpSign s).2 := by
  unfold scanExpSign; split <;> rfl

theorem span_eq (s : PyStr) : s = (spanDigits s).1 ++ (spanDigits s).2 := by
  simp [spanDigits]

theorem scanInt_eq (s : PyStr) : s = (scanInt s).1 ++ (scanInt s).2 := by
  unfold scanInt
  split
  · rfl
  · exact span_eq s

theorem scanFrac_eq (s : PyStr) : s = (scanFrac s).1 ++ (scanFrac s).2 := by
  unfold scanFrac
  split
  · split
    · rfl
    · rw [List.cons_append, ← span_eq]
  · rfl

theorem scanExp_eq (s : PyStr) : s = (scanExp s).1 ++ (scanExp s).2 := by
  unfold scanExp
  split
  · split
    · rw [List.cons_append, List.append_assoc, ← span_eq, ← scanExpSign_eq]
    · rfl
  · rfl

/-- A number is the text it was scanned from. -/
theorem matchNumber_eq {s r : PyStr} {n : Number} (h : matchNumber s = some (n, r)) :
    s = n.sign ++ n.digits ++ n.tail ++ r := by
  simp only [matchNumber] at h
  split at h
  · cases h
  · cases h
    simp only [List.append_assoc]
    rw [← scanExp_eq, ← scanFrac_eq, ← scanInt_eq, ← scanSign_eq]

theorem isDigit_of_mem_scanInt {s : PyStr} {c : Nat} (h : c ∈ (scanInt s).1) : isDigit c = true := by
  unfold scanInt at h
  split at h
  · simp only [List.mem_singleton] at h; subst h; rfl
  · rw [spanDigits] at h
    exact List.mem_takeWhile_imp h

/-- A number is a digit, or a minus sign and a digit, and more. -/
theorem matchNumber_head {s r : PyStr} {n : Number} (h : matchNumber s = some (n, r)) :
    ∃ c t, isDigit c = true ∧ (s = c :: t ∨ s = 0x2d :: c :: t) := by
  have he := matchNumber_eq h
  simp only [matchNumber] at h
  split at h
  · cases h
  · rename_i hd
    simp only [Option.some.injEq, Prod.mk.injEq] at h
    obtain ⟨rfl, -⟩ := h
    cases hds : (scanInt (scanSign s).2).1 with
    | nil => exact absurd hds hd
    | cons c ds =>
      have hc : isDigit c = true := isDigit_of_mem_scanInt (hds ▸ List.mem_cons_self)
      simp only [hds, List.append_assoc, List.cons_append] at he
      have hs : (scanSign s).1 = [] ∨ (scanSign s).1 = [0x2d] := by
        unfold scanSign; split <;> simp
      rcases hs with hs | hs
      · exact ⟨c, _, hc, .inl (by rw [hs, List.nil_append] at he; exact he)⟩
      · exact ⟨c, _, hc, .inr (by rw [hs, List.cons_append, List.nil_append] at he; exact he)⟩

theorem find_words_of_number {s r : PyStr} {n : Number} (h : matchNumber s = some (n, r)) :
    (D.words.find? fun w => startsWith s w.1) = none := by
  obtain ⟨c, t, hc, rfl | rfl⟩ := matchNumber_head h <;>
    simp only [isDigit_iff] at hc <;>
    simp [Decoder.words, startsWith, lit] <;> omega

/-- The scan of a text that is a number in full. -/
theorem scalar_number {t r : PyStr} {n : Number} (h : matchNumber t = some (n, [])) (hr : Stop r) :
    D.scalar (t ++ r) = (D.number n).map fun v => (v, r) := by
  have h' : matchNumber (t ++ r) = some (n, r) := by rw [matchNumber_append hr, h]; rfl
  rw [Decoder.scalar, find_words_of_number h']
  simp only [h']

theorem matchNumber_intText (i : Int) :
    matchNumber (intText i) =
      some (⟨if i < 0 then [0x2d] else [], natText i.natAbs, []⟩, []) := by
  have hne := natText_ne_nil i.natAbs
  have hint : scanInt (natText i.natAbs) = (natText i.natAbs, []) := by
    cases h : natText i.natAbs with
    | nil => exact absurd h hne
    | cons c s =>
      by_cases hc : c = 0x30
      · obtain ⟨-, rfl⟩ := head_natText h hc
        subst hc; rfl
      · have hd : ∀ x ∈ c :: s, isDigit x = true := fun x hx => isDigit_of_mem_natText (h ▸ hx)
        unfold scanInt
        split
        · rename_i e; cases e; exact absurd rfl hc
        · rw [spanDigits, List.takeWhile_eq_self_iff.mpr hd,
            List.dropWhile_eq_nil_iff.mpr hd]
  have hsign : scanSign (intText i) = (if i < 0 then [0x2d] else [], natText i.natAbs) := by
    unfold intText
    split
    · rfl
    · unfold scanSign
      split
      · rename_i t e
        have := isDigit_of_mem_natText (c := 0x2d) (n := i.natAbs) (by rw [e]; exact List.mem_cons_self)
        exact absurd this (by decide)
      · rfl
  simp only [matchNumber, hsign, hint, hne, if_false]
  rfl

/-! ## Values -/

/-- A text that is a number with a fraction or an exponent. -/
def IsReal (t : PyStr) : Prop := ∃ n, matchNumber t = some (n, []) ∧ n.tail ≠ []

/-- The values that a scanner reads back from their text, nested at most `d`
deep. -/
inductive Fits (D : Decoder F) (ft : F → PyStr) : Nat → Value F → Prop where
  | null {d : Nat} : Fits D ft d .null
  | bool {d : Nat} (b : Bool) : Fits D ft d (.bool b)
  | int {d : Nat} {i : Int} (h : (natText i.natAbs).length ≤ D.maxDigits) : Fits D ft d (.int i)
  | float {d : Nat} {f : F} (h : IsReal (ft f)) (h' : D.float (ft f) = f) : Fits D ft d (.float f)
  | str {d : Nat} (s : PyStr) : Fits D ft d (.str s)
  | arr {d : Nat} {vs : List (Value F)} (h : ∀ v ∈ vs, Fits D ft d v) : Fits D ft (d + 1) (.arr vs)
  | obj {d : Nat} {kvs : List (PyStr × Value F)} (hk : (kvs.map Prod.fst).Nodup)
    (h : ∀ e ∈ kvs, Fits D ft d e.2) : Fits D ft (d + 1) (.obj kvs)

theorem IsReal.head {t : PyStr} (h : IsReal t) :
    ∃ c s, t = c :: s ∧ (isDigit c = true ∨ c = 0x2d) := by
  obtain ⟨n, hn, -⟩ := h
  obtain ⟨c, s, hc, rfl | rfl⟩ := matchNumber_head hn
  · exact ⟨_, _, rfl, .inl hc⟩
  · exact ⟨_, _, rfl, .inr rfl⟩

/-- The first character of a value's text is ASCII but no white space, and closes nothing. -/
theorem Fits.head {d : Nat} {v : Value F} (h : Fits D ft d v) :
    ∃ c s, render ft v = c :: s ∧ isWs c = false ∧ c ≠ 0x5d ∧ c < 0x80 := by
  have hnum : ∀ c, isDigit c = true ∨ c = 0x2d → isWs c = false ∧ c ≠ 0x5d ∧ c < 0x80 := by
    intro c hc
    have : isWs c = true → c = 0x20 ∨ c = 0x09 ∨ c = 0x0a ∨ c = 0x0d := by
      simp [isWs, or_assoc]
    rw [isDigit_iff] at hc
    refine ⟨Bool.eq_false_iff.mpr fun hw => ?_, by omega, by omega⟩
    have := this hw
    omega
  cases h with
  | null => exact ⟨_, _, rfl, by decide⟩
  | bool b => cases b <;> exact ⟨_, _, rfl, by decide⟩
  | int =>
    rename_i i _
    obtain ⟨c, s, hc, e | e⟩ := matchNumber_head (matchNumber_intText i)
    · exact ⟨_, _, e, hnum c (.inl hc)⟩
    · exact ⟨_, _, e, hnum _ (.inr rfl)⟩
  | float h =>
    obtain ⟨c, s, e, hc⟩ := h.head
    exact ⟨c, s, e, hnum c hc⟩
  | str => exact ⟨_, _, rfl, by decide⟩
  | arr => exact ⟨_, _, rfl, by decide⟩
  | obj => exact ⟨_, _, rfl, by decide⟩

theorem skipWs_of_head {c : Nat} {s : PyStr} (h : isWs c = false) : skipWs (c :: s) = c :: s := by
  simp [skipWs, h]

theorem number_of_intText {i : Int} (h : (natText i.natAbs).length ≤ D.maxDigits) :
    D.number ⟨if i < 0 then [0x2d] else [], natText i.natAbs, []⟩ = .ok (.int i) := by
  simp only [Decoder.number, ne_eq, not_true_eq_false, if_false, digitsValue_natText]
  rw [if_neg (by omega)]
  by_cases hi : i < 0
  · simp only [hi, if_true, List.cons_ne_self, if_false]; congr 2; omega
  · simp only [hi, if_false, if_true]; congr 2; omega

/-- What a scan does with a text that is no string, object or array. -/
theorem scanOnce_scalar {fuel depth : Nat} {c : Nat} {s : PyStr} (h₁ : c ≠ 0x22) (h₂ : c ≠ 0x7b)
    (h₃ : c ≠ 0x5b) : scanOnce D (fuel + 1) depth (c :: s) = D.scalar (c :: s) := by
  simp only [scanOnce, h₁, h₂, h₃, if_false]

theorem scanOnce_number {fuel depth : Nat} {t r : PyStr} {n : Number}
    (h : matchNumber t = some (n, [])) (hr : Stop r) :
    scanOnce D (fuel + 1) depth (t ++ r) = (D.number n).map fun v => (v, r) := by
  rw [← scalar_number h hr]
  obtain ⟨c, s, hc, rfl | rfl⟩ := matchNumber_head h
  · rw [isDigit_iff] at hc
    exact scanOnce_scalar (by omega) (by omega) (by omega)
  · exact scanOnce_scalar (by decide) (by decide) (by decide)

theorem scanOnce_arr {fuel depth c : Nat} {s : PyStr} (h : isWs c = false) (hc : c ≠ 0x5d) :
    scanOnce D (fuel + 1) (depth + 1) (0x5b :: c :: s) = scanItems D fuel depth [] (c :: s) := by
  rw [scanOnce.eq_def]
  simp only [Nat.reduceEqDiff, if_false, if_true, skipWs_of_head h]
  split
  · rename_i e; cases e; exact absurd rfl hc
  · rfl

theorem scanOnce_obj {fuel depth : Nat} {s : PyStr} :
    scanOnce D (fuel + 1) (depth + 1) (0x7b :: 0x22 :: s) =
      scanMembers D fuel depth [] (0x22 :: s) := by
  rw [scanOnce.eq_def]
  simp only [Nat.reduceEqDiff, if_false, if_true, skipWs_of_head (c := 0x22) rfl]

/-- That a value is read back, from enough fuel and depth. -/
def ReadBack (D : Decoder F) (ft : F → PyStr) (d : Nat) (v : Value F) : Prop :=
  ∀ {fuel depth : Nat} {r : PyStr}, 2 * (render ft v ++ r).length < fuel → d ≤ depth → Stop r →
    scanOnce D fuel depth (render ft v ++ r) = .ok (v, r)

theorem scanItems_render {d fuel depth : Nat} {vs acc : List (Value F)} {r : PyStr}
    (hv : ∀ v ∈ vs, Fits D ft d v) (h : ∀ v ∈ vs, ReadBack D ft d v) (hne : vs ≠ [])
    (hf : 2 * (renderItems ft vs ++ 0x5d :: r).length + 1 < fuel) (hd : d ≤ depth) :
    scanItems D fuel depth acc (renderItems ft vs ++ 0x5d :: r) = .ok (.arr (acc ++ vs), r) := by
  induction vs generalizing acc fuel with
  | nil => exact absurd rfl hne
  | cons v vs ih =>
    obtain ⟨n, rfl⟩ : ∃ n, fuel = n + 1 := ⟨fuel - 1, by omega⟩
    have hv' : ReadBack D ft d v := h v List.mem_cons_self
    cases vs with
    | nil =>
      simp only [renderItems, scanItems] at hf ⊢
      rw [hv' (by omega) hd (stop_cons (.inr (.inl rfl)))]
      simp [skipWs_of_head (c := 0x5d) rfl]
    | cons w ws =>
      simp only [renderItems, List.append_assoc, List.cons_append, scanItems] at hf ⊢
      rw [hv' (by simp only [List.length_append, List.length_cons] at *; omega) hd
        (stop_cons (.inl rfl))]
      simp only [skipWs_of_head (c := 0x2c) rfl]
      have hw : skipWs (renderItems ft (w :: ws) ++ 0x5d :: r) =
          renderItems ft (w :: ws) ++ 0x5d :: r := by
        obtain ⟨c, s, hc, hws, -⟩ := (hv w (by simp)).head
        cases ws <;> simp only [renderItems, hc, List.cons_append, skipWs_of_head hws]
      rw [hw, ih (fun x hx => hv x (List.mem_cons_of_mem _ hx))
        (fun x hx => h x (List.mem_cons_of_mem _ hx)) (by simp)
        (by simp only [List.length_append, List.length_cons] at *; omega)]
      simp

/-- The members of an object after assigning more of them in turn. -/
def assignAll (acc kvs : List (PyStr × Value F)) : List (PyStr × Value F) :=
  kvs.foldl (fun a e => assocSet a e.1 e.2) acc

theorem assignAll_of_nodup {acc kvs : List (PyStr × Value F)}
    (h : ((acc ++ kvs).map Prod.fst).Nodup) : assignAll acc kvs = acc ++ kvs := by
  induction kvs generalizing acc with
  | nil => simp [assignAll]
  | cons e kvs ih =>
    have hset : assocSet acc e.1 e.2 = acc ++ [e] := by
      refine assocSet_of_notMem ?_ e.2
      intro hm
      rw [List.map_append, List.map_cons, List.nodup_append] at h
      exact h.2.2 e.1 hm e.1 List.mem_cons_self rfl
    have hrest : assignAll (acc ++ [e]) kvs = acc ++ [e] ++ kvs := ih (by simpa using h)
    simp only [assignAll, List.foldl_cons, hset] at hrest ⊢
    rw [hrest]
    simp

theorem scanMembers_render {d fuel depth : Nat} {kvs acc : List (PyStr × Value F)} {r : PyStr}
    (hv : ∀ e ∈ kvs, Fits D ft d e.2) (h : ∀ e ∈ kvs, ReadBack D ft d e.2) (hne : kvs ≠ [])
    (hf : 2 * (renderMembers ft kvs ++ 0x7d :: r).length + 1 < fuel) (hd : d ≤ depth) :
    scanMembers D fuel depth acc (renderMembers ft kvs ++ 0x7d :: r) =
      .ok (.obj (assignAll acc kvs), r) := by
  induction kvs generalizing acc fuel with
  | nil => exact absurd rfl hne
  | cons e kvs ih =>
    obtain ⟨k, v⟩ := e
    obtain ⟨n, rfl⟩ : ∃ n, fuel = n + 1 := ⟨fuel - 1, by omega⟩
    have hv' : ReadBack D ft d v := h _ List.mem_cons_self
    obtain ⟨c, s, hc, hws, -⟩ := (hv _ List.mem_cons_self).head
    have hval : ∀ t, skipWs (render ft v ++ t) = render ft v ++ t := fun t => by
      rw [hc, List.cons_append, skipWs_of_head hws]
    cases kvs with
    | nil =>
      simp only [renderMembers, quote, List.cons_append, List.append_assoc, List.nil_append,
        scanMembers, scanString_quote] at hf ⊢
      simp only [skipWs_of_head (c := 0x3a) rfl, hval]
      rw [hv' (by simp only [List.length_append, List.length_cons] at *; omega) hd
        (stop_cons (.inr (.inr rfl)))]
      simp [skipWs_of_head (c := 0x7d) rfl, assignAll]
    | cons e es =>
      simp only [renderMembers, quote, List.cons_append, List.append_assoc, List.nil_append,
        scanMembers, scanString_quote] at hf ⊢
      simp only [skipWs_of_head (c := 0x3a) rfl, hval]
      rw [hv' (by simp only [List.length_append, List.length_cons] at *; omega) hd
        (stop_cons (.inl rfl))]
      simp only [skipWs_of_head (c := 0x2c) rfl]
      have hw : skipWs (renderMembers ft (e :: es) ++ 0x7d :: r) =
          renderMembers ft (e :: es) ++ 0x7d :: r := by
        obtain ⟨k', v'⟩ := e
        cases es <;> simp only [renderMembers, quote, List.cons_append, skipWs_of_head (c := 0x22) rfl]
      rw [hw, ih (fun x hx => hv x (List.mem_cons_of_mem _ hx))
        (fun x hx => h x (List.mem_cons_of_mem _ hx)) (by simp)
        (by simp only [List.length_append, List.length_cons] at *; omega)]
      rfl

/-- Scanning the text of members that are read back. -/
theorem scanOnce_members {d fuel depth : Nat} {kvs : List (PyStr × Value F)} {r : PyStr}
    (hv : ∀ e ∈ kvs, Fits D ft d e.2) (h : ∀ e ∈ kvs, ReadBack D ft d e.2)
    (hf : 2 * (render ft (.obj kvs) ++ r).length < fuel + 1) (hd : d ≤ depth) :
    scanOnce D (fuel + 1) (depth + 1) (render ft (.obj kvs) ++ r) =
      .ok (.obj (assignAll [] kvs), r) := by
  simp only [render, List.cons_append, List.append_assoc, List.nil_append, List.length_cons]
    at hf ⊢
  cases kvs with
  | nil => rw [scanOnce.eq_def]; rfl
  | cons e kvs =>
    have hs : ∃ t, renderMembers ft (e :: kvs) ++ 0x7d :: r = 0x22 :: t := by
      obtain ⟨k, v⟩ := e
      cases kvs <;> simp only [renderMembers, quote, List.cons_append, List.cons.injEq, true_and,
        exists_eq']
    obtain ⟨t, ht⟩ := hs
    rw [ht, scanOnce_obj, ← ht]
    exact scanMembers_render hv h (by simp) (by omega) hd

theorem Fits.readBack {d : Nat} {v : Value F} (h : Fits D ft d v) : ReadBack D ft d v := by
  induction h with
  | null =>
    intro fuel depth r hf _ _
    obtain ⟨n, rfl⟩ : ∃ n, fuel = n + 1 := ⟨fuel - 1, by omega⟩
    rfl
  | bool b =>
    intro fuel depth r hf _ _
    obtain ⟨n, rfl⟩ : ∃ n, fuel = n + 1 := ⟨fuel - 1, by omega⟩
    cases b <;> rfl
  | int h =>
    intro fuel depth r hf _ hr
    obtain ⟨n, rfl⟩ : ∃ n, fuel = n + 1 := ⟨fuel - 1, by omega⟩
    rw [render, scanOnce_number (matchNumber_intText _) hr, number_of_intText h]
    rfl
  | float h h' =>
    intro fuel depth r hf _ hr
    obtain ⟨m, rfl⟩ : ∃ m, fuel = m + 1 := ⟨fuel - 1, by omega⟩
    obtain ⟨n, hn, htail⟩ := h
    have he := matchNumber_eq hn
    rw [List.append_nil] at he
    rw [render, scanOnce_number hn hr, Decoder.number, if_pos htail, ← he, h']
    rfl
  | str s =>
    intro fuel depth r hf _ _
    obtain ⟨n, rfl⟩ : ∃ n, fuel = n + 1 := ⟨fuel - 1, by omega⟩
    simp only [render, quote, List.cons_append, List.append_assoc, List.nil_append, scanOnce,
      scanString_quote, if_true]
  | @arr d vs hv ih =>
    intro fuel depth r hf hd _
    obtain ⟨n, rfl⟩ : ∃ n, fuel = n + 1 := ⟨fuel - 1, by omega⟩
    obtain ⟨m, rfl⟩ : ∃ m, depth = m + 1 := ⟨depth - 1, by omega⟩
    simp only [render, List.cons_append, List.append_assoc, List.nil_append, List.length_cons]
      at hf ⊢
    cases vs with
    | nil => rw [scanOnce.eq_def]; rfl
    | cons v vs =>
      obtain ⟨c, s, hc, hws, hcl, -⟩ := (hv v List.mem_cons_self).head
      have hs : ∃ t, renderItems ft (v :: vs) ++ 0x5d :: r = c :: t := by
        cases vs <;> simp only [renderItems, hc, List.cons_append, List.cons.injEq, true_and,
          exists_eq']
      obtain ⟨t, ht⟩ := hs
      rw [ht, scanOnce_arr hws hcl, ← ht]
      exact scanItems_render hv ih (by simp) (by omega) (by omega)
  | @obj d kvs hk hv ih =>
    intro fuel depth r hf hd _
    obtain ⟨n, rfl⟩ : ∃ n, fuel = n + 1 := ⟨fuel - 1, by omega⟩
    obtain ⟨m, rfl⟩ : ∃ m, depth = m + 1 := ⟨depth - 1, by omega⟩
    rw [scanOnce_members hv ih hf (by omega), assignAll_of_nodup (by simpa using hk),
      List.nil_append]

/-- Scanning white space and the text of members gives the object that
assigning them in turn gives. -/
theorem loads_members {d depth : Nat} {kvs : List (PyStr × Value F)} {w : PyStr}
    (hv : ∀ e ∈ kvs, Fits D ft d e.2) (hd : d < depth) (hw : ∀ c ∈ w, isWs c = true) :
    loads D depth (w ++ render ft (.obj kvs)) = .ok (.obj (assignAll [] kvs)) := by
  obtain ⟨m, rfl⟩ : ∃ m, depth = m + 1 := ⟨depth - 1, by omega⟩
  have hr : scanOnce D (2 * (w ++ render ft (.obj kvs)).length + 1) (m + 1)
      (render ft (.obj kvs) ++ []) = .ok (.obj (assignAll [] kvs), []) :=
    scanOnce_members hv (fun e he => (hv e he).readBack)
      (by simp only [List.append_nil, List.length_append]; omega) (by omega)
  rw [List.append_nil] at hr
  have hbom : startsWith (w ++ render ft (.obj kvs)) [0xfeff] = false := by
    cases w with
    | nil => simp [startsWith, List.isPrefixOf, render]
    | cons c w =>
      have : c ≠ 0xfeff := by
        rintro rfl
        exact absurd (hw _ List.mem_cons_self) (by decide)
      simp [startsWith, List.isPrefixOf, Ne.symm this]
  have hskip : skipWs (w ++ render ft (.obj kvs)) = render ft (.obj kvs) := by
    rw [skipWs, List.dropWhile_append_of_pos hw]
    simp [render, isWs]
  simp only [loads, hbom, hskip, hr, Bool.false_eq_true, if_false]
  rfl

/-! ## What is written -/

/-- The text of a number has no control characters. -/
theorem le_of_mem_number {s r : PyStr} {n : Number} (h : matchNumber s = some (n, r)) {c : Nat}
    (hc : c ∈ n.sign ++ n.digits ++ n.tail) : 0x20 ≤ c := by
  have hdig : ∀ {t : PyStr}, c ∈ (spanDigits t).1 → 0x20 ≤ c := fun hc => by
    have := isDigit_iff.mp (List.mem_takeWhile_imp hc); omega
  have hfrac : ∀ {t : PyStr}, c ∈ (scanFrac t).1 → 0x20 ≤ c := by
    intro t hc
    unfold scanFrac at hc
    split at hc
    · split at hc
      · simp at hc
      · rcases List.mem_cons.mp hc with rfl | hc
        · decide
        · exact hdig hc
    · simp at hc
  have hexp : ∀ {t : PyStr}, c ∈ (scanExp t).1 → 0x20 ≤ c := by
    intro t hc
    unfold scanExp at hc
    split at hc
    · split at hc
      · rename_i he
        rcases List.mem_cons.mp hc with rfl | hc
        · omega
        · rcases List.mem_append.mp hc with hc | hc
          · unfold scanExpSign at hc
            split at hc <;> simp at hc <;> omega
          · exact hdig hc
      · simp at hc
    · simp at hc
  simp only [matchNumber] at h
  split at h
  · cases h
  · cases h
    simp only [List.mem_append] at hc
    rcases hc with (hc | hc) | hc | hc
    · unfold scanSign at hc
      split at hc <;> simp at hc
      omega
    · have := isDigit_iff.mp (isDigit_of_mem_scanInt hc); omega
    · exact hfrac hc
    · exact hexp hc

theorem IsReal.le_of_mem {t : PyStr} (h : IsReal t) {c : Nat} (hc : c ∈ t) : 0x20 ≤ c := by
  obtain ⟨n, hn, -⟩ := h
  have he := matchNumber_eq hn
  rw [List.append_nil] at he
  exact le_of_mem_number hn (he ▸ hc)

theorem le_of_mem_escapeChar {x c : Nat} (h : c ∈ escapeChar x) : 0x20 ≤ c := by
  have hex : ∀ n, 0x20 ≤ hexDigit n := fun n => by unfold hexDigit; split <;> omega
  unfold escapeChar at h
  repeat' split at h
  all_goals simp [lit] at h
  all_goals first | omega | skip
  rcases h with h | h | h | h | h
  all_goals first | omega | (rw [h]; exact hex _)

theorem le_of_mem_quote {s : PyStr} {c : Nat} (h : c ∈ quote s) : 0x20 ≤ c := by
  simp only [quote, List.mem_cons, List.mem_append, List.mem_flatMap, List.not_mem_nil,
    or_false] at h
  rcases h with rfl | ⟨x, -, h⟩ | rfl
  · decide
  · exact le_of_mem_escapeChar h
  · decide

theorem le_of_mem_renderItems {vs : List (Value F)} {c : Nat}
    (h : ∀ v ∈ vs, ∀ c ∈ render ft v, 0x20 ≤ c) (hc : c ∈ renderItems ft vs) : 0x20 ≤ c := by
  induction vs with
  | nil => simp [renderItems] at hc
  | cons v vs ih =>
    cases vs with
    | nil => exact h v List.mem_cons_self c hc
    | cons w ws =>
      simp only [renderItems, List.mem_append, List.mem_cons] at hc
      rcases hc with hc | rfl | hc
      · exact h v List.mem_cons_self c hc
      · decide
      · exact ih (fun x hx => h x (List.mem_cons_of_mem _ hx)) hc

theorem le_of_mem_renderMembers {kvs : List (PyStr × Value F)} {c : Nat}
    (h : ∀ e ∈ kvs, ∀ c ∈ render ft e.2, 0x20 ≤ c) (hc : c ∈ renderMembers ft kvs) : 0x20 ≤ c := by
  induction kvs with
  | nil => simp [renderMembers] at hc
  | cons e kvs ih =>
    obtain ⟨k, v⟩ := e
    cases kvs with
    | nil =>
      simp only [renderMembers, List.mem_append, List.mem_cons] at hc
      rcases hc with hc | rfl | hc
      · exact le_of_mem_quote hc
      · decide
      · exact h _ List.mem_cons_self c hc
    | cons w ws =>
      simp only [renderMembers, List.mem_append, List.mem_cons] at hc
      rcases hc with hc | rfl | hc | rfl | hc
      · exact le_of_mem_quote hc
      · decide
      · exact h _ List.mem_cons_self c hc
      · decide
      · exact ih (fun x hx => h x (List.mem_cons_of_mem _ hx)) hc

/-- The text of a value has no control characters. -/
theorem Fits.le_of_mem {d : Nat} {v : Value F} (h : Fits D ft d v) {c : Nat}
    (hc : c ∈ render ft v) : 0x20 ≤ c := by
  induction h generalizing c with
  | null => exact (by decide : ∀ c ∈ lit "null", 0x20 ≤ c) c hc
  | bool b =>
    cases b
    · exact (by decide : ∀ c ∈ lit "false", 0x20 ≤ c) c hc
    · exact (by decide : ∀ c ∈ lit "true", 0x20 ≤ c) c hc
  | @int d i h =>
    have he := matchNumber_eq (matchNumber_intText i)
    rw [List.append_nil] at he
    exact le_of_mem_number (matchNumber_intText i) (he ▸ hc)
  | float h _ => exact h.le_of_mem hc
  | str s => exact le_of_mem_quote hc
  | arr hv ih =>
    simp only [render, List.mem_cons, List.mem_append, List.not_mem_nil, or_false] at hc
    rcases hc with rfl | hc | rfl
    · decide
    · exact le_of_mem_renderItems (fun v hv c hc => ih v hv hc) hc
    · decide
  | obj hk hv ih =>
    simp only [render, List.mem_cons, List.mem_append, List.not_mem_nil, or_false] at hc
    rcases hc with rfl | hc | rfl
    · decide
    · exact le_of_mem_renderMembers (fun e he c hc => ih e he hc) hc
    · decide

end NmLogging.Json
