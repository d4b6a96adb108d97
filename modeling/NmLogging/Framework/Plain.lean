import NmLogging.Framework.Python
import NmLogging.Framework.Regex

/-!
# Plain text

Text of printable ASCII without quotes and backslashes: JSON writes it as it is
(`Json.quote_of_plain`) and UTF-8 takes one byte for each character, so that the size of
what is written can be counted. What the grammars of the package and of a UTC timestamp
allow is plain (`Regex.forall_of_fullmatch`, `Datetime.isoformat_plain`).
-/

namespace NmLogging

/-- A character that is written as it is. -/
def Plain (c : Nat) : Prop := 0x20 ≤ c ∧ c < 0x80 ∧ c ≠ 0x22 ∧ c ≠ 0x5c

instance (c : Nat) : Decidable (Plain c) := inferInstanceAs (Decidable (_ ∧ _))

/-- A text of plain characters, of at most `n` of them. -/
structure PlainText (n : Nat) (s : PyStr) : Prop where
  plain : ∀ c ∈ s, Plain c
  length : s.length ≤ n

instance (n : Nat) (s : PyStr) : Decidable (PlainText n s) :=
  decidable_of_iff ((∀ c ∈ s, Plain c) ∧ s.length ≤ n)
    ⟨fun h => ⟨h.1, h.2⟩, fun h => ⟨h.plain, h.length⟩⟩

variable {m n : Nat} {s t : PyStr}

theorem PlainText.append (hs : PlainText m s) (ht : PlainText n t) : PlainText (m + n) (s ++ t) where
  plain c hc := (List.mem_append.mp hc).elim (hs.plain c) (ht.plain c)
  length := by
    rw [List.length_append]
    exact Nat.add_le_add hs.length ht.length

/-! ## Regular expressions -/

namespace Regex

/-- Every class of an expression is within a set. -/
def Within (p : Nat → Prop) : Regex → Prop
  | cls q => ∀ c, q c = true → p c
  | seq r t => r.Within p ∧ t.Within p
  | upTo _ r => r.Within p
  | star r => r.Within p

theorem forall_of_mem_pow {L : Language Nat} {p : Nat → Prop} (h : ∀ s ∈ L, ∀ c ∈ s, p c) {k : Nat}
    (hs : s ∈ L ^ k) : ∀ c ∈ s, p c := by
  induction k generalizing s with
  | zero =>
    rw [pow_zero, Language.mem_one] at hs
    simp [hs]
  | succ k ih =>
    obtain ⟨u, hu, v, hv, rfl⟩ := mem_pow_succ.mp hs
    exact fun c hc => (List.mem_append.mp hc).elim (h u hu c) (ih hv c)

theorem forall_of_mem_lang {r : Regex} {p : Nat → Prop} (h : r.Within p) (hs : s ∈ r.lang) :
    ∀ c ∈ s, p c := by
  induction r generalizing s with
  | cls q =>
    obtain ⟨c, hc, rfl⟩ := hs
    exact fun d hd => List.mem_singleton.mp hd ▸ h c hc
  | seq r t ihr iht =>
    obtain ⟨u, hu, v, hv, rfl⟩ := Language.mem_mul.mp hs
    exact fun c hc => (List.mem_append.mp hc).elim (ihr h.1 hu c) (iht h.2 hv c)
  | upTo n r ih =>
    obtain ⟨k, -, hk⟩ := hs
    exact forall_of_mem_pow (fun u hu => ih h hu) hk
  | star r ih =>
    obtain ⟨k, -, hk⟩ := exists_pow_of_mem_kstar hs
    exact forall_of_mem_pow (fun u hu => ih h hu.1) hk

/-- The characters of a match. -/
theorem forall_of_fullmatch {r : Regex} {p : Nat → Prop} (h : r.Within p)
    (hs : r.fullmatch s = true) : ∀ c ∈ s, p c :=
  forall_of_mem_lang h (fullmatch_iff.mp hs)

theorem length_of_mem_pow_cls {q : Nat → Bool} {k : Nat} (hs : s ∈ (cls q).lang ^ k) :
    s.length = k := by
  induction k generalizing s with
  | zero =>
    rw [pow_zero, Language.mem_one] at hs
    simp [hs]
  | succ k ih =>
    obtain ⟨u, ⟨c, -, rfl⟩, v, hv, rfl⟩ := mem_pow_succ.mp hs
    rw [List.length_append, ih hv, List.length_singleton, Nat.add_comm]

/-- One character, and up to `k` more. -/
theorem length_le_of_fullmatch {q q' : Nat → Bool} {k : Nat}
    (hs : (seq (cls q) (upTo k (cls q'))).fullmatch s = true) : s.length ≤ k + 1 := by
  obtain ⟨u, ⟨c, -, rfl⟩, v, ⟨j, hj, hv⟩, rfl⟩ := Language.mem_mul.mp (fullmatch_iff.mp hs)
  rw [List.length_append, length_of_mem_pow_cls hv, List.length_singleton]
  omega

end Regex

/-! ## Numbers and times -/

theorem plain_of_isDigit {c : Nat} (h : isDigit c = true) : Plain c := by
  obtain ⟨h₁, h₂⟩ := isDigit_iff.mp h
  exact ⟨by omega, by omega, by omega, by omega⟩

theorem length_natText_le {k : Nat} (h : n < 10 ^ (k + 1)) : (natText n).length ≤ k + 1 := by
  induction k generalizing n with
  | zero =>
    rw [natText_of_lt (by omega)]
    exact Nat.le_refl _
  | succ k ih =>
    by_cases hn : n < 10
    · rw [natText_of_lt hn, List.length_singleton]
      omega
    · have hdiv : n / 10 < 10 ^ (k + 1) := by
        rw [Nat.div_lt_iff_lt_mul (by decide), ← pow_succ]
        exact h
      rw [natText_of_le (by omega), List.length_append, natText_of_lt (Nat.mod_lt n (by decide)),
        List.length_singleton]
      exact Nat.add_le_add_right (ih hdiv) 1

theorem padded_plain {k : Nat} (h : n < 10 ^ (k + 1)) : PlainText (k + 1) (padded (k + 1) n) where
  plain c hc := plain_of_isDigit (isDigit_of_mem_padded hc)
  length := by
    have := length_natText_le h
    rw [padded, List.length_append, List.length_replicate]
    omega

/-- The text of a UTC timestamp. -/
theorem Datetime.isoformat_plain {t : Datetime} (h : t.utcoffset = some 0) :
    PlainText 32 t.isoformat := by
  have hmicro : PlainText 7 (if t.microsecond = 0 then [] else lit "." ++ padded 6 t.microsecond) := by
    split
    · exact ⟨nofun, Nat.zero_le _⟩
    · have hdot : PlainText 1 (lit ".") := by decide
      exact hdot.append (padded_plain (k := 5) t.microsecond.isLt)
  have hlit : ∀ {k : Nat} {x : PyStr} {l : String}, PlainText k x → PlainText 1 (lit l) →
      PlainText (k + 1) (x ++ lit l) := fun hx hl => hx.append hl
  have hpad : ∀ {k n : Nat} {x : PyStr}, PlainText k x → n < 10 ^ 2 →
      PlainText (k + 2) (x ++ padded 2 n) := fun hx hn => hx.append (padded_plain hn)
  rw [isoformat, h]
  refine PlainText.append (m := 26) (n := 6) (PlainText.append (m := 19) ?_ hmicro) (by decide)
  have hyear : PlainText 4 (padded 4 t.year) := padded_plain t.year.isLt
  have hdate := hpad (hlit (hpad (hlit hyear (l := "-") (by decide)) (n := t.month) (by omega))
    (l := "-") (by decide)) (n := t.day) (by omega)
  have hhour := hpad (hlit hdate (l := "T") (by decide)) (n := t.hour) (by omega)
  exact hpad (hlit (hpad (hlit hhour (l := ":") (by decide)) (n := t.minute) (by omega))
    (l := ":") (by decide)) (n := t.second) (by omega)

/-! ## JSON -/

namespace Json

theorem escapeChar_of_plain {c : Nat} (h : Plain c) : escapeChar c = [c] := by
  obtain ⟨h₁, h₂, h₃, h₄⟩ := h
  unfold escapeChar
  repeat rw [if_neg (by omega)]

theorem quote_of_plain (h : ∀ c ∈ s, Plain c) : quote s = 0x22 :: (s ++ [0x22]) := by
  have : s.flatMap escapeChar = s := by
    induction s with
    | nil => rfl
    | cons c s ih =>
      rw [List.flatMap_cons, escapeChar_of_plain (h c List.mem_cons_self),
        ih fun d hd => h d (List.mem_cons_of_mem _ hd)]
      rfl
  rw [quote, this]

variable {F : Type} {floatText : F → PyStr}

/-- A member with a plain name and a plain string, or a number of ASCII text, for a value. -/
structure PlainMember (floatText : F → PyStr) (n : Nat) (e : PyStr × Value F) : Prop where
  name : ∀ c ∈ e.1, Plain c
  value : ∀ c ∈ render floatText e.2, c < 0x80
  length : e.1.length + (render floatText e.2).length + 4 ≤ n

theorem plainMember_str {k : PyStr} (hk : PlainText m k) (hs : PlainText n s) :
    PlainMember floatText (m + n + 6) (k, .str s) where
  name := hk.plain
  value := by
    rw [render, quote_of_plain hs.plain]
    intro c hc
    simp only [List.mem_cons, List.mem_append, List.not_mem_nil, or_false] at hc
    rcases hc with rfl | hc | rfl
    · decide
    · exact (hs.plain c hc).2.1
    · decide
  length := by
    have := hk.length
    have := hs.length
    rw [render, quote_of_plain hs.plain]
    simp only [List.length_cons, List.length_append, List.length_nil]
    omega

/-- The text of plain members. -/
theorem renderMembers_plain {kvs : List (PyStr × Value F)} {ns : List Nat}
    (h : List.Forall₂ (PlainMember floatText) ns kvs) :
    (∀ c ∈ renderMembers floatText kvs, c < 0x80) ∧
      (renderMembers floatText kvs).length ≤ ns.sum := by
  have hquote : ∀ {n : Nat} {e : PyStr × Value F}, PlainMember floatText n e →
      ∀ c ∈ quote e.1, c < 0x80 := by
    intro n e he c hc
    rw [quote_of_plain he.name] at hc
    simp only [List.mem_cons, List.mem_append, List.not_mem_nil, or_false] at hc
    rcases hc with rfl | hc | rfl
    · decide
    · exact (he.name c hc).2.1
    · decide
  have hlen : ∀ {n : Nat} {e : PyStr × Value F}, PlainMember floatText n e →
      (quote e.1).length = e.1.length + 2 := by
    intro n e he
    rw [quote_of_plain he.name]
    simp
  induction h with
  | nil => exact ⟨nofun, Nat.le_refl _⟩
  | @cons n e ns kvs he h ih =>
    have hsize := he.length
    have hk := hlen he
    cases kvs with
    | nil =>
      simp only [renderMembers]
      constructor
      · intro c hc
        simp only [List.mem_append, List.mem_cons] at hc
        rcases hc with hc | rfl | hc
        · exact hquote he c hc
        · decide
        · exact he.value c hc
      · simp only [List.length_append, List.length_cons, List.sum_cons]
        omega
    | cons e' kvs =>
      simp only [renderMembers]
      constructor
      · intro c hc
        simp only [List.mem_append, List.mem_cons] at hc
        rcases hc with hc | rfl | hc | rfl | hc
        · exact hquote he c hc
        · decide
        · exact he.value c hc
        · decide
        · exact ih.1 c hc
      · have := ih.2
        simp only [List.length_append, List.length_cons, List.sum_cons]
        omega

theorem length_le_quote (s : PyStr) : s.length + 2 ≤ (quote s).length := by
  have hescape : ∀ c, 1 ≤ (escapeChar c).length := by
    intro c
    unfold escapeChar
    repeat' split
    all_goals simp [lit]
  have hflat : s.length ≤ (s.flatMap escapeChar).length := by
    induction s with
    | nil => exact Nat.le_refl _
    | cons c s ih =>
      have := hescape c
      rw [List.flatMap_cons, List.length_append, List.length_cons]
      omega
  simp only [quote, List.length_cons, List.length_append, List.length_nil]
  omega

/-- How long the text of a member with a comma is at least. -/
def minSize : PyStr × Value F → Nat
  | (k, .str s) => k.length + s.length + 6
  | (k, _) => k.length + 4

theorem minSize_le (e : PyStr × Value F) :
    minSize e ≤ e.1.length + (render floatText e.2).length + 4 := by
  obtain ⟨k, v⟩ := e
  cases v with
  | str s =>
    have := length_le_quote s
    simp only [minSize, render]
    omega
  | _ => simp only [minSize]; omega

/-- The text of members is no shorter than what it is made of. -/
theorem sum_minSize_le (kvs : List (PyStr × Value F)) :
    (kvs.map minSize).sum ≤ (renderMembers floatText kvs).length + 1 := by
  induction kvs with
  | nil => exact Nat.zero_le _
  | cons e kvs ih =>
    have hk := length_le_quote e.1
    have he : minSize e ≤ e.1.length + (render floatText e.2).length + 4 := minSize_le e
    cases kvs with
    | nil =>
      simp only [renderMembers, List.map_cons, List.map_nil, List.sum_cons, List.sum_nil,
        List.length_append, List.length_cons]
      omega
    | cons e' kvs =>
      rw [List.map_cons, List.sum_cons]
      simp only [renderMembers, List.length_append, List.length_cons]
      omega

end Json

end NmLogging
