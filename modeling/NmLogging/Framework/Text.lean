import Mathlib.Algebra.GroupWithZero.Nat
import Mathlib.Data.List.Basic
import Mathlib.Data.Nat.Init
import Mathlib.Tactic.Common

/-!
# Python strings

A Python string is a list of code points, lone surrogates included; a Lean
`String` has none, so strings are lists of numbers here. `lit` embeds a
literal of the source. `strip` and `casefoldAscii` follow the Unicode tables
where these can matter for a comparison with ASCII words.
-/

namespace NmLogging

/-- A Python string: its code points. -/
abbrev PyStr := List Nat

instance : LawfulBEq PyStr := inferInstance

/-- A string literal of the source. -/
def lit (s : String) : PyStr := s.toList.map Char.toNat

/-- `str.startswith`. -/
def startsWith (s p : PyStr) : Bool := p.isPrefixOf s

/-- `str.endswith`. -/
def endsWith (s p : PyStr) : Bool := p.isSuffixOf s

/-- `str.isspace` of one character. -/
def isSpace (c : Nat) : Bool :=
  (0x09 ≤ c && c ≤ 0x0d) || (0x1c ≤ c && c ≤ 0x20) || c == 0x85 || c == 0xa0 || c == 0x1680 ||
    (0x2000 ≤ c && c ≤ 0x200a) || c == 0x2028 || c == 0x2029 || c == 0x202f || c == 0x205f ||
    c == 0x3000

/-- `str.strip()`. -/
def strip (s : PyStr) : PyStr := ((s.dropWhile isSpace).reverse.dropWhile isSpace).reverse

/-- A text without white space stays as it is. -/
theorem strip_eq_self {s : PyStr} (h : ∀ c ∈ s, isSpace c = false) : strip s = s := by
  have hdrop : ∀ {u : PyStr}, (∀ c ∈ u, isSpace c = false) → u.dropWhile isSpace = u := by
    intro u hu
    cases u with
    | nil => rfl
    | cons c u => rw [List.dropWhile_cons_of_neg (by rw [hu c List.mem_cons_self]; decide)]
  rw [strip, hdrop h, hdrop fun c hc => h c (List.mem_reverse.mp hc), List.reverse_reverse]

/-- The full case folding of a character whose folding is ASCII; any other
character is kept (its folding has a character that is not ASCII). -/
def casefoldChar (c : Nat) : PyStr :=
  if 0x41 ≤ c ∧ c ≤ 0x5a then [c + 0x20]
  else if c = 0x17f then lit "s"
  else if c = 0x212a then lit "k"
  else if c = 0xdf ∨ c = 0x1e9e then lit "ss"
  else if c = 0xfb00 then lit "ff"
  else if c = 0xfb01 then lit "fi"
  else if c = 0xfb02 then lit "fl"
  else if c = 0xfb03 then lit "ffi"
  else if c = 0xfb04 then lit "ffl"
  else if c = 0xfb05 ∨ c = 0xfb06 then lit "st"
  else [c]

/-- `str.casefold()`, for comparison with ASCII strings. -/
def casefoldAscii (s : PyStr) : PyStr := s.flatMap casefoldChar

/-- `str.split(sep, 1)[0]`. -/
def splitFirst (s : PyStr) (sep : Nat) : PyStr := s.takeWhile (· ≠ sep)

/-- A decimal digit. -/
def isDigit (c : Nat) : Bool := 0x30 ≤ c && c ≤ 0x39

/-- `a` to `z`. -/
def isLower (c : Nat) : Bool := 0x61 ≤ c && c ≤ 0x7a

/-- The decimal text of a natural number. -/
def natText (n : Nat) : PyStr := (Nat.toDigits 10 n).map Char.toNat

/-- The decimal text of a natural number, padded with zeros to a width. -/
def padded (width n : Nat) : PyStr :=
  List.replicate (width - (natText n).length) 0x30 ++ natText n

/-- `int.__repr__`. -/
def intText (i : Int) : PyStr :=
  if i < 0 then 0x2d :: natText i.natAbs else natText i.natAbs

/-- The value of a string of digits. -/
def digitsValue (s : PyStr) : Nat := s.foldl (fun n c => 10 * n + (c - 0x30)) 0

/-- `sep.join(parts)`. -/
def join (sep : PyStr) : List PyStr → PyStr
  | [] => []
  | [p] => p
  | p :: q :: ps => p ++ sep ++ join sep (q :: ps)

/-! ## Decimal text -/

theorem isDigit_iff {c : Nat} : isDigit c = true ↔ 0x30 ≤ c ∧ c ≤ 0x39 := by
  simp [isDigit]

theorem isDigit_of_mem_natText {n c : Nat} (h : c ∈ natText n) : isDigit c = true := by
  simp only [natText, List.mem_map] at h
  obtain ⟨d, hd, rfl⟩ := h
  have := Nat.isDigit_of_mem_toDigits (by decide) (by decide) hd
  simp only [Char.isDigit, ge_iff_le, Bool.and_eq_true, decide_eq_true_eq] at this
  exact isDigit_iff.mpr this

theorem natText_ne_nil (n : Nat) : natText n ≠ [] := by
  simp [natText, Nat.toDigits_ne_nil]

theorem natText_of_lt {n : Nat} (h : n < 10) : natText n = [0x30 + n] := by
  rw [natText, Nat.toDigits_of_lt_base h]
  have : ∀ n < 10, [n.digitChar].map Char.toNat = [0x30 + n] := by decide
  exact this n h

theorem natText_of_le {n : Nat} (h : 10 ≤ n) :
    natText n = natText (n / 10) ++ natText (n % 10) := by
  rw [natText, Nat.toDigits_of_base_le (by decide) h, List.map_append,
    natText_of_lt (Nat.mod_lt n (by decide))]
  have : ∀ m < 10, [m.digitChar].map Char.toNat = [0x30 + m] := by decide
  rw [this _ (Nat.mod_lt n (by decide)), natText]

/-- A number with more than `k` digits. -/
theorem lt_length_natText {n k : Nat} (h : 10 ^ k ≤ n) : k < (natText n).length := by
  induction k generalizing n with
  | zero => exact List.length_pos_iff.mpr (natText_ne_nil n)
  | succ k ih =>
    have hpow : 10 ^ k * 10 ≤ n := by rwa [← Nat.pow_succ]
    have hpos : 0 < 10 ^ k := Nat.pow_pos (by decide)
    have := ih ((Nat.le_div_iff_mul_le (by decide)).mpr hpow)
    rw [natText_of_le (by omega), List.length_append, natText_of_lt (Nat.mod_lt n (by decide))]
    simp only [List.length_cons, List.length_nil]
    omega

theorem digitsValue_append_digit (s : PyStr) (c : Nat) :
    digitsValue (s ++ [c]) = 10 * digitsValue s + (c - 0x30) := by
  simp [digitsValue]

theorem digitsValue_natText (n : Nat) : digitsValue (natText n) = n := by
  induction n using Nat.strong_induction_on with
  | _ n ih =>
    by_cases h : n < 10
    · rw [natText_of_lt h]; simp [digitsValue]
    · rw [natText_of_le (by omega), natText_of_lt (Nat.mod_lt n (by decide)),
        digitsValue_append_digit, ih _ (by omega)]
      omega

/-- The first digit is zero only for zero itself. -/
theorem head_natText {n c : Nat} {s : PyStr} (h : natText n = c :: s) (hc : c = 0x30) :
    n = 0 ∧ s = [] := by
  induction n using Nat.strong_induction_on generalizing c s with
  | _ n ih =>
    by_cases hn : n < 10
    · rw [natText_of_lt hn] at h
      simp only [List.cons.injEq] at h
      exact ⟨by omega, h.2.symm⟩
    · rw [natText_of_le (by omega)] at h
      cases e : natText (n / 10) with
      | nil => exact absurd e (natText_ne_nil _)
      | cons d t =>
        rw [e] at h
        simp only [List.cons_append, List.cons.injEq] at h
        have := (ih (n / 10) (by omega) e (by omega)).1
        omega

theorem isDigit_of_mem_padded {w n c : Nat} (h : c ∈ padded w n) : isDigit c = true := by
  simp only [padded, List.mem_append, List.mem_replicate] at h
  rcases h with h | h
  · rw [h.2]; decide
  · exact isDigit_of_mem_natText h

end NmLogging
