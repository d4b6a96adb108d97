import Mathlib.Computability.Language
import NmLogging.Framework.Text

/-!
# Regular expressions

The part of Python's `re` that the package's grammars use: character classes,
sequences, bounded repetition and the star. `Regex.ends` backtracks over what
may be left after a match and is what `fullmatch` runs; `Regex.lang` is the
language of an expression, and `fullmatch_iff` that the two agree.
-/

namespace NmLogging

/-- A regular expression over code points. -/
inductive Regex where
  | cls (p : Nat → Bool)
  | seq (r t : Regex)
  | upTo (n : Nat) (r : Regex)
  | star (r : Regex)

namespace Regex

/-- `r+`. -/
def plus (r : Regex) : Regex := seq r (star r)

/-- One character. -/
def chr (c : Nat) : Regex := cls (· == c)

/-- Up to `n` matches one after another. -/
def endsUpTo (ends : PyStr → List PyStr) : Nat → PyStr → List PyStr
  | 0, s => [s]
  | n + 1, s => (ends s).flatMap (endsUpTo ends n) ++ [s]

/-- What may be left of a text after a match at its head. A star matches no
more often than the text has characters. -/
def ends : Regex → PyStr → List PyStr
  | cls _, [] => []
  | cls p, c :: s => if p c then [s] else []
  | seq r t, s => (r.ends s).flatMap t.ends
  | upTo n r, s => endsUpTo r.ends n s
  | star r, s => endsUpTo (fun u => (r.ends u).filter fun t => t.length < u.length) s.length s

/-- `re.fullmatch`. -/
def fullmatch (r : Regex) (s : PyStr) : Bool := (r.ends s).any List.isEmpty

/-- The language of an expression. -/
def lang : Regex → Language Nat
  | cls p => {s | ∃ c, p c = true ∧ s = [c]}
  | seq r t => r.lang * t.lang
  | upTo n r => {s | ∃ k ≤ n, s ∈ r.lang ^ k}
  | star r => KStar.kstar r.lang

theorem mem_pow_succ {L : Language Nat} {n : Nat} {s : PyStr} :
    s ∈ L ^ (n + 1) ↔ ∃ u ∈ L, ∃ t ∈ L ^ n, u ++ t = s := by
  rw [pow_succ', Language.mem_mul]

theorem mem_endsUpTo {f : PyStr → List PyStr} {L : Language Nat}
    (h : ∀ s t, t ∈ f s ↔ ∃ u ∈ L, s = u ++ t) {n : Nat} {s t : PyStr} :
    t ∈ endsUpTo f n s ↔ ∃ k ≤ n, ∃ u ∈ L ^ k, s = u ++ t := by
  induction n generalizing s with
  | zero =>
    simp only [endsUpTo, List.mem_singleton, Nat.le_zero_eq]
    constructor
    · rintro rfl; exact ⟨0, rfl, [], by simp [Language.mem_one], rfl⟩
    · rintro ⟨_, rfl, u, hu, rfl⟩
      rw [pow_zero, Language.mem_one] at hu
      rw [hu]; rfl
  | succ n ih =>
    simp only [endsUpTo, List.mem_append, List.mem_flatMap, List.mem_singleton, ih, h]
    constructor
    · rintro (⟨m, ⟨u, hu, rfl⟩, k, hk, v, hv, rfl⟩ | rfl)
      · exact ⟨k + 1, by omega, u ++ v, mem_pow_succ.mpr ⟨u, hu, v, hv, rfl⟩, by simp⟩
      · exact ⟨0, by omega, [], by simp [Language.mem_one], rfl⟩
    · rintro ⟨k, hk, u, hu, rfl⟩
      cases k with
      | zero =>
        rw [pow_zero, Language.mem_one] at hu
        right; rw [hu]; rfl
      | succ k =>
        obtain ⟨a, ha, b, hb, rfl⟩ := mem_pow_succ.mp hu
        exact .inl ⟨b ++ t, ⟨a, ha, by simp⟩, k, by omega, b, hb, rfl⟩

/-- The nonempty words of a language. -/
def nonempty (L : Language Nat) : Language Nat := {w | w ∈ L ∧ w ≠ []}

/-- The words of a star are products of nonempty words, no more than they have characters. -/
theorem exists_pow_of_mem_kstar {L : Language Nat} {s : PyStr} (h : s ∈ KStar.kstar L) :
    ∃ k ≤ s.length, s ∈ nonempty L ^ k := by
  obtain ⟨S, rfl, hS⟩ := Language.mem_kstar_iff_exists_nonempty.mp h
  clear h
  induction S with
  | nil => exact ⟨0, Nat.le_refl _, by simp [Language.mem_one]⟩
  | cons w S ih =>
    obtain ⟨k, hk, hm⟩ := ih fun y hy => hS y (List.mem_cons_of_mem _ hy)
    have hw := hS w List.mem_cons_self
    refine ⟨k + 1, ?_, mem_pow_succ.mpr ⟨w, hw, S.flatten, hm, rfl⟩⟩
    have := List.length_pos_iff.mpr hw.2
    rw [List.flatten_cons, List.length_append]
    omega

theorem mem_kstar_of_mem_pow {L : Language Nat} {k : Nat} {s : PyStr} (h : s ∈ nonempty L ^ k) :
    s ∈ KStar.kstar L := by
  induction k generalizing s with
  | zero =>
    rw [pow_zero, Language.mem_one] at h
    exact h ▸ Language.nil_mem_kstar L
  | succ k ih =>
    obtain ⟨u, hu, t, ht, rfl⟩ := mem_pow_succ.mp h
    obtain ⟨S, rfl, hS⟩ := Language.mem_kstar.mp (ih ht)
    exact Language.mem_kstar.mpr ⟨u :: S, rfl, fun y hy =>
      (List.mem_cons.mp hy).elim (fun e => e ▸ hu.1) (hS y)⟩

theorem mem_ends {r : Regex} {s t : PyStr} : t ∈ r.ends s ↔ ∃ u ∈ r.lang, s = u ++ t := by
  induction r generalizing s t with
  | cls p =>
    cases s with
    | nil =>
      simp only [ends, List.not_mem_nil, false_iff, not_exists, not_and]
      rintro u ⟨c, -, rfl⟩ h
      cases h
    | cons c s =>
      by_cases hc : p c = true
      · simp only [ends, hc, if_true, List.mem_singleton]
        constructor
        · rintro rfl; exact ⟨[c], ⟨c, hc, rfl⟩, rfl⟩
        · rintro ⟨u, ⟨d, -, rfl⟩, h⟩
          simp only [List.cons_append, List.nil_append, List.cons.injEq] at h
          exact h.2.symm
      · simp only [ends, hc, Bool.false_eq_true, if_false, List.not_mem_nil, false_iff,
          not_exists, not_and]
        rintro u ⟨d, hd, rfl⟩ h
        cases h
        exact hc hd
  | seq r q ihr ihq =>
    simp only [ends, List.mem_flatMap, ihr, ihq, lang, Language.mem_mul]
    constructor
    · rintro ⟨m, ⟨u, hu, rfl⟩, v, hv, rfl⟩
      exact ⟨u ++ v, ⟨u, hu, v, hv, rfl⟩, by simp⟩
    · rintro ⟨_, ⟨u, hu, v, hv, rfl⟩, rfl⟩
      exact ⟨v ++ t, ⟨u, hu, by simp⟩, v, hv, rfl⟩
  | upTo n r ih =>
    rw [ends, mem_endsUpTo (fun s t => ih)]
    simp only [lang]
    constructor
    · rintro ⟨k, hk, u, hu, rfl⟩; exact ⟨u, ⟨k, hk, hu⟩, rfl⟩
    · rintro ⟨u, ⟨k, hk, hu⟩, rfl⟩; exact ⟨k, hk, u, hu, rfl⟩
  | star r ih =>
    have h : ∀ s t, t ∈ (r.ends s).filter (fun t => t.length < s.length) ↔
        ∃ u ∈ nonempty r.lang, s = u ++ t := by
      intro s t
      simp only [List.mem_filter, ih, decide_eq_true_eq]
      constructor
      · rintro ⟨⟨u, hu, rfl⟩, hl⟩
        refine ⟨u, ⟨hu, ?_⟩, rfl⟩
        rintro rfl
        simp at hl
      · rintro ⟨u, ⟨hu, hne⟩, rfl⟩
        have := List.length_pos_iff.mpr hne
        exact ⟨⟨u, hu, rfl⟩, by rw [List.length_append]; omega⟩
    rw [ends, mem_endsUpTo h]
    constructor
    · rintro ⟨k, -, u, hu, rfl⟩
      exact ⟨u, mem_kstar_of_mem_pow hu, rfl⟩
    · rintro ⟨u, hu, rfl⟩
      obtain ⟨k, hk, hp⟩ := exists_pow_of_mem_kstar hu
      exact ⟨k, by rw [List.length_append]; omega, u, hp, rfl⟩

/-- `fullmatch` decides the language of an expression. -/
theorem fullmatch_iff {r : Regex} {s : PyStr} : r.fullmatch s = true ↔ s ∈ r.lang := by
  simp only [fullmatch, List.any_eq_true, List.isEmpty_iff]
  constructor
  · rintro ⟨_, h, rfl⟩
    obtain ⟨u, hu, rfl⟩ := mem_ends.mp h
    rwa [List.append_nil]
  · intro h
    exact ⟨[], mem_ends.mpr ⟨s, h, by simp⟩, rfl⟩

end Regex

end NmLogging
