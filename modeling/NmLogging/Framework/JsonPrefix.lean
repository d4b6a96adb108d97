import NmLogging.Framework.JsonRoundTrip

/-!
# An object behind other text

A text that ends in the text of an object is an object only if nothing but white
space stands before it (`isWs_of_loads_members`): what is there cannot close an
object that it opened, since the object at the end closes only itself, and a
string that it opened ends at the first quote of that object, with a letter behind
it. `scanOnce_ok`, `scanMembers_ok` and `scanItems_ok` say what the scanners do
where they succeed; that more fuel and depth change nothing (`scan_mono`) and what
is left of the text (`scan_left`) follow from these.
-/

namespace NmLogging.Json

variable {F : Type} {D : Decoder F}

/-! ## Where the scanners succeed -/

/-- `s` does not start with the character `c`. -/
def NotHead (c : Nat) (s : PyStr) : Prop := ∀ r, s ≠ c :: r

theorem scanOnce_ok {fuel depth c : Nat} {t r : PyStr} {v : Value F} :
    scanOnce D (fuel + 1) depth (c :: t) = .ok (v, r) ↔
      (c = 0x22 ∧ ∃ w, scanString t = some (w, r) ∧ v = .str w) ∨
      (c = 0x7b ∧ ∃ d, depth = d + 1 ∧
        ((skipWs t = 0x7d :: r ∧ v = .obj []) ∨
          (NotHead 0x7d (skipWs t) ∧ scanMembers D fuel d [] (skipWs t) = .ok (v, r)))) ∨
      (c = 0x5b ∧ ∃ d, depth = d + 1 ∧
        ((skipWs t = 0x5d :: r ∧ v = .arr []) ∨
          (NotHead 0x5d (skipWs t) ∧ scanItems D fuel d [] (skipWs t) = .ok (v, r)))) ∨
      (c ≠ 0x22 ∧ c ≠ 0x7b ∧ c ≠ 0x5b ∧ D.scalar (c :: t) = .ok (v, r)) := by
  rw [scanOnce.eq_def]
  by_cases h₁ : c = 0x22
  · subst h₁
    simp only [if_true, Nat.reduceEqDiff, false_and, or_false, true_and, not_true_eq_false, ne_eq]
    cases scanString t with
    | none => simp
    | some p => obtain ⟨w, r'⟩ := p; simp [and_comm, eq_comm]
  by_cases h₂ : c = 0x7b
  · subst h₂
    simp only [if_true, if_false, Nat.reduceEqDiff, false_and, or_false, false_or, true_and,
      not_true_eq_false, ne_eq, and_false]
    cases depth with
    | zero => simp
    | succ d =>
      simp only [Nat.add_right_cancel_iff, exists_eq_left']
      split
      · rename_i r' h; simp [h, NotHead, eq_comm, and_comm]
      · rename_i h
        have hn : NotHead 0x7d (skipWs t) := fun r => h r
        have : ∀ r, skipWs t ≠ 0x7d :: r := h
        simp [hn, this]
  by_cases h₃ : c = 0x5b
  · subst h₃
    simp only [if_true, if_false, Nat.reduceEqDiff, false_and, or_false, false_or, true_and,
      not_true_eq_false, ne_eq, and_false]
    cases depth with
    | zero => simp
    | succ d =>
      simp only [Nat.add_right_cancel_iff, exists_eq_left']
      split
      · rename_i r' h; simp [h, NotHead, eq_comm, and_comm]
      · rename_i h
        have hn : NotHead 0x5d (skipWs t) := fun r => h r
        have : ∀ r, skipWs t ≠ 0x5d :: r := h
        simp [hn, this]
  · simp [h₁, h₂, h₃]

theorem scanMembers_ok {fuel depth : Nat} {acc : List (PyStr × Value F)} {s r : PyStr}
    {v : Value F} :
    scanMembers D (fuel + 1) depth acc s = .ok (v, r) ↔
      ∃ t k r₁ r₂ w r₃, s = 0x22 :: t ∧ scanString t = some (k, r₁) ∧ skipWs r₁ = 0x3a :: r₂ ∧
        scanOnce D fuel depth (skipWs r₂) = .ok (w, r₃) ∧
        ((skipWs r₃ = 0x7d :: r ∧ v = .obj (assocSet acc k w)) ∨
          ∃ r₄, skipWs r₃ = 0x2c :: r₄ ∧
            scanMembers D fuel depth (assocSet acc k w) (skipWs r₄) = .ok (v, r)) := by
  constructor
  · intro h
    rw [scanMembers.eq_def] at h
    simp only at h
    split at h
    · rename_i t
      split at h
      · cases h
      · rename_i k r₁ hk
        split at h
        · rename_i r₂ hr
          split at h
          · cases h
          · rename_i w r₃ hw
            split at h
            · rename_i r₄ hc
              cases h
              exact ⟨t, k, r₁, r₂, w, r₃, rfl, hk, hr, hw, .inl ⟨hc, rfl⟩⟩
            · rename_i r₄ hc
              exact ⟨t, k, r₁, r₂, w, r₃, rfl, hk, hr, hw, .inr ⟨r₄, hc, h⟩⟩
            · cases h
        · cases h
    · cases h
  · rintro ⟨t, k, r₁, r₂, w, r₃, rfl, hk, hr, hw, ⟨hc, rfl⟩ | ⟨r₄, hc, h⟩⟩
    · rw [scanMembers.eq_def]; simp only [hk, hr, hw, hc]
    · rw [scanMembers.eq_def]; simp only [hk, hr, hw, hc, h]

theorem scanItems_ok {fuel depth : Nat} {acc : List (Value F)} {s r : PyStr} {v : Value F} :
    scanItems D (fuel + 1) depth acc s = .ok (v, r) ↔
      ∃ w r₃, scanOnce D fuel depth s = .ok (w, r₃) ∧
        ((skipWs r₃ = 0x5d :: r ∧ v = .arr (acc ++ [w])) ∨
          ∃ r₄, skipWs r₃ = 0x2c :: r₄ ∧
            scanItems D fuel depth (acc ++ [w]) (skipWs r₄) = .ok (v, r)) := by
  constructor
  · intro h
    rw [scanItems.eq_def] at h
    simp only at h
    split at h
    · cases h
    · rename_i w r₃ hw
      split at h
      · rename_i r₄ hc
        cases h
        exact ⟨w, r₃, hw, .inl ⟨hc, rfl⟩⟩
      · rename_i r₄ hc
        exact ⟨w, r₃, hw, .inr ⟨r₄, hc, h⟩⟩
      · cases h
  · rintro ⟨w, r₃, hw, ⟨hc, rfl⟩ | ⟨r₄, hc, h⟩⟩
    · rw [scanItems.eq_def]; simp only [hw, hc]
    · rw [scanItems.eq_def]; simp only [hw, hc, h]

/-- More fuel and more depth change no result. -/
theorem scan_mono (D : Decoder F) (fuel : Nat) :
    (∀ {fuel' depth depth' s v r}, fuel ≤ fuel' → depth ≤ depth' →
      scanOnce D fuel depth s = .ok (v, r) → scanOnce D fuel' depth' s = .ok (v, r)) ∧
    (∀ {fuel' depth depth' acc s v r}, fuel ≤ fuel' → depth ≤ depth' →
      scanMembers D fuel depth acc s = .ok (v, r) →
        scanMembers D fuel' depth' acc s = .ok (v, r)) ∧
    (∀ {fuel' depth depth' acc s v r}, fuel ≤ fuel' → depth ≤ depth' →
      scanItems D fuel depth acc s = .ok (v, r) → scanItems D fuel' depth' acc s = .ok (v, r)) := by
  induction fuel with
  | zero =>
    refine ⟨?_, ?_, ?_⟩
    · intro _ _ _ _ _ _ _ _ h; cases h
    · intro _ _ _ _ _ _ _ _ _ h; cases h
    · intro _ _ _ _ _ _ _ _ _ h; cases h
  | succ fuel ih =>
    obtain ⟨ih₁, ih₂, ih₃⟩ := ih
    refine ⟨?_, ?_, ?_⟩
    · intro fuel' depth depth' s v r hf hd h
      obtain ⟨n, rfl⟩ : ∃ n, fuel' = n + 1 := ⟨fuel' - 1, by omega⟩
      cases s with
      | nil => cases h
      | cons c t =>
        rw [scanOnce_ok] at h ⊢
        rcases h with h | ⟨hc, d, rfl, h⟩ | ⟨hc, d, rfl, h⟩ | h
        · exact .inl h
        · obtain ⟨m, rfl⟩ : ∃ m, depth' = m + 1 := ⟨depth' - 1, by omega⟩
          exact .inr (.inl ⟨hc, m, rfl, h.imp_right fun ⟨hn, h⟩ =>
            ⟨hn, ih₂ (by omega) (by omega) h⟩⟩)
        · obtain ⟨m, rfl⟩ : ∃ m, depth' = m + 1 := ⟨depth' - 1, by omega⟩
          exact .inr (.inr (.inl ⟨hc, m, rfl, h.imp_right fun ⟨hn, h⟩ =>
            ⟨hn, ih₃ (by omega) (by omega) h⟩⟩))
        · exact .inr (.inr (.inr h))
    · intro fuel' depth depth' acc s v r hf hd h
      obtain ⟨n, rfl⟩ : ∃ n, fuel' = n + 1 := ⟨fuel' - 1, by omega⟩
      rw [scanMembers_ok] at h ⊢
      obtain ⟨t, k, r₁, r₂, w, r₃, hs, hk, hr, hw, h⟩ := h
      exact ⟨t, k, r₁, r₂, w, r₃, hs, hk, hr, ih₁ (by omega) hd hw, h.imp_right fun ⟨r₄, hc, h⟩ =>
        ⟨r₄, hc, ih₂ (by omega) hd h⟩⟩
    · intro fuel' depth depth' acc s v r hf hd h
      obtain ⟨n, rfl⟩ : ∃ n, fuel' = n + 1 := ⟨fuel' - 1, by omega⟩
      rw [scanItems_ok] at h ⊢
      obtain ⟨w, r₃, hw, h⟩ := h
      exact ⟨w, r₃, ih₁ (by omega) hd hw, h.imp_right fun ⟨r₄, hc, h⟩ =>
        ⟨r₄, hc, ih₃ (by omega) hd h⟩⟩

theorem lowSurrogate_eq_some {s : PyStr} {w : Nat} (h : lowSurrogate s = some w) :
    ∃ a b c d t, s = 0x5c :: 0x75 :: a :: b :: c :: d :: t ∧ (hex4 a b c d).isSome := by
  unfold lowSurrogate at h
  split at h
  · rename_i a b c d t
    split at h
    · rename_i u hu
      exact ⟨a, b, c, d, t, rfl, by rw [hu]; rfl⟩
    · cases h
  · cases h

/-- What the scanner reads first within a string. -/
theorem scanString_cons_some {c : Nat} {s v r : PyStr} (h : scanString (c :: s) = some (v, r)) :
    (c = 0x22 ∧ r = s) ∨
      (c = 0x5c ∧ ∃ e t w, s = e :: t ∧ (simpleEscape e).isSome ∧ scanString t = some (w, r)) ∨
      (c = 0x5c ∧ ∃ a b d e t w, s = 0x75 :: a :: b :: d :: e :: t ∧ (hex4 a b d e).isSome ∧
        (scanString t = some (w, r) ∨ ∃ a' b' d' e' t', t = 0x5c :: 0x75 :: a' :: b' :: d' :: e' :: t' ∧
          (hex4 a' b' d' e').isSome ∧ scanString t' = some (w, r))) ∨
      (c ≠ 0x22 ∧ c ≠ 0x5c ∧ ∃ w, scanString s = some (w, r)) := by
  have rest : ∀ {t : PyStr} {x : Nat}, (scanString t).map (fun p => (x :: p.1, p.2)) = some (v, r) →
      ∃ w, scanString t = some (w, r) := by
    intro t x h
    simp only [Option.map_eq_some_iff, Prod.mk.injEq] at h
    obtain ⟨⟨w, r'⟩, hw, -, rfl⟩ := h
    exact ⟨w, hw⟩
  rw [scanString.eq_def] at h
  simp only at h
  by_cases h₁ : c = 0x22
  · rw [if_pos h₁] at h
    cases h
    exact .inl ⟨h₁, rfl⟩
  rw [if_neg h₁] at h
  by_cases h₂ : c = 0x5c
  · rw [if_pos h₂] at h
    cases s with
    | nil => cases h
    | cons e t =>
      simp only at h
      by_cases h₃ : e = 0x75
      · subst h₃
        rw [if_pos rfl] at h
        split at h
        · rename_i a b d e t
          cases hu : hex4 a b d e with
          | none => rw [hu] at h; cases h
          | some u =>
            rw [hu] at h
            simp only at h
            have hex : (hex4 a b d e).isSome := by rw [hu]; rfl
            split at h
            · split at h
              · rename_i hlow
                obtain ⟨_, _, _, _, _, ht, hex₂⟩ := lowSurrogate_eq_some hlow
                cases ht
                obtain ⟨w, hw⟩ := rest h
                exact .inr (.inr (.inl ⟨h₂, a, b, d, e, _, w, rfl, hex,
                  .inr ⟨_, _, _, _, _, rfl, hex₂, hw⟩⟩))
              · obtain ⟨w, hw⟩ := rest h
                exact .inr (.inr (.inl ⟨h₂, a, b, d, e, _, w, rfl, hex, .inl hw⟩))
            · obtain ⟨w, hw⟩ := rest h
              exact .inr (.inr (.inl ⟨h₂, a, b, d, e, t, w, rfl, hex, .inl hw⟩))
        · cases h
      · rw [if_neg h₃] at h
        split at h
        · cases h
        · rename_i x hx
          obtain ⟨w, hw⟩ := rest h
          exact .inr (.inl ⟨h₂, e, t, w, rfl, by rw [hx]; rfl, hw⟩)
  · rw [if_neg h₂] at h
    split at h
    · cases h
    · exact .inr (.inr (.inr ⟨h₁, h₂, rest h⟩))

/-! ## What is left of the text -/

/-- A text that starts with `q`, where `q` has not the character after `p`. -/
theorem append_cons_inv {p q t M : PyStr} {y : Nat} (h : p ++ y :: M = q ++ t) (hy : y ∉ q) :
    ∃ p', p = q ++ p' ∧ t = p' ++ y :: M := by
  rcases List.append_eq_append_iff.mp h with ⟨a, rfl, ha⟩ | ⟨a, rfl, ha⟩
  · cases a with
    | nil => exact ⟨[], by simp, by simpa using ha.symm⟩
    | cons z a =>
      cases ha
      simp at hy
  · exact ⟨a, rfl, ha⟩

theorem notMem_hex4 {a b c d : Nat} (h : (hex4 a b c d).isSome) : 0x7b ∉ [a, b, c, d] := by
  intro hm
  have hn : hexVal 0x7b = none := rfl
  simp only [List.mem_cons, List.not_mem_nil, or_false] at hm
  rcases hm with rfl | rfl | rfl | rfl <;>
    simp only [hex4, hn, Option.bind_eq_bind, Option.bind_none, Option.isSome_none,
      Option.bind_fun_none, Bool.false_eq_true] at h

section Behind

variable {x : Nat} {L : PyStr}

/-- A string that opens before `{"x…` closes before it, or at its quote. -/
theorem scanString_left {p v r : PyStr} (h : scanString (p ++ 0x7b :: 0x22 :: x :: L) = some (v, r)) :
    (∃ p', r = p' ++ 0x7b :: 0x22 :: x :: L) ∨ r = x :: L := by
  induction hn : p.length using Nat.strong_induction_on generalizing p v with
  | _ n ih =>
    subst hn
    have next : ∀ q {t w}, 0x7b ∉ q → 0 < q.length → p ++ 0x7b :: 0x22 :: x :: L = q ++ t →
        scanString t = some (w, r) → (∃ p', r = p' ++ 0x7b :: 0x22 :: x :: L) ∨ r = x :: L := by
      intro q t w hq hlen ht hs
      obtain ⟨p', rfl, rfl⟩ := append_cons_inv ht hq
      exact ih p'.length (by rw [List.length_append]; omega) hs rfl
    cases p with
    | nil =>
      rcases scanString_cons_some h with ⟨hc, -⟩ | ⟨hc, -⟩ | ⟨hc, -⟩ | ⟨-, -, w, hw⟩
      · exact absurd hc (by decide)
      · exact absurd hc (by decide)
      · exact absurd hc (by decide)
      · rcases scanString_cons_some hw with ⟨-, rfl⟩ | ⟨hc, -⟩ | ⟨hc, -⟩ | ⟨hc, -⟩
        · exact .inr rfl
        · exact absurd hc (by decide)
        · exact absurd hc (by decide)
        · exact absurd rfl hc
    | cons c p =>
      have hne : c ≠ 0x7b ∨ c = 0x7b := by omega
      rcases scanString_cons_some h with ⟨-, rfl⟩ | ⟨rfl, e, t, w, hs, he, hw⟩ |
        ⟨rfl, a, b, d, e, t, w, hs, hx, hw | ⟨a', b', d', e', t', rfl, hx', hw⟩⟩ | ⟨-, -, w, hw⟩
      · exact .inl ⟨p, rfl⟩
      · refine next [0x5c, e] ?_ (Nat.succ_pos 1) (congrArg (0x5c :: ·) hs) hw
        intro hm
        simp only [List.mem_cons, List.not_mem_nil, or_false] at hm
        rcases hm with hm | rfl
        · exact absurd hm (by decide)
        · exact absurd he (by decide)
      · refine next [0x5c, 0x75, a, b, d, e] ?_ (Nat.succ_pos 5) (congrArg (0x5c :: ·) hs) hw
        have := notMem_hex4 hx
        simpa using this
      · refine next [0x5c, 0x75, a, b, d, e, 0x5c, 0x75, a', b', d', e'] ?_ (Nat.succ_pos 11)
          (congrArg (0x5c :: ·) hs) hw
        have h₁ := notMem_hex4 hx
        have h₂ := notMem_hex4 hx'
        simp only [List.mem_cons, List.not_mem_nil, or_false, not_or] at h₁ h₂ ⊢
        exact ⟨by decide, by decide, h₁.1, h₁.2.1, h₁.2.2.1, h₁.2.2.2, by decide, by decide,
          h₂.1, h₂.2.1, h₂.2.2.1, h₂.2.2.2⟩
      · exact ih p.length (by simp) hw rfl

theorem skipWs_append {p M : PyStr} {c : Nat} (hc : isWs c = false) :
    skipWs (p ++ c :: M) = skipWs p ++ c :: M := by
  induction p with
  | nil => simp [skipWs, hc]
  | cons d p ih =>
    simp only [skipWs] at ih
    by_cases hd : isWs d = true
    · simp [skipWs, hd, ih]
    · simp [skipWs, hd]

/-- A word or a number before `{"x…` ends before it. -/
theorem scalar_left {p r : PyStr} {v : Value F}
    (h : D.scalar (p ++ 0x7b :: 0x22 :: x :: L) = .ok (v, r)) :
    ∃ p', r = p' ++ 0x7b :: 0x22 :: x :: L := by
  have hstop : Stop (0x7b :: 0x22 :: x :: L) := by
    intro c t e
    cases e
    decide
  unfold Decoder.scalar at h
  split at h
  · rename_i w u hf
    cases h
    have hs := List.find?_some hf
    have hm := List.mem_of_find?_eq_some hf
    obtain ⟨t, ht⟩ := List.isPrefixOf_iff_prefix.mp hs
    have hw : 0x7b ∉ w := by
      simp only [Decoder.words, List.mem_cons, Prod.mk.injEq, List.not_mem_nil, or_false] at hm
      rcases hm with ⟨rfl, -⟩ | ⟨rfl, -⟩ | ⟨rfl, -⟩ | ⟨rfl, -⟩ | ⟨rfl, -⟩ | ⟨rfl, -⟩ <;> decide
    obtain ⟨p', rfl, -⟩ := append_cons_inv ht.symm hw
    exact ⟨p', by rw [List.append_assoc, List.drop_left]⟩
  · rw [matchNumber_append hstop] at h
    cases hn : matchNumber p with
    | none => rw [hn] at h; cases h
    | some q =>
      obtain ⟨n, r'⟩ := q
      rw [hn] at h
      simp only [Option.map_some] at h
      cases hv : D.number n with
      | error e => rw [hv] at h; cases h
      | ok u =>
        rw [hv] at h
        cases h
        exact ⟨r', rfl⟩

section Open

variable (hx : isWs x = false) (hx' : x ≠ 0x3a ∧ x ≠ 0x2c ∧ x ≠ 0x7d ∧ x ≠ 0x5d)
include hx hx'

/-- The next character after `p`, or after the quote of `{"x…`, closes or
separates: then it stands in `p`. -/
theorem next_left {r r' u : PyStr} {c : Nat} (hc : c = 0x3a ∨ c = 0x2c ∨ c = 0x7d ∨ c = 0x5d)
    (h : r = u ++ 0x7b :: 0x22 :: x :: L ∨ r = x :: L) (hr : skipWs r = c :: r') :
    ∃ q, r' = q ++ 0x7b :: 0x22 :: x :: L := by
  rcases h with rfl | rfl
  · rw [skipWs_append (by decide)] at hr
    cases hq : skipWs u with
    | nil =>
      rw [hq, List.nil_append] at hr
      cases hr
      exact absurd hc (by decide)
    | cons d q =>
      rw [hq] at hr
      cases hr
      exact ⟨q, rfl⟩
  · rw [skipWs, List.dropWhile_cons_of_neg (by simpa using hx)] at hr
    cases hr
    rcases hc with rfl | rfl | rfl | rfl
    · exact absurd rfl hx'.1
    · exact absurd rfl hx'.2.1
    · exact absurd rfl hx'.2.2.1
    · exact absurd rfl hx'.2.2.2

/-- What a scanner leaves of a text that ends in `{"x…`, where nothing follows the
value there. -/
theorem scan_left (hL : ∀ fuel depth v r,
      scanOnce D fuel depth (0x7b :: 0x22 :: x :: L) = .ok (v, r) → r = []) (fuel : Nat) :
    (∀ {depth p v r}, scanOnce D fuel depth (p ++ 0x7b :: 0x22 :: x :: L) = .ok (v, r) → p ≠ [] →
      (∃ p', r = p' ++ 0x7b :: 0x22 :: x :: L) ∨ r = x :: L) ∧
    (∀ {depth acc p v r},
      scanMembers D fuel depth acc (p ++ 0x7b :: 0x22 :: x :: L) = .ok (v, r) →
        ∃ p', r = p' ++ 0x7b :: 0x22 :: x :: L) ∧
    (∀ {depth acc p v r},
      scanItems D fuel depth acc (p ++ 0x7b :: 0x22 :: x :: L) = .ok (v, r) →
        ∃ p', r = p' ++ 0x7b :: 0x22 :: x :: L) := by
  induction fuel with
  | zero =>
    refine ⟨?_, ?_, ?_⟩
    · intro _ _ _ _ h; cases h
    · intro _ _ _ _ _ h; cases h
    · intro _ _ _ _ _ h; cases h
  | succ fuel ih =>
    obtain ⟨ih₁, ih₂, ih₃⟩ := ih
    -- a value and the separator behind it
    have item : ∀ {depth p w r₃ r' c}, c = 0x3a ∨ c = 0x2c ∨ c = 0x7d ∨ c = 0x5d →
        scanOnce D fuel depth (p ++ 0x7b :: 0x22 :: x :: L) = .ok (w, r₃) →
        skipWs r₃ = c :: r' → ∃ q, r' = q ++ 0x7b :: 0x22 :: x :: L := by
      intro depth p w r₃ r' c hc hw hr
      by_cases hp : p = []
      · subst hp
        rw [hL _ _ _ _ hw] at hr
        cases hr
      · rcases ih₁ hw hp with ⟨q, rfl⟩ | rfl
        · exact next_left hx hx' hc (.inl rfl) hr
        · exact next_left (u := []) hx hx' hc (.inr rfl) hr
    refine ⟨?_, ?_, ?_⟩
    · intro depth p v r h hp
      cases p with
      | nil => exact absurd rfl hp
      | cons c p =>
        rw [List.cons_append, scanOnce_ok] at h
        have hskip : skipWs (p ++ 0x7b :: 0x22 :: x :: L) =
          skipWs p ++ 0x7b :: 0x22 :: x :: L := skipWs_append (by decide)
        rcases h with ⟨-, w, hs, -⟩ | ⟨-, d, -, ⟨hs, -⟩ | ⟨-, hs⟩⟩ | ⟨-, d, -, ⟨hs, -⟩ | ⟨-, hs⟩⟩ |
          ⟨-, -, -, hs⟩
        · exact scanString_left hs
        · exact .inl (next_left hx hx' (.inr (.inr (.inl rfl))) (.inl rfl) hs)
        · exact .inl (ih₂ (hskip ▸ hs))
        · exact .inl (next_left hx hx' (.inr (.inr (.inr rfl))) (.inl rfl) hs)
        · exact .inl (ih₃ (hskip ▸ hs))
        · exact .inl (scalar_left (p := c :: p) hs)
    · intro depth acc p v r h
      rw [scanMembers_ok] at h
      obtain ⟨t, k, r₁, r₂, w, r₃, hs, hk, hr, hw, h⟩ := h
      cases p with
      | nil => cases hs
      | cons c p =>
        cases hs
        have hr₁ : ∃ q, r₂ = q ++ 0x7b :: 0x22 :: x :: L := by
          rcases scanString_left hk with ⟨q, rfl⟩ | rfl
          · exact next_left hx hx' (.inl rfl) (.inl rfl) hr
          · exact next_left (u := []) hx hx' (.inl rfl) (.inr rfl) hr
        obtain ⟨q, rfl⟩ := hr₁
        rw [skipWs_append (by decide)] at hw
        rcases h with ⟨hc, -⟩ | ⟨r₄, hc, h⟩
        · exact item (.inr (.inr (.inl rfl))) hw hc
        · obtain ⟨q', rfl⟩ := item (.inr (.inl rfl)) hw hc
          rw [skipWs_append (by decide)] at h
          exact ih₂ h
    · intro depth acc p v r h
      rw [scanItems_ok] at h
      obtain ⟨w, r₃, hw, ⟨hc, -⟩ | ⟨r₄, hc, h⟩⟩ := h
      · exact item (.inr (.inr (.inr rfl))) hw hc
      · obtain ⟨q', rfl⟩ := item (.inr (.inl rfl)) hw hc
        rw [skipWs_append (by decide)] at h
        exact ih₃ h

/-- Nothing but white space stands before a value that is scanned to the end. -/
theorem skipWs_of_loads_append {fuel depth depth' : Nat} {p : PyStr} {v w : Value F}
    (hL : scanOnce D fuel depth (0x7b :: 0x22 :: x :: L) = .ok (w, []))
    (h : loads D depth' (p ++ 0x7b :: 0x22 :: x :: L) = .ok v) : skipWs p = [] := by
  have hL' : ∀ fuel' depth' v r,
      scanOnce D fuel' depth' (0x7b :: 0x22 :: x :: L) = .ok (v, r) → r = [] := by
    intro fuel' depth' v r h
    have h₁ := (scan_mono D fuel).1 (Nat.le_max_left fuel fuel') (Nat.le_max_left depth depth') hL
    have h₂ := (scan_mono D fuel').1 (Nat.le_max_right fuel fuel')
      (Nat.le_max_right depth depth') h
    rw [h₁] at h₂
    cases h₂
    rfl
  unfold loads at h
  split at h
  · cases h
  split at h
  · cases h
  rename_i v r hs
  split at h
  · rename_i hr
    rw [skipWs_append (by decide)] at hs
    by_contra hp
    rcases (scan_left hx hx' hL' _).1 hs hp with ⟨q, rfl⟩ | rfl
    · rw [skipWs_append (by decide)] at hr
      exact absurd hr (by simp)
    · rw [skipWs, List.dropWhile_cons_of_neg (by simpa using hx)] at hr
      cases hr
  · cases h

end Open

end Behind

/-- **Nothing but white space stands before an object.** `x` is the first character
of its first key. -/
theorem isWs_of_loads_members {ft : F → PyStr} {d depth x : Nat} {kvs : List (PyStr × Value F)}
    {p s : PyStr} {v : Value F} (hv : ∀ e ∈ kvs, Fits D ft d e.2)
    (hs : render ft (.obj kvs) = 0x7b :: 0x22 :: x :: s) (hx : isWs x = false)
    (hx' : x ≠ 0x3a ∧ x ≠ 0x2c ∧ x ≠ 0x7d ∧ x ≠ 0x5d)
    (h : loads D depth (p ++ render ft (.obj kvs)) = .ok v) : ∀ c ∈ p, isWs c = true := by
  have hr : scanOnce D (2 * (render ft (.obj kvs)).length + 1) (d + 1)
      (render ft (.obj kvs) ++ []) = .ok (.obj (assignAll [] kvs), []) :=
    scanOnce_members hv (fun e he => (hv e he).readBack)
      (by simp only [List.append_nil]; omega) (Nat.le_refl d)
  rw [List.append_nil, hs] at hr
  rw [hs] at h
  exact List.dropWhile_eq_nil_iff.mp (skipWs_of_loads_append hx hx' hr h)

end NmLogging.Json
