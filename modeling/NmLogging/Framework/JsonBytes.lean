import NmLogging.Framework.Json
import NmLogging.Framework.Plain
import NmLogging.Framework.Utf8

/-!
# The size of JSON text

How many bytes a JSON text takes in UTF-8 (`Encodes`), from the characters of its strings. A
string takes at most six bytes for each character (`encodes_quote`), and one that has no
encoding leaves the object that it is in without one (`not_valid_mem_obj`).
-/

namespace NmLogging

/-! ## Encodings -/

/-- A text that has an encoding, of at most `n` bytes. -/
def Encodes (n : Nat) (s : PyStr) : Prop := ∃ b, encodeUtf8 s = some b ∧ b.length ≤ n

variable {m n : Nat} {s t : PyStr}

theorem Encodes.nil : Encodes 0 [] := ⟨[], rfl, Nat.le_refl _⟩

theorem Encodes.mono (h : Encodes m s) (hmn : m ≤ n) : Encodes n s := by
  obtain ⟨b, hb, hlen⟩ := h
  exact ⟨b, hb, hlen.trans hmn⟩

theorem Encodes.append (hs : Encodes m s) (ht : Encodes n t) : Encodes (m + n) (s ++ t) := by
  obtain ⟨b, hb, hblen⟩ := hs
  obtain ⟨d, hd, hdlen⟩ := ht
  refine ⟨b ++ d, encodeUtf8_append_some.mpr ⟨b, d, hb, hd, rfl⟩, ?_⟩
  rw [List.length_append]
  exact Nat.add_le_add hblen hdlen

theorem Encodes.ascii (h : ∀ c ∈ s, c < 0x80) : Encodes s.length s :=
  ⟨_, encodeUtf8_ascii h, (List.length_map _).le⟩

/-- One character takes at most four bytes. -/
theorem Encodes.char {c : Nat} (h : c.isValidChar) : Encodes 4 [c] := by
  refine ⟨String.utf8EncodeChar (Char.ofNatAux c h), ?_, ?_⟩
  · rw [encodeUtf8_cons, dif_pos h, encodeUtf8_nil, Option.map_some, List.append_nil]
  · rw [String.length_utf8EncodeChar]
    exact Char.utf8Size_le_four _

/-- A text has an encoding where its characters have one. -/
theorem encodeUtf8_isSome : (encodeUtf8 s).isSome = true ↔ ∀ c ∈ s, c.isValidChar := by
  induction s with
  | nil => exact iff_of_true rfl (List.forall_mem_nil _)
  | cons c s ih =>
    rw [List.forall_mem_cons, ← ih, encodeUtf8_cons]
    by_cases h : c.isValidChar
    · rw [dif_pos h, Option.isSome_map]
      exact (and_iff_right h).symm
    · rw [dif_neg h]
      exact iff_of_false Bool.false_ne_true fun hc => h hc.1

theorem isValidChar_of_lt {c : Nat} (h : c < 0x80) : c.isValidChar := .inl (by omega)

namespace Json

/-! ## Strings -/

theorem escapeChar_of_not_valid {c : Nat} (h : ¬c.isValidChar) : escapeChar c = [c] := by
  have hc : 0x80 ≤ c := Nat.le_of_not_lt fun hlt => h (isValidChar_of_lt hlt)
  unfold escapeChar
  repeat rw [if_neg (by omega)]

theorem encodes_escapeChar {c : Nat} (h : c.isValidChar) : Encodes 6 (escapeChar c) := by
  have hhex : ∀ n < 16, hexDigit n < 0x80 := by decide
  unfold escapeChar
  repeat' split
  case isFalse.isFalse.isFalse.isFalse.isFalse.isFalse.isFalse.isTrue hc =>
    refine (Encodes.ascii fun d hd => ?_).mono (Nat.le_refl 6)
    simp only [List.mem_append, List.mem_cons, List.not_mem_nil, or_false] at hd
    rcases hd with hd | rfl | rfl
    · revert hd
      revert d
      decide
    · exact hhex _ (by omega)
    · exact hhex _ (by omega)
  case isFalse.isFalse.isFalse.isFalse.isFalse.isFalse.isFalse.isFalse =>
    exact (Encodes.char h).mono (by decide)
  all_goals exact (Encodes.ascii (by decide)).mono (by decide)

/-- The JSON text of a string that has an encoding. -/
theorem encodes_quote (h : ∀ c ∈ s, c.isValidChar) : Encodes (6 * s.length + 2) (quote s) := by
  have hflat : Encodes (6 * s.length) (s.flatMap escapeChar) := by
    induction s with
    | nil => exact .nil
    | cons c s ih =>
      obtain ⟨hc, hs⟩ := List.forall_mem_cons.mp h
      rw [List.flatMap_cons]
      refine ((encodes_escapeChar hc).append (ih hs)).mono ?_
      rw [List.length_cons]
      omega
  have hopen : Encodes 1 [0x22] := Encodes.ascii (by decide)
  have hquote : quote s = [0x22] ++ (s.flatMap escapeChar ++ [0x22]) := rfl
  rw [hquote]
  exact (hopen.append (hflat.append hopen)).mono (by omega)

theorem encodes_quote_plain (h : PlainText n s) : Encodes (n + 2) (quote s) := by
  rw [quote_of_plain h.plain]
  refine (Encodes.ascii fun c hc => ?_).mono ?_
  · simp only [List.mem_cons, List.mem_append, List.not_mem_nil, or_false] at hc
    rcases hc with rfl | hc | rfl
    · decide
    · exact (h.plain c hc).2.1
    · decide
  · have := h.length
    simp only [List.length_cons, List.length_append, List.length_nil]
    omega

/-- And of one that has none. -/
theorem not_valid_mem_quote {c : Nat} (hc : c ∈ s) (h : ¬c.isValidChar) : c ∈ quote s := by
  refine List.mem_cons_of_mem _ (List.mem_append_left _ (List.mem_flatMap.mpr ⟨c, hc, ?_⟩))
  rw [escapeChar_of_not_valid h]
  exact List.mem_singleton_self c

/-! ## Members -/

variable {F : Type} {floatText : F → PyStr} {kvs : List (PyStr × Value F)}

/-- The text of a member, with a comma. -/
def memberText (floatText : F → PyStr) (e : PyStr × Value F) : PyStr :=
  quote e.1 ++ 0x3a :: (render floatText e.2 ++ [0x2c])

/-- The last member has no comma. -/
theorem renderMembers_comma (h : kvs ≠ []) :
    renderMembers floatText kvs ++ [0x2c] = kvs.flatMap (memberText floatText) := by
  induction kvs with
  | nil => exact absurd rfl h
  | cons e kvs ih =>
    cases kvs with
    | nil => simp [renderMembers, memberText]
    | cons e' kvs =>
      rw [List.flatMap_cons, ← ih (List.cons_ne_nil _ _)]
      simp [renderMembers, memberText]

theorem encodes_memberText {e : PyStr × Value F} (hk : Encodes m (quote e.1))
    (hv : Encodes n (render floatText e.2)) : Encodes (m + n + 2) (memberText floatText e) := by
  have hcomma : Encodes 1 [0x2c] := Encodes.ascii (by decide)
  have hcolon : Encodes 1 [0x3a] := Encodes.ascii (by decide)
  have htext : memberText floatText e =
      quote e.1 ++ ([0x3a] ++ (render floatText e.2 ++ [0x2c])) := rfl
  rw [htext]
  exact (hk.append (hcolon.append (hv.append hcomma))).mono (by omega)

/-- The text of an object is as long as that of its members, and two brackets. -/
theorem encodes_obj (h : Encodes n (kvs.flatMap (memberText floatText))) :
    Encodes (n + 2) (render floatText (.obj kvs)) := by
  have hopen : Encodes 1 [0x7b] := Encodes.ascii (by decide)
  have hclose : Encodes 1 [0x7d] := Encodes.ascii (by decide)
  have hmembers : Encodes n (renderMembers floatText kvs) := by
    cases kvs with
    | nil => exact h
    | cons e kvs =>
      rw [← renderMembers_comma (List.cons_ne_nil _ _)] at h
      obtain ⟨b, hb, hlen⟩ := h
      obtain ⟨b₁, b₂, hb₁, -, rfl⟩ := encodeUtf8_append_some.mp hb
      refine ⟨b₁, hb₁, le_trans ?_ hlen⟩
      rw [List.length_append]
      exact Nat.le_add_right _ _
  have htext : render floatText (.obj kvs) = [0x7b] ++ (renderMembers floatText kvs ++ [0x7d]) := by
    rw [render]
    rfl
  rw [htext]
  exact (hopen.append (hmembers.append hclose)).mono (by omega)

/-- A string of an object that has no encoding leaves it without one. -/
theorem not_valid_mem_obj {k : PyStr} (hmem : (k, .str s) ∈ kvs) {c : Nat} (hc : c ∈ s)
    (h : ¬c.isValidChar) : c ∈ render floatText (.obj kvs) := by
  have hflat : c ∈ kvs.flatMap (memberText floatText) := by
    refine List.mem_flatMap.mpr ⟨_, hmem, ?_⟩
    refine List.mem_append_right _ (List.mem_cons_of_mem _ (List.mem_append_left _ ?_))
    rw [render]
    exact not_valid_mem_quote hc h
  rw [← renderMembers_comma (List.ne_nil_of_mem hmem)] at hflat
  rw [render]
  rcases List.mem_append.mp hflat with hmembers | hcomma
  · exact List.mem_cons_of_mem _ (List.mem_append_left _ hmembers)
  · rw [List.mem_singleton.mp hcomma] at h
    exact absurd (isValidChar_of_lt (by decide)) h

end Json

end NmLogging
