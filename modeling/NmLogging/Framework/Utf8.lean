import NmLogging.Framework.Text

/-!
# UTF-8

`str.encode("utf-8")` and `bytes.decode("utf-8")`, both strict: a lone
surrogate cannot be encoded, and only shortest forms of scalar values decode.
Encoding and decoding of scalar values are those of Lean's own `String`.
-/

namespace NmLogging

/-- A Python `bytes` value. -/
abbrev Bytes := List UInt8

/-- `str.encode("utf-8")`, or none where it raises `UnicodeEncodeError`. -/
def encodeUtf8 : PyStr → Option Bytes
  | [] => some []
  | c :: s =>
    if h : c.isValidChar then (encodeUtf8 s).map (String.utf8EncodeChar (Char.ofNatAux c h) ++ ·)
    else none

/-- `bytes.decode("utf-8")`, or none where it raises `UnicodeDecodeError`. -/
def decodeUtf8 (b : Bytes) : Option PyStr :=
  b.toByteArray.utf8Decode?.map fun cs => cs.toList.map Char.toNat

/-- The newline byte. -/
def newline : UInt8 := 10

theorem encodeUtf8_nil : encodeUtf8 [] = some [] := rfl

theorem encodeUtf8_cons (c : Nat) (s : PyStr) : encodeUtf8 (c :: s) =
    if h : c.isValidChar then (encodeUtf8 s).map (String.utf8EncodeChar (Char.ofNatAux c h) ++ ·)
    else none := rfl

theorem toNat_ofNatAux (c : Nat) (h : c.isValidChar) : (Char.ofNatAux c h).toNat = c := rfl

theorem encodeUtf8_eq_some {s : PyStr} {b : Bytes} :
    encodeUtf8 s = some b ↔
      ∃ cs : List Char, s = cs.map Char.toNat ∧ b = cs.flatMap String.utf8EncodeChar := by
  induction s generalizing b with
  | nil =>
    rw [encodeUtf8_nil, Option.some.injEq]
    constructor
    · rintro rfl; exact ⟨[], rfl, rfl⟩
    · rintro ⟨cs, h, rfl⟩
      rw [List.map_eq_nil_iff.mp h.symm]; rfl
  | cons c s ih =>
    rw [encodeUtf8_cons]
    constructor
    · intro h
      by_cases hc : c.isValidChar
      · rw [dif_pos hc] at h
        obtain ⟨b', hb', rfl⟩ := Option.map_eq_some_iff.mp h
        obtain ⟨cs, rfl, rfl⟩ := ih.mp hb'
        exact ⟨Char.ofNatAux c hc :: cs, rfl, rfl⟩
      · rw [dif_neg hc] at h
        cases h
    · rintro ⟨cs, h, rfl⟩
      cases cs with
      | nil => cases h
      | cons d cs =>
        simp only [List.map_cons, List.cons.injEq] at h
        obtain ⟨rfl, hs⟩ := h
        have hv : d.toNat.isValidChar := d.valid
        rw [dif_pos hv, ih.mpr ⟨cs, hs, rfl⟩]
        rfl

theorem decodeUtf8_encodeUtf8 {s : PyStr} {b : Bytes} (h : encodeUtf8 s = some b) :
    decodeUtf8 b = some s := by
  obtain ⟨cs, rfl, rfl⟩ := encodeUtf8_eq_some.mp h
  have : (cs.flatMap String.utf8EncodeChar).toByteArray = cs.utf8Encode := rfl
  rw [decodeUtf8, this, List.utf8Decode?_utf8Encode]
  simp

theorem encodeUtf8_decodeUtf8 {s : PyStr} {b : Bytes} (h : decodeUtf8 b = some s) :
    encodeUtf8 s = some b := by
  simp only [decodeUtf8, Option.map_eq_some_iff] at h
  obtain ⟨cs, hcs, rfl⟩ := h
  refine encodeUtf8_eq_some.mpr ⟨cs.toList, rfl, ?_⟩
  have hd := ByteArray.utf8Encode_get_utf8Decode? (b := b.toByteArray) (h := by rw [hcs]; rfl)
  simp only [hcs, Option.get_some] at hd
  exact (List.toByteArray_inj.mp hd).symm

theorem encodeUtf8_append {s t : PyStr} :
    encodeUtf8 (s ++ t) = (encodeUtf8 s).bind fun b => (encodeUtf8 t).map (b ++ ·) := by
  induction s with
  | nil => simp [encodeUtf8_nil]
  | cons c s ih =>
    rw [List.cons_append, encodeUtf8_cons, encodeUtf8_cons, ih]
    by_cases hc : c.isValidChar
    · rw [dif_pos hc, dif_pos hc]
      generalize String.utf8EncodeChar (Char.ofNatAux c hc) = e
      cases encodeUtf8 s <;> cases encodeUtf8 t <;> simp
    · rw [dif_neg hc, dif_neg hc]
      rfl

theorem encodeUtf8_append_some {s t : PyStr} {b : Bytes} :
    encodeUtf8 (s ++ t) = some b ↔
      ∃ b₁ b₂, encodeUtf8 s = some b₁ ∧ encodeUtf8 t = some b₂ ∧ b = b₁ ++ b₂ := by
  rw [encodeUtf8_append]
  cases encodeUtf8 s <;> cases encodeUtf8 t <;> simp [eq_comm]

/-- No character is encoded as less than a byte. -/
theorem length_le_encodeUtf8 {s : PyStr} {b : Bytes} (h : encodeUtf8 s = some b) :
    s.length ≤ b.length := by
  obtain ⟨cs, rfl, rfl⟩ := encodeUtf8_eq_some.mp h
  induction cs with
  | nil => exact Nat.le_refl _
  | cons c cs ih =>
    have hc := c.utf8Size_pos
    have ih := ih (encodeUtf8_eq_some.mpr ⟨cs, rfl, rfl⟩)
    simp only [List.map_cons, List.length_cons, List.flatMap_cons, List.length_append,
      String.length_utf8EncodeChar] at ih ⊢
    omega

/-- A byte of the encoding of a character that is not ASCII is not ASCII. -/
theorem le_of_mem_utf8EncodeChar {c : Char} {b : UInt8} (h : b ∈ String.utf8EncodeChar c) :
    b.toNat = c.toNat ∨ 0x80 ≤ b.toNat := by
  unfold String.utf8EncodeChar at h
  have hc : c.val.toNat = c.toNat := rfl
  simp only [hc] at h
  generalize c.toNat = v at h ⊢
  split at h
  · simp only [List.mem_singleton] at h
    subst h; left
    simp only [UInt8.toNat_ofNat']
    omega
  · right
    have hb : ∃ m, b = UInt8.ofNat m ∧ 0x80 ≤ m ∧ m < 0x100 := by
      split at h
      · simp only [List.mem_cons, List.not_mem_nil, or_false] at h
        rcases h with rfl | rfl <;> exact ⟨_, rfl, by omega, by omega⟩
      · split at h
        · simp only [List.mem_cons, List.not_mem_nil, or_false] at h
          rcases h with rfl | rfl | rfl <;> exact ⟨_, rfl, by omega, by omega⟩
        · simp only [List.mem_cons, List.not_mem_nil, or_false] at h
          rcases h with rfl | rfl | rfl | rfl <;> exact ⟨_, rfl, by omega, by omega⟩
    obtain ⟨m, rfl, h₁, h₂⟩ := hb
    simp only [UInt8.toNat_ofNat']
    omega

theorem utf8EncodeChar_ascii {c : Char} (h : c.toNat < 0x80) :
    String.utf8EncodeChar c = [UInt8.ofNat c.toNat] := by
  unfold String.utf8EncodeChar
  have hc : c.val.toNat = c.toNat := rfl
  simp only [hc]
  rw [if_pos (by omega)]

/-- The encoding has a newline byte only where the string has a newline. -/
theorem newline_notMem_encodeUtf8 {s : PyStr} {b : Bytes} (h : encodeUtf8 s = some b)
    (hs : 10 ∉ s) : newline ∉ b := by
  obtain ⟨cs, rfl, rfl⟩ := encodeUtf8_eq_some.mp h
  intro hb
  obtain ⟨c, hc, hb⟩ := List.mem_flatMap.mp hb
  have hne : c.toNat ≠ 10 := fun e => hs (e ▸ List.mem_map_of_mem hc)
  rcases le_of_mem_utf8EncodeChar hb with h | h
  · exact hne h.symm
  · exact absurd h (by decide)

/-- ASCII text encodes to the same bytes. -/
theorem encodeUtf8_ascii {s : PyStr} (h : ∀ c ∈ s, c < 0x80) :
    encodeUtf8 s = some (s.map UInt8.ofNat) := by
  induction s with
  | nil => rfl
  | cons c s ih =>
    have hc := h c List.mem_cons_self
    have hv : c.isValidChar := .inl (by omega)
    rw [encodeUtf8_cons, dif_pos hv, ih fun d hd => h d (List.mem_cons_of_mem _ hd),
      utf8EncodeChar_ascii (by exact hc), toNat_ofNatAux]
    rfl

theorem head_encodeUtf8 {s : PyStr} {c : Nat} {data : Bytes} (hc : c < 0x80)
    (h : encodeUtf8 (c :: s) = some data) : ∃ d, data = UInt8.ofNat c :: d := by
  obtain ⟨b₁, b₂, h₁, -, rfl⟩ := encodeUtf8_append_some (s := [c]).mp h
  have : encodeUtf8 [c] = some [UInt8.ofNat c] := encodeUtf8_ascii (by simpa using hc)
  rw [this] at h₁
  cases h₁
  exact ⟨b₂, rfl⟩

/-- The encoding of a character that starts a text does not end in the middle of
another: what stands before it is the encoding of the characters before it. -/
theorem exists_of_encodeUtf8_append {text s : PyStr} {c : Nat} {t data : Bytes} (hc : c < 0x80)
    (hs : encodeUtf8 (c :: s) = some data) (h : encodeUtf8 text = some (t ++ data)) :
    ∃ p, text = p ++ c :: s ∧ encodeUtf8 p = some t := by
  have hdata := head_encodeUtf8 hc hs
  induction text generalizing t with
  | nil =>
    obtain ⟨d, rfl⟩ := hdata
    simp [encodeUtf8_nil] at h
  | cons x text ih =>
    by_cases ht : t = []
    · subst ht
      rw [List.nil_append] at h
      have := (decodeUtf8_encodeUtf8 h).symm.trans (decodeUtf8_encodeUtf8 hs)
      exact ⟨[], by simpa using this, rfl⟩
    · obtain ⟨b₁, b₂, h₁, h₂, e⟩ := encodeUtf8_append_some (s := [x]).mp h
      rcases List.append_eq_append_iff.mp e with ⟨a, rfl, rfl⟩ | ⟨a, rfl, ha⟩
      · -- the byte of `c` would stand within the encoding of `x`
        cases a with
        | nil =>
          obtain ⟨p, rfl, hp⟩ := ih (t := []) (by simpa using h₂)
          exact ⟨x :: p, rfl, by
            rw [show x :: p = [x] ++ p from rfl, encodeUtf8_append, h₁, hp]; simp⟩
        | cons y a =>
          exfalso
          obtain ⟨d, hd⟩ := hdata
          rw [List.cons_append] at hd
          cases hd
          obtain ⟨cs, hcs, hb⟩ := encodeUtf8_eq_some.mp h₁
          match cs, hcs with
          | [z], hz =>
            simp only [List.flatMap_cons, List.flatMap_nil, List.append_nil] at hb
            rcases le_of_mem_utf8EncodeChar (c := z) (b := UInt8.ofNat c)
              (hb ▸ List.mem_append_right _ List.mem_cons_self) with hz' | hz'
            · rw [UInt8.toNat_ofNat', Nat.mod_eq_of_lt (by omega)] at hz'
              rw [utf8EncodeChar_ascii (by omega)] at hb
              have := congrArg List.length hb
              have := List.length_pos_iff.mpr ht
              simp at *
              omega
            · rw [UInt8.toNat_ofNat', Nat.mod_eq_of_lt (by omega)] at hz'
              omega
      · obtain ⟨p, rfl, hp⟩ := ih (by rw [h₂, ha])
        exact ⟨x :: p, rfl, by
          rw [show x :: p = [x] ++ p from rfl, encodeUtf8_append, h₁, hp]; simp⟩

end NmLogging
