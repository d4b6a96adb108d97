import Mathlib.Data.List.DropRight
import Mathlib.Data.List.Induction
import NmLogging.Framework.Utf8

/-!
# Newline framing

A file of lines: complete lines, each ended by its only newline, and a torn
tail without one. Every file splits this way in one way (`splitLines` computes
it), and a prefix of a file of complete lines is the lines that fit in it and a
piece of the next (`take_lines`).
-/

namespace NmLogging

/-- A complete line: its newline is its last byte, and its only one. -/
def IsLine (l : Bytes) : Prop := ∃ body, newline ∉ body ∧ l = body ++ [newline]

/-- Empty, or ended by a newline. -/
def Framed (f : Bytes) : Prop := f = [] ∨ f.getLast? = some newline

instance (f : Bytes) : Decidable (Framed f) := inferInstanceAs (Decidable (_ ∨ _))

/-- The lines of a file as binary iteration yields them, each with its newline;
the last may lack it. -/
def splitLines : Bytes → List Bytes
  | [] => []
  | b :: bs =>
    if b = newline then [b] :: splitLines bs
    else
      match splitLines bs with
      | [] => [[b]]
      | l :: ls => (b :: l) :: ls

@[simp] theorem splitLines_nil : splitLines [] = [] := rfl

theorem IsLine.ne_nil {l : Bytes} (h : IsLine l) : l ≠ [] := by
  obtain ⟨body, -, rfl⟩ := h
  simp

theorem IsLine.getLast? {l : Bytes} (h : IsLine l) : l.getLast? = some newline := by
  obtain ⟨body, -, rfl⟩ := h
  simp

theorem splitLines_torn {t : Bytes} (h : newline ∉ t) (hne : t ≠ []) : splitLines t = [t] := by
  induction t with
  | nil => exact absurd rfl hne
  | cons b t ih =>
    simp only [List.mem_cons, not_or] at h
    rw [splitLines, if_neg (Ne.symm h.1)]
    cases t with
    | nil => rfl
    | cons c t => rw [ih h.2 (by simp)]

theorem splitLines_line_append {l : Bytes} (h : IsLine l) (f : Bytes) :
    splitLines (l ++ f) = l :: splitLines f := by
  obtain ⟨body, hb, rfl⟩ := h
  induction body with
  | nil => simp [splitLines]
  | cons b body ih =>
    simp only [List.mem_cons, not_or] at hb
    simp only [List.cons_append, splitLines, if_neg (Ne.symm hb.1)]
    rw [ih hb.2]

theorem splitLines_append {ls : List Bytes} (h : ∀ l ∈ ls, IsLine l) (f : Bytes) :
    splitLines (ls.flatten ++ f) = ls ++ splitLines f := by
  induction ls with
  | nil => rfl
  | cons l ls ih =>
    rw [List.flatten_cons, List.append_assoc, splitLines_line_append (h l List.mem_cons_self),
      ih fun x hx => h x (List.mem_cons_of_mem _ hx), List.cons_append]

/-- Every file is complete lines and a torn tail. -/
theorem exists_lines (f : Bytes) :
    ∃ (ls : List Bytes) (t : Bytes), (∀ l ∈ ls, IsLine l) ∧ newline ∉ t ∧ f = ls.flatten ++ t := by
  induction f with
  | nil => exact ⟨[], [], by simp, by simp, rfl⟩
  | cons b f ih =>
    obtain ⟨ls, t, hls, ht, rfl⟩ := ih
    by_cases hb : b = newline
    · refine ⟨[b] :: ls, t, ?_, ht, rfl⟩
      rintro l (_ | ⟨_, hl⟩)
      · exact ⟨[], by simp, by simp [hb]⟩
      · exact hls l hl
    · cases ls with
      | nil =>
        refine ⟨[], b :: t, by simp, ?_, rfl⟩
        simp only [List.mem_cons, not_or]
        exact ⟨Ne.symm hb, ht⟩
      | cons l ls =>
        refine ⟨(b :: l) :: ls, t, ?_, ht, rfl⟩
        rintro m (_ | ⟨_, hm⟩)
        · obtain ⟨body, hbody, rfl⟩ := hls l List.mem_cons_self
          exact ⟨b :: body, by simp [hbody, Ne.symm hb], rfl⟩
        · exact hls m (List.mem_cons_of_mem _ hm)

theorem framed_flatten {ls : List Bytes} (h : ∀ l ∈ ls, IsLine l) : Framed ls.flatten := by
  induction ls using List.reverseRecOn with
  | nil => exact .inl rfl
  | append_singleton ls l _ =>
    obtain ⟨body, -, rfl⟩ := h l (by simp)
    exact .inr (by simp)

/-- The torn tail of a framed file is empty. -/
theorem Framed.torn_eq_nil {ls : List Bytes} {t : Bytes} (h : Framed (ls.flatten ++ t))
    (ht : newline ∉ t) : t = [] := by
  cases t using List.reverseRecOn with
  | nil => rfl
  | append_singleton t b =>
    rcases h with h | h
    · simp at h
    · simp only [← List.append_assoc, List.getLast?_concat, Option.some.injEq] at h
      exact absurd (h ▸ List.mem_append_right _ List.mem_cons_self) ht

/-- A strict prefix of a line has no newline. -/
theorem IsLine.newline_notMem_piece {l t : Bytes} (h : IsLine l) (ht : t <+: l)
    (hne : t ≠ l) : newline ∉ t := by
  obtain ⟨body, hb, rfl⟩ := h
  rcases List.prefix_concat_iff.mp ht with e | e
  · exact absurd e hne
  · exact fun hm => hb (e.subset hm)

/-- How many of the lines fit within the first `k` bytes. -/
def linesWithin (ls : List Bytes) (k : Nat) : Nat :=
  match ls with
  | [] => 0
  | l :: ls => if l.length ≤ k then linesWithin ls (k - l.length) + 1 else 0

/-- The lines within the first `k` bytes are those that end there. -/
theorem lt_linesWithin {ls : List Bytes} {k j : Nat} :
    j < linesWithin ls k ↔ j < ls.length ∧ (ls.take (j + 1)).flatten.length ≤ k := by
  induction ls generalizing k j with
  | nil => simp [linesWithin]
  | cons l ls ih =>
    rw [linesWithin, List.take_succ_cons, List.flatten_cons, List.length_append, List.length_cons]
    split
    · cases j with
      | zero => simp; omega
      | succ j =>
        rw [Nat.add_lt_add_iff_right, Nat.add_lt_add_iff_right, ih]
        omega
    · omega

/-- The first `k` bytes of complete lines and a torn tail are the lines within
them and a piece without a newline. -/
theorem take_lines {ls : List Bytes} (h : ∀ l ∈ ls, IsLine l) {t : Bytes} (ht : newline ∉ t)
    (k : Nat) :
    ∃ t', newline ∉ t' ∧ (ls.flatten ++ t).take k = (ls.take (linesWithin ls k)).flatten ++ t' := by
  induction ls generalizing k with
  | nil => exact ⟨t.take k, fun hm => ht (List.mem_of_mem_take hm), by simp⟩
  | cons l ls ih =>
    rw [List.flatten_cons, List.append_assoc, List.take_append, linesWithin]
    split
    · rename_i hk
      obtain ⟨t', ht', e⟩ := ih (fun x hx => h x (List.mem_cons_of_mem _ hx)) (k - l.length)
      refine ⟨t', ht', ?_⟩
      rw [List.take_of_length_le hk, e, List.take_succ_cons, List.flatten_cons, List.append_assoc]
    · rename_i hk
      refine ⟨l.take k, (h l List.mem_cons_self).newline_notMem_piece (List.take_prefix _ _) ?_,
        ?_⟩
      · intro e
        have := congrArg List.length e
        rw [List.length_take] at this
        omega
      · rw [show k - l.length = 0 by omega]
        simp

/-- Whether a file of complete lines and a torn tail is torn shows in its last byte. -/
theorem torn_ne_nil_iff {ls : List Bytes} (h : ∀ l ∈ ls, IsLine l) {t : Bytes} (ht : newline ∉ t) :
    t ≠ [] ↔ ls.flatten ++ t ≠ [] ∧ (ls.flatten ++ t).getLast? ≠ some newline := by
  constructor
  · intro hne
    refine ⟨by simp [hne], ?_⟩
    rw [List.getLast?_append_of_ne_nil _ hne]
    exact fun e => ht (List.mem_of_getLast? e)
  · rintro ⟨hne, hlast⟩ rfl
    rw [List.append_nil] at hne hlast
    rcases framed_flatten h with e | e
    · exact hne e
    · exact hlast e

/-- What follows the last newline. -/
def tornTail (f : Bytes) : Bytes := f.rtakeWhile (· ≠ newline)

theorem tornTail_eq {ls : List Bytes} (h : ∀ l ∈ ls, IsLine l) {t : Bytes} (ht : newline ∉ t) :
    tornTail (ls.flatten ++ t) = t := by
  induction t using List.reverseRecOn with
  | nil =>
    rw [List.append_nil]
    rcases framed_flatten h with e | e
    · rw [e]; rfl
    · obtain ⟨f, hf⟩ := List.getLast?_eq_some_iff.mp e
      rw [tornTail, hf, List.rtakeWhile_concat_neg _ _ _ (by simp)]
  | append_singleton t b ih =>
    simp only [List.mem_append, List.mem_singleton, not_or] at ht
    rw [tornTail, ← List.append_assoc, List.rtakeWhile_concat_pos _ _ _ (by simpa using Ne.symm ht.2)]
    rw [tornTail] at ih
    rw [ih ht.1]

end NmLogging
