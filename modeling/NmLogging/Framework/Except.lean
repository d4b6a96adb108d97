import Mathlib.Data.List.Forall2

/-!
# Computations that raise

What a block of `Except` computations returned or raised, read off its parts.
`Decides` says when a computation returns and what it raises otherwise.
-/

namespace NmLogging

theorem bind_eq_ok {ε α β : Type} {x : Except ε α} {f : α → Except ε β} {b : β} :
    x >>= f = .ok b ↔ ∃ a, x = .ok a ∧ f a = .ok b := by
  cases x <;> simp [bind, Except.bind]

/-- A check before the rest of a block. -/
theorem check_eq_ok {ε α : Type} {x : Except ε Unit} {y : Except ε α} {a : α} :
    (x >>= fun _ => y) = .ok a ↔ x = .ok () ∧ y = .ok a := by
  cases x <;> simp [bind, Except.bind]

theorem bind_eq_error {ε α β : Type} {x : Except ε α} {f : α → Except ε β} {e : ε} :
    x >>= f = .error e ↔ x = .error e ∨ ∃ a, x = .ok a ∧ f a = .error e := by
  cases x <;> simp [bind, Except.bind]

theorem map_eq_ok {ε α β : Type} {x : Except ε α} {f : α → β} {b : β} :
    x.map f = .ok b ↔ ∃ a, x = .ok a ∧ f a = b := by
  cases x <;> simp [Except.map]

theorem map_eq_error {ε α β : Type} {x : Except ε α} {f : α → β} {e : ε} :
    x.map f = .error e ↔ x = .error e := by
  cases x <;> simp [Except.map]

/-- A computation that returns, told by running it. -/
theorem exists_eq_ok {ε α : Type} {x : Except ε α} (h : x.toOption.isSome = true) :
    ∃ a, x = .ok a := by
  cases x with
  | ok a => exact ⟨a, rfl⟩
  | error e => cases h

/-- One that returns a list of at least two elements, told by running it. -/
theorem exists_eq_cons {ε α : Type} {x : Except ε (List α)}
    (h : x.toOption.any (fun as => 2 ≤ as.length) = true) : ∃ a b as, x = .ok (a :: b :: as) := by
  cases x with
  | error e => cases h
  | ok as =>
    have hlen : 2 ≤ as.length := of_decide_eq_true h
    obtain _ | ⟨a, _ | ⟨b, as⟩⟩ := as
    · exact absurd hlen (Nat.not_succ_le_zero _)
    · exact absurd hlen (Nat.not_succ_le_self _)
    · exact ⟨a, b, as, rfl⟩

theorem forM_eq_ok {ε α : Type} {f : α → Except ε Unit} {as : List α} :
    as.forM f = .ok () ↔ ∀ a ∈ as, f a = .ok () := by
  induction as with
  | nil => simp [pure, Except.pure]
  | cons a as ih =>
    rw [show (a :: as).forM f = (f a >>= fun _ => as.forM f) from rfl, check_eq_ok, ih,
      List.forall_mem_cons]

theorem exists_of_forM_eq_error {ε α : Type} {f : α → Except ε Unit} {as : List α} {e : ε}
    (h : as.forM f = .error e) : ∃ a ∈ as, f a = .error e := by
  induction as with
  | nil => cases h
  | cons a as ih =>
    have hcons : (f a >>= fun _ => as.forM f) = .error e := h
    rcases bind_eq_error.mp hcons with h | ⟨_, -, h⟩
    · exact ⟨a, List.mem_cons_self, h⟩
    · obtain ⟨b, hb, hf⟩ := ih h
      exact ⟨b, List.mem_cons_of_mem _ hb, hf⟩

theorem mapM_eq_ok {ε α β : Type} {f : α → Except ε β} {as : List α} {bs : List β} :
    as.mapM f = .ok bs ↔ List.Forall₂ (fun a b => f a = .ok b) as bs := by
  induction as generalizing bs with
  | nil => simp [pure, Except.pure, eq_comm]
  | cons a as ih =>
    simp only [List.mapM_cons, bind_eq_ok, List.forall₂_cons_left_iff, ih]
    constructor
    · rintro ⟨b, hb, bs', hbs, e⟩
      cases e
      exact ⟨b, bs', hb, hbs, rfl⟩
    · rintro ⟨b, bs', hb, hbs, rfl⟩
      exact ⟨b, hb, bs', hbs, rfl⟩

/-- Each result is that of an element. -/
theorem exists_of_mem_mapM {ε α β : Type} {f : α → Except ε β} {as : List α} {bs : List β}
    (h : as.mapM f = .ok bs) {b : β} (hb : b ∈ bs) : ∃ a ∈ as, f a = .ok b := by
  have hall := mapM_eq_ok.mp h
  clear h
  induction hall with
  | nil => cases hb
  | cons h _ ih =>
    rcases List.mem_cons.mp hb with rfl | hb
    · exact ⟨_, List.mem_cons_self, h⟩
    · obtain ⟨a, ha, hab⟩ := ih hb
      exact ⟨a, List.mem_cons_of_mem _ ha, hab⟩

/-- And each element has one. -/
theorem exists_of_mapM_eq_ok {ε α β : Type} {f : α → Except ε β} {as : List α} {bs : List β}
    (h : as.mapM f = .ok bs) {a : α} (ha : a ∈ as) : ∃ b ∈ bs, f a = .ok b := by
  have hall := mapM_eq_ok.mp h
  clear h
  induction hall with
  | nil => cases ha
  | cons h _ ih =>
    rcases List.mem_cons.mp ha with rfl | ha
    · exact ⟨_, List.mem_cons_self, h⟩
    · obtain ⟨b, hb, hab⟩ := ih ha
      exact ⟨b, List.mem_cons_of_mem _ hb, hab⟩

/-- The exception of a list is that of one of its elements. -/
theorem exists_of_mapM_eq_error {ε α β : Type} {f : α → Except ε β} {as : List α} {e : ε}
    (h : as.mapM f = .error e) : ∃ a ∈ as, f a = .error e := by
  induction as with
  | nil => cases h
  | cons a as ih =>
    simp only [List.mapM_cons, bind_eq_error] at h
    rcases h with h | ⟨b, -, h | ⟨bs, -, h⟩⟩
    · exact ⟨a, List.mem_cons_self, h⟩
    · obtain ⟨a', ha', h⟩ := ih h
      exact ⟨a', List.mem_cons_of_mem _ ha', h⟩
    · cases h

/-! ## When a computation returns -/

/-- `x` returns where `P` holds, and otherwise raises an exception in `E`. -/
def Decides {ε α : Type} (x : Except ε α) (P : Prop) (E : ε → Prop) : Prop :=
  (P ∧ ∃ a, x = .ok a) ∨ (¬P ∧ ∃ e, x = .error e ∧ E e)

namespace Decides

variable {ε α β : Type} {x : Except ε α} {P P' : Prop} {E : ε → Prop}

theorem ok (a : α) : Decides (.ok a) True E := .inl ⟨trivial, a, rfl⟩

theorem error {e : ε} (he : E e) : Decides (.error e : Except ε α) False E :=
  .inr ⟨id, e, rfl, he⟩

theorem congr (h : Decides x P E) (hP : P ↔ P') : Decides x P' E := by
  rwa [Decides, ← hP]

/-- A check. -/
theorem ite {p : Prop} [Decidable p] (a : α) {e : ε} (he : E e) :
    Decides (if p then .ok a else .error e) p E := by
  by_cases hp : p
  · rw [if_pos hp]
    exact (ok a).congr (iff_of_true trivial hp)
  · rw [if_neg hp]
    exact (error he).congr (iff_of_false id hp)

theorem exists_ok_iff (h : Decides x P E) : (∃ a, x = .ok a) ↔ P := by
  rcases h with ⟨hP, a, rfl⟩ | ⟨hP, e, rfl, -⟩
  · exact iff_of_true ⟨a, rfl⟩ hP
  · exact iff_of_false (fun ⟨_, h⟩ => nomatch h) hP

theorem of_error (h : Decides x P E) {e : ε} (he : x = .error e) : ¬P ∧ E e := by
  subst he
  rcases h with ⟨-, a, h⟩ | ⟨hP, e', h, he'⟩
  · cases h
  · cases h
    exact ⟨hP, he'⟩

theorem map (h : Decides x P E) (f : α → β) : Decides (x.map f) P E := by
  rcases h with ⟨hP, a, rfl⟩ | ⟨hP, e, rfl, he⟩
  · exact .inl ⟨hP, f a, rfl⟩
  · exact .inr ⟨hP, e, rfl, he⟩

theorem bind (h : Decides x P E) {f : α → Except ε β} (hf : ∀ a, Decides (f a) P' E) :
    Decides (x >>= f) (P ∧ P') E := by
  rcases h with ⟨hP, a, rfl⟩ | ⟨hP, e, rfl, he⟩
  · exact (hf a).congr (by simp [hP])
  · exact .inr ⟨fun h => hP h.1, e, rfl, he⟩

theorem mapM {f : α → Except ε β} {p : α → Prop} {as : List α} (h : ∀ a ∈ as, Decides (f a) (p a) E) :
    Decides (as.mapM f) (∀ a ∈ as, p a) E := by
  induction as with
  | nil => exact (ok []).congr (by simp)
  | cons a as ih =>
    rw [List.mapM_cons]
    refine ((h a List.mem_cons_self).bind fun b =>
      (ih fun a' ha => h a' (List.mem_cons_of_mem _ ha)).bind fun bs => ok (b :: bs)).congr ?_
    rw [List.forall_mem_cons, and_true]

end Decides

end NmLogging
