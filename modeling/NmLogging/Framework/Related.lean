import Mathlib.Data.List.Forall2

/-!
# Related lists

Lists whose elements are related one by one (`List.Forall₂`), taken apart at an element, and
replaced at one; and a sublist that is split at an element.
-/

namespace NmLogging

variable {α β : Type} {R : α → β → Prop} {as : List α} {bs bs' : List β} {a : α} {b : β}

theorem forall₂_middle (h : List.Forall₂ R as (bs ++ b :: bs')) :
    ∃ xs a xs', as = xs ++ a :: xs' ∧ List.Forall₂ R xs bs ∧ R a b ∧ List.Forall₂ R xs' bs' := by
  have hfirst := List.forall₂_take_append as bs (b :: bs') h
  have hrest := List.forall₂_drop_append as bs (b :: bs') h
  obtain ⟨a, xs', hab, hxs', hdrop⟩ := List.forall₂_cons_right_iff.mp hrest
  exact ⟨_, a, xs', by rw [← hdrop, List.take_append_drop], hfirst, hab, hxs'⟩

theorem exists_of_forall₂_right (h : List.Forall₂ R as bs) (hb : b ∈ bs) : ∃ a ∈ as, R a b := by
  obtain ⟨ys, ys', rfl⟩ := List.append_of_mem hb
  obtain ⟨xs, a, xs', rfl, -, hab, -⟩ := forall₂_middle h
  exact ⟨a, by simp, hab⟩

theorem exists_of_forall₂_left (h : List.Forall₂ R as bs) (ha : a ∈ as) : ∃ b ∈ bs, R a b :=
  exists_of_forall₂_right h.flip ha

theorem forall₂_getElem? (h : List.Forall₂ R as bs) {i : Nat} (ha : as[i]? = some a) :
    ∃ b, bs[i]? = some b ∧ R a b := by
  induction h generalizing i with
  | nil => cases ha
  | cons hab _ ih =>
    cases i with
    | zero => cases ha; exact ⟨_, rfl, hab⟩
    | succ i => exact ih ha

theorem forall₂_set (h : List.Forall₂ R as bs) (hab : R a b) (i : Nat) :
    List.Forall₂ R (as.set i a) (bs.set i b) := by
  induction h generalizing i with
  | nil => exact .nil
  | cons hab' h' ih =>
    cases i with
    | zero => exact .cons hab h'
    | succ i => exact .cons hab' (ih i)

theorem sublist_middle {xs ys es : List α} (h : (xs ++ a :: ys).Sublist es) :
    ∃ bs cs, es = bs ++ a :: cs ∧ xs.Sublist bs ∧ ys.Sublist cs := by
  obtain ⟨r₁, r₂, rfl, hxs, hrest⟩ := List.append_sublist_iff.mp h
  obtain ⟨s₁, s₂, rfl, ha, hys⟩ := List.cons_sublist_iff.mp hrest
  obtain ⟨p, q, rfl⟩ := List.append_of_mem ha
  exact ⟨r₁ ++ p, q ++ s₂, by simp, hxs.trans (List.sublist_append_left _ _),
    hys.trans (List.sublist_append_right _ _)⟩

end NmLogging
