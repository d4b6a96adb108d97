import Mathlib.Algebra.BigOperators.Group.List.Basic
import Mathlib.Algebra.Order.Ring.Nat
import NmLogging.Framework.Interleave
import NmLogging.Framework.Related

/-!
# Counting over interleaved calls

Operations are weighed in a commutative monoid, and a measure of the shared state grows by the
weight of each operation (`System.Weighs`). Then, however calls are interleaved, the measure is
what it was at the start and a share for each call, and of the share of a call everything is
known that can be proved of the call alone, with its weights added up (`Reachable.tally`).
What a call has added up so far is no more than what it can have at its end (`exists_total`),
so calls that count for one each, if they return, are counted by the measure
(`countP_returned_le`, `sum_le_length`).
-/

namespace NmLogging

/-- The semantics that adds up the weights of operations. -/
def tallying {S : Sig} {M : Type} [Add M] (weight : (o : S.Op) → S.Ret o → M) : Semantics S M where
  step m o r m' := m' = m + weight o r

namespace Prog

variable {S : Sig} {ε ε' α β M : Type} [AddCommMonoid M] {weight : (o : S.Op) → S.Ret o → M}
  {Q : Except ε α → M → Prop}

theorem wp_tallying_op {o : S.Op} {k : S.Ret o → Prog S ε α} {m : M} :
    (op o k).wp (tallying weight) m Q ↔ ∀ r, (k r).wp (tallying weight) (m + weight o r) Q :=
  ⟨fun h r => h.2 r _ rfl, fun h => ⟨trivial, fun r m' hm => by
    rw [show m' = m + weight o r from hm]
    exact h r⟩⟩

/-- A program can end, and what it has added up then is more than what it had. -/
theorem exists_total [PartialOrder M] [CanonicallyOrderedAdd M] (answer : (o : S.Op) → S.Ret o)
    {p : Prog S ε α} {m : M} (h : p.wp (tallying weight) m Q) : ∃ res n, m ≤ n ∧ Q res n := by
  induction p generalizing m with
  | ret a => exact ⟨_, m, le_refl m, h⟩
  | throw e => exact ⟨_, m, le_refl m, h⟩
  | op o k ih =>
    obtain ⟨res, n, hle, hQ⟩ := ih (answer o) (wp_tallying_op.mp h (answer o))
    exact ⟨res, n, le_self_add.trans hle, hQ⟩

end Prog

namespace System

variable {S : Sig} {ε α C σ M : Type} [AddCommMonoid M] {Y : System S ε α C σ}
  {weight : (o : S.Op) → S.Ret o → M} {measure : σ → M} {Q : C → Except ε α → M → Prop}

/-- The measure grows by the weights of operations, and each call, alone, adds up to a total as
`Q` says. -/
structure Weighs (Y : System S ε α C σ) (weight : (o : S.Op) → S.Ret o → M) (measure : σ → M)
    (Q : C → Except ε α → M → Prop) : Prop where
  step : ∀ {i : Nat} {c : C} {s : σ} {o : S.Op} {r : S.Ret o} {s' : σ}, (Y.sem i c).step s o r s' →
    measure s' = measure s + weight o r
  call : ∀ c, (Y.prog c).wp (tallying weight) 0 (Q c)

/-- What a call has added up so far. -/
def HasTallied (weight : (o : S.Op) → S.Ret o → M) (Q : C → Except ε α → M → Prop)
    (x : C × Prog S ε α) (m : M) : Prop :=
  x.2.wp (tallying weight) m (Q x.1)

theorem sum_set {ms : List M} {i : Nat} {m d : M} (h : ms[i]? = some m) :
    (ms.set i (m + d)).sum = ms.sum + d := by
  induction ms generalizing i with
  | nil => cases h
  | cons n ms ih =>
    cases i with
    | zero =>
      cases h
      simp only [List.set_cons_zero, List.sum_cons]
      exact add_right_comm _ _ _
    | succ i =>
      rw [List.set_cons_succ, List.sum_cons, List.sum_cons, ih h, add_assoc]

variable {s : σ} {cfg : Config S ε α C σ}

/-- In every run, the measure has grown by what the calls made have added up so far. -/
theorem Reachable.tally (h : Y.Reachable s cfg) (hY : Y.Weighs weight measure Q) :
    ∃ ms, List.Forall₂ (HasTallied weight Q) cfg.calls ms ∧
      measure cfg.shared = measure s + ms.sum := by
  refine Reachable.inv (I := fun cfg => ∃ ms, List.Forall₂ (HasTallied weight Q) cfg.calls ms ∧
    measure cfg.shared = measure s + ms.sum) h ⟨[], .nil, (add_zero _).symm⟩ ?_
  rintro _ _ ⟨ms, hms, hsum⟩ hstep
  cases hstep with
  | @start _ _ c _ =>
    refine ⟨ms ++ [0], List.rel_append hms (.cons (hY.call c) .nil), ?_⟩
    rw [List.sum_append, List.sum_singleton, add_zero]
    exact hsum
  | @perform _ _ cs i c o k r hi hs =>
    obtain ⟨m, hm, hcall⟩ := forall₂_getElem? hms hi
    have hnext : HasTallied weight Q (c, k r) (m + weight o r) := Prog.wp_tallying_op.mp hcall r
    refine ⟨_, forall₂_set hms hnext i, ?_⟩
    rw [sum_set hm, ← add_assoc, ← hsum]
    exact hY.step hs

/-! ## Calls that count for one -/

/-- Whether a program has returned. -/
def returned : Prog S ε α → Bool
  | .ret _ => true
  | .throw _ | .op _ _ => false

theorem returned_iff {p : Prog S ε α} : returned p = true ↔ ∃ a, p.result? = some (.ok a) := by
  cases p <;> simp [returned, Prog.result?]

variable {weight : (o : S.Op) → S.Ret o → Nat} {Q : C → Except ε α → Nat → Prop}
  {calls : List (C × Prog S ε α)} {ms : List Nat}

/-- Where a call that returns adds at least one, the calls that returned have added that many. -/
theorem countP_returned_le (h : List.Forall₂ (HasTallied weight Q) calls ms)
    (hQ : ∀ {c a n}, Q c (.ok a) n → 1 ≤ n) : calls.countP (fun x => returned x.2) ≤ ms.sum := by
  induction h with
  | nil => exact Nat.le_refl 0
  | @cons x m _ _ hx _ ih =>
    obtain ⟨c, p⟩ := x
    rw [List.countP_cons, List.sum_cons, Nat.add_comm]
    refine Nat.add_le_add ?_ ih
    cases p with
    | ret a => exact hQ hx
    | throw e => exact Nat.zero_le m
    | op o k => exact Nat.zero_le m

/-- Where a call adds at most one, the calls have added at most their number. -/
theorem sum_le_length (answer : (o : S.Op) → S.Ret o)
    (h : List.Forall₂ (HasTallied weight Q) calls ms) (hQ : ∀ {c res n}, Q c res n → n ≤ 1) :
    ms.sum ≤ calls.length := by
  induction h with
  | nil => exact Nat.le_refl 0
  | @cons x m _ _ hx _ ih =>
    obtain ⟨res, n, hle, hn⟩ := Prog.exists_total answer hx
    rw [List.sum_cons, List.length_cons, Nat.add_comm]
    exact Nat.add_le_add ih (hle.trans (hQ hn))

end System

end NmLogging
