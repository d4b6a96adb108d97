import NmLogging.Framework.Interleave
import NmLogging.Framework.Related

/-!
# Programs cut short

A program that does what another one does, except that in some places it raises where the other
one goes on (`Prog.CutBy`). Where all calls of a system are those of another one, cut short, every
run of the first is one of the second, in which the calls that were cut have not gone on yet
(`System.exists_cut`).
-/

namespace NmLogging

open Relation (ReflTransGen)

variable {S : Sig} {ε ε' α β C σ : Type}

/-- The first program is the second, but that it may raise `e` where `R e p` holds of what is left
of the second. -/
inductive Prog.CutBy (R : ε → Prog S ε α → Prop) : Prog S ε α → Prog S ε α → Prop where
  | ret {a : α} : CutBy R (.ret a) (.ret a)
  | throw {e : ε} : CutBy R (.throw e) (.throw e)
  | op {o : S.Op} {k k' : S.Ret o → Prog S ε α} (h : ∀ r, CutBy R (k r) (k' r)) :
    CutBy R (.op o k) (.op o k')
  | cut {e : ε} {p : Prog S ε α} (h : R e p) : CutBy R (.throw e) p

namespace Prog.CutBy

variable {R : ε → Prog S ε α → Prop}

theorem refl (p : Prog S ε α) : CutBy R p p := by
  induction p with
  | ret a => exact .ret
  | throw e => exact .throw
  | op o k ih => exact .op ih

/-- What follows is cut, however it is come to. -/
theorem elim (p : Prog S ε' β) {ok ok' : β → Prog S ε α} {err err' : ε' → Prog S ε α}
    (hok : ∀ a, CutBy R (ok a) (ok' a)) (herr : ∀ e, CutBy R (err e) (err' e)) :
    CutBy R (p.elim ok err) (p.elim ok' err') := by
  induction p with
  | ret a => exact hok a
  | throw e => exact herr e
  | op o k ih => exact .op ih

theorem bind (p : Prog S ε β) {f f' : β → Prog S ε α} (hf : ∀ a, CutBy R (f a) (f' a)) :
    CutBy R (p >>= f) (p >>= f') := elim p hf fun _ => .throw

end Prog.CutBy

namespace System

variable {Y Y' : System S ε α C σ} {R : C → ε → Prog S ε α → Prop}

/-- The calls of one system are those of another, cut short, and their operations do the same. -/
structure Cuts (Y Y' : System S ε α C σ) (R : C → ε → Prog S ε α → Prop) : Prop where
  canStart : ∀ s cs c, Y'.canStart s cs c
  prog : ∀ c, (Y.prog c).CutBy (R c) (Y'.prog c)
  step : ∀ {i c s o r s'}, (Y.sem i c).step s o r s' → (Y'.sem i c).step s o r s'

/-- A call, and the same one not cut. -/
def Extends (R : C → ε → Prog S ε α → Prop) (x x' : C × Prog S ε α) : Prop :=
  x.1 = x'.1 ∧ x.2.CutBy (R x.1) x'.2

theorem map_fst_of_extends {xs ys : List (C × Prog S ε α)} (h : List.Forall₂ (Extends R) xs ys) :
    ys.map Prod.fst = xs.map Prod.fst := by
  induction h with
  | nil => rfl
  | cons hx _ ih => exact congrArg₂ List.cons hx.1.symm ih

/-- Every run of calls that are cut is one of the calls that are not. -/
theorem exists_cut (hY : Cuts Y Y' R) {s : σ} {cfg : Config S ε α C σ}
    (h : Y.Reachable s cfg) :
    ∃ calls, Y'.Reachable s ⟨cfg.shared, calls⟩ ∧ List.Forall₂ (Extends R) cfg.calls calls := by
  induction h with
  | refl => exact ⟨[], .refl, .nil⟩
  | tail _ hs ih =>
    obtain ⟨calls, hreach, hcalls⟩ := ih
    cases hs with
    | @start _ _ c _ =>
      exact ⟨_, hreach.tail (.start (hY.canStart _ _ c)),
        List.rel_append hcalls (.cons ⟨rfl, hY.prog c⟩ .nil)⟩
    | @perform _ _ cs i c o k r hi hstep =>
      obtain ⟨⟨c', p'⟩, hi', rfl, hcut⟩ := forall₂_getElem? hcalls hi
      generalize hp : (Prog.op o k : Prog S ε α) = p at hcut
      cases hcut with
      | ret => cases hp
      | throw => cases hp
      | cut => cases hp
      | @op _ _ k' hk =>
        cases hp
        have hnext : Extends R (c, k r) (c, k' r) := ⟨rfl, hk r⟩
        exact ⟨_, hreach.tail (.perform hi' (hY.step hstep)), forall₂_set hcalls hnext i⟩

end System

end NmLogging
