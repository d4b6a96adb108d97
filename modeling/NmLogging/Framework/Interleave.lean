import Mathlib.Logic.Relation
import Mathlib.Order.WellFounded
import Mathlib.Data.List.Basic
import NmLogging.Framework.Prog

/-!
# Interleaved calls

A `System` has calls, each with its program. A configuration is the shared
state and the calls made so far, with what is left of each one's program. A
step starts a call (where `canStart` allows it) or performs the next operation
of one call, so the runs of a system are all the interleavings of its calls,
stopped anywhere between two operations.
-/

namespace NmLogging

open Relation (ReflTransGen)

/-- An element of a list with one more at its end is an old one or the new one. -/
theorem getElem?_concat {β : Type} {l : List β} {a b : β} {i : Nat} (h : (l ++ [a])[i]? = some b) :
    l[i]? = some b ∨ i = l.length ∧ b = a := by
  rw [List.getElem?_append] at h
  split at h
  · exact .inl h
  · rw [List.getElem?_singleton] at h
    split at h <;> cases h
    exact .inr ⟨by omega, rfl⟩

/-- Calls, their programs, and what an operation of the `i`-th call does. -/
structure System (S : Sig) (ε α C σ : Type) where
  prog : C → Prog S ε α
  sem : Nat → C → Semantics S σ
  canStart : σ → List (C × Prog S ε α) → C → Prop := fun _ _ _ => True

/-- The shared state, and what is left of each call made. -/
structure Config (S : Sig) (ε α C σ : Type) where
  shared : σ
  calls : List (C × Prog S ε α)

namespace Prog

variable {S : Sig} {ε α : Type}

/-- A program that has ended. -/
def ended : Except ε α → Prog S ε α
  | .ok a => ret a
  | .error e => throw e

/-- What is left of a program after its next operation. -/
inductive Child : Prog S ε α → Prog S ε α → Prop where
  | mk (o : S.Op) (k : S.Ret o → Prog S ε α) (r : S.Ret o) : Child (k r) (op o k)

theorem wellFounded_child : WellFounded (Child (S := S) (ε := ε) (α := α)) := by
  refine ⟨fun p => ?_⟩
  induction p with
  | ret a => exact ⟨_, nofun⟩
  | throw e => exact ⟨_, nofun⟩
  | op o k ih => exact ⟨_, fun q h => by cases h; exact ih _⟩

/-- A program that has performed an operation is not what it was. -/
theorem ne_of_child {p q : Prog S ε α} (h : Relation.TransGen Child p q) : p ≠ q := by
  rintro rfl
  exact wellFounded_child.transGen.irrefl.irrefl _ h

/-- How a program that has ended ended. -/
def result? : Prog S ε α → Option (Except ε α)
  | ret a => some (.ok a)
  | throw e => some (.error e)
  | op _ _ => none

variable {ε' β σ : Type} {M : Semantics S σ} {p q : Prog S ε α} {s t s' : σ}

/-- A program that has performed some operations, and has `q` left to do. -/
inductive Begins (M : Semantics S σ) : Prog S ε α → σ → Prog S ε α → σ → Prop where
  | refl {p : Prog S ε α} {s : σ} : Begins M p s p s
  | op {o : S.Op} {k : S.Ret o → Prog S ε α} {q : Prog S ε α} {s t s' : σ} {r : S.Ret o} :
    M.step s o r t → Begins M (k r) t q s' → Begins M (op o k) s q s'

theorem Runs.begins {res : Except ε α} (h : p.Runs M s res s') : p.Begins M s (ended res) s' := by
  induction h with
  | ret => exact .refl
  | throw => exact .refl
  | op hs _ ih => exact .op hs ih

theorem Begins.trans {q' : Prog S ε α} (h : p.Begins M s q t) (h' : q.Begins M t q' s') :
    p.Begins M s q' s' := by
  induction h with
  | refl => exact h'
  | op hs _ ih => exact .op hs (ih h')

/-- What is left is run then. -/
theorem Begins.runs {res : Except ε α} (h : p.Begins M s q t) (h' : q.Runs M t res s') :
    p.Runs M s res s' := by
  induction h with
  | refl => exact h'
  | op hs _ ih => exact .op hs (ih h')

theorem runs_iff_begins {res : Except ε α} :
    p.Runs M s res s' ↔ p.Begins M s (ended res) s' :=
  ⟨Runs.begins, fun h => h.runs (by cases res <;> constructor)⟩

/-- What can hold after an operation only if it held before held from the start if it holds in the
end. -/
theorem Begins.held {P : σ → Prop} (h : p.Begins M s q s')
    (hP : ∀ {s o r s'}, M.step s o r s' → P s' → P s) (h' : P s') : P s := by
  induction h with
  | refl => exact h'
  | op hs _ ih => exact hP hs (ih h')

/-- The first `n` operations of a program, with the answers that a function gives. -/
def after? (answer : σ → (o : S.Op) → Option (S.Ret o × σ)) :
    Nat → Prog S ε α → σ → Option (Prog S ε α × σ)
  | n + 1, op o k, s =>
    match answer s o with
    | some (r, s') => (k r).after? answer n s'
    | none => none
  | _, p, s => some (p, s)

theorem begins_after? {answer : σ → (o : S.Op) → Option (S.Ret o × σ)}
    (ha : ∀ {s o r s'}, answer s o = some (r, s') → M.step s o r s') {n : Nat}
    (h : p.after? answer n s = some (q, s')) : p.Begins M s q s' := by
  induction n generalizing p s with
  | zero => cases p <;> cases h <;> exact .refl
  | succ n ih =>
    cases p with
    | ret a => cases h; exact .refl
    | throw e => cases h; exact .refl
    | op o k =>
      rw [after?] at h
      split at h
      · rename_i r t hr
        exact .op (ha hr) (ih h)
      · cases h

theorem Begins.elim {ok : α → Prog S ε' β} {err : ε → Prog S ε' β} (h : p.Begins M s q t) :
    (p.elim ok err).Begins M s (q.elim ok err) t := by
  induction h with
  | refl => exact .refl
  | op hs _ ih => exact .op hs ih

end Prog

/-- The `i`-th call made ended with `res`. -/
def Config.Ended {S : Sig} {ε α C σ : Type} (cfg : Config S ε α C σ) (i : Nat) (c : C)
    (res : Except ε α) : Prop :=
  ∃ p, cfg.calls[i]? = some (c, p) ∧ p.result? = some res

namespace System

variable {S : Sig} {ε α C σ : Type} (Y : System S ε α C σ)

/-- One step of the system: a call starts, or one performs an operation. -/
inductive Step : Config S ε α C σ → Config S ε α C σ → Prop where
  | start {s : σ} {cs : List (C × Prog S ε α)} {c : C} (h : Y.canStart s cs c) :
    Step ⟨s, cs⟩ ⟨s, cs ++ [(c, Y.prog c)]⟩
  | perform {s s' : σ} {cs : List (C × Prog S ε α)} {i : Nat} {c : C} {o : S.Op}
    {k : S.Ret o → Prog S ε α} {r : S.Ret o} (hi : cs[i]? = some (c, .op o k))
    (h : (Y.sem i c).step s o r s') : Step ⟨s, cs⟩ ⟨s', cs.set i (c, k r)⟩

/-- The runs of the system from the shared state `s`. -/
def Reachable (s : σ) (cfg : Config S ε α C σ) : Prop := ReflTransGen Y.Step ⟨s, []⟩ cfg

variable {Y}

/-- A step keeps the calls made. -/
theorem Step.kept {cfg cfg' : Config S ε α C σ} (h : Y.Step cfg cfg') {i : Nat} {c : C}
    {p : Prog S ε α} (hi : cfg.calls[i]? = some (c, p)) :
    ∃ p', cfg'.calls[i]? = some (c, p') := by
  cases h with
  | start h => exact ⟨p, by rw [List.getElem?_append_left (List.getElem?_eq_some_iff.mp hi).1]; exact hi⟩
  | @perform s s' cs j d o k r hj hstep =>
    by_cases e : i = j
    · subst e
      obtain ⟨hlt, -⟩ := List.getElem?_eq_some_iff.mp hi
      cases hi.symm.trans hj
      exact ⟨k r, List.getElem?_set_self hlt⟩
    · exact ⟨p, by rw [List.getElem?_set_ne (Ne.symm e)]; exact hi⟩

/-- A call can go on, by steps that are all in `R`. -/
theorem steps_begin_in {R : Config S ε α C σ → Config S ε α C σ → Prop} {s s' : σ}
    (cs : List (C × Prog S ε α)) {i : Nat} {c : C} {p q : Prog S ε α} (hi : i < cs.length)
    (hR : ∀ {t t' p q}, R ⟨t, cs.set i (c, p)⟩ ⟨t', cs.set i (c, q)⟩)
    (h : p.Begins (Y.sem i c) s q s') :
    ReflTransGen (fun cfg cfg' => Y.Step cfg cfg' ∧ R cfg cfg') ⟨s, cs.set i (c, p)⟩
      ⟨s', cs.set i (c, q)⟩ := by
  induction h with
  | refl => exact .refl
  | @op o k q s t s' r hs _ ih =>
    have hstep : Y.Step ⟨s, cs.set i (c, .op o k)⟩ ⟨t, (cs.set i (c, .op o k)).set i (c, k r)⟩ :=
      .perform (List.getElem?_set_self hi) hs
    rw [List.set_set] at hstep
    exact .head ⟨hstep, hR⟩ ih

/-- A call can go on. -/
theorem steps_begin {s s' : σ} {cs : List (C × Prog S ε α)} {i : Nat} {c : C} {p q : Prog S ε α}
    (hi : cs[i]? = some (c, p)) (h : p.Begins (Y.sem i c) s q s') :
    ReflTransGen Y.Step ⟨s, cs⟩ ⟨s', cs.set i (c, q)⟩ := by
  obtain ⟨hlt, e⟩ := List.getElem?_eq_some_iff.mp hi
  have hsteps := steps_begin_in (Y := Y) (R := fun _ _ => True) cs hlt trivial h
  rw [← e, List.set_getElem_self] at hsteps
  exact ReflTransGen.mono (fun _ _ h => h.1) _ _ hsteps

/-- The rest of a call can be run to its end. -/
theorem steps_finish {s s' : σ} {cs : List (C × Prog S ε α)} {i : Nat} {c : C}
    {p : Prog S ε α} {res : Except ε α} (hi : cs[i]? = some (c, p))
    (hr : p.Runs (Y.sem i c) s res s') :
    ReflTransGen Y.Step ⟨s, cs⟩ ⟨s', cs.set i (c, .ended res)⟩ := steps_begin hi hr.begins

/-- A call can be made and run to its end. -/
theorem steps_call {s s' : σ} {cs : List (C × Prog S ε α)} {c : C} {r : Except ε α}
    (hc : Y.canStart s cs c) (hr : (Y.prog c).Runs (Y.sem cs.length c) s r s') :
    ReflTransGen Y.Step ⟨s, cs⟩ ⟨s', cs ++ [(c, .ended r)]⟩ := by
  have hi : (cs ++ [(c, Y.prog c)])[cs.length]? = some (c, Y.prog c) := by simp
  have hrest := steps_finish hi hr
  rw [List.set_append_right _ _ (Nat.le_refl _), Nat.sub_self, List.set_cons_zero] at hrest
  exact .head (.start hc) hrest

theorem Reachable.finish {s₀ s s' : σ} {cs : List (C × Prog S ε α)} {i : Nat} {c : C}
    {p : Prog S ε α} {res : Except ε α} (h : Y.Reachable s₀ ⟨s, cs⟩) (hi : cs[i]? = some (c, p))
    (hr : p.Runs (Y.sem i c) s res s') : Y.Reachable s₀ ⟨s', cs.set i (c, .ended res)⟩ :=
  ReflTransGen.trans h (steps_finish hi hr)

theorem Reachable.call {s₀ s s' : σ} {cs : List (C × Prog S ε α)} {c : C} {r : Except ε α}
    (h : Y.Reachable s₀ ⟨s, cs⟩) (hc : Y.canStart s cs c)
    (hr : (Y.prog c).Runs (Y.sem cs.length c) s r s') :
    Y.Reachable s₀ ⟨s', cs ++ [(c, .ended r)]⟩ :=
  ReflTransGen.trans h (steps_call hc hr)

/-- What holds at the start and is kept by each step holds in every run. -/
theorem Reachable.inv {I : Config S ε α C σ → Prop} {s : σ} {cfg : Config S ε α C σ}
    (h : Y.Reachable s cfg) (h₀ : I ⟨s, []⟩)
    (hs : ∀ cfg cfg', I cfg → Y.Step cfg cfg' → I cfg') : I cfg := by
  induction h with
  | refl => exact h₀
  | tail _ hstep ih => exact hs _ _ ih hstep

end System

end NmLogging
