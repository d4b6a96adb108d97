import Mathlib.Logic.Basic
import Mathlib.Tactic.Attr.Core

/-!
# Programs with operations and exceptions

A program (`Prog`) performs operations of a signature one at a time and ends
by returning a value or by raising an exception. What an operation does is not
part of the program: a `Semantics` says which answers a state allows and which
states follow. The same program text can then be run alone (`Runs`), be
interleaved with others (`Interleave.lean`), or be stopped between two
operations.

`Prog.wp` is the weakest precondition of a program. It is computed along the
program, so that `simp` with its equations executes a program symbolically.
Programs are well founded trees: every run ends, and `wp` is about all of them
(`Runs.post`).
-/

namespace NmLogging

/-- The operations of a program and the type of each one's answer. -/
structure Sig where
  Op : Type
  Ret : Op → Type

/-- A program over the operations `S`, raising exceptions in `ε`. -/
inductive Prog (S : Sig) (ε α : Type) where
  | ret (a : α)
  | throw (e : ε)
  | op (o : S.Op) (k : S.Ret o → Prog S ε α)

namespace Prog

variable {S : Sig} {ε ε' ε'' α β γ : Type}

/-- `p`, then `ok` with its value or `err` with its exception: the
`try … except … else …` of which `bind` and `tryCatch` are instances. -/
def elim (p : Prog S ε α) (ok : α → Prog S ε' β) (err : ε → Prog S ε' β) : Prog S ε' β :=
  match p with
  | ret a => ok a
  | throw e => err e
  | op o k => op o fun r => (k r).elim ok err

@[simp] theorem elim_ret (a : α) (ok : α → Prog S ε' β) (err : ε → Prog S ε' β) :
    (ret a : Prog S ε α).elim ok err = ok a := rfl
@[simp] theorem elim_throw (e : ε) (ok : α → Prog S ε' β) (err : ε → Prog S ε' β) :
    (throw e : Prog S ε α).elim ok err = err e := rfl
@[simp] theorem elim_op (o : S.Op) (k : S.Ret o → Prog S ε α) (ok : α → Prog S ε' β)
    (err : ε → Prog S ε' β) : (op o k).elim ok err = op o fun r => (k r).elim ok err := rfl

theorem elim_elim (p : Prog S ε α) (ok : α → Prog S ε' β) (err : ε → Prog S ε' β)
    (ok' : β → Prog S ε'' γ) (err' : ε' → Prog S ε'' γ) :
    (p.elim ok err).elim ok' err' =
      p.elim (fun a => (ok a).elim ok' err') (fun e => (err e).elim ok' err') := by
  induction p with
  | ret a => rfl
  | throw e => rfl
  | op o k ih => simp only [elim_op, ih]

theorem elim_self (p : Prog S ε α) : p.elim ret throw = p := by
  induction p with
  | ret a => rfl
  | throw e => rfl
  | op o k ih => simp only [elim_op, ih]

instance : Monad (Prog S ε) where
  pure := ret
  bind p f := p.elim f throw

@[simp] theorem ret_bind (a : α) (f : α → Prog S ε β) : (ret a : Prog S ε α) >>= f = f a := rfl
theorem bind_eq (p : Prog S ε α) (f : α → Prog S ε β) : p >>= f = p.elim f throw := rfl

instance : LawfulMonad (Prog S ε) :=
  LawfulMonad.mk' _ elim_self (fun _ _ => rfl)
    (fun p f g => by simp only [bind_eq, elim_elim, elim_throw])

/-- One operation. -/
def perform (o : S.Op) : Prog S ε (S.Ret o) := op o ret

/-- `try: p except: h`. -/
def tryCatch (p : Prog S ε α) (h : ε → Prog S ε α) : Prog S ε α := p.elim ret h

/-- `try: p finally: f`. -/
def tryFinally (p : Prog S ε α) (f : Prog S ε Unit) : Prog S ε α :=
  p.elim (fun a => f >>= fun _ => ret a) fun e => f >>= fun _ => throw e

/-- A computation without operations. -/
def ofExcept : Except ε α → Prog S ε α
  | .ok a => ret a
  | .error e => throw e

@[simp] theorem ofExcept_ok (a : α) : (ofExcept (.ok a) : Prog S ε α) = ret a := rfl
@[simp] theorem ofExcept_error (e : ε) : (ofExcept (.error e) : Prog S ε α) = throw e := rfl

end Prog

/-- What the operations do: when one may be performed (an assertion, checked
by `Prog.wp`), and which answers and states may follow it. -/
structure Semantics (S : Sig) (σ : Type) where
  step : σ → (o : S.Op) → S.Ret o → σ → Prop
  pre : σ → S.Op → Prop := fun _ _ => True

/-- What an operation that is always allowed does. -/
def allowing {S : Sig} {σ : Type} (step : σ → (o : S.Op) → S.Ret o → σ → Prop) :
    Semantics S σ where
  step := step

namespace Prog

variable {S : Sig} {ε ε' α β : Type} {σ : Type} (M : Semantics S σ)

/-- A whole run of a program, alone. -/
inductive Runs : Prog S ε α → σ → Except ε α → σ → Prop where
  | ret {a : α} {s : σ} : Runs (ret a) s (.ok a) s
  | throw {e : ε} {s : σ} : Runs (throw e) s (.error e) s
  | op {o : S.Op} {k : S.Ret o → Prog S ε α} {s t s' : σ} {r : S.Ret o} {res : Except ε α} :
    M.step s o r t → Runs (k r) t res s' → Runs (op o k) s res s'

/-- Every operation a run of `p` from `s` performs is allowed where it is
performed, and every run ends in `Q`. -/
def wp (p : Prog S ε α) (s : σ) (Q : Except ε α → σ → Prop) : Prop :=
  match p with
  | ret a => Q (.ok a) s
  | throw e => Q (.error e) s
  | op o k => M.pre s o ∧ ∀ r s', M.step s o r s' → (k r).wp s' Q

variable {M}

@[simp] theorem wp_ret (a : α) (s : σ) (Q : Except ε α → σ → Prop) :
    (ret a : Prog S ε α).wp M s Q ↔ Q (.ok a) s := Iff.rfl
@[simp] theorem wp_throw (e : ε) (s : σ) (Q : Except ε α → σ → Prop) :
    (throw e : Prog S ε α).wp M s Q ↔ Q (.error e) s := Iff.rfl
@[simp] theorem wp_op (o : S.Op) (k : S.Ret o → Prog S ε α) (s : σ) (Q : Except ε α → σ → Prop) :
    (op o k).wp M s Q ↔ M.pre s o ∧ ∀ r s', M.step s o r s' → (k r).wp M s' Q := Iff.rfl
@[simp] theorem wp_pure (a : α) (s : σ) (Q : Except ε α → σ → Prop) :
    (pure a : Prog S ε α).wp M s Q ↔ Q (.ok a) s := Iff.rfl

theorem wp_mono {p : Prog S ε α} {s : σ} {Q Q' : Except ε α → σ → Prop} (h : p.wp M s Q)
    (hQ : ∀ res s', Q res s' → Q' res s') : p.wp M s Q' := by
  induction p generalizing s with
  | ret a => exact hQ _ _ h
  | throw e => exact hQ _ _ h
  | op o k ih => exact ⟨h.1, fun r s' hs => ih r (h.2 r s' hs)⟩

/-- A precondition stays one where less can happen. -/
theorem wp_weaken {M' : Semantics S σ} (hpre : ∀ s o, M.pre s o → M'.pre s o)
    (hstep : ∀ {s : σ} {o : S.Op} {r : S.Ret o} {s' : σ}, M'.step s o r s' → M.step s o r s')
    {p : Prog S ε α} {s : σ} {Q : Except ε α → σ → Prop} (h : p.wp M s Q) : p.wp M' s Q := by
  induction p generalizing s with
  | ret a => exact h
  | throw e => exact h
  | op o k ih => exact ⟨hpre _ _ h.1, fun r s' hs => ih r (h.2 r s' (hstep hs))⟩

/-- The precondition of `try … except … else …`, from that of its parts. -/
theorem wp_elim (p : Prog S ε α) (ok : α → Prog S ε' β) (err : ε → Prog S ε' β) (s : σ)
    (Q : Except ε' β → σ → Prop) :
    (p.elim ok err).wp M s Q ↔ p.wp M s fun res s' =>
      match res with
      | .ok a => (ok a).wp M s' Q
      | .error e => (err e).wp M s' Q := by
  induction p generalizing s with
  | ret a => rfl
  | throw e => rfl
  | op o k ih => simp only [elim_op, wp_op, ih]

theorem wp_bind (p : Prog S ε α) (f : α → Prog S ε β) (s : σ) (Q : Except ε β → σ → Prop) :
    (p >>= f).wp M s Q ↔ p.wp M s fun res s' =>
      match res with
      | .ok a => (f a).wp M s' Q
      | .error e => Q (.error e) s' := wp_elim p f throw s Q

theorem wp_conj {p : Prog S ε α} {s : σ} {Q Q' : Except ε α → σ → Prop} (h : p.wp M s Q)
    (h' : p.wp M s Q') : p.wp M s fun res s' => Q res s' ∧ Q' res s' := by
  induction p generalizing s with
  | ret a => exact ⟨h, h'⟩
  | throw e => exact ⟨h, h'⟩
  | op o k ih => exact ⟨h.1, fun r s' hs => ih r (h.2 r s' hs) (h'.2 r s' hs)⟩

/-- What every allowed operation keeps holds at the end. -/
theorem wp_inv {J : σ → Prop} (hJ : ∀ {s o r s'}, M.pre s o → M.step s o r s' → J s → J s')
    {p : Prog S ε α} {s : σ} {Q : Except ε α → σ → Prop} (h : p.wp M s Q) (hs : J s) :
    p.wp M s fun res s' => Q res s' ∧ J s' := by
  induction p generalizing s with
  | ret a => exact ⟨h, hs⟩
  | throw e => exact ⟨h, hs⟩
  | op o k ih => exact ⟨h.1, fun r s' hstep => ih r (h.2 r s' hstep) (hJ h.1 hstep hs)⟩

/-- Every run of a program with a precondition ends in its postcondition. -/
theorem Runs.post {p : Prog S ε α} {s s' : σ} {res : Except ε α} {Q : Except ε α → σ → Prop}
    (hr : Runs M p s res s') (h : p.wp M s Q) : Q res s' := by
  induction hr with
  | ret => exact h
  | throw => exact h
  | op hs _ ih => exact ih (h.2 _ _ hs)

/-- Where each operation has an answer that leaves alone what is looked at, a program has a run that
does. -/
theorem Runs.exists_look {γ : Type} (look : σ → γ)
    (ht : ∀ s o, ∃ r s', M.step s o r s' ∧ look s' = look s) (p : Prog S ε α) (s : σ) :
    ∃ res s', Runs M p s res s' ∧ look s' = look s := by
  induction p generalizing s with
  | ret a => exact ⟨_, _, .ret, rfl⟩
  | throw e => exact ⟨_, _, .throw, rfl⟩
  | op o k ih =>
    obtain ⟨r, s₁, hs, hlook⟩ := ht s o
    obtain ⟨res, s', hr, hlook'⟩ := ih r s₁
    exact ⟨res, s', .op hs hr, hlook'.trans hlook⟩

/-- A program has a run wherever each operation has an answer. -/
theorem Runs.exists (ht : ∀ s o, ∃ r s', M.step s o r s') (p : Prog S ε α) (s : σ) :
    ∃ res s', Runs M p s res s' := by
  obtain ⟨res, s', hr, -⟩ := Runs.exists_look (M := M) (fun _ => ()) (fun s o => by
    obtain ⟨r, s', hs⟩ := ht s o
    exact ⟨r, s', hs, rfl⟩) p s
  exact ⟨res, s', hr⟩

/-- And wherever each operation that is allowed has an answer, if it has a precondition. -/
theorem Runs.exists_of_wp {M' : Semantics S σ}
    (ht : ∀ {s : σ} {o : S.Op}, M'.pre s o → ∃ r s', M.step s o r s' ∧ M'.step s o r s')
    {p : Prog S ε α} {s : σ} {Q : Except ε α → σ → Prop} (h : p.wp M' s Q) :
    ∃ res s', Runs M p s res s' := by
  induction p generalizing s with
  | ret a => exact ⟨_, _, .ret⟩
  | throw e => exact ⟨_, _, .throw⟩
  | op o k ih =>
    obtain ⟨r, s₁, hs, hs'⟩ := ht h.1
    obtain ⟨res, s', hr⟩ := ih r (h.2 r s₁ hs')
    exact ⟨res, s', .op hs hr⟩

/-- A run of `try … except … else …` is one of the body and one of what follows. -/
theorem runs_elim {p : Prog S ε α} {ok : α → Prog S ε' β} {err : ε → Prog S ε' β} {s s' : σ}
    {res' : Except ε' β} (h : Runs M (p.elim ok err) s res' s') :
    ∃ res t, Runs M p s res t ∧
      Runs M (match res with | .ok a => ok a | .error e => err e) t res' s' := by
  induction p generalizing s with
  | ret a => exact ⟨.ok a, s, .ret, h⟩
  | throw e => exact ⟨.error e, s, .throw, h⟩
  | op o k ih =>
    cases h with
    | op hs hr =>
      obtain ⟨res, t, hrun, hrest⟩ := ih _ hr
      exact ⟨res, t, .op hs hrun, hrest⟩

/-- A run that returns is one of each of two programs. -/
theorem runs_bind_ok {p : Prog S ε α} {f : α → Prog S ε β} {s s' : σ} {b : β}
    (h : Runs M (p >>= f) s (.ok b) s') :
    ∃ a t, Runs M p s (.ok a) t ∧ Runs M (f a) t (.ok b) s' := by
  obtain ⟨res, t, hrun, hrest⟩ := runs_elim h
  cases res with
  | ok a => exact ⟨a, t, hrun, hrest⟩
  | error e => cases hrest

/-- Runs of a program and of what follows it. -/
theorem Runs.elim {p : Prog S ε α} {ok : α → Prog S ε' β} {err : ε → Prog S ε' β} {s t s' : σ}
    {res : Except ε α} {res' : Except ε' β} (h : Runs M p s res t)
    (h' : Runs M (match res with | .ok a => ok a | .error e => err e) t res' s') :
    Runs M (p.elim ok err) s res' s' := by
  induction h with
  | ret => exact h'
  | throw => exact h'
  | op hs _ ih => exact .op hs (ih h')

theorem Runs.bind {p : Prog S ε α} {f : α → Prog S ε β} {s t s' : σ} {a : α} {res : Except ε β}
    (h : Runs M p s (.ok a) t) (h' : Runs M (f a) t res s') : Runs M (p >>= f) s res s' :=
  h.elim h'

/-- Running a program with the answers a function gives. -/
def run (answer : σ → (o : S.Op) → S.Ret o × σ) (p : Prog S ε α) (s : σ) : Except ε α × σ :=
  match p with
  | ret a => (.ok a, s)
  | throw e => (.error e, s)
  | op o k => (k (answer s o).1).run answer (answer s o).2

theorem run_elim (answer : σ → (o : S.Op) → S.Ret o × σ) (p : Prog S ε α) (ok : α → Prog S ε' β)
    (err : ε → Prog S ε' β) (s : σ) :
    (p.elim ok err).run answer s =
      match p.run answer s with
      | (.ok a, s') => (ok a).run answer s'
      | (.error e, s') => (err e).run answer s' := by
  induction p generalizing s with
  | ret a => rfl
  | throw e => rfl
  | op o k ih => simp only [elim_op, run, ih]

theorem run_bind (answer : σ → (o : S.Op) → S.Ret o × σ) (p : Prog S ε α) (f : α → Prog S ε β)
    (s : σ) :
    (p >>= f).run answer s =
      match p.run answer s with
      | (.ok a, s') => (f a).run answer s'
      | (.error e, s') => (.error e, s') := run_elim answer p f throw s

/-- A run with answers that the semantics allows, over a state that is seen
through `f`. -/
theorem runs_run {τ : Type} (f : τ → σ) {answer : τ → (o : S.Op) → S.Ret o × τ}
    (ha : ∀ s o, M.step (f s) o (answer s o).1 (f (answer s o).2)) (p : Prog S ε α) (s : τ) :
    Runs M p (f s) (p.run answer s).1 (f (p.run answer s).2) := by
  induction p generalizing s with
  | ret a => exact .ret
  | throw e => exact .throw
  | op o k ih => exact .op (ha s o) (ih _ _)

/-- Running a program with the answers a function gives, as far as it gives any. -/
def run? (answer : σ → (o : S.Op) → Option (S.Ret o × σ)) (p : Prog S ε α) (s : σ) :
    Option (Except ε α × σ) :=
  match p with
  | ret a => some (.ok a, s)
  | throw e => some (.error e, s)
  | op o k =>
    match answer s o with
    | none => none
    | some (r, s') => (k r).run? answer s'

theorem run?_elim (answer : σ → (o : S.Op) → Option (S.Ret o × σ)) (p : Prog S ε α)
    (ok : α → Prog S ε' β) (err : ε → Prog S ε' β) (s : σ) :
    (p.elim ok err).run? answer s =
      match p.run? answer s with
      | none => none
      | some (.ok a, s') => (ok a).run? answer s'
      | some (.error e, s') => (err e).run? answer s' := by
  induction p generalizing s with
  | ret a => rfl
  | throw e => rfl
  | op o k ih =>
    simp only [elim_op, run?]
    cases answer s o with
    | none => rfl
    | some q => exact ih _ _

theorem run?_op {answer : σ → (o : S.Op) → Option (S.Ret o × σ)} {o : S.Op}
    {k : S.Ret o → Prog S ε α} {s s' : σ} {r : S.Ret o} (h : answer s o = some (r, s')) :
    (op o k).run? answer s = (k r).run? answer s' := by
  simp only [run?, h]

theorem run?_op_eq_some {answer : σ → (o : S.Op) → Option (S.Ret o × σ)} {o : S.Op}
    {k : S.Ret o → Prog S ε α} {s : σ} {q : Except ε α × σ} :
    (op o k).run? answer s = some q ↔
      ∃ r s', answer s o = some (r, s') ∧ (k r).run? answer s' = some q := by
  rw [run?]
  cases answer s o with
  | none => simp
  | some q =>
    constructor
    · exact fun h => ⟨q.1, q.2, rfl, h⟩
    · rintro ⟨r, s', ⟨⟩, h⟩
      exact h

theorem run?_elim_ok {answer : σ → (o : S.Op) → Option (S.Ret o × σ)} {p : Prog S ε α}
    {ok : α → Prog S ε' β} {err : ε → Prog S ε' β} {s s' : σ} {a : α}
    {q : Option (Except ε' β × σ)} (h : p.run? answer s = some (.ok a, s'))
    (h' : (ok a).run? answer s' = q) : (p.elim ok err).run? answer s = q := by
  rw [run?_elim, h]
  exact h'

theorem run?_elim_error {answer : σ → (o : S.Op) → Option (S.Ret o × σ)} {p : Prog S ε α}
    {ok : α → Prog S ε' β} {err : ε → Prog S ε' β} {s s' : σ} {e : ε}
    {q : Option (Except ε' β × σ)} (h : p.run? answer s = some (.error e, s'))
    (h' : (err e).run? answer s' = q) : (p.elim ok err).run? answer s = q := by
  rw [run?_elim, h]
  exact h'

theorem runs_run? {answer : σ → (o : S.Op) → Option (S.Ret o × σ)}
    (ha : ∀ {s o r s'}, answer s o = some (r, s') → M.step s o r s') {p : Prog S ε α} {s s' : σ}
    {res : Except ε α} (h : p.run? answer s = some (res, s')) : Runs M p s res s' := by
  induction p generalizing s with
  | ret a => cases h; exact .ret
  | throw e => cases h; exact .throw
  | op o k ih =>
    rw [run?] at h
    split at h
    · cases h
    · rename_i r t hr
      exact .op (ha hr) (ih r h)

theorem wp_ofExcept {M : Semantics S σ} {r : Except ε α} {s : σ} {Q : Except ε α → σ → Prop} :
    (ofExcept r).wp M s Q ↔ Q r s := by cases r <;> rfl

/-- The answers that a function gives. -/
def answering (answer : σ → (o : S.Op) → S.Ret o × σ) : Semantics S σ where
  step s o r s' := answer s o = (r, s')

/-- With those answers a program has one run. -/
theorem Runs.run_eq {answer : σ → (o : S.Op) → S.Ret o × σ} {p : Prog S ε α} {s s' : σ}
    {res : Except ε α} (h : p.Runs (answering answer) s res s') :
    p.run answer s = (res, s') := by
  induction h with
  | ret => rfl
  | throw => rfl
  | @op o k s t s' r res hs _ ih => rw [run, show answer s o = (r, t) from hs, ih]

theorem runs_answering (answer : σ → (o : S.Op) → S.Ret o × σ) (p : Prog S ε α) (s : σ) :
    p.Runs (answering answer) s (p.run answer s).1 (p.run answer s).2 :=
  runs_run (M := answering answer) id (fun _ _ => rfl) p s

/-- What a program with those answers comes to. -/
theorem post_run {answer : σ → (o : S.Op) → S.Ret o × σ} {p : Prog S ε α} {s : σ}
    {Q : Except ε α → σ → Prop} (h : p.wp (answering answer) s Q) :
    Q (p.run answer s).1 (p.run answer s).2 :=
  (runs_answering answer p s).post h

end Prog

end NmLogging
