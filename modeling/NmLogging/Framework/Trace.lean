import NmLogging.Framework.Prog

/-!
# What a run performs

The operations that a run of a program performs, with the answers that it gets
(`Prog.Traces`). A run over a state is a trace that the semantics follows
(`Prog.runs_iff_traces`), so a property of all traces holds of every run, whatever
the state is, and two runs can be compared by what they did. Notes may be taken of what the
operations of a run do (`Semantics.noting`).
-/

namespace NmLogging

/-- An operation with its answer. -/
structure Performed (S : Sig) where
  op : S.Op
  answer : S.Ret op

/-- The states before and after operations with their answers. -/
inductive Semantics.Follows {S : Sig} {σ : Type} (M : Semantics S σ) :
    σ → List (Performed S) → σ → Prop where
  | nil {s : σ} : M.Follows s [] s
  | cons {s t s' : σ} {o : S.Op} {r : S.Ret o} {tr : List (Performed S)} :
    M.step s o r t → M.Follows t tr s' → M.Follows s (⟨o, r⟩ :: tr) s'

namespace Prog

variable {S : Sig} {ε ε' α β : Type}

/-- What a program can perform, and how it then ends. -/
inductive Traces : Prog S ε α → List (Performed S) → Except ε α → Prop where
  | ret {a : α} : Traces (ret a) [] (.ok a)
  | throw {e : ε} : Traces (throw e) [] (.error e)
  | op {o : S.Op} {k : S.Ret o → Prog S ε α} {r : S.Ret o} {tr : List (Performed S)}
    {res : Except ε α} : Traces (k r) tr res → Traces (op o k) (⟨o, r⟩ :: tr) res

theorem traces_ret {a : α} {tr : List (Performed S)} {res : Except ε α} :
    (ret a).Traces tr res ↔ tr = [] ∧ res = .ok a := by
  constructor
  · rintro ⟨⟩; exact ⟨rfl, rfl⟩
  · rintro ⟨rfl, rfl⟩; exact .ret

theorem traces_throw {e : ε} {tr : List (Performed S)} {res : Except ε α} :
    (throw e).Traces tr res ↔ tr = [] ∧ res = .error e := by
  constructor
  · rintro ⟨⟩; exact ⟨rfl, rfl⟩
  · rintro ⟨rfl, rfl⟩; exact .throw

theorem traces_op {o : S.Op} {k : S.Ret o → Prog S ε α} {tr : List (Performed S)}
    {res : Except ε α} :
    (op o k).Traces tr res ↔ ∃ r tr', tr = ⟨o, r⟩ :: tr' ∧ (k r).Traces tr' res := by
  constructor
  · rintro ⟨⟩; exact ⟨_, _, rfl, ‹_›⟩
  · rintro ⟨r, tr', rfl, h⟩; exact .op h

/-- A trace of `try … except … else …` is one of the body and one of what follows. -/
theorem traces_elim {p : Prog S ε α} {ok : α → Prog S ε' β} {err : ε → Prog S ε' β}
    {tr : List (Performed S)} {res : Except ε' β} :
    (p.elim ok err).Traces tr res ↔ ∃ tr₁ tr₂ r, tr = tr₁ ++ tr₂ ∧ p.Traces tr₁ r ∧
      (match r with | .ok a => ok a | .error e => err e).Traces tr₂ res := by
  induction p generalizing tr with
  | ret a =>
    constructor
    · exact fun h => ⟨[], tr, .ok a, rfl, .ret, h⟩
    · rintro ⟨_, tr₂, _, rfl, ⟨⟩, h⟩; exact h
  | throw e =>
    constructor
    · exact fun h => ⟨[], tr, .error e, rfl, .throw, h⟩
    · rintro ⟨_, tr₂, _, rfl, ⟨⟩, h⟩; exact h
  | op o k ih =>
    rw [elim_op, traces_op]
    constructor
    · rintro ⟨r, tr', rfl, h⟩
      obtain ⟨tr₁, tr₂, r', rfl, h₁, h₂⟩ := (ih r).mp h
      exact ⟨⟨o, r⟩ :: tr₁, tr₂, r', rfl, .op h₁, h₂⟩
    · rintro ⟨_, tr₂, r', rfl, h₁, h₂⟩
      obtain ⟨r, tr₁, rfl, hr⟩ := traces_op.mp h₁
      exact ⟨r, tr₁ ++ tr₂, rfl, (ih r).mpr ⟨tr₁, tr₂, r', rfl, hr, h₂⟩⟩

theorem Traces.bind {p : Prog S ε α} {f : α → Prog S ε β} {tr₁ tr₂ : List (Performed S)} {a : α}
    {res : Except ε β} (h : p.Traces tr₁ (.ok a)) (h' : (f a).Traces tr₂ res) :
    (p >>= f).Traces (tr₁ ++ tr₂) res :=
  traces_elim.mpr ⟨tr₁, tr₂, .ok a, rfl, h, h'⟩

/-- Of all that was performed, a program determines what is its own, and how it ended. -/
theorem Traces.unique_prefix {p : Prog S ε α} {tr tr' rest rest' : List (Performed S)}
    {res res' : Except ε α} (h : p.Traces tr res) (h' : p.Traces tr' res')
    (happend : tr ++ rest = tr' ++ rest') : tr = tr' ∧ rest = rest' ∧ res = res' := by
  induction h generalizing tr' with
  | ret =>
    obtain ⟨rfl, rfl⟩ := traces_ret.mp h'
    exact ⟨rfl, happend, rfl⟩
  | throw =>
    obtain ⟨rfl, rfl⟩ := traces_throw.mp h'
    exact ⟨rfl, happend, rfl⟩
  | op _ ih =>
    obtain ⟨r', tr'', rfl, hnext⟩ := traces_op.mp h'
    obtain ⟨hhead, htail⟩ := List.cons.inj happend
    cases hhead
    obtain ⟨rfl, hrest, hres⟩ := ih hnext htail
    exact ⟨rfl, hrest, hres⟩

/-- The trace of a program with the answers a function gives. -/
def trace (answer : (o : S.Op) → S.Ret o) : Prog S ε α → List (Performed S) × Except ε α
  | ret a => ([], .ok a)
  | throw e => ([], .error e)
  | op o k =>
    let rest := (k (answer o)).trace answer
    (⟨o, answer o⟩ :: rest.1, rest.2)

theorem traces_trace (answer : (o : S.Op) → S.Ret o) (p : Prog S ε α) :
    p.Traces (p.trace answer).1 (p.trace answer).2 := by
  induction p with
  | ret a => exact .ret
  | throw e => exact .throw
  | op o k ih => exact .op (ih _)

/-- Where answers satisfy the step of a semantics with one state, a trace satisfies what the
semantics asks of operations, and ends as the weakest precondition says. -/
theorem Traces.pre {M : Semantics S Unit} {p : Prog S ε α} {tr : List (Performed S)}
    {res : Except ε α} {Q : Except ε α → Unit → Prop} (h : p.Traces tr res)
    (hstep : ∀ x ∈ tr, M.step () x.op x.answer ()) (hp : p.wp M () Q) :
    (∀ x ∈ tr, M.pre () x.op) ∧ Q res () := by
  induction h with
  | ret => exact ⟨nofun, hp⟩
  | throw => exact ⟨nofun, hp⟩
  | op _ ih =>
    obtain ⟨hx, hrest⟩ := List.forall_mem_cons.mp hstep
    obtain ⟨htr, hres⟩ := ih hrest (hp.2 _ _ hx)
    exact ⟨List.forall_mem_cons.mpr ⟨hp.1, htr⟩, hres⟩

/-- A rule for semantics with one state. -/
theorem wp_elim_true {M : Semantics S Unit} {p : Prog S ε α} {ok : α → Prog S ε' β}
    {err : ε → Prog S ε' β} (hp : p.wp M () fun _ _ => True)
    (hok : ∀ a, (ok a).wp M () fun _ _ => True) (herr : ∀ e, (err e).wp M () fun _ _ => True) :
    (p.elim ok err).wp M () fun _ _ => True := by
  rw [wp_elim]
  refine wp_mono hp fun res _ _ => ?_
  cases res with
  | ok a => exact hok a
  | error e => exact herr e

/-- A run is a trace that its semantics follows. -/
theorem runs_iff_traces {σ : Type} {M : Semantics S σ} {p : Prog S ε α} {s s' : σ}
    {res : Except ε α} : Runs M p s res s' ↔ ∃ tr, p.Traces tr res ∧ M.Follows s tr s' := by
  constructor
  · intro h
    induction h with
    | ret => exact ⟨[], .ret, .nil⟩
    | throw => exact ⟨[], .throw, .nil⟩
    | op hs _ ih =>
      obtain ⟨tr, ht, hf⟩ := ih
      exact ⟨_, .op ht, .cons hs hf⟩
  · rintro ⟨tr, ht, hf⟩
    induction ht generalizing s with
    | ret => cases hf; exact .ret
    | throw => cases hf; exact .throw
    | op _ ih =>
      obtain _ | ⟨hs, hf⟩ := hf
      exact .op hs (ih hf)

end Prog

/-! ## Notes -/

section

variable {S : Sig} {σ β ε α : Type}

/-- What the operations do, where what `note` says of each one is added to a list. -/
def Semantics.noting (M : Semantics S σ) (note : σ → (o : S.Op) → S.Ret o → List β) :
    Semantics S (σ × List β) where
  step s o r s' := M.step s.1 o r s'.1 ∧ s'.2 = s.2 ++ note s'.1 o r
  pre s o := M.pre s.1 o

variable {M : Semantics S σ} {note : σ → (o : S.Op) → S.Ret o → List β}

/-- Notes can be taken of every run. -/
theorem Prog.Runs.noted {p : Prog S ε α} {s s' : σ} {res : Except ε α} (h : p.Runs M s res s')
    (notes : List β) : ∃ notes', p.Runs (M.noting note) (s, notes) res (s', notes') := by
  induction h generalizing notes with
  | ret => exact ⟨notes, .ret⟩
  | throw => exact ⟨notes, .throw⟩
  | @op o _ s t _ r _ hs _ ih =>
    have hstep : (M.noting note).step (s, notes) o r (t, notes ++ note t o r) := ⟨hs, rfl⟩
    obtain ⟨notes', h'⟩ := ih _
    exact ⟨notes', .op hstep h'⟩

/-- What is true of every note of a step is true of the notes of a run. -/
theorem Prog.Runs.forall_notes {P : β → Prop}
    (hP : ∀ {s o r s'}, M.step s o r s' → ∀ b ∈ note s' o r, P b) {p : Prog S ε α}
    {s s' : σ × List β} {res : Except ε α} (h : p.Runs (M.noting note) s res s')
    (hs : ∀ b ∈ s.2, P b) : ∀ b ∈ s'.2, P b := by
  induction h with
  | ret => exact hs
  | throw => exact hs
  | op hstep _ ih =>
    refine ih fun b hb => ?_
    rw [hstep.2] at hb
    rcases List.mem_append.mp hb with hb | hb
    · exact hs b hb
    · exact hP hstep.1 b hb

/-- The answers that a function gives, with notes. -/
def noteAnswer (note : σ → (o : S.Op) → S.Ret o → List β)
    (answer : σ → (o : S.Op) → Option (S.Ret o × σ)) (s : σ × List β) (o : S.Op) :
    Option (S.Ret o × (σ × List β)) :=
  (answer s.1 o).map fun (r, t) => (r, (t, s.2 ++ note t o r))

theorem step_of_noteAnswer {answer : σ → (o : S.Op) → Option (S.Ret o × σ)}
    (ha : ∀ {s o r s'}, answer s o = some (r, s') → M.step s o r s') {s s' : σ × List β} {o : S.Op}
    {r : S.Ret o} (h : noteAnswer note answer s o = some (r, s')) :
    (M.noting note).step s o r s' := by
  obtain ⟨⟨r', t⟩, hanswer, heq⟩ := Option.map_eq_some_iff.mp h
  cases heq
  exact ⟨ha hanswer, rfl⟩

end

end NmLogging
