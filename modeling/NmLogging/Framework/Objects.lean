import Mathlib.Logic.Function.Basic
import NmLogging.Framework.Linearizable

/-!
# Operations carried out by objects

Objects that each have a lock (`Objects`), and calls some of whose operations are carried out by
methods of objects (`Prog.carried`): a method is a critical section of the lock of its object, and
what it comes to is delivered as it leaves the lock. Interleaved step by step, with the critical
sections of different objects overlapping in any way (`System.carried`), the calls do nothing that
they could not do if each operation happened at once: every run is matched by a run of the system
in which it does, with the same calls ended in the same way, and with the same state of every
object whose lock is free (`exists_matches`). What is proved of the runs of that system holds down
to the locks.
-/

namespace NmLogging

open Relation (ReflTransGen)

/-- Objects, each with a lock, and what the operations do to what the lock protects. That the
lock is taken or released does nothing to it. -/
structure Objects (ι : Type) where
  sig : ι → Sig
  State : ι → Type
  sem : ∀ j, Semantics (lockSig (sig j)) (State j)
  acquire : ∀ {j s s'}, (sem j).step s .acquire () s' ↔ s' = s
  release : ∀ {j s s'}, (sem j).step s .release () s' ↔ s' = s

namespace Prog

variable {S : Sig} {ε ε' α β : Type}

/-- Every operation is on what the lock protects. -/
inductive Acts : Prog (lockSig S) ε α → Prop where
  | ret {a : α} : Acts (.ret a)
  | throw {e : ε} : Acts (.throw e)
  | op {o : S.Op} {k : S.Ret o → Prog (lockSig S) ε α} (h : ∀ r, Acts (k r)) :
    Acts (.op (S := lockSig S) (.act o) k)

theorem Acts.elim {p : Prog (lockSig S) ε α} {ok : α → Prog (lockSig S) ε' β}
    {err : ε → Prog (lockSig S) ε' β} (h : p.Acts) (hok : ∀ a, (ok a).Acts)
    (herr : ∀ e, (err e).Acts) : (p.elim ok err).Acts := by
  induction h with
  | ret => exact hok _
  | throw => exact herr _
  | op _ ih => exact .op ih

theorem Acts.bind {p : Prog (lockSig S) ε α} {f : α → Prog (lockSig S) ε β} (h : p.Acts)
    (hf : ∀ a, (f a).Acts) : (p >>= f).Acts := h.elim hf fun _ => .throw

theorem acts_act (o : S.Op) : (act o : Prog (lockSig S) ε (S.Ret o)).Acts := .op fun _ => .ret

theorem acts_acts (p : Prog S ε α) : p.acts.Acts := by
  induction p with
  | ret a => exact .ret
  | throw e => exact .throw
  | op o k ih => exact .op ih

/-- Where each operation can leave alone what is looked at, the program can end with that. -/
theorem Acts.exists_runs {σ γ : Type} {M : Semantics (lockSig S) σ} {look : σ → γ}
    {q : Prog (lockSig S) ε α} (h : q.Acts)
    (ho : ∀ o s, ∃ r s', M.step s (.act o) r s' ∧ look s' = look s) (s : σ) :
    ∃ res s', q.Runs M s res s' ∧ look s' = look s := by
  induction h generalizing s with
  | @ret a => exact ⟨.ok a, s, .ret, rfl⟩
  | @throw e => exact ⟨.error e, s, .throw, rfl⟩
  | @op o k _ ih =>
    obtain ⟨r, s₁, hstep, hlook⟩ := ho o s
    obtain ⟨res, s', hruns, hlook'⟩ := ih r s₁
    exact ⟨res, s', .op hstep hruns, hlook'.trans hlook⟩

theorem Acts.begins {σ : Type} {M : Semantics (lockSig S) σ} {p q : Prog (lockSig S) ε α}
    {s t : σ} (hp : p.Acts) (h : p.Begins M s q t) : q.Acts := by
  induction h with
  | refl => exact hp
  | op _ _ ih =>
    cases hp with
    | op hk => exact ih (hk _)

/-- A program without what it does to the lock. -/
def unlocked : Prog (lockSig S) ε α → Prog (lockSig S) ε α
  | ret a => ret a
  | throw e => throw e
  | op .acquire k => (k ()).unlocked
  | op .release k => (k ()).unlocked
  | op (.act o) k => op (S := lockSig S) (.act o) fun r => (k r).unlocked

theorem acts_unlocked (p : Prog (lockSig S) ε α) : p.unlocked.Acts := by
  induction p with
  | ret a => exact .ret
  | throw e => exact .throw
  | op o k ih =>
    cases o with
    | acquire => exact ih ()
    | release => exact ih ()
    | act o => exact .op ih

theorem Acts.unlocked_withLock {q : Prog (lockSig S) ε α} (h : q.Acts) :
    (withLock q).unlocked = q := by
  show (q.elim (fun a => Prog.op (S := lockSig S) .release fun _ => Prog.ret a)
    fun e => Prog.op (S := lockSig S) .release fun _ => Prog.throw e).unlocked = q
  induction h with
  | ret => rfl
  | throw => rfl
  | @op o k _ ih => exact congrArg (Prog.op (S := lockSig S) (.act o)) (funext ih)

/-- One critical section. -/
def IsSection (p : Prog (lockSig S) ε α) : Prop := p = withLock p.unlocked

theorem Acts.isSection {q : Prog (lockSig S) ε α} (h : q.Acts) : (withLock q).IsSection := by
  rw [IsSection, h.unlocked_withLock]

end Prog

/-! ## Methods -/

section

variable {ι : Type} {O : Objects ι} {S : Sig} {ε ε' α C σ τ : Type}

/-- A method of an object that carries out an operation with answers in `R`: one critical
section, with what may be answered when it comes to an end. -/
structure Method (O : Objects ι) (ε R : Type) where
  site : ι
  Val : Type
  prog : Prog (lockSig (O.sig site)) ε Val
  isSection : prog.IsSection
  answers : Except ε Val → R → Prop

/-- What the method does in its critical section. -/
def Method.body {R : Type} (m : Method O ε R) : Prog (lockSig (O.sig m.site)) ε m.Val :=
  m.prog.unlocked

/-- A method does what its critical section does. -/
theorem Method.runs_iff {R : Type} {m : Method O ε R} {s s' : O.State m.site}
    {res : Except ε m.Val} :
    m.prog.Runs (O.sem m.site) s res s' ↔ m.body.Runs (O.sem m.site) s res s' := by
  rw [show m.prog = Prog.withLock m.body from m.isSection]
  constructor
  · intro h
    cases h with
    | op hacquire hrest =>
      obtain rfl := O.acquire.mp hacquire
      obtain ⟨res', t, hrun, hleft⟩ := Prog.runs_elim hrest
      cases res' with
      | ok a =>
        cases hleft with
        | op hrelease hret =>
          cases hret
          obtain rfl := O.release.mp hrelease
          exact hrun
      | error e =>
        cases hleft with
        | op hrelease hthrow =>
          cases hthrow
          obtain rfl := O.release.mp hrelease
          exact hrun
  · intro h
    refine .op (O.acquire.mpr rfl) (h.elim ?_)
    cases res with
    | ok a => exact .op (O.release.mpr rfl) .ret
    | error e => exact .op (O.release.mpr rfl) .throw

/-- How operations are carried out: which of them by methods, what answers they have and what they
do to the state besides the objects, and which calls may be made after others. -/
structure Carrier (S : Sig) (O : Objects ι) (ε ε' α C τ : Type) where
  method : (o : S.Op) → Option (Method O ε' (S.Ret o))
  env : Nat → C → τ → (o : S.Op) → S.Ret o → τ → Prop
  starts : List (C × Option (Except ε α)) → C → Prop

/-- The operations of calls on objects: those that are plain; those on what a lock protects; and
that a call leaves a lock, which is the end of an operation. -/
inductive ObjectOp (S : Sig) (O : Objects ι) where
  | plain (o : S.Op)
  | on (j : ι) (o : LockOp (O.sig j).Op)
  | leave (j : ι) (o : S.Op) (answers : S.Ret o → Prop)

def objectSig (S : Sig) (O : Objects ι) : Sig where
  Op := ObjectOp S O
  Ret
    | .plain o => S.Ret o
    | .on j o => (lockSig (O.sig j)).Ret o
    | .leave _ o _ => S.Ret o

/-- A program of one object among others. -/
def Prog.on (S : Sig) (j : ι) : Prog (lockSig (O.sig j)) ε α → Prog (objectSig S O) ε α
  | ret a => ret a
  | throw e => throw e
  | op o k => op (S := objectSig S O) (.on j o) fun r => (k r).on S j

/-- What is left of a call in a critical section of which `q` is left. -/
def Method.leaving {o : S.Op} (m : Method O ε' (S.Ret o))
    (q : Prog (lockSig (O.sig m.site)) ε' m.Val)
    (next : S.Ret o → Prog (objectSig S O) ε α) : Prog (objectSig S O) ε α :=
  (q.on S m.site).elim
    (fun a => .op (S := objectSig S O) (.leave m.site o (m.answers (.ok a))) next)
    (fun e => .op (S := objectSig S O) (.leave m.site o (m.answers (.error e))) next)

/-- A program whose operations are carried out by methods. -/
def Prog.carried (K : Carrier S O ε ε' α C τ) {β : Type} :
    Prog S ε β → Prog (objectSig S O) ε β
  | ret a => ret a
  | throw e => throw e
  | op o k =>
    match K.method o with
    | none => op (S := objectSig S O) (.plain o) fun r => (k r).carried K
    | some m => op (S := objectSig S O) (.on m.site .acquire) fun _ =>
        m.leaving m.body fun r => (k r).carried K

/-- Who holds which lock, what the locks protect, and the state besides. -/
structure Guards (O : Objects ι) (τ : Type) where
  holder : ι → Option Nat
  state : ∀ j, O.State j
  rest : τ

/-- All locks are free. -/
def Guards.free (state : ∀ j, O.State j) (rest : τ) : Guards O τ := ⟨fun _ => none, state, rest⟩

variable [DecidableEq ι]

/-- What an operation of the `i`-th call does. -/
def Guards.step (env : τ → (o : S.Op) → S.Ret o → τ → Prop) (i : Nat) (t : Guards O τ) :
    (o : ObjectOp S O) → (objectSig S O).Ret o → Guards O τ → Prop
  | .plain o, r, t' => ∃ x, env t.rest o r x ∧ t' = { t with rest := x }
  | .on j .acquire, _, t' =>
    t.holder j = none ∧ t' = { t with holder := Function.update t.holder j (some i) }
  | .on j .release, _, t' =>
    t.holder j = some i ∧ t' = { t with holder := Function.update t.holder j none }
  | .on j (.act o), r, t' => ∃ x, (O.sem j).step (t.state j) (.act o) r x ∧
    t' = { t with state := Function.update t.state j x }
  | .leave j o answers, r, t' => t.holder j = some i ∧ answers r ∧ ∃ x, env t.rest o r x ∧
    t' = { t with holder := Function.update t.holder j none, rest := x }

/-- An object changes where one of its operations is performed, and nowhere else. -/
theorem Guards.step_state {env : τ → (o : S.Op) → S.Ret o → τ → Prop} {i : Nat} {t t' : Guards O τ}
    {o : ObjectOp S O} {r : (objectSig S O).Ret o} (h : t.step env i o r t') {j : ι}
    {R : O.State j → O.State j → Prop} (hrefl : ∀ y, R y y)
    (hact : ∀ {y o r y'}, (O.sem j).step y (.act o) r y' → R y y') :
    R (t.state j) (t'.state j) := by
  cases o with
  | plain o =>
    obtain ⟨x, -, rfl⟩ := h
    exact hrefl _
  | leave j' o answers =>
    obtain ⟨-, -, x, -, rfl⟩ := h
    exact hrefl _
  | on j' o =>
    cases o with
    | acquire =>
      obtain ⟨-, rfl⟩ := h
      exact hrefl _
    | release =>
      obtain ⟨-, rfl⟩ := h
      exact hrefl _
    | act o =>
      obtain ⟨y, hy, rfl⟩ := h
      show R (t.state j) (Function.update t.state j' y j)
      by_cases e : j = j'
      · subst e
        rw [Function.update_self]
        exact hact hy
      · rw [Function.update_of_ne e]
        exact hrefl _

/-- The state besides changes where an operation ends that does something to it. -/
theorem Guards.step_rest {env : τ → (o : S.Op) → S.Ret o → τ → Prop} {i : Nat} {t t' : Guards O τ}
    {o : ObjectOp S O} {r : (objectSig S O).Ret o} (h : t.step env i o r t') {R : τ → τ → Prop}
    (hrefl : ∀ x, R x x) (henv : ∀ {x o r x'}, env x o r x' → R x x') : R t.rest t'.rest := by
  cases o with
  | plain o =>
    obtain ⟨x, hx, rfl⟩ := h
    exact henv hx
  | leave j o answers =>
    obtain ⟨-, -, x, hx, rfl⟩ := h
    exact henv hx
  | on j o =>
    cases o with
    | acquire =>
      obtain ⟨-, rfl⟩ := h
      exact hrefl _
    | release =>
      obtain ⟨-, rfl⟩ := h
      exact hrefl _
    | act o =>
      obtain ⟨y, -, rfl⟩ := h
      exact hrefl _

/-- Calls, and how those ended that have. -/
def outcomes (cs : List (C × Prog S ε α)) : List (C × Option (Except ε α)) :=
  cs.map fun x => (x.1, x.2.result?)

/-- The calls of a system, whose operations are carried out by methods. -/
def System.carried (Y : System S ε α C σ) (K : Carrier S O ε ε' α C τ) :
    System (objectSig S O) ε α C (Guards O τ) where
  prog c := (Y.prog c).carried K
  sem i c := allowing (Guards.step (K.env i c) i)
  canStart _ cs c := K.starts (outcomes cs) c

/-- What methods and plain operations do is what the operations of the system do: a state of it
has a state of each object, and that besides. -/
structure Carries (Y : System S ε α C σ) (K : Carrier S O ε ε' α C τ)
    (objects : σ → ∀ j, O.State j) (rest : σ → τ) : Prop where
  canStart : ∀ {s cs c}, K.starts (outcomes cs) c → Y.canStart s cs c
  plain : ∀ {i c s o r x}, K.method o = none → K.env i c (rest s) o r x →
    ∃ s', (Y.sem i c).step s o r s' ∧ objects s' = objects s ∧ rest s' = x
  carried : ∀ {i c s o m res y r x}, K.method o = some m →
    m.prog.Runs (O.sem m.site) (objects s m.site) res y → m.answers res r →
    K.env i c (rest s) o r x → ∃ s', (Y.sem i c).step s o r s' ∧
      objects s' = Function.update (objects s) m.site y ∧ rest s' = x

/-! ## Runs that match -/

/-- Where the `i`-th call stands, of which `p` is left if operations happen at once: between two
operations, holding no lock; or inside a critical section, of whose body `q` is left, and ends as
the whole body would from the state `v` that the object had before. -/
inductive Aligned (K : Carrier S O ε ε' α C τ) (v : ∀ j, O.State j) (t : Guards O τ) (i : Nat) :
    Prog S ε α → Prog (objectSig S O) ε α → Prop where
  | between {p : Prog S ε α} (free : ∀ j, t.holder j ≠ some i) :
    Aligned K v t i p (p.carried K)
  | inside {o : S.Op} {k : S.Ret o → Prog S ε α} {m : Method O ε' (S.Ret o)}
    {q : Prog (lockSig (O.sig m.site)) ε' m.Val} (carried : K.method o = some m) (acts : q.Acts)
    (held : ∀ j, t.holder j = some i ↔ j = m.site)
    (rest : ∀ {res x}, q.Runs (O.sem m.site) (t.state m.site) res x →
      m.body.Runs (O.sem m.site) (v m.site) res x) :
    Aligned K v t i (.op o k) (m.leaving q fun r => (k r).carried K)

/-- A run down to the locks, and one in which operations happen at once. -/
structure Matches (K : Carrier S O ε ε' α C τ) (objects : σ → ∀ j, O.State j) (rest : σ → τ)
    (low : Config (objectSig S O) ε α C (Guards O τ)) (high : Config S ε α C σ) : Prop where
  length : low.calls.length = high.calls.length
  calls : ∀ {i c q}, low.calls[i]? = some (c, q) → ∃ p, high.calls[i]? = some (c, p) ∧
    Aligned K (objects high.shared) low.shared i p q
  free : ∀ j, low.shared.holder j = none → low.shared.state j = objects high.shared j
  holder : ∀ j i, low.shared.holder j = some i → i < low.calls.length
  rest : low.shared.rest = rest high.shared

variable {K : Carrier S O ε ε' α C τ} {objects : σ → ∀ j, O.State j} {rest : σ → τ}
  {Y : System S ε α C σ}

omit [DecidableEq ι] in
/-- A call that is not concerned stands where it did. -/
theorem Aligned.other {v v' : ∀ j, O.State j} {t t' : Guards O τ} {i : Nat} {p : Prog S ε α}
    {q : Prog (objectSig S O) ε α} (h : Aligned K v t i p q)
    (hholder : ∀ j, t'.holder j = some i ↔ t.holder j = some i)
    (hstate : ∀ j, t.holder j = some i → t'.state j = t.state j ∧ v' j = v j) :
    Aligned K v' t' i p q := by
  cases h with
  | between free => exact .between fun j hj => free j ((hholder j).mp hj)
  | @inside o k m q carried acts held rest =>
    obtain ⟨hst, hv⟩ := hstate m.site ((held _).mpr rfl)
    refine .inside carried acts (fun j => (hholder j).trans (held j)) fun hruns => ?_
    rw [hst] at hruns
    rw [hv]
    exact rest hruns

omit [DecidableEq ι] in
/-- A call has ended if it has where operations happen at once. -/
theorem Aligned.result? {v : ∀ j, O.State j} {t : Guards O τ} {i : Nat} {p : Prog S ε α}
    {q : Prog (objectSig S O) ε α} (h : Aligned K v t i p q) : q.result? = p.result? := by
  cases h with
  | between =>
    cases p with
    | ret a => rfl
    | throw e => rfl
    | op o k =>
      rw [Prog.carried]
      cases K.method o with
      | none => rfl
      | some m => rfl
  | inside carried acts => cases acts <;> rfl

omit [DecidableEq ι] in
/-- The same calls have been made, and those that have ended have ended in the same way. -/
theorem Matches.outcomes {low : Config (objectSig S O) ε α C (Guards O τ)}
    {high : Config S ε α C σ} (h : Matches K objects rest low high) :
    outcomes low.calls = outcomes high.calls := by
  refine List.ext_getElem? fun i => ?_
  rw [NmLogging.outcomes, NmLogging.outcomes, List.getElem?_map, List.getElem?_map]
  cases hi : low.calls[i]? with
  | none =>
    rw [List.getElem?_eq_none_iff, h.length] at hi
    rw [List.getElem?_eq_none_iff.mpr hi]
    rfl
  | some x =>
    obtain ⟨c, q⟩ := x
    obtain ⟨p, hp, haligned⟩ := h.calls hi
    rw [hp, Option.map_some, Option.map_some, haligned.result?]

omit [DecidableEq ι] in
/-- Where all other calls are aligned, and the `i`-th holds no lock, they all are. -/
theorem Matches.of_others {t : Guards O τ} {s : σ} {lows : List (C × Prog (objectSig S O) ε α)}
    {highs : List (C × Prog S ε α)} {i : Nat} {c : C} {p : Prog S ε α}
    (hlen : lows.length = highs.length) (hlow : lows[i]? = some (c, p.carried K))
    (hhigh : highs[i]? = some (c, p)) (hunheld : ∀ j, t.holder j ≠ some i)
    (hothers : ∀ {j d q}, j ≠ i → lows[j]? = some (d, q) → ∃ p, highs[j]? = some (d, p) ∧
      Aligned K (objects s) t j p q)
    (hfree : ∀ j, t.holder j = none → t.state j = objects s j)
    (hholder : ∀ j i, t.holder j = some i → i < lows.length) (hrest : t.rest = rest s) :
    Matches K objects rest ⟨t, lows⟩ ⟨s, highs⟩ := by
  refine ⟨hlen, fun {j d q} hj => ?_, hfree, hholder, hrest⟩
  by_cases e : j = i
  · subst e
    cases hlow.symm.trans hj
    exact ⟨p, hhigh, .between hunheld⟩
  · exact hothers e hj

/-- Where a call leaves the lock, its operation is done at once. -/
theorem Matches.left (hc : Carries Y K objects rest) {t : Guards O τ} {s : σ}
    {lows : List (C × Prog (objectSig S O) ε α)} {highs : List (C × Prog S ε α)} {i : Nat} {c : C}
    {o : S.Op} {k : S.Ret o → Prog S ε α} {m : Method O ε' (S.Ret o)} {res : Except ε' m.Val}
    {r : S.Ret o} {x : τ} (h : Matches K objects rest ⟨t, lows⟩ ⟨s, highs⟩) (hlt : i < lows.length)
    (hhigh : highs[i]? = some (c, .op o k)) (hmethod : K.method o = some m)
    (held : ∀ j, t.holder j = some i ↔ j = m.site)
    (hruns : m.body.Runs (O.sem m.site) (objects s m.site) res (t.state m.site))
    (hr : m.answers res r) (hx : K.env i c t.rest o r x) :
    ∃ high, Y.Step ⟨s, highs⟩ high ∧ Matches K objects rest
      ⟨{ t with holder := Function.update t.holder m.site none, rest := x },
        lows.set i (c, (k r).carried K)⟩ high := by
  have hlen : lows.length = highs.length := h.length
  rw [show t.rest = rest s from h.rest] at hx
  obtain ⟨s₁, hs₁, hobjects, hrest⟩ := hc.carried hmethod (Method.runs_iff.mpr hruns) hr hx
  have hsite : ∀ j, j ≠ m.site → Function.update t.holder m.site none j = t.holder j :=
    fun j e => Function.update_of_ne e _ _
  refine ⟨_, .perform hhigh hs₁, .of_others (p := k r) (by simp [hlen])
    (List.getElem?_set_self hlt) (List.getElem?_set_self (List.getElem?_eq_some_iff.mp hhigh).1)
    (fun j hj => ?_) (fun {j d p'} e hj => ?_) (fun j hj => ?_) (fun j l hj => ?_) hrest.symm⟩
  · by_cases e : j = m.site
    · simp [e] at hj
    · have hj : Function.update t.holder m.site none j = some i := hj
      rw [hsite j e] at hj
      exact e ((held j).mp hj)
  · rw [List.getElem?_set_ne (Ne.symm e)] at hj
    obtain ⟨p, hp, haligned⟩ := h.calls hj
    refine ⟨p, by rw [List.getElem?_set_ne (Ne.symm e)]; exact hp,
      haligned.other (fun j' => ?_) fun j' hj' => ⟨rfl, ?_⟩⟩
    · by_cases e' : j' = m.site
      · simp [e', (held m.site).mpr rfl, Ne.symm e]
      · simp [hsite j' e']
    · have e' : j' ≠ m.site := by
        intro e'
        exact e (Option.some.inj (hj'.symm.trans ((held j').mpr e')))
      rw [hobjects, Function.update_of_ne e']
  · show t.state j = objects s₁ j
    have hj : Function.update t.holder m.site none j = none := hj
    rw [hobjects]
    by_cases e : j = m.site
    · subst e
      simp
    · rw [Function.update_of_ne e]
      exact h.free j (by rwa [← hsite j e])
  · have hj : Function.update t.holder m.site none j = some l := hj
    rw [List.length_set]
    by_cases e : j = m.site
    · simp [e] at hj
    · exact h.holder j l (by rwa [← hsite j e])

/-- A step down to the locks is matched. -/
theorem Matches.step (hc : Carries Y K objects rest)
    {low low' : Config (objectSig S O) ε α C (Guards O τ)} {high : Config S ε α C σ}
    (h : Matches K objects rest low high) (hs : (Y.carried K).Step low low') :
    ∃ high', ReflTransGen Y.Step high high' ∧ Matches K objects rest low' high' := by
  obtain ⟨s, highs⟩ := high
  cases hs with
  | @start t lows c hstarts =>
    have hlen : lows.length = highs.length := h.length
    have hstart : Y.canStart s highs c := hc.canStart (h.outcomes ▸ hstarts)
    refine ⟨_, .single (.start hstart), .of_others (c := c) (p := Y.prog c) (i := lows.length)
      (by simp [hlen]) (by simp [System.carried]) (by simp [hlen])
      (fun j hj => Nat.lt_irrefl _ (h.holder j _ hj)) (fun {j d q} e hj => ?_) h.free
      (fun j i hj => ?_) h.rest⟩
    · rcases getElem?_concat hj with hj | ⟨e', -⟩
      · obtain ⟨p, hp, haligned⟩ := h.calls hj
        exact ⟨p, by
          rw [List.getElem?_append_left (List.getElem?_eq_some_iff.mp hp).1]
          exact hp, haligned⟩
      · exact absurd e' e
    · rw [List.length_append]
      exact Nat.lt_add_right _ (h.holder j i hj)
  | @perform t t' lows i c o k r hi hstep =>
    have hlen : lows.length = highs.length := h.length
    obtain ⟨p, hp, haligned⟩ := h.calls hi
    have hlt := (List.getElem?_eq_some_iff.mp hi).1
    have hlt' := (List.getElem?_eq_some_iff.mp hp).1
    generalize hq : (Prog.op o k : Prog (objectSig S O) ε α) = q at haligned
    cases haligned with
    | between unheld =>
      cases p with
      | ret a => cases hq
      | throw e => cases hq
      | op o' k' =>
        cases hmethod : K.method o' with
        | none =>
          rw [Prog.carried, hmethod] at hq
          cases hq
          obtain ⟨x, hx, rfl⟩ := hstep
          rw [show t.rest = rest s from h.rest] at hx
          obtain ⟨s₁, hs₁, hobjects, hrest⟩ := hc.plain hmethod hx
          refine ⟨_, .single (.perform hp hs₁), .of_others (p := k' r) (by simp [hlen])
            (List.getElem?_set_self hlt) (List.getElem?_set_self hlt') unheld
            (fun {j d q} e hj => ?_) (by rw [hobjects]; exact h.free)
            (by rw [List.length_set]; exact h.holder) hrest.symm⟩
          rw [List.getElem?_set_ne (Ne.symm e)] at hj
          obtain ⟨p, hp, haligned⟩ := h.calls hj
          rw [hobjects]
          exact ⟨p, by rw [List.getElem?_set_ne (Ne.symm e)]; exact hp,
            haligned.other (fun _ => Iff.rfl) fun _ _ => ⟨rfl, rfl⟩⟩
        | some m =>
          rw [Prog.carried, hmethod] at hq
          cases hq
          obtain ⟨hnone, rfl⟩ := hstep
          have hsite : ∀ j, j ≠ m.site → Function.update t.holder m.site (some i) j = t.holder j :=
            fun j e => Function.update_of_ne e _ _
          refine ⟨_, .refl, by rw [List.length_set]; exact hlen, fun {j d q} hj => ?_,
            fun j hj => ?_, fun j l hj => ?_, h.rest⟩
          · by_cases e : j = i
            · subst e
              rw [List.getElem?_set_self hlt] at hj
              cases hj
              refine ⟨_, hp, .inside hmethod (Prog.acts_unlocked _) (fun j => ?_) fun hruns => ?_⟩
              · by_cases e : j = m.site
                · simp [e]
                · simp [e, unheld j]
              · rw [← h.free m.site hnone]
                exact hruns
            · rw [List.getElem?_set_ne (Ne.symm e)] at hj
              obtain ⟨p, hp, haligned⟩ := h.calls hj
              refine ⟨p, hp, haligned.other (fun j' => ?_) fun _ _ => ⟨rfl, rfl⟩⟩
              by_cases e' : j' = m.site
              · simp [e', hnone, Ne.symm e]
              · simp [hsite j' e']
          · by_cases e : j = m.site
            · simp [e] at hj
            · exact h.free j (by rwa [← hsite j e])
          · rw [List.length_set]
            by_cases e : j = m.site
            · simp only [e, Function.update_self, Option.some.injEq] at hj
              rwa [← hj]
            · exact h.holder j l (by rwa [← hsite j e])
    | @inside o' k' m q carried acts held rest' =>
      have hheld : t.holder m.site = some i := (held _).mpr rfl
      cases acts with
      | @ret a =>
        cases hq
        obtain ⟨-, hr, x, hx, rfl⟩ := hstep
        obtain ⟨high', hs', hmatches⟩ := h.left hc hlt hp carried held (rest' .ret) hr hx
        exact ⟨high', .single hs', hmatches⟩
      | @throw e =>
        cases hq
        obtain ⟨-, hr, x, hx, rfl⟩ := hstep
        obtain ⟨high', hs', hmatches⟩ := h.left hc hlt hp carried held (rest' .throw) hr hx
        exact ⟨high', .single hs', hmatches⟩
      | @op o₁ k₁ hacts =>
        cases hq
        obtain ⟨x, hx, rfl⟩ := hstep
        have hsite : ∀ j, j ≠ m.site → Function.update t.state m.site x j = t.state j :=
          fun j e => Function.update_of_ne e _ _
        refine ⟨_, .refl, by rw [List.length_set]; exact hlen, fun {j d q} hj => ?_,
          fun j hj => ?_, fun j l hj => by rw [List.length_set]; exact h.holder j l hj, h.rest⟩
        · by_cases e : j = i
          · subst e
            rw [List.getElem?_set_self hlt] at hj
            cases hj
            refine ⟨_, hp, .inside (q := k₁ r) carried (hacts r) held fun hruns => ?_⟩
            change (k₁ r).Runs _ (Function.update t.state m.site x m.site) _ _ at hruns
            rw [Function.update_self] at hruns
            exact rest' (.op hx hruns)
          · rw [List.getElem?_set_ne (Ne.symm e)] at hj
            obtain ⟨p, hp, haligned⟩ := h.calls hj
            refine ⟨p, hp, haligned.other (fun _ => Iff.rfl) fun j' hj' => ⟨hsite j' ?_, rfl⟩⟩
            rintro rfl
            exact e (Option.some.inj (hj'.symm.trans hheld))
        · have e : j ≠ m.site := by
            rintro rfl
            cases hj.symm.trans hheld
          show Function.update t.state m.site x j = _
          rw [hsite j e]
          exact h.free j hj

/-- **Critical sections are atomic.** Every run down to the locks is matched by one in which
operations happen at once. -/
theorem exists_matches (hc : Carries Y K objects rest) {s : σ}
    {low : Config (objectSig S O) ε α C (Guards O τ)}
    (h : (Y.carried K).Reachable (.free (objects s) (rest s)) low) :
    ∃ high, Y.Reachable s high ∧ Matches K objects rest low high := by
  induction h with
  | refl =>
    exact ⟨_, .refl, rfl, by rintro i c q ⟨⟩, fun _ _ => rfl, by rintro j i ⟨⟩, rfl⟩
  | tail _ hs ih =>
    obtain ⟨high, hhigh, hmatches⟩ := ih
    obtain ⟨high', hsteps, hmatches'⟩ := hmatches.step hc hs
    exact ⟨high', hhigh.trans hsteps, hmatches'⟩

omit [DecidableEq ι] in
/-- Calls that have ended have ended in the same way. -/
theorem Matches.ended {low : Config (objectSig S O) ε α C (Guards O τ)} {high : Config S ε α C σ}
    (h : Matches K objects rest low high) {i : Nat} {c : C} {res : Except ε α}
    (he : low.Ended i c res) : high.Ended i c res := by
  obtain ⟨q, hi, hres⟩ := he
  obtain ⟨p, hp, haligned⟩ := h.calls hi
  exact ⟨p, hp, haligned.result? ▸ hres⟩

omit [DecidableEq ι] in
/-- The same calls have been made. -/
theorem Matches.map_fst {low : Config (objectSig S O) ε α C (Guards O τ)}
    {high : Config S ε α C σ} (h : Matches K objects rest low high) :
    low.calls.map Prod.fst = high.calls.map Prod.fst := by
  have hfst := congrArg (List.map Prod.fst) h.outcomes
  rwa [NmLogging.outcomes, NmLogging.outcomes, List.map_map, List.map_map] at hfst

omit [DecidableEq ι] in
/-- A lock that is taken is held by a call. -/
theorem Matches.exists_holder {low : Config (objectSig S O) ε α C (Guards O τ)}
    {high : Config S ε α C σ} (h : Matches K objects rest low high) {j : ι} {i : Nat}
    (hj : low.shared.holder j = some i) : ∃ c p q, low.calls[i]? = some (c, q) ∧
      high.calls[i]? = some (c, p) ∧ Aligned K (objects high.shared) low.shared i p q := by
  have hlow := List.getElem?_eq_getElem (h.holder j i hj)
  obtain ⟨p, hp, haligned⟩ := h.calls hlow
  exact ⟨_, p, _, hlow, hp, haligned⟩

omit [DecidableEq ι] in
/-- When all calls have ended, all locks are free. -/
theorem Matches.holder_eq_none {low : Config (objectSig S O) ε α C (Guards O τ)}
    {high : Config S ε α C σ} (h : Matches K objects rest low high)
    (hended : ∀ x ∈ low.calls, x.2.result?.isSome) (j : ι) : low.shared.holder j = none := by
  cases hj : low.shared.holder j with
  | none => rfl
  | some i =>
    obtain ⟨c, p, q, hlow, -, haligned⟩ := h.exists_holder hj
    have hsome := hended _ (List.mem_of_getElem? hlow)
    cases haligned with
    | between unheld => exact absurd hj (unheld j)
    | inside carried acts => cases acts <;> cases hsome

/-- In the middle of a critical section, an object looks as it does after some critical section,
if each operation can go unnoticed and any end of a section can be answered something. -/
theorem Matches.exists_looks (hc : Carries Y K objects rest)
    {low : Config (objectSig S O) ε α C (Guards O τ)} {high : Config S ε α C σ}
    (h : Matches K objects rest low high) {j : ι} {β : Type} {look : O.State j → β}
    {J : τ → τ → Prop} (hrefl : ∀ x, J x x)
    (hidle : ∀ o y, ∃ r y', (O.sem j).step y (.act o) r y' ∧ look y' = look y)
    (hanswers : ∀ {i c x o m} (res : Except ε' m.Val), K.method o = some m →
      ∃ r x', m.answers res r ∧ K.env i c x o r x' ∧ J x x') :
    ∃ high', ReflTransGen Y.Step high high' ∧
      look (objects high'.shared j) = look (low.shared.state j) ∧
      J low.shared.rest (rest high'.shared) := by
  cases hj : low.shared.holder j with
  | none => exact ⟨high, .refl, by rw [h.free j hj], h.rest ▸ hrefl _⟩
  | some i =>
    obtain ⟨c, p, q, -, hp, haligned⟩ := h.exists_holder hj
    cases haligned with
    | between unheld => exact absurd hj (unheld j)
    | @inside o k m q carried acts held rest' =>
      obtain rfl := (held j).mp hj
      obtain ⟨res, y, hruns, hlook⟩ := acts.exists_runs hidle (low.shared.state m.site)
      obtain ⟨r, x, hr, hx, hJ⟩ := hanswers (i := i) (c := c) (x := rest high.shared) res carried
      obtain ⟨s₁, hs₁, hobjects, hrest⟩ :=
        hc.carried carried (Method.runs_iff.mpr (rest' hruns)) hr hx
      refine ⟨_, .single (.perform hp hs₁), ?_, ?_⟩
      · show look (objects s₁ m.site) = _
        rw [hobjects, Function.update_self, hlook]
      · rw [h.rest]
        show J _ (rest s₁)
        rw [hrest]
        exact hJ

/-! ## What happens at once, step by step -/

/-- A method of the `i`-th call goes on in its critical section. -/
theorem begins_leaving {i : Nat} {env : τ → (o : S.Op) → S.Ret o → τ → Prop} {o : S.Op}
    {m : Method O ε' (S.Ret o)} {q q' : Prog (lockSig (O.sig m.site)) ε' m.Val} (acts : q.Acts)
    {next : S.Ret o → Prog (objectSig S O) ε α} {t : Guards O τ} {y : O.State m.site}
    (h : q.Begins (O.sem m.site) (t.state m.site) q' y) :
    (m.leaving q next).Begins (allowing (Guards.step env i)) t (m.leaving q' next)
      { t with state := Function.update t.state m.site y } := by
  generalize hs : t.state m.site = s at h
  induction h generalizing t with
  | refl =>
    rw [← hs, Function.update_eq_self]
    exact .refl
  | @op o' k q s s₁ s' r hstep _ ih =>
    cases acts with
    | op hacts =>
      have hrest := ih (hacts r) (t := { t with state := Function.update t.state m.site s₁ })
        (Function.update_self _ _ _)
      rw [Function.update_idem] at hrest
      exact .op ⟨s₁, hs ▸ hstep, rfl⟩ hrest

/-- It comes to its end, and leaves the lock. -/
theorem begins_next {i : Nat} {env : τ → (o : S.Op) → S.Ret o → τ → Prop} {o : S.Op}
    {m : Method O ε' (S.Ret o)} {q : Prog (lockSig (O.sig m.site)) ε' m.Val} (acts : q.Acts)
    {next : S.Ret o → Prog (objectSig S O) ε α} {state : ∀ j, O.State j} {x x' : τ}
    {res : Except ε' m.Val} {y : O.State m.site} {r : S.Ret o}
    (hruns : q.Runs (O.sem m.site) (state m.site) res y) (hr : m.answers res r)
    (hx : env x o r x') :
    (m.leaving q next).Begins (allowing (Guards.step env i))
      ⟨Function.update (fun _ => none) m.site (some i), state, x⟩ (next r)
      (.free (Function.update state m.site y) x') := by
  have held : Function.update (fun _ : ι => (none : Option Nat)) m.site (some i) m.site = some i :=
    Function.update_self _ _ _
  have hfree : (⟨Function.update (Function.update (fun _ => none) m.site (some i)) m.site none,
      Function.update state m.site y, x'⟩ : Guards O τ) =
        .free (Function.update state m.site y) x' := by
    rw [Guards.free, Function.update_idem, Function.update_eq_self_iff.mpr rfl]
  rw [← hfree]
  refine (begins_leaving acts hruns.begins).trans ?_
  cases res with
  | ok a => exact .op ⟨held, hr, x', hx, rfl⟩ .refl
  | error e => exact .op ⟨held, hr, x', hx, rfl⟩ .refl

/-- An operation that is carried out by a method begins with the lock of its object. -/
theorem begins_method {i : Nat} {env : τ → (o : S.Op) → S.Ret o → τ → Prop} {o : S.Op}
    {m : Method O ε' (S.Ret o)} (hm : K.method o = some m) {k : S.Ret o → Prog S ε α}
    {state : ∀ j, O.State j} {x : τ} :
    ((Prog.op o k).carried K).Begins (allowing (Guards.step env i)) (.free state x)
      (m.leaving m.body fun r => (k r).carried K)
      ⟨Function.update (fun _ => none) m.site (some i), state, x⟩ := by
  rw [Prog.carried, hm]
  exact .op (r := ()) ⟨rfl, rfl⟩ .refl

/-- The middle of a method, and what comes after it. -/
theorem exists_middle {i : Nat} {env : τ → (o : S.Op) → S.Ret o → τ → Prop} {o : S.Op}
    {m : Method O ε' (S.Ret o)} (hm : K.method o = some m) {k : S.Ret o → Prog S ε α}
    {state : ∀ j, O.State j} {x x' : τ} {q : Prog (lockSig (O.sig m.site)) ε' m.Val}
    {y y' : O.State m.site} {res : Except ε' m.Val} {r : S.Ret o}
    (hpart : m.body.Begins (O.sem m.site) (state m.site) q y)
    (hrest : q.Runs (O.sem m.site) y res y') (hr : m.answers res r) (hx : env x o r x') :
    ∃ p, ((Prog.op o k).carried K).Begins (allowing (Guards.step env i)) (.free state x) p
        ⟨Function.update (fun _ => none) m.site (some i), Function.update state m.site y, x⟩ ∧
      p.Begins (allowing (Guards.step env i))
        ⟨Function.update (fun _ => none) m.site (some i), Function.update state m.site y, x⟩
        ((k r).carried K) (.free (Function.update state m.site y') x') := by
  have acts : m.body.Acts := Prog.acts_unlocked _
  refine ⟨_, (begins_method hm).trans (begins_leaving acts hpart), ?_⟩
  have hnext : (m.leaving q fun r => (k r).carried K).Begins (allowing (Guards.step env i))
      ⟨Function.update (fun _ => none) m.site (some i), Function.update state m.site y, x⟩
      ((k r).carried K) (.free (Function.update (Function.update state m.site y) m.site y') x') :=
    begins_next (acts.begins hpart) (by rwa [Function.update_self]) hr hx
  rwa [Function.update_idem] at hnext

/-- What a call does by itself, if operations happen at once, it also does step by step. -/
theorem begins_carried {i : Nat} {c : C} {M : Semantics S σ} {P : σ → Prop}
    (hP : ∀ {s o r s'}, M.step s o r s' → P s' → P s)
    (hM : ∀ {s o r s'}, M.step s o r s' → P s' →
      (K.method o = none ∧ objects s' = objects s ∧ K.env i c (rest s) o r (rest s')) ∨
      ∃ m res y, K.method o = some m ∧ m.prog.Runs (O.sem m.site) (objects s m.site) res y ∧
        objects s' = Function.update (objects s) m.site y ∧ m.answers res r ∧
        K.env i c (rest s) o r (rest s'))
    {p q : Prog S ε α} {s s' : σ} (h : p.Begins M s q s') (hs' : P s') :
    (p.carried K).Begins (allowing (Guards.step (K.env i c) i)) (.free (objects s) (rest s))
      (q.carried K) (.free (objects s') (rest s')) := by
  induction h with
  | refl => exact .refl
  | @op o k q s t s' r hs hrest ih =>
    specialize ih hs'
    rcases hM hs (hrest.held hP hs') with
      ⟨hnone, hobjects, henv⟩ | ⟨m, res', y, hsome, hruns, hobjects, hr, henv⟩
    · rw [Prog.carried, hnone]
      rw [hobjects] at ih
      exact .op ⟨_, henv, rfl⟩ ih
    · rw [hobjects] at ih
      exact (begins_method hsome).trans
        ((begins_next (Prog.acts_unlocked _) (Method.runs_iff.mp hruns) hr henv).trans ih)

omit [DecidableEq ι] in
theorem carried_ended (res : Except ε α) :
    (Prog.ended res : Prog S ε α).carried K = .ended res := by
  cases res <;> rfl

end

end NmLogging
