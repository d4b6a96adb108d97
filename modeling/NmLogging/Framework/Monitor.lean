import NmLogging.Framework.Interleave

/-!
# Shared state under one lock

A `Monitor` is a system whose calls share a payload protected by one lock.
`Monitor.Safe` proves each call by itself: it may assume the invariant when
it takes the lock, must restore it before it releases, and needs to keep only
the weaker property `J` in between. `Monitor.reachable_always`, `reachable_free`,
`reachable_pre` and `reachable_ended` then hold in every interleaving, whatever
the number of calls: `J` always, the invariant `I` while the lock is free, the
assertion of an operation where it is next, and each ended call's postcondition
on its own view of the payload, which no other call can change.
-/

namespace NmLogging

/-- The operations of a program that uses a lock. -/
inductive LockOp (O : Type) where
  | acquire
  | release
  | act (o : O)

/-- `S` with a lock. -/
def lockSig (S : Sig) : Sig where
  Op := LockOp S.Op
  Ret
    | .acquire => Unit
    | .release => Unit
    | .act o => S.Ret o

namespace Prog

variable {S : Sig} {ε α : Type}

/-- An operation on the payload. -/
def act (o : S.Op) : Prog (lockSig S) ε (S.Ret o) := op (S := lockSig S) (.act o) ret

/-- `with lock: body`: the lock is released however the body ends. -/
def withLock (body : Prog (lockSig S) ε α) : Prog (lockSig S) ε α :=
  op (S := lockSig S) .acquire fun _ =>
    body.elim (fun a => op (S := lockSig S) .release fun _ => ret a)
      (fun e => op (S := lockSig S) .release fun _ => throw e)

theorem run_withLock {σ : Type} {answer : σ → (o : (lockSig S).Op) → (lockSig S).Ret o × σ}
    (body : Prog (lockSig S) ε α) (s : σ) :
    (withLock body).run answer s =
      ((body.run answer (answer s .acquire).2).1,
        (answer (body.run answer (answer s .acquire).2).2 .release).2) := by
  show (body.elim _ _).run answer (answer s .acquire).2 = _
  rw [run_elim]
  cases h : (body.run answer (answer s .acquire).2).1 <;>
    rw [show body.run answer (answer s .acquire).2 = (_, _) from Prod.ext h rfl] <;> rfl

end Prog

/-- The payload and the number of the call that holds the lock. -/
structure Locked (P : Type) where
  holder : Option Nat
  payload : P

/-- Calls on a payload that is only touched under its lock: their programs,
what their operations do to the payload, what taking the lock records in it,
and the view each call has of what it did itself. -/
structure Monitor (S : Sig) (ε α C P V : Type) where
  prog : C → Prog (lockSig S) ε α
  sem : Nat → C → Semantics S P
  onAcquire : Nat → C → P → P
  view : Nat → P → V
  canStart : P → List (C × Prog (lockSig S) ε α) → C → Prop := fun _ _ _ => True

namespace Monitor

variable {S : Sig} {ε α C P V : Type} (X : Monitor S ε α C P V)

/-- What an operation of the `i`-th call does to the locked payload. -/
def stepLocked (i : Nat) (c : C) (s : Locked P) :
    (o : LockOp S.Op) → (lockSig S).Ret o → Locked P → Prop
  | .acquire, _, s' => s.holder = none ∧ s' = ⟨some i, X.onAcquire i c s.payload⟩
  | .release, _, s' => s.holder = some i ∧ s' = ⟨none, s.payload⟩
  | .act o, r, s' => ∃ p, (X.sem i c).step s.payload o r p ∧ s' = ⟨s.holder, p⟩

/-- The interleavings of the calls. -/
def system : System (lockSig S) ε α C (Locked P) where
  prog := X.prog
  sem i c := { step := X.stepLocked i c }
  canStart s cs c := X.canStart s.payload cs c

/-- What one call knows: the payload while it holds the lock, and its own view. -/
structure Local (P V : Type) where
  held : Option P
  own : V

variable (I J : P → Prop)

/-- What an operation of the `i`-th call does to what the call knows. -/
def stepLocal (i : Nat) (c : C) (t : Local P V) :
    (o : LockOp S.Op) → (lockSig S).Ret o → Local P V → Prop
  | .acquire, _, t' => ∃ p, I p ∧ X.view i p = t.own ∧
      t' = ⟨some (X.onAcquire i c p), X.view i (X.onAcquire i c p)⟩
  | .release, _, t' => t' = ⟨none, t.own⟩
  | .act o, r, t' => ∃ p p', t.held = some p ∧ (X.sem i c).step p o r p' ∧
      t' = ⟨some p', X.view i p'⟩

/-- Where a call may perform an operation, from what it knows. -/
def preLocal (i : Nat) (c : C) (t : Local P V) : LockOp S.Op → Prop
  | .acquire => t.held = none
  | .release => ∃ p, t.held = some p ∧ I p
  | .act o => ∃ p, t.held = some p ∧ J p ∧ (X.sem i c).pre p o

/-- The semantics one call is proved against. -/
def localSem (i : Nat) (c : C) : Semantics (lockSig S) (Local P V) where
  step := X.stepLocal I i c
  pre := X.preLocal I J i c

/-- What a call knows while it holds the lock. -/
def holding (i : Nat) (p : P) : Local P V := ⟨some p, X.view i p⟩

section

variable {X I J} {i : Nat} {c : C} {β : Type}

/-- The rule of an operation on the payload. -/
theorem wp_act_bind {o : S.Op} {f : S.Ret o → Prog (lockSig S) ε β} {p : P}
    {Q : Except ε β → Local P V → Prop} (hJ : J p) (hpre : (X.sem i c).pre p o)
    (h : ∀ r p', (X.sem i c).step p o r p' → (f r).wp (X.localSem I J i c) (X.holding i p') Q) :
    (Prog.act o >>= f).wp (X.localSem I J i c) (X.holding i p) Q := by
  refine ⟨⟨p, rfl, hJ, hpre⟩, ?_⟩
  rintro r t ⟨q, p', hq, hstep, rfl⟩
  cases hq
  exact h r p' hstep

/-- The rule of a critical section. -/
theorem wp_withLock {body : Prog (lockSig S) ε β} {v : V} {Q : Except ε β → Local P V → Prop}
    (h : ∀ p, I p → X.view i p = v →
      body.wp (X.localSem I J i c) (X.holding i (X.onAcquire i c p)) fun res t =>
        ∃ p', t = X.holding i p' ∧ I p' ∧ Q res ⟨none, X.view i p'⟩) :
    (Prog.withLock body).wp (X.localSem I J i c) ⟨none, v⟩ Q := by
  refine ⟨rfl, ?_⟩
  rintro r t ⟨p, hp, hv, rfl⟩
  rw [Prog.wp_elim]
  refine Prog.wp_mono (h p hp hv) ?_
  rintro res t ⟨p', rfl, hI, hQ⟩
  cases res with
  | ok a => exact ⟨⟨p', rfl, hI⟩, by rintro _ _ rfl; exact hQ⟩
  | error e => exact ⟨⟨p', rfl, hI⟩, by rintro _ _ rfl; exact hQ⟩

end

/-- A call that ends has released the lock, and its view satisfies `Post`. -/
def Done (Post : C → Except ε α → V → Prop) (c : C) (res : Except ε α) (t : Local P V) : Prop :=
  t.held = none ∧ Post c res t.own

/-- Each call, by itself: from a fresh view `v₀` it takes, uses and releases
the lock as it must, and ends in `Post`. -/
structure Safe (Post : C → Except ε α → V → Prop) (v₀ : V) : Prop where
  weaken : ∀ p, I p → J p
  frame : ∀ {i j : Nat} {c : C} {p : P} {o : S.Op} {r : S.Ret o} {p' : P}, (X.sem j c).step p o r p' →
    i ≠ j → X.view i p' = X.view i p
  frame_acquire : ∀ {i j : Nat} {c : C} {p : P}, i ≠ j → X.view i (X.onAcquire j c p) = X.view i p
  call : ∀ i c, (X.prog c).wp (X.localSem I J i c) ⟨none, v₀⟩ (Done Post c)

/-- What the `i`-th call knows in a shared state. -/
def localOf (i : Nat) (s : Locked P) : Local P V where
  held := if s.holder = some i then some s.payload else none
  own := X.view i s.payload

/-- The invariant of all interleavings: the payload's while the lock is free,
and for each call what is left to prove of it. -/
structure Inv (Post : C → Except ε α → V → Prop) (v₀ : V)
    (cfg : Config (lockSig S) ε α C (Locked P)) : Prop where
  free : cfg.shared.holder = none → I cfg.shared.payload
  holder : ∀ i, cfg.shared.holder = some i → i < cfg.calls.length
  fresh : ∀ i, cfg.calls.length ≤ i → X.view i cfg.shared.payload = v₀
  call : ∀ {i : Nat} {c : C} {p : Prog (lockSig S) ε α}, cfg.calls[i]? = some (c, p) →
    p.wp (X.localSem I J i c) (X.localOf i cfg.shared) (Done Post c)

variable {X I J} {Post : C → Except ε α → V → Prop} {v₀ : V}
variable {cfg cfg' : Config (lockSig S) ε α C (Locked P)}

/-- The calls other than the `j`-th are as before where what they know is. -/
theorem Inv.call_set {j : Nat} {c : C} {q q' : Prog (lockSig S) ε α}
    {s s' : Locked P} {cs : List (C × Prog (lockSig S) ε α)} (h : X.Inv I J Post v₀ ⟨s, cs⟩)
    (hj : cs[j]? = some (c, q)) (hl : ∀ i, i ≠ j → X.localOf i s' = X.localOf i s)
    (hq : q'.wp (X.localSem I J j c) (X.localOf j s') (Done Post c)) {i : Nat} {d : C}
    {p : Prog (lockSig S) ε α} (hi : (cs.set j (c, q'))[i]? = some (d, p)) :
    p.wp (X.localSem I J i d) (X.localOf i s') (Done Post d) := by
  by_cases e : i = j
  · subst e
    rw [List.getElem?_set_self (List.getElem?_eq_some_iff.mp hj).1] at hi
    cases hi
    exact hq
  · rw [List.getElem?_set_ne (Ne.symm e)] at hi
    rw [hl i e]
    exact h.call hi

theorem Inv.step (hs : X.Safe I J Post v₀) (h : X.Inv I J Post v₀ cfg)
    (st : X.system.Step cfg cfg') : X.Inv I J Post v₀ cfg' := by
  cases st with
  | @start s cs c _ =>
    refine ⟨h.free, fun i hi => ?_, fun i hi => h.fresh i ?_, fun {i d p} hi => ?_⟩
    · rw [List.length_append]; exact Nat.lt_add_right _ (h.holder i hi)
    · simp only [List.length_append, List.length_cons, List.length_nil] at hi; exact Nat.le_of_lt hi
    · rcases getElem?_concat hi with hi | ⟨rfl, e⟩
      · exact h.call hi
      · cases e
        have hl : X.localOf cs.length s = ⟨none, v₀⟩ := by
          have hn : s.holder ≠ some cs.length := fun e => Nat.lt_irrefl _ (h.holder _ e)
          rw [localOf, h.fresh _ (Nat.le_refl _)]
          simp [hn]
        rw [hl]
        exact hs.call _ _
  | @perform s s' cs j c o k r hj hstep =>
    have hw := h.call hj
    have hlen : j < cs.length := (List.getElem?_eq_some_iff.mp hj).1
    cases o with
    | acquire =>
      obtain ⟨hfree, rfl⟩ := hstep
      have hl : ∀ i, i ≠ j → X.localOf i ⟨some j, X.onAcquire j c s.payload⟩ = X.localOf i s := by
        intro i hi
        simp [localOf, hfree, hs.frame_acquire hi, Ne.symm hi]
      refine ⟨fun e => by simp at e, fun i hi => ?_, fun i hi => ?_, h.call_set hj hl ?_⟩
      · cases hi; rw [List.length_set]; exact hlen
      · rw [List.length_set] at hi
        rw [hs.frame_acquire (by omega)]; exact h.fresh i hi
      · refine hw.2 r _ ⟨s.payload, h.free hfree, rfl, ?_⟩
        simp [localOf]
    | release =>
      obtain ⟨hheld, rfl⟩ := hstep
      have hp : I s.payload := by
        obtain ⟨p, hp, hI⟩ := hw.1
        simp only [localOf, hheld, if_true, Option.some.injEq] at hp
        exact hp ▸ hI
      have hl : ∀ i, i ≠ j → X.localOf i ⟨none, s.payload⟩ = X.localOf i s := by
        intro i hi
        simp [localOf, hheld, Ne.symm hi]
      refine ⟨fun _ => hp, fun i hi => by simp at hi, fun i hi => ?_, h.call_set hj hl ?_⟩
      · rw [List.length_set] at hi; exact h.fresh i hi
      · refine hw.2 r _ ?_
        show X.localOf j ⟨none, s.payload⟩ = ⟨none, (X.localOf j s).own⟩
        simp [localOf]
    | act o =>
      obtain ⟨p', hstep, rfl⟩ := hstep
      have hheld : s.holder = some j := by
        obtain ⟨p, hp, -⟩ := hw.1
        by_contra hne
        simp [localOf, hne] at hp
      have hl : ∀ i, i ≠ j → X.localOf i ⟨s.holder, p'⟩ = X.localOf i s := by
        intro i hi
        simp [localOf, hheld, Ne.symm hi, hs.frame hstep hi]
      refine ⟨fun e => by simp [hheld] at e, fun i hi => ?_, fun i hi => ?_, h.call_set hj hl ?_⟩
      · rw [List.length_set]; exact h.holder i hi
      · rw [List.length_set] at hi
        rw [hs.frame hstep (by omega)]; exact h.fresh i hi
      · refine hw.2 r _ ⟨s.payload, p', by simp [localOf, hheld], hstep, by simp [localOf, hheld]⟩

variable {p₀ : P}

theorem reachable_inv (hs : X.Safe I J Post v₀) (h₀ : I p₀) (hv : ∀ i, X.view i p₀ = v₀)
    (h : X.system.Reachable ⟨none, p₀⟩ cfg) : X.Inv I J Post v₀ cfg :=
  h.inv ⟨fun _ => h₀, fun i hi => by simp at hi, fun i _ => hv i, fun hi => by simp at hi⟩
    fun _ _ hi st => hi.step hs st

/-- While the lock is free the invariant holds. -/
theorem reachable_free (hs : X.Safe I J Post v₀) (h₀ : I p₀) (hv : ∀ i, X.view i p₀ = v₀)
    (h : X.system.Reachable ⟨none, p₀⟩ cfg) (hfree : cfg.shared.holder = none) :
    I cfg.shared.payload := (reachable_inv hs h₀ hv h).free hfree

/-- An ended call's postcondition holds of its view, now and later. -/
theorem reachable_ended (hs : X.Safe I J Post v₀) (h₀ : I p₀) (hv : ∀ i, X.view i p₀ = v₀)
    (h : X.system.Reachable ⟨none, p₀⟩ cfg) {i : Nat} {c : C} {res : Except ε α}
    (he : cfg.Ended i c res) : Post c res (X.view i cfg.shared.payload) := by
  obtain ⟨p, hi, hp⟩ := he
  have hw := (reachable_inv hs h₀ hv h).call hi
  cases p with
  | ret a => cases hp; exact hw.2
  | throw e => cases hp; exact hw.2
  | op o k => simp [Prog.result?] at hp

/-- At every moment, between any two operations, `J` holds. -/
theorem reachable_always (hs : X.Safe I J Post v₀) (h₀ : I p₀) (hv : ∀ i, X.view i p₀ = v₀)
    (h : X.system.Reachable ⟨none, p₀⟩ cfg) : J cfg.shared.payload := by
  have hi := reachable_inv hs h₀ hv h
  cases hh : cfg.shared.holder with
  | none => exact hs.weaken _ (hi.free hh)
  | some j =>
    obtain ⟨⟨c, p⟩, hj⟩ : ∃ e, cfg.calls[j]? = some e :=
      ⟨_, List.getElem?_eq_getElem (hi.holder j hh)⟩
    have hw := hi.call hj
    -- the call that holds the lock has an operation left, and `J` is its precondition
    cases p with
    | ret a => simp [Done, localOf, hh] at hw
    | throw e => simp [Done, localOf, hh] at hw
    | op o k =>
      cases o with
      | acquire => exact absurd hw.1 (by simp [localSem, preLocal, localOf, hh])
      | release =>
        obtain ⟨p, hp, hI⟩ := hw.1
        simp only [localOf, hh, if_true, Option.some.injEq] at hp
        exact hp ▸ hs.weaken _ hI
      | act o =>
        obtain ⟨p, hp, hJ, -⟩ := hw.1
        simp only [localOf, hh, if_true, Option.some.injEq] at hp
        exact hp ▸ hJ

/-- An operation on the payload that is next in a call is allowed there, and the
call holds the lock. -/
theorem reachable_pre (hs : X.Safe I J Post v₀) (h₀ : I p₀) (hv : ∀ i, X.view i p₀ = v₀)
    (h : X.system.Reachable ⟨none, p₀⟩ cfg) {i : Nat} {c : C} {o : S.Op}
    {k : S.Ret o → Prog (lockSig S) ε α} (hi : cfg.calls[i]? = some (c, .op (.act o) k)) :
    cfg.shared.holder = some i ∧ J cfg.shared.payload ∧ (X.sem i c).pre cfg.shared.payload o := by
  obtain ⟨p, hp, hJ, hpre⟩ := ((reachable_inv hs h₀ hv h).call hi).1
  by_cases hh : cfg.shared.holder = some i
  · simp only [localOf, hh, if_true, Option.some.injEq] at hp
    subst hp
    exact ⟨hh, hJ, hpre⟩
  · simp [localOf, hh] at hp

/-- A call by itself: taking the lock records the call, and nothing else moves. -/
def solo (i : Nat) (c : C) : Semantics (lockSig S) P where
  step p
    | .acquire, _, p' => p' = X.onAcquire i c p
    | .release, _, p' => p' = p
    | .act o, r, p' => (X.sem i c).step p o r p'

/-- What the operations of a call do while it holds the lock. -/
def inside (i : Nat) (c : C) : Semantics (lockSig S) P where
  step p
    | .acquire, _, _ => False
    | .release, _, _ => False
    | .act o, r, p' => (X.sem i c).step p o r p'

theorem runs_inside {i : Nat} {c : C} {β : Type} {body : Prog (lockSig S) ε β} {p p' : P}
    {res : Except ε β} (h : body.Runs (X.inside i c) p res p') :
    body.Runs (X.system.sem i c) ⟨some i, p⟩ res ⟨some i, p'⟩ := by
  induction h with
  | ret => exact .ret
  | throw => exact .throw
  | @op o k s s₁ s' r res hs _ ih =>
    cases o with
    | acquire => exact hs.elim
    | release => exact hs.elim
    | act o => exact .op ⟨s₁, hs, rfl⟩ ih

/-- A critical section can run where the lock is free. -/
theorem runs_withLock {i : Nat} {c : C} {β : Type} {body : Prog (lockSig S) ε β} {p p' : P}
    {res : Except ε β} (h : body.Runs (X.inside i c) (X.onAcquire i c p) res p') :
    (Prog.withLock body).Runs (X.system.sem i c) ⟨none, p⟩ res ⟨none, p'⟩ := by
  have hrel : X.stepLocked i c ⟨some i, p'⟩ .release () ⟨none, p'⟩ := ⟨rfl, rfl⟩
  refine .op (t := ⟨some i, X.onAcquire i c p⟩) (r := ()) ⟨rfl, rfl⟩ ((runs_inside h).elim ?_)
  cases res with
  | ok a => exact .op (r := ()) hrel .ret
  | error e => exact .op (r := ()) hrel .throw

end Monitor

end NmLogging
