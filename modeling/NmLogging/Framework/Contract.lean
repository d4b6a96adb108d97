import NmLogging.Framework.Interleave

/-!
# Contracts of interleaved calls

Often it can be told from a call alone which operations it performs. A `Contract` says which
operations may be performed and what may be answered, and a program that keeps to it performs
no other, whatever it is answered (`Prog.Keeps`). Then it does not matter how calls are
interleaved: in every run each operation is allowed where it is performed
(`Reachable.keeps`), so a property of the shared state need only be kept by operations that
are allowed (`Reachable.holds`). What some operations break and others mend, a program as a whole
may still preserve (`Prog.Preserves`).
-/

namespace NmLogging

open Relation (ReflTransGen)

/-- The operations that may be performed, and what they may be answered. -/
structure Contract (S : Sig) where
  allowed : S.Op → Prop
  answers : (o : S.Op) → S.Ret o → Prop := fun _ _ => True

/-- The semantics of a contract: it has no state. -/
def Contract.sem {S : Sig} (K : Contract S) : Semantics S Unit where
  pre _ := K.allowed
  step _ o r _ := K.answers o r

namespace Prog

variable {S : Sig} {ε ε' α β : Type} {K : Contract S}

/-- A program that performs only operations that the contract allows, and ends as `post` says. -/
abbrev Keeps (K : Contract S) (p : Prog S ε α) (post : Except ε α → Prop) : Prop :=
  p.wp K.sem () fun res _ => post res

variable {post post' : Except ε α → Prop} {post'' : Except ε' β → Prop}

theorem keeps_op {o : S.Op} {k : S.Ret o → Prog S ε α} :
    (op o k).Keeps K post ↔ K.allowed o ∧ ∀ r, K.answers o r → (k r).Keeps K post :=
  ⟨fun h => ⟨h.1, fun r => h.2 r ()⟩, fun h => ⟨h.1, fun r _ => h.2 r⟩⟩

theorem Keeps.mono {p : Prog S ε α} (h : p.Keeps K post) (hpost : ∀ res, post res → post' res) :
    p.Keeps K post' :=
  wp_mono h fun res _ => hpost res

theorem Keeps.elim {p : Prog S ε α} {ok : α → Prog S ε' β} {err : ε → Prog S ε' β}
    (h : p.Keeps K post) (hok : ∀ a, post (.ok a) → (ok a).Keeps K post'')
    (herr : ∀ e, post (.error e) → (err e).Keeps K post'') : (p.elim ok err).Keeps K post'' := by
  refine (wp_elim _ _ _ _ _).mpr (wp_mono h fun res _ hres => ?_)
  cases res with
  | ok a => exact hok a hres
  | error e => exact herr e hres

theorem Keeps.bind {p : Prog S ε α} {f : α → Prog S ε β} {post'' : Except ε β → Prop}
    (h : p.Keeps K post) (hok : ∀ a, post (.ok a) → (f a).Keeps K post'')
    (herr : ∀ e, post (.error e) → post'' (.error e)) : (p >>= f).Keeps K post'' :=
  h.elim hok herr

/-! ## What programs preserve -/

section

variable {σ : Type} {M : Semantics S σ} {J : σ → Prop}

/-- From states in `J`, a program ends in `J`, wherever it is in between. -/
def Preserves (M : Semantics S σ) (J : σ → Prop) (p : Prog S ε α) : Prop :=
  ∀ s, J s → p.wp M s fun _ s' => J s'

theorem preserves_ret {a : α} : (ret a : Prog S ε α).Preserves M J := fun _ h => h

theorem preserves_throw {e : ε} : (throw e : Prog S ε α).Preserves M J := fun _ h => h

/-- An operation that keeps `J`. -/
theorem Preserves.op {o : S.Op} {k : S.Ret o → Prog S ε α} (hpre : ∀ s, M.pre s o)
    (hstep : ∀ {s r s'}, M.step s o r s' → J s → J s') (hk : ∀ r, (k r).Preserves M J) :
    (op o k).Preserves M J :=
  fun s h => ⟨hpre s, fun r s' hs => hk r s' (hstep hs h)⟩

theorem Preserves.elim {p : Prog S ε α} {ok : α → Prog S ε' β} {err : ε → Prog S ε' β}
    (h : p.Preserves M J) (hok : ∀ a, (ok a).Preserves M J) (herr : ∀ e, (err e).Preserves M J) :
    (p.elim ok err).Preserves M J := by
  refine fun s hs => (wp_elim _ _ _ _ _).mpr (wp_mono (h s hs) fun res s' hs' => ?_)
  cases res with
  | ok a => exact hok a s' hs'
  | error e => exact herr e s' hs'

theorem Preserves.bind {p : Prog S ε α} {f : α → Prog S ε β} (h : p.Preserves M J)
    (hok : ∀ a, (f a).Preserves M J) : (p >>= f).Preserves M J :=
  h.elim hok fun _ => preserves_throw

theorem preserves_ofExcept {x : Except ε α} : (ofExcept x : Prog S ε α).Preserves M J := by
  cases x with
  | ok a => exact preserves_ret
  | error e => exact preserves_throw

theorem Preserves.runs {p : Prog S ε α} (h : p.Preserves M J) {s s' : σ} {res : Except ε α}
    (hr : p.Runs M s res s') (hs : J s) : J s' := hr.post (h s hs)

end

end Prog

namespace System

variable {S : Sig} {ε α C σ : Type} {Y : System S ε α C σ} {K : Contract S}
  {post : C → Except ε α → Prop}

/-- What is left of each call keeps to the contract. -/
def Keeping (K : Contract S) (post : C → Except ε α → Prop) (cs : List (C × Prog S ε α)) : Prop :=
  ∀ (i : Nat) (c : C) (p : Prog S ε α), cs[i]? = some (c, p) → p.Keeps K (post c)

/-- A system whose operations answer as the contract says, and whose calls keep to it where
those made before did. -/
structure KeepsTo (Y : System S ε α C σ) (K : Contract S) (post : C → Except ε α → Prop) :
    Prop where
  answers : ∀ {i : Nat} {c : C} {s : σ} {o : S.Op} {r : S.Ret o} {s' : σ},
    (Y.sem i c).step s o r s' → K.answers o r
  start : ∀ {s : σ} {cs : List (C × Prog S ε α)} {c : C}, Keeping K post cs →
    Y.canStart s cs c → (Y.prog c).Keeps K (post c)

/-- A call that has ended did so as it should. -/
theorem Keeping.ended {cs : List (C × Prog S ε α)} (h : Keeping K post cs) {i : Nat} {c : C}
    {p : Prog S ε α} {res : Except ε α} (hi : cs[i]? = some (c, p)) (hr : p.result? = some res) :
    post c res := by
  have hp := h i c p hi
  cases p with
  | ret a => cases hr; exact hp
  | throw e => cases hr; exact hp
  | op o k => cases hr

/-- The operation that a call performs next is allowed. -/
theorem Keeping.next {cs : List (C × Prog S ε α)} (h : Keeping K post cs) {i : Nat} {c : C}
    {o : S.Op} {k : S.Ret o → Prog S ε α} (hi : cs[i]? = some (c, .op o k)) : K.allowed o :=
  (h i c _ hi).1

variable {s : σ} {cfg : Config S ε α C σ}

theorem KeepsTo.step (hY : Y.KeepsTo K post) {cfg cfg' : Config S ε α C σ}
    (h : Keeping K post cfg.calls) (hs : Y.Step cfg cfg') : Keeping K post cfg'.calls := by
  intro j d p hj
  cases hs with
  | start hc =>
    rcases getElem?_concat hj with hj | ⟨rfl, e⟩
    · exact h j d p hj
    · cases e
      exact hY.start h hc
  | @perform _ _ cs i _ o k r hi hstep =>
    by_cases e : j = i
    · subst e
      obtain ⟨hlt, -⟩ := List.getElem?_eq_some_iff.mp hi
      cases (List.getElem?_set_self hlt).symm.trans hj
      exact (Prog.keeps_op.mp (h j d _ hi)).2 r (hY.answers hstep)
    · rw [List.getElem?_set_ne (Ne.symm e)] at hj
      exact h j d p hj

/-- The calls of every run keep to the contract. -/
theorem Reachable.keeps (h : Y.Reachable s cfg) (hY : Y.KeepsTo K post) :
    Keeping K post cfg.calls :=
  Reachable.inv (I := fun cfg => Keeping K post cfg.calls) h (fun i c p hi => by cases hi)
    fun _ _ => hY.step

/-- What the operations that are allowed keep holds from then on. -/
theorem KeepsTo.later (hY : Y.KeepsTo K post) {J : σ → Prop} {cfg cfg' : Config S ε α C σ}
    (h : Keeping K post cfg.calls) (h₀ : J cfg.shared)
    (hkeep : ∀ {i c s o r s'}, K.allowed o → (Y.sem i c).step s o r s' → J s → J s')
    (hr : ReflTransGen Y.Step cfg cfg') : J cfg'.shared := by
  suffices Keeping K post cfg'.calls ∧ J cfg'.shared from this.2
  induction hr with
  | refl => exact ⟨h, h₀⟩
  | tail _ hs ih =>
    obtain ⟨hI, hJ⟩ := ih
    refine ⟨hY.step hI hs, ?_⟩
    cases hs with
    | start _ => exact hJ
    | perform hi hstep => exact hkeep (hI.next hi) hstep hJ

/-- What the operations that are allowed keep holds in every run. -/
theorem Reachable.holds {J : σ → Prop} (h : Y.Reachable s cfg) (hY : Y.KeepsTo K post) (h₀ : J s)
    (hkeep : ∀ {i c s o r s'}, K.allowed o → (Y.sem i c).step s o r s' → J s → J s') :
    J cfg.shared :=
  hY.later (fun i c p hi => by cases hi) h₀ hkeep h

end System

end NmLogging
