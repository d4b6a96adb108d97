import NmLogging.Framework.Interleave

/-!
# Calls on separate cells

In many systems the shared state consists of cells, and each call uses one of them: the one
with the call's key. `Cells` states it of a system: an operation changes the view of its own
call's cell as a local semantics says, and of no other cell.

Interleaving then does not matter. It is enough to prove each call alone, on its cell
(`Cells.Sound.begin`), and that calls with one key are not made at the same time; then in
every run each cell only moves by allowed operations, is `Idle` while no call uses it, and
each call that ended keeps its postcondition (`Cells.Sound.inv`, `Cells.Sound.runs`). What
a call does from a cell in a state that is never left is `Cells.Sound.later`.
-/

namespace NmLogging

open Relation (ReflTransGen)

namespace Prog

variable {S : Sig} {ε α σ : Type} {M : Semantics S σ}

theorem wp_of_result {p : Prog S ε α} {res : Except ε α} (h : p.result? = some res) {s : σ}
    {Q : Except ε α → σ → Prop} : p.wp M s Q ↔ Q res s := by
  cases p with
  | ret a => cases h; rfl
  | throw e => cases h; rfl
  | op o k => cases h

end Prog

variable {S : Sig} {ε α C σ V : Type} {Y : System S ε α C σ}

/-- The cells of the shared state, and what operations do to them. -/
structure Cells (Y : System S ε α C σ) (V : Type) where
  key : Nat → C → Nat
  view : σ → Nat → V
  /-- What an operation of a call does to the cell with the call's key. -/
  sem : Nat → Semantics S V
  own {i : Nat} {c : C} {s s' : σ} {o : S.Op} {r : S.Ret o} :
    (sem (key i c)).pre (view s (key i c)) o → (Y.sem i c).step s o r s' →
      (sem (key i c)).step (view s (key i c)) o r (view s' (key i c))
  other {i : Nat} {c : C} {s s' : σ} {o : S.Op} {r : S.Ret o} {k : Nat} :
    (sem (key i c)).pre (view s (key i c)) o → (Y.sem i c).step s o r s' → k ≠ key i c →
      view s' k = view s k

namespace Cells

variable (K : Cells Y V)

/-- One allowed operation on the cell `k`. -/
def Moves (k : Nat) (v v' : V) : Prop :=
  ∃ (o : S.Op) (r : S.Ret o), (K.sem k).pre v o ∧ (K.sem k).step v o r v'

/-- What is promised of cells: how an unused one looks, what holds of one that no call is
using, and what holds of the cell of a call that ended. -/
structure Spec (C ε α V : Type) where
  start : V
  Idle : Nat → V → Prop
  Post : Nat → C → Except ε α → V → Prop

variable (P : Spec C ε α V)

/-- A call on the cell `k`, alone, keeps the promises. -/
def Safe (k : Nat) (c : C) (p : Prog S ε α) (v : V) : Prop :=
  p.wp (K.sem k) v fun res v' => P.Idle k v' ∧ P.Post k c res v'

/-- The promises hold of a configuration, and the calls that are being made will keep them. -/
structure Inv (cfg : Config S ε α C σ) : Prop where
  fresh : ∀ k, cfg.calls.length ≤ k → K.view cfg.shared k = P.start
  idle : ∀ k, (∀ (i : Nat) (c : C) (p : Prog S ε α), cfg.calls[i]? = some (c, p) →
    K.key i c = k → p.result? ≠ none) → P.Idle k (K.view cfg.shared k)
  running : ∀ (i : Nat) (c : C) (p : Prog S ε α), cfg.calls[i]? = some (c, p) →
    p.result? = none → K.Safe P (K.key i c) c p (K.view cfg.shared (K.key i c))
  ended : ∀ (i : Nat) (c : C) (p : Prog S ε α) (res : Except ε α),
    cfg.calls[i]? = some (c, p) → p.result? = some res →
      P.Post (K.key i c) c res (K.view cfg.shared (K.key i c))
  key_le : ∀ (i : Nat) (c : C) (p : Prog S ε α), cfg.calls[i]? = some (c, p) → K.key i c ≤ i
  exclusive : ∀ (i j : Nat) (c c' : C) (p p' : Prog S ε α), cfg.calls[i]? = some (c, p) →
    cfg.calls[j]? = some (c', p') → p.result? = none → p'.result? = none →
      K.key i c = K.key j c' → i = j

/-- What has to be proved of a system: moves keep postconditions, and each call that may
start has a cell to itself on which it keeps the promises. -/
structure Sound : Prop where
  idle_start : ∀ k, P.Idle k P.start
  stable : ∀ {k : Nat} {c : C} {res : Except ε α} {v v' : V}, K.Moves k v v' →
    P.Post k c res v → P.Post k c res v'
  alone : ∀ {s : σ} {cs : List (C × Prog S ε α)} {c : C}, K.Inv P ⟨s, cs⟩ → Y.canStart s cs c →
    ∀ (i : Nat) (c' : C) (p : Prog S ε α), cs[i]? = some (c', p) → p.result? = none →
      K.key i c' ≠ K.key cs.length c
  begin : ∀ {s : σ} {cs : List (C × Prog S ε α)} {c : C}, K.Inv P ⟨s, cs⟩ →
    Y.canStart s cs c → K.key cs.length c ≤ cs.length ∧
      K.Safe P (K.key cs.length c) c (Y.prog c) (K.view s (K.key cs.length c))

variable {K P}

theorem Inv.start (hP : K.Sound P) {s : σ} (h : ∀ k, K.view s k = P.start) : K.Inv P ⟨s, []⟩ where
  fresh k _ := h k
  idle k _ := by rw [show K.view s k = P.start from h k]; exact hP.idle_start k
  running i c p hi := by simp at hi
  ended i c p res hi := by simp at hi
  key_le i c p hi := by simp at hi
  exclusive i j c c' p p' hi := by simp at hi

/-- The operation that a call performs next is allowed. -/
theorem Inv.pre {cfg : Config S ε α C σ} (h : K.Inv P cfg) {i : Nat} {c : C} {o : S.Op}
    {k : S.Ret o → Prog S ε α} (hi : cfg.calls[i]? = some (c, .op o k)) :
    (K.sem (K.key i c)).pre (K.view cfg.shared (K.key i c)) o :=
  (h.running i c _ hi rfl).1

/-- A step moves one cell at most. -/
theorem Inv.moves {cfg cfg' : Config S ε α C σ} (h : K.Inv P cfg) (hs : Y.Step cfg cfg') (k : Nat) :
    K.view cfg'.shared k = K.view cfg.shared k ∨
      K.Moves k (K.view cfg.shared k) (K.view cfg'.shared k) := by
  cases hs with
  | start _ => exact .inl rfl
  | @perform s s' cs i c o q r hi hstep =>
    by_cases e : k = K.key i c
    · subst e
      exact .inr ⟨o, r, h.pre hi, K.own (h.pre hi) hstep⟩
    · exact .inl (K.other (h.pre hi) hstep e)

theorem Inv.begins (hP : K.Sound P) {s : σ} {cs : List (C × Prog S ε α)} {c : C}
    (h : K.Inv P ⟨s, cs⟩) (hc : Y.canStart s cs c) : K.Inv P ⟨s, cs ++ [(c, Y.prog c)]⟩ := by
  obtain ⟨hle, hsafe⟩ := hP.begin h hc
  refine ⟨fun k hk => h.fresh k ?_, fun k hk => h.idle k fun i c' p hi => ?_, fun i c' p hi hr => ?_,
    fun i c' p res hi hr => ?_, fun i c' p hi => ?_, fun i j c₁ c₂ p p' hi hj hr hr' hkey => ?_⟩
  · rw [List.length_append] at hk
    exact Nat.le_trans (Nat.le_add_right _ _) hk
  · refine hk i c' p ?_
    rw [List.getElem?_append_left (List.getElem?_eq_some_iff.mp hi).1]
    exact hi
  · rcases getElem?_concat hi with hi | ⟨rfl, e⟩
    · exact h.running i c' p hi hr
    · cases e
      exact hsafe
  · rcases getElem?_concat hi with hi | ⟨rfl, e⟩
    · exact h.ended i c' p res hi hr
    · cases e
      exact ((Prog.wp_of_result hr).mp hsafe).2
  · rcases getElem?_concat hi with hi | ⟨rfl, e⟩
    · exact h.key_le i c' p hi
    · cases e
      exact hle
  · rcases getElem?_concat hi with hi | ⟨rfl, e⟩ <;> rcases getElem?_concat hj with hj | ⟨rfl, e'⟩
    · exact h.exclusive i j c₁ c₂ p p' hi hj hr hr' hkey
    · cases e'
      exact absurd hkey (hP.alone h hc i c₁ p hi hr)
    · cases e
      exact absurd hkey.symm (hP.alone h hc j c₂ p' hj hr')
    · rfl

/-- The calls of a configuration in which a call has performed an operation. -/
theorem getElem?_set_cases {β : Type} {l : List β} {a b : β} {i j : Nat}
    (h : (l.set i a)[j]? = some b) : j = i ∧ b = a ∨ j ≠ i ∧ l[j]? = some b := by
  by_cases e : j = i
  · subst e
    rw [List.getElem?_set] at h
    simp only [if_true] at h
    split at h <;> cases h
    exact .inl ⟨rfl, rfl⟩
  · exact .inr ⟨e, by rwa [List.getElem?_set_ne (Ne.symm e)] at h⟩

theorem Inv.performs (hP : K.Sound P) {s s' : σ} {cs : List (C × Prog S ε α)} {i : Nat} {c : C}
    {o : S.Op} {k : S.Ret o → Prog S ε α} {r : S.Ret o} (h : K.Inv P ⟨s, cs⟩)
    (hi : cs[i]? = some (c, .op o k)) (hs : (Y.sem i c).step s o r s') :
    K.Inv P ⟨s', cs.set i (c, k r)⟩ := by
  have hpre := h.pre hi
  have hown := K.own hpre hs
  have hother : ∀ j, j ≠ K.key i c → K.view s' j = K.view s j := fun j hj => K.other hpre hs hj
  have hnext : K.Safe P (K.key i c) c (k r) (K.view s' (K.key i c)) :=
    (h.running i c _ hi rfl).2 r _ hown
  have hlt := (List.getElem?_eq_some_iff.mp hi).1
  refine ⟨fun j hj => ?_, fun j hj => ?_, fun j c' p hj hr => ?_, fun j c' p res hj hr => ?_,
    fun j c' p hj => ?_, fun j₁ j₂ c₁ c₂ p p' hj₁ hj₂ hr hr' hkey => ?_⟩
  · rw [List.length_set] at hj
    have hle := h.key_le i c _ hi
    exact (hother j (by omega)).trans (h.fresh j hj)
  · have hset : (cs.set i (c, k r))[i]? = some (c, k r) := List.getElem?_set_self hlt
    by_cases e : j = K.key i c
    · subst e
      obtain ⟨res, hres⟩ := Option.ne_none_iff_exists'.mp (hj i c (k r) hset rfl)
      exact ((Prog.wp_of_result hres).mp hnext).1
    · have := h.idle j fun i' c' p hi' hkey => by
        refine hj i' c' p ?_ hkey
        rw [List.getElem?_set_ne fun e' => e ?_]
        · exact hi'
        · subst e'
          cases hi.symm.trans hi'
          exact hkey.symm
      rw [show K.view s' j = K.view s j from hother j e]
      exact this
  · rcases getElem?_set_cases hj with ⟨rfl, e⟩ | ⟨hne, hj⟩
    · cases e
      exact hnext
    · have hkey : K.key j c' ≠ K.key i c := fun e => hne (h.exclusive j i c' c p _ hj hi hr rfl e)
      rw [show K.view s' (K.key j c') = K.view s (K.key j c') from hother _ hkey]
      exact h.running j c' p hj hr
  · rcases getElem?_set_cases hj with ⟨rfl, e⟩ | ⟨hne, hj⟩
    · cases e
      exact ((Prog.wp_of_result hr).mp hnext).2
    · have hpost := h.ended j c' p res hj hr
      by_cases hkey : K.key j c' = K.key i c
      · rw [hkey] at hpost ⊢
        exact hP.stable ⟨o, r, hpre, hown⟩ hpost
      · rw [show K.view s' (K.key j c') = K.view s (K.key j c') from hother _ hkey]
        exact hpost
  · rcases getElem?_set_cases hj with ⟨rfl, e⟩ | ⟨-, hj⟩
    · cases e
      exact h.key_le _ c _ hi
    · exact h.key_le j c' p hj
  · rcases getElem?_set_cases hj₁ with ⟨rfl, e⟩ | ⟨-, hold₁⟩ <;>
      rcases getElem?_set_cases hj₂ with ⟨rfl, e'⟩ | ⟨-, hold₂⟩
    · rfl
    · cases e
      exact h.exclusive _ j₂ c c₂ _ p' hi hold₂ rfl hr' hkey
    · cases e'
      exact h.exclusive j₁ _ c₁ c p _ hold₁ hi hr rfl hkey
    · exact h.exclusive j₁ j₂ c₁ c₂ p p' hold₁ hold₂ hr hr' hkey

theorem Inv.step (hP : K.Sound P) {cfg cfg' : Config S ε α C σ} (h : K.Inv P cfg)
    (hs : Y.Step cfg cfg') : K.Inv P cfg' := by
  cases hs with
  | start hc => exact h.begins hP hc
  | perform hi hstep => exact h.performs hP hi hstep

/-- From a configuration with the invariant, runs keep it, and each cell only moves. -/
theorem Sound.runs (hP : K.Sound P) {cfg cfg' : Config S ε α C σ} (h : K.Inv P cfg)
    (hr : ReflTransGen Y.Step cfg cfg') :
    K.Inv P cfg' ∧ ∀ k, ReflTransGen (K.Moves k) (K.view cfg.shared k) (K.view cfg'.shared k) := by
  induction hr with
  | refl => exact ⟨h, fun _ => .refl⟩
  | tail _ hs ih =>
    obtain ⟨hinv, hmoves⟩ := ih
    refine ⟨hinv.step hP hs, fun k => ?_⟩
    rcases hinv.moves hs k with e | hm
    · rw [e]
      exact hmoves k
    · exact (hmoves k).tail hm

/-- The invariant holds in every run. -/
theorem Sound.inv (hP : K.Sound P) {s : σ} {cfg : Config S ε α C σ} (h₀ : ∀ k, K.view s k = P.start)
    (h : Y.Reachable s cfg) : K.Inv P cfg :=
  (hP.runs (.start hP h₀) h).1

/-- What holds of an unused cell and is kept by moves holds of all cells in every run. -/
theorem Sound.views (hP : K.Sound P) {J : Nat → V → Prop} {s : σ} {cfg : Config S ε α C σ}
    (h₀ : ∀ k, K.view s k = P.start) (hstart : ∀ k, J k P.start)
    (hmoves : ∀ {k : Nat} {v v' : V}, K.Moves k v v' → J k v → J k v') (h : Y.Reachable s cfg)
    (k : Nat) : J k (K.view cfg.shared k) := by
  have hm := (hP.runs (.start hP h₀) h).2 k
  generalize K.view cfg.shared k = v at hm
  induction hm with
  | refl => rw [show K.view s k = P.start from h₀ k]; exact hstart k
  | tail _ hstep ih => exact hmoves hstep ih

/-- The calls on a cell made after it got into a state `T` that moves do not leave. -/
theorem Sound.later (hP : K.Sound P) {k : Nat} {T : V → Prop} {Q : C → Except ε α → Prop}
    (hT : ∀ {v v' : V}, K.Moves k v v' → T v → T v')
    (hQ : ∀ {s : σ} {cs : List (C × Prog S ε α)} {c : C}, K.Inv P ⟨s, cs⟩ → Y.canStart s cs c →
      K.key cs.length c = k → T (K.view s k) →
        (Y.prog c).wp (K.sem k) (K.view s k) fun res _ => Q c res)
    {cfg cfg' : Config S ε α C σ} (h : K.Inv P cfg) (h₀ : T (K.view cfg.shared k))
    (hr : ReflTransGen Y.Step cfg cfg') :
    T (K.view cfg'.shared k) ∧ ∀ (i : Nat) (c : C) (p : Prog S ε α), cfg.calls.length ≤ i →
      cfg'.calls[i]? = some (c, p) → K.key i c = k →
        p.wp (K.sem k) (K.view cfg'.shared k) fun res _ => Q c res := by
  induction hr with
  | refl =>
    refine ⟨h₀, fun i c p hle hi => ?_⟩
    rw [List.getElem?_eq_none hle] at hi
    cases hi
  | @tail cfg₁ cfg₂ hr hs ih =>
    obtain ⟨hT₁, ih⟩ := ih
    have hinv := (hP.runs h hr).1
    have hT₂ : T (K.view cfg₂.shared k) := by
      rcases hinv.moves hs k with e | hm
      · rw [e]; exact hT₁
      · exact hT hm hT₁
    refine ⟨hT₂, fun i c p hle hi hkey => ?_⟩
    cases hs with
    | start hc =>
      rcases getElem?_concat hi with hi | ⟨rfl, e⟩
      · exact ih i c p hle hi hkey
      · cases e
        exact hQ hinv hc hkey hT₁
    | @perform s s' cs j c' o q r hj hstep =>
      rcases getElem?_set_cases hi with ⟨rfl, e⟩ | ⟨hne, hi⟩
      · cases e
        subst hkey
        exact (ih _ c _ hle hj rfl).2 r _ (K.own (hinv.pre hj) hstep)
      · have hw := ih i c p hle hi hkey
        cases hp : p.result? with
        | some res => exact (Prog.wp_of_result hp).mpr ((Prog.wp_of_result hp).mp hw)
        | none =>
          have hne' : k ≠ K.key j c' := fun e =>
            hne (hinv.exclusive i j c c' p _ hi hj hp rfl (hkey.trans e))
          rw [show K.view s' k = K.view s k from K.other (hinv.pre hj) hstep hne']
          exact hw

end Cells

end NmLogging
