import Mathlib.Logic.Relation
import NmLogging.Exceptions

/-!
# What an exception reaches

The causes and contexts of exception objects as a relation (`Heap.Reaches`). The objects
that do not reach a given one are closed under links (`Heap.agree_reaching`), so that what
keeps an agreement of a heap with itself keeps them apart (`Heap.Agree.not_reaches`).
`Heap.Untouched` says of a set of objects that nothing but frames were added to them.
-/

namespace NmLogging

/-! ## Reachability -/

/-- A link that evidence follows. -/
def Heap.Links (h : Heap) (i j : Nat) : Prop :=
  ∃ o e, h[i]? = some o ∧ (o.cause = some e ∨ o.context = some e) ∧ e.ref = j

/-- A path of causes and contexts. -/
def Heap.Reaches (h : Heap) (e f : Exc) : Prop := Relation.ReflTransGen h.Links e.ref f.ref

/-- The objects from which an object is reached. -/
def Heap.Reaching (h : Heap) (f : Exc) (i : Nat) : Prop := Relation.ReflTransGen h.Links i f.ref

variable {h h' h'' : Heap} {e f : Exc} {T : Nat → Prop}

/-- Those that do not reach an object link to no other. -/
theorem Heap.agree_reaching (h : Heap) (f : Exc) : h.Agree (h.Reaching f) h where
  length := rfl
  equal _ _ := rfl
  same i o o' ho ho' := by
    cases ho.symm.trans ho'
    exact .refl o
  outside i o hi ho := by
    refine ⟨fun e he ht => hi ?_, fun e he ht => hi ?_⟩
    · exact .head ⟨o, e, ho, .inl he, rfl⟩ ht
    · exact .head ⟨o, e, ho, .inr he, rfl⟩ ht

/-- Outside a set that nothing links into, nothing in it is reached. -/
theorem Heap.Agree.not_reaches (ha : h.Agree T h') (he : ¬T e.ref) (hf : T f.ref) :
    ¬h.Reaches e f := by
  suffices hpath : ∀ {i j : Nat}, Relation.ReflTransGen h.Links i j → ¬T i → ¬T j from
    fun hr => hpath hr he hf
  intro i j hp hi
  induction hp with
  | refl => exact hi
  | tail _ hlink ih =>
    obtain ⟨o, g, ho, hl, rfl⟩ := hlink
    rcases hl with hl | hl
    · exact (ha.outside _ o ih ho).1 g hl
    · exact (ha.outside _ o ih ho).2 g hl

/-- A reference without an object reaches itself only. -/
theorem Heap.not_reaching_of_le {i : Nat} (hf : f.ref < h.length) (hi : h.length ≤ i) :
    ¬h.Reaching f i := by
  intro hr
  rcases Relation.ReflTransGen.cases_head hr with rfl | ⟨j, ⟨o, e, ho, -, -⟩, -⟩
  · omega
  · have := (List.getElem?_eq_some_iff.mp ho).1
    omega

/-! ## Objects that are left alone -/

/-- An object without its traceback. -/
def ExcObj.untraced (o : ExcObj) : ExcObj := { o with traceback := [] }

/-- The objects of a set have changed in their tracebacks at most. -/
def Heap.Untouched (T : Nat → Prop) (h h' : Heap) : Prop :=
  ∀ (i : Nat) (o : ExcObj), T i → h[i]? = some o → ∃ o', h'[i]? = some o' ∧ o'.untraced = o.untraced

namespace Heap.Untouched

theorem refl (T : Nat → Prop) (h : Heap) : Untouched T h h := fun _ o _ ho => ⟨o, ho, rfl⟩

theorem trans (h₁ : Untouched T h h') (h₂ : Untouched T h' h'') : Untouched T h h'' := by
  intro i o hi ho
  obtain ⟨o', ho', heq⟩ := h₁ i o hi ho
  obtain ⟨o'', ho'', heq'⟩ := h₂ i o' hi ho'
  exact ⟨o'', ho'', heq'.trans heq⟩

/-- A change of an object outside the set. -/
theorem update (g : ExcObj → ExcObj) (he : ¬T e.ref) : Untouched T h (h.update e g) := by
  intro i o hi ho
  refine ⟨o, ?_, rfl⟩
  have hne : e.ref ≠ i := fun heq => he (heq ▸ hi)
  simp only [Heap.update, List.getElem?_modify, hne, if_false, ho, Option.map_eq_map,
    Option.map_some]

theorem addFrame (e : Exc) (loc : CodeLocation) : Untouched T h (h.addFrame e loc) := by
  intro i o hi ho
  simp only [Heap.addFrame, Heap.update, List.getElem?_modify, ho, Option.map_eq_map,
    Option.map_some]
  refine ⟨_, rfl, ?_⟩
  split <;> rfl

theorem alloc (o : ExcObj) : Untouched T h (h.alloc o).2 := by
  intro i p hi hp
  refine ⟨p, ?_, rfl⟩
  rw [Heap.alloc, List.getElem?_append_left (List.getElem?_eq_some_iff.mp hp).1, hp]

theorem unlink (ha : h.Agree T h) (hf : ¬T f.ref) (fuel : Nat) :
    Untouched T h (Heap.unlink e fuel f h) := by
  induction fuel generalizing f with
  | zero => exact refl T h
  | succ fuel ih =>
    rw [Heap.unlink]
    cases hc : h.contextOf f with
    | none => exact refl T h
    | some g =>
      show Untouched T h (if g = e then _ else _)
      split
      · exact update _ hf
      · exact ih (ha.not_contextOf hf hc)

theorem raise (ha : h.Agree T h) (he : ¬T e.ref) {cause : RaiseFrom} {handled : Option Exc}
    (hc : ∀ c, cause = .fromExc c → ¬T c.ref) (hh : ∀ f, handled = some f → ¬T f.ref)
    (loc : CodeLocation) : Untouched T h (h.raise e cause handled loc) := by
  have hcause : Untouched T h (h.setCause e cause) ∧
      (h.setCause e cause).Agree T (h.setCause e cause) := by
    cases cause with
    | unsaid => exact ⟨refl T h, ha⟩
    | fromNone =>
      exact ⟨update _ he, ha.update e (fun _ _ => rfl) fun _ o ho => ⟨fun _ h => (by cases h), ho.2⟩⟩
    | fromExc c =>
      exact ⟨update _ he, ha.update e (fun _ _ => rfl) fun _ o ho =>
        ⟨fun g hg => (by cases hg; exact hc c rfl), ho.2⟩⟩
  refine (hcause.1.trans ?_).trans (addFrame e loc)
  cases handled with
  | none => exact refl T _
  | some f =>
    show Untouched T _ (if f = e then _ else _)
    split
    · exact refl T _
    · exact (unlink hcause.2 (hh f rfl) _).trans (update _ he)

end Heap.Untouched

/-! ## What an object says -/

/-- What an object says, without what `raise` changes. -/
def ExcObj.said (o : ExcObj) : ExcObj :=
  { o with cause := none, context := none, suppressContext := false, traceback := [] }

/-- Objects say what they said. -/
def Heap.Says (h h' : Heap) : Prop :=
  ∀ (i : Nat) (o : ExcObj), h[i]? = some o → ∃ o', h'[i]? = some o' ∧ o'.said = o.said

namespace Heap.Says

theorem refl (h : Heap) : h.Says h := fun _ o ho => ⟨o, ho, rfl⟩

theorem trans (h₁ : h.Says h') (h₂ : h'.Says h'') : h.Says h'' := by
  intro i o ho
  obtain ⟨o', ho', heq⟩ := h₁ i o ho
  obtain ⟨o'', ho'', heq'⟩ := h₂ i o' ho'
  exact ⟨o'', ho'', heq'.trans heq⟩

theorem update (e : Exc) {g : ExcObj → ExcObj} (hg : ∀ o, (g o).said = o.said) :
    h.Says (h.update e g) := by
  intro i o ho
  simp only [Heap.update, List.getElem?_modify, ho, Option.map_eq_map, Option.map_some]
  refine ⟨_, rfl, ?_⟩
  split
  · exact hg o
  · rfl

theorem addFrame (h : Heap) (e : Exc) (loc : CodeLocation) : h.Says (h.addFrame e loc) :=
  update e fun _ => rfl

theorem alloc (h : Heap) (o : ExcObj) : h.Says (h.alloc o).2 := by
  intro i p hp
  exact ⟨p, by rw [Heap.alloc, List.getElem?_append_left (List.getElem?_eq_some_iff.mp hp).1, hp], rfl⟩

theorem unlink (h : Heap) (e f : Exc) (fuel : Nat) : h.Says (Heap.unlink e fuel f h) := by
  induction fuel generalizing f with
  | zero => exact refl h
  | succ fuel ih =>
    rw [Heap.unlink]
    cases h.contextOf f with
    | none => exact refl h
    | some g =>
      show h.Says (if g = e then _ else _)
      split
      · exact update f fun _ => rfl
      · exact ih g

theorem raise (h : Heap) (e : Exc) (cause : RaiseFrom) (handled : Option Exc) (loc : CodeLocation) :
    h.Says (h.raise e cause handled loc) := by
  have hcause : h.Says (h.setCause e cause) := by
    cases cause with
    | unsaid => exact refl h
    | fromNone => exact update e fun _ => rfl
    | fromExc c => exact update e fun _ => rfl
  refine (hcause.trans ?_).trans (addFrame _ e loc)
  cases handled with
  | none => exact refl _
  | some f =>
    show Says _ (if f = e then _ else _)
    split
    · exact refl _
    · exact (unlink _ e f _).trans (update e fun _ => rfl)

end Heap.Says

end NmLogging
