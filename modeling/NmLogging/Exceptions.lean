import NmLogging.Vocab

/-!
# Exception objects

Exception objects live in a heap: `raise` links an object to its cause and to the exception
that is being handled, and every frame that an exception enters adds a code location to
its traceback. `Heap.raise` is the `raise` statement, with the search by which CPython
keeps the context chain free of cycles.

Two heaps agree but for some texts (`Heap.Agree`) when the objects outside a set are equal,
and link to nothing in it, and those in it differ in their text at most. All that the facade
does with exceptions keeps such an agreement.
-/

namespace NmLogging

/-- A reference to an exception object. The class of an object never changes, so it is kept
with the reference. -/
structure Exc where
  ref : Nat
  cls : ExcClass
  deriving DecidableEq

/-- `isinstance(e, b)`. -/
def Exc.isA (e : Exc) (b : Base) : Bool := e.cls.isA b

/-- One frame of a traceback. -/
structure CodeLocation where
  file : PyStr
  line : Nat
  function : PyStr
  deriving DecidableEq

/-- An exception object: `text` is `str(e)`, if that returns, and `safe` whether
`log_safe_message` is `True`. The traceback starts with the outermost frame. -/
structure ExcObj where
  cls : ExcClass
  text : Option PyStr
  safe : Bool
  cause : Option Exc := none
  context : Option Exc := none
  suppressContext : Bool := false
  traceback : List CodeLocation := []
  operationId : PyAtom := .none
  sinkFailure : Option Exc := none
  bodyException : Option Exc := none
  finalisationException : Option Exc := none
  notes : List PyStr := []

/-- An object of the package's own classes, as its constructor leaves it. -/
def ExcObj.ofError (e : PyError) : ExcObj where
  cls := e.cls
  text := some e.text
  safe := e.isA .nmLoggingError

/-- The exception objects, by reference. -/
abbrev Heap := List ExcObj

/-- What a `raise` statement says of the cause. -/
inductive RaiseFrom where
  | unsaid
  | fromNone
  | fromExc (cause : Exc)

namespace Heap

/-- Change an object. -/
def update (h : Heap) (e : Exc) (f : ExcObj → ExcObj) : Heap := h.modify e.ref f

/-- A new object, and its reference. -/
def alloc (h : Heap) (o : ExcObj) : Exc × Heap := (⟨h.length, o.cls⟩, h ++ [o])

/-- `e.__context__`. -/
def contextOf (h : Heap) (e : Exc) : Option Exc := h[e.ref]?.bind ExcObj.context

/-- Remove `e` from the context chain of `f`. A chain has no more links than there are
objects, unless it runs into a cycle without `e`. -/
def unlink (e : Exc) : Nat → Exc → Heap → Heap
  | 0, _, h => h
  | fuel + 1, f, h =>
    match h.contextOf f with
    | none => h
    | some g => if g = e then h.update f fun o => { o with context := none } else unlink e fuel g h

/-- The context that an exception gets when it is raised. -/
def setContext (h : Heap) (e : Exc) : Option Exc → Heap
  | none => h
  | some f =>
    if f = e then h
    else (unlink e h.length f h).update e fun o => { o with context := some f }

/-- `raise … from …`. -/
def setCause (h : Heap) (e : Exc) : RaiseFrom → Heap
  | .unsaid => h
  | .fromNone => h.update e fun o => { o with cause := none, suppressContext := true }
  | .fromExc c => h.update e fun o => { o with cause := some c, suppressContext := true }

/-- An exception enters a frame. -/
def addFrame (h : Heap) (e : Exc) (loc : CodeLocation) : Heap :=
  h.update e fun o => { o with traceback := loc :: o.traceback }

/-- `raise e from cause` in a frame where `handled` is being handled. -/
def raise (h : Heap) (e : Exc) (cause : RaiseFrom) (handled : Option Exc) (loc : CodeLocation) :
    Heap :=
  ((h.setCause e cause).setContext e handled).addFrame e loc

theorem length_update (h : Heap) (e : Exc) (f : ExcObj → ExcObj) :
    (h.update e f).length = h.length := List.length_modify ..

theorem length_unlink (e f : Exc) (fuel : Nat) (h : Heap) :
    (unlink e fuel f h).length = h.length := by
  induction fuel generalizing f h with
  | zero => rfl
  | succ fuel ih =>
    rw [unlink]
    split
    · rfl
    · split
      · exact length_update ..
      · exact ih ..

/-- Raising makes no objects. -/
theorem length_raise (h : Heap) (e : Exc) (cause : RaiseFrom) (handled : Option Exc)
    (loc : CodeLocation) : (h.raise e cause handled loc).length = h.length := by
  have hcause : (h.setCause e cause).length = h.length := by
    cases cause with
    | unsaid => rfl
    | fromNone => exact length_update ..
    | fromExc c => exact length_update ..
  rw [raise, addFrame, length_update, ← hcause]
  cases handled with
  | none => rfl
  | some f =>
    rw [setContext]
    split
    · rfl
    · rw [length_update, length_unlink]

end Heap

/-! ## Agreement but for texts -/

/-- The same object but for its text. -/
def ExcObj.Same (o o' : ExcObj) : Prop := { o with text := none } = { o' with text := none }

theorem ExcObj.Same.refl (o : ExcObj) : o.Same o := rfl

/-- No link that evidence follows leads from the object into `T`. -/
def ExcObj.LinksOutside (T : Nat → Prop) (o : ExcObj) : Prop :=
  (∀ e, o.cause = some e → ¬T e.ref) ∧ ∀ e, o.context = some e → ¬T e.ref

/-- Heaps that differ in the texts of the objects in `T` at most, to which the others do
not link. -/
structure Heap.Agree (T : Nat → Prop) (h h' : Heap) : Prop where
  length : h.length = h'.length
  equal : ∀ i : Nat, ¬T i → h[i]? = h'[i]?
  same : ∀ (i : Nat) (o o' : ExcObj), h[i]? = some o → h'[i]? = some o' → o.Same o'
  outside : ∀ (i : Nat) (o : ExcObj), ¬T i → h[i]? = some o → o.LinksOutside T

namespace Heap.Agree

variable {T : Nat → Prop} {h h' : Heap}

/-- A change that depends on no text, and makes no link into `T`. -/
theorem update (ha : Agree T h h') (e : Exc) {f : ExcObj → ExcObj}
    (hf : ∀ o t, f { o with text := t } = { f o with text := t })
    (hl : ¬T e.ref → ∀ o, o.LinksOutside T → (f o).LinksOutside T) :
    Agree T (h.update e f) (h'.update e f) where
  length := by simp only [Heap.update, List.length_modify]; exact ha.length
  equal i hi := by simp only [Heap.update, List.getElem?_modify, ha.equal i hi]
  same i o o' ho ho' := by
    simp only [Heap.update, List.getElem?_modify, Option.map_eq_map, Option.map_eq_some_iff] at ho ho'
    obtain ⟨p, hp, rfl⟩ := ho
    obtain ⟨p', hp', rfl⟩ := ho'
    have := ha.same i p p' hp hp'
    split
    · show { f p with text := none } = { f p' with text := none }
      rw [← hf, ← hf, this]
    · exact this
  outside i o hi ho := by
    simp only [Heap.update, List.getElem?_modify, Option.map_eq_map, Option.map_eq_some_iff] at ho
    obtain ⟨p, hp, rfl⟩ := ho
    have := ha.outside i p hi hp
    split
    · rename_i he
      exact hl (he ▸ hi) p this
    · exact this

theorem contextOf (ha : Agree T h h') {e : Exc} (he : ¬T e.ref) :
    h.contextOf e = h'.contextOf e := by
  rw [Heap.contextOf, Heap.contextOf, ha.equal _ he]

theorem not_contextOf (ha : Agree T h h') {e f : Exc} (he : ¬T e.ref)
    (hf : h.contextOf e = some f) : ¬T f.ref := by
  obtain ⟨o, ho, hc⟩ := Option.bind_eq_some_iff.mp hf
  exact (ha.outside _ o he ho).2 f hc

theorem unlink (ha : Agree T h h') {e f : Exc} (hf : ¬T f.ref) (fuel : Nat) :
    Agree T (Heap.unlink e fuel f h) (Heap.unlink e fuel f h') := by
  induction fuel generalizing f with
  | zero => exact ha
  | succ fuel ih =>
    rw [Heap.unlink, Heap.unlink, ← ha.contextOf hf]
    cases hc : h.contextOf f with
    | none => exact ha
    | some g =>
      show Agree T (if g = e then _ else _) (if g = e then _ else _)
      split
      · exact ha.update f (fun _ _ => rfl) fun _ o ho => ⟨ho.1, fun _ h => by cases h⟩
      · exact ih (ha.not_contextOf hf hc)

/-- An object that is the same in both heaps and links to nothing in `T`. -/
theorem alloc (ha : Agree T h h') {o : ExcObj} (ho : o.LinksOutside T) :
    (h.alloc o).1 = (h'.alloc o).1 ∧ Agree T (h.alloc o).2 (h'.alloc o).2 := by
  refine ⟨by simp only [Heap.alloc, ha.length], ?_, fun i hi => ?_, fun i p p' hp hp' => ?_,
    fun i p hi hp => ?_⟩
  · simp [Heap.alloc, ha.length]
  · simp only [Heap.alloc, List.getElem?_append, ha.length, ha.equal i hi]
  · simp only [Heap.alloc, List.getElem?_append, ha.length] at hp hp'
    split at hp
    · rename_i hlt
      rw [if_pos hlt] at hp'
      exact ha.same i p p' hp hp'
    · rename_i hlt
      rw [if_neg hlt] at hp'
      cases hp.symm.trans hp'
      exact .refl p
  · simp only [Heap.alloc, List.getElem?_append] at hp
    split at hp
    · exact ha.outside i p hi hp
    · rw [List.getElem?_singleton] at hp
      split at hp <;> cases hp
      exact ho

theorem setContext (ha : Agree T h h') (e : Exc) {handled : Option Exc}
    (hh : ∀ f, handled = some f → ¬T f.ref) :
    Agree T (h.setContext e handled) (h'.setContext e handled) := by
  cases handled with
  | none => exact ha
  | some f =>
    have hf := hh f rfl
    show Agree T (if f = e then h else _) (if f = e then h' else _)
    split
    · exact ha
    · rw [ha.length]
      exact (ha.unlink hf _).update e (fun _ _ => rfl) fun _ o ho =>
        ⟨ho.1, fun g hg => by cases hg; exact hf⟩

theorem addFrame (ha : Agree T h h') (e : Exc) (loc : CodeLocation) :
    Agree T (h.addFrame e loc) (h'.addFrame e loc) :=
  ha.update e (fun _ _ => rfl) fun _ _ ho => ho

theorem raise (ha : Agree T h h') (e : Exc) {cause : RaiseFrom} {handled : Option Exc}
    (hc : ∀ c, cause = .fromExc c → ¬T c.ref) (hh : ∀ f, handled = some f → ¬T f.ref)
    (loc : CodeLocation) :
    Agree T (h.raise e cause handled loc) (h'.raise e cause handled loc) := by
  refine Agree.addFrame (Agree.setContext ?_ e hh) e loc
  cases cause with
  | unsaid => exact ha
  | fromNone =>
    exact ha.update e (fun _ _ => rfl) fun _ o ho => ⟨fun _ h => (by cases h), ho.2⟩
  | fromExc c =>
    exact ha.update e (fun _ _ => rfl) fun _ o ho =>
      ⟨fun g hg => (by cases hg; exact hc c rfl), ho.2⟩

end Heap.Agree

end NmLogging
