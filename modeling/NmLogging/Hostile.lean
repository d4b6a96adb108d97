import NmLogging.Foreign

/-!
# Exceptions of hostile classes

When `build_evidence` returns on exceptions of any classes. A `str()` that raises is caught, but
the lookup of `log_safe_message` is not: evidence is built if and only if no exception that the
walk records has a lookup that raises anything but `AttributeError`
(`Graph.builds_iff`). The walk is that over exception objects as long as it meets none
(`foreignLoop_walked`).
-/

namespace NmLogging

open BreadthFirst

/-! ## What an exception answers -/

namespace ForeignExc

variable {exc : ForeignExc} {relation : Option PyStr}

/-- The lookup of the marker comes to something: it raises `AttributeError` at most. -/
def Answers (exc : ForeignExc) : Prop :=
  ∀ e, exc.marker = .error e → e.isA .attributeError = true

/-- The lookup of the marker fails, or `str()` does. -/
def Fails (exc : ForeignExc) : Prop := (∃ e, exc.marker = .error e) ∨ ∃ e, exc.str = .error e

/-- What `str()` raises is an `Exception`. -/
def StrRaises (exc : ForeignExc) : Prop := ∀ e, exc.str = .error e → e.isA .exception = true

/-- The reference to an exception of a graph. -/
def reference (i : Nat) : Exc := ⟨i, ⟨lit "Exception", [.exception, .baseException], by decide⟩⟩

/-- The exception object that evidence sees. -/
def object (exc : ForeignExc) : ExcObj where
  cls := ⟨exc.qualname, [.exception, .baseException], by decide⟩
  text := exc.str.toOption
  safe := exc.messageIsSafe = .ok true
  cause := exc.cause.map reference
  context := exc.context.map reference
  traceback := exc.traceback.map Frame.location
  notes := exc.notes

theorem messageIsSafe_of_answers (h : exc.Answers) : ∃ safe, exc.messageIsSafe = .ok safe := by
  rw [messageIsSafe]
  cases hm : exc.marker with
  | ok value => exact ⟨_, rfl⟩
  | error e => exact ⟨false, if_pos (h e hm)⟩

theorem locations_object (exc : ForeignExc) : exc.locations = NmLogging.locations exc.object := by
  rw [locations, locations_eq_foldl]
  rfl

/-- The entry of an exception whose lookup comes to something. -/
theorem evidenceFor_of_answers (relation : Option PyStr) (h : exc.Answers) (hstr : exc.StrRaises) :
    exc.evidenceFor relation = .ok (NmLogging.evidenceFor exc.object relation) := by
  obtain ⟨safe, hsafe⟩ := messageIsSafe_of_answers h
  have hmessage : exc.safeMessage = .ok (NmLogging.safeMessage exc.object) := by
    rw [safeMessage, NmLogging.safeMessage, object, hsafe]
    cases safe with
    | false => rfl
    | true =>
      cases hs : exc.str with
      | ok s => rfl
      | error e => simp [bind, Except.bind, hstr e hs, Except.toOption, pure, Except.pure]
  rw [evidenceFor, hmessage, locations_object]
  rfl

/-- And one whose lookup raises. -/
theorem evidenceFor_of_not_answers (relation : Option PyStr) (h : ¬exc.Answers) :
    ∃ e, exc.evidenceFor relation = .error e := by
  simp only [Answers, not_forall] at h
  obtain ⟨e, hm, he⟩ := h
  have hsafe : exc.messageIsSafe = .error e := by
    rw [messageIsSafe, hm]
    exact if_neg he
  refine ⟨e, ?_⟩
  rw [evidenceFor, safeMessage, hsafe]
  rfl

/-- What fails has no message. -/
theorem message_of_fails (h : exc.Fails) :
    (NmLogging.evidenceFor exc.object relation).message = none := by
  rw [NmLogging.evidenceFor, NmLogging.safeMessage, object]
  rcases h with ⟨e, he⟩ | ⟨e, he⟩
  · have hsafe : exc.messageIsSafe ≠ .ok true := by
      rw [messageIsSafe, he]
      show (if _ then _ else _) ≠ _
      split <;> rintro ⟨⟩
    simp only [hsafe, decide_false, Bool.false_eq_true, if_false]
  · rw [he]
    exact ite_self _

end ForeignExc

/-! ## The graph -/

/-- An item of the queue, over exception objects. -/
def lifted (r : Nat × Option PyStr) : Exc × Option PyStr := (ForeignExc.reference r.1, r.2)

theorem related_object (exc : ForeignExc) (visited : List Nat) :
    related visited exc.object = (exc.related visited).map lifted := by
  have hlinks : ∀ (l : Option Nat) (label : PyStr),
      ((l.map ForeignExc.reference).map fun e => (e, some label)).toList =
        (l.map fun i => (i, some label)).toList.map lifted := by
    intro l label
    cases l <;> rfl
  rw [related, ForeignExc.related, ForeignExc.object, hlinks, hlinks, ← List.map_append,
    List.filter_map]
  rfl

theorem queue_object (queue : List (Nat × Option PyStr)) (exc : ForeignExc) (visited : List Nat) :
    queue.map lifted ++ related visited exc.object =
      (queue ++ exc.related visited).map lifted := by
  rw [related_object, List.map_append]

namespace Graph

variable {g : Graph} {i : Nat}

/-- The exceptions that one is linked to: its cause, then its context. -/
def links (g : Graph) (i : Nat) : List (Nat × PyStr) :=
  match g[i]? with
  | none => []
  | some exc =>
    (exc.cause.map fun j => (j, lit "cause")).toList ++
      (exc.context.map fun j => (j, lit "context")).toList

/-- Every link leads to an exception. -/
def Closed (g : Graph) : Prop :=
  ∀ exc ∈ g, (∀ j, exc.cause = some j → j < g.length) ∧ ∀ j, exc.context = some j → j < g.length

/-- The exception objects. -/
def heap (g : Graph) : Heap := g.map ForeignExc.object

theorem getElem?_heap (g : Graph) (i : Nat) : g.heap[i]? = g[i]?.map ForeignExc.object :=
  List.getElem?_map ..

theorem links_heap (g : Graph) : g.heap.links = g.links := by
  funext i
  rw [Heap.links, links, getElem?_heap]
  cases g[i]? with
  | none => rfl
  | some exc =>
    have hlinks : ∀ (l : Option Nat) (label : PyStr),
        ((l.map ForeignExc.reference).map fun e => (e, label)).toList.map
          (fun r => (r.1.ref, r.2)) = (l.map fun i => (i, label)).toList := by
      intro l label
      cases l <;> rfl
    show (ExcObj.links exc.object).map _ = _
    rw [ExcObj.links, List.map_append]
    exact congrArg₂ _ (hlinks _ _) (hlinks _ _)

theorem closed_heap (hg : g.Closed) : g.heap.Closed := by
  intro i o ho
  rw [getElem?_heap, Option.map_eq_some_iff] at ho
  obtain ⟨exc, hexc, rfl⟩ := ho
  obtain ⟨hcause, hcontext⟩ := hg exc (List.mem_of_getElem? hexc)
  have hlen : g.heap.length = g.length := List.length_map _
  constructor
  · intro e he
    obtain ⟨j, hj, rfl⟩ := Option.map_eq_some_iff.mp he
    exact Nat.not_le_of_lt (hlen ▸ hcause j hj)
  · intro e he
    obtain ⟨j, hj, rfl⟩ := Option.map_eq_some_iff.mp he
    exact Nat.not_le_of_lt (hlen ▸ hcontext j hj)

/-- The exceptions that a walk from one records. -/
def recorded (g : Graph) (i : Nat) : List (Nat × Option PyStr) := order g.links i MAX_CHAIN_DEPTH

/-- All of them answer. -/
def RecordedAnswer (g : Graph) (i : Nat) : Prop :=
  ∀ x ∈ g.recorded i, ∀ exc, g[x.1]? = some exc → exc.Answers

end Graph

/-! ## The loop -/

section

variable {g : Graph} {root : Nat} {queue : List (Nat × Option PyStr)} {visited : List Nat}
  {entries : List ExceptionEvidence} {out : List (Nat × Option PyStr)}

/-- What the loop has recorded is recorded in the end. -/
theorem mem_recorded (hw : Walked g.heap root (queue.map lifted) visited entries out)
    {x : Nat × Option PyStr} (hx : x ∈ out) : x ∈ g.recorded root := by
  have hprefix : out <+: g.recorded root := by
    rw [Graph.recorded, ← g.links_heap, ← hw.order]
    exact order_prefix_order hw.length_le
  exact hprefix.subset hx

/-- The loop is that over exception objects, if all that it records answer, and otherwise it
raises. -/
theorem foreignLoop_walked (hg : g.Closed) (hstr : ∀ exc ∈ g, exc.StrRaises)
    (hw : Walked g.heap root (queue.map lifted) visited entries out)
    (hout : ∀ x ∈ out, ∀ exc, g[x.1]? = some exc → exc.Answers) :
    (foreignLoop g queue visited entries =
        .ok (evidenceLoop g.heap (queue.map lifted) visited entries) ∧ g.RecordedAnswer root) ∨
      (∃ e, foreignLoop g queue visited entries = .error e) ∧ ¬g.RecordedAnswer root := by
  fun_induction foreignLoop g queue visited entries generalizing out with
  | case1 visited entries =>
    refine .inl ⟨by rw [List.map_nil, evidenceLoop], ?_⟩
    have hnone := hw.next_eq_none
    rw [← hw.order] at hnone
    have hrecorded : g.recorded root = out := by
      rw [Graph.recorded, ← g.links_heap, order_of_none hnone hw.length_le, hw.order]
    rwa [Graph.RecordedAnswer, hrecorded]
  | case2 visited entries current relation queue hv ih =>
    have hv' : (ForeignExc.reference current).ref ∈ visited := hv
    rw [List.map_cons, lifted, evidenceLoop_cons, if_pos hv']
    exact ih (hw.skip hv) hout
  | case3 visited entries current relation queue hv hmax =>
    have hv' : (ForeignExc.reference current).ref ∉ visited := hv
    refine .inl ⟨by rw [List.map_cons, lifted, evidenceLoop_cons, if_neg hv', if_pos hmax], ?_⟩
    have hlen : MAX_CHAIN_DEPTH = out.length := Nat.le_antisymm (hw.length_eq ▸ hmax) hw.length_le
    have hrecorded : g.recorded root = out := by
      rw [Graph.recorded, ← g.links_heap, hlen, hw.order]
    rwa [Graph.RecordedAnswer, hrecorded]
  | case4 visited entries current relation queue hv hmax hnone ih =>
    have hlt : current < g.heap.length := hw.bounded _ List.mem_cons_self
    rw [List.getElem?_eq_none_iff] at hnone
    rw [Graph.heap, List.length_map] at hlt
    omega
  | case5 visited entries current relation queue hv hmax exc hexc e he =>
    -- the walk records it, and its lookup raised
    have ho : g.heap[current]? = some exc.object := by rw [g.getElem?_heap, hexc]; rfl
    have hvisit := hw.visit (g.closed_heap hg) hv hmax ho
    have hrecorded : (current, relation) ∈ g.recorded root := by
      rw [queue_object] at hvisit
      refine mem_recorded hvisit ?_
      exact List.mem_append_right _ (List.mem_singleton_self _)
    refine .inr ⟨⟨e, rfl⟩, fun hall => ?_⟩
    rw [ForeignExc.evidenceFor_of_answers _ (hall _ hrecorded exc hexc)
      (hstr exc (List.mem_of_getElem? hexc))] at he
    cases he
  | case6 visited entries current relation queue hv hmax exc hexc entry he ih =>
    have hv' : (ForeignExc.reference current).ref ∉ visited := hv
    have ho : g.heap[current]? = some exc.object := by rw [g.getElem?_heap, hexc]; rfl
    have hvisit := hw.visit (g.closed_heap hg) hv hmax ho
    have hanswers : exc.Answers := by
      by_contra hnot
      obtain ⟨e, herror⟩ := ForeignExc.evidenceFor_of_not_answers relation hnot
      cases he.symm.trans herror
    have hentry := ForeignExc.evidenceFor_of_answers relation hanswers
      (hstr exc (List.mem_of_getElem? hexc))
    rw [he] at hentry
    cases hentry
    have hloop : evidenceLoop g.heap (((current, relation) :: queue).map lifted) visited entries =
        evidenceLoop g.heap ((queue ++ exc.related (current :: visited)).map lifted)
          (current :: visited) (entries ++ [evidenceFor exc.object relation]) := by
      have ho' : g.heap[(ForeignExc.reference current).ref]? = some exc.object := ho
      rw [List.map_cons, lifted, evidenceLoop_cons, if_neg hv', if_neg hmax, ← queue_object, ho']
      rfl
    rw [hloop]
    refine ih (queue_object queue exc _ ▸ hvisit) fun x hx exc' hexc' => ?_
    rcases List.mem_append.mp hx with hx | hx
    · exact hout x hx exc' hexc'
    · cases List.mem_singleton.mp hx
      cases hexc.symm.trans hexc'
      exact hanswers

end

/-! ## When evidence is built -/

namespace Graph

/-- `build_evidence` returns, with an entry for each exception that it records, and without a
message for one whose lookup of the marker or whose `str()` failed. -/
def Builds (g : Graph) (i : Nat) : Prop :=
  ∃ evidence, foreignEvidence g i = .ok evidence ∧
    evidence.chain.length = (g.recorded i).length ∧
      ∀ (n : Nat) (x : Nat × Option PyStr) (exc : ForeignExc) (entry : ExceptionEvidence),
        (g.recorded i)[n]? = some x → g[x.1]? = some exc → evidence.chain[n]? = some entry →
          exc.Fails → entry.message = none

/-- Evidence is built if and only if the lookup of the marker of every exception that is recorded
comes to something: `AttributeError` is all that it may raise. -/
theorem builds_iff {g : Graph} {i : Nat} (hg : g.Closed) (hi : i < g.length)
    (hstr : ∀ exc ∈ g, exc.StrRaises) : g.Builds i ↔ g.RecordedAnswer i := by
  have hlen : g.heap.length = g.length := List.length_map _
  have hw : Walked g.heap i ([(i, none)].map lifted) [] [] [] :=
    Walked.start (ForeignExc.reference i) (hlen.symm ▸ hi)
  obtain ⟨hchain, -⟩ := evidenceLoop_walked (g.closed_heap hg) _ _ _ hw
  rw [links_heap] at hchain
  change _ = (g.recorded i).map _ at hchain
  rcases foreignLoop_walked hg hstr hw (fun x hx => (by cases hx)) with
    ⟨hloop, hanswer⟩ | ⟨⟨e, hloop⟩, hanswer⟩
  · refine iff_of_true ⟨_, hloop, ?_, fun n x exc entry hx hexc hentry hfails => ?_⟩ hanswer
    · have hlength := congrArg List.length hchain
      rwa [List.length_map, List.length_map] at hlength
    · have hn := congrArg (fun l => l[n]?) hchain
      simp only [List.getElem?_map, hentry, hx, Option.map_some, Heap.entryAt, g.getElem?_heap,
        hexc, Option.some.injEq] at hn
      rw [hn]
      exact ForeignExc.message_of_fails hfails
  · refine iff_of_false ?_ hanswer
    rintro ⟨evidence, hbuilt, -⟩
    cases hloop.symm.trans hbuilt

end Graph

/-- An exception whose lookup of the marker raises, in the context of which another was raised
whose `str()` fails. -/
def hostileGraph (e : PyError) : Graph :=
  [{ qualname := lit "BodyError", marker := .error e, str := .ok (lit "failed"), cause := none,
     context := some 1, traceback := [] },
   { qualname := lit "ControlledError", marker := .ok (some (.atom (.bool true))),
     str := .error ⟨ValueError, []⟩, cause := none, context := none, traceback := [] }]

theorem closed_hostileGraph (e : PyError) : (hostileGraph e).Closed := by
  intro exc hexc
  simp only [hostileGraph, List.mem_cons, List.not_mem_nil, or_false] at hexc
  rcases hexc with rfl | rfl
  · refine ⟨nofun, ?_⟩
    rintro j ⟨⟩
    exact Nat.one_lt_two
  · exact ⟨nofun, nofun⟩

theorem strRaises_hostileGraph (e : PyError) : ∀ exc ∈ hostileGraph e, exc.StrRaises := by
  intro exc hexc e' he'
  simp only [hostileGraph, List.mem_cons, List.not_mem_nil, or_false] at hexc
  rcases hexc with rfl | rfl
  · cases he'
  · cases he'
    decide

/-- A property without a value is a lookup that raises `AttributeError`. -/
theorem builds_iff_hostileGraph :
    (hostileGraph ⟨AttributeError, lit "log_safe_message"⟩).Builds 0 := by
  refine (Graph.builds_iff (closed_hostileGraph _) Nat.two_pos (strRaises_hostileGraph _)).mpr ?_
  intro x _ exc hexc e he
  have hmem := List.mem_of_getElem? hexc
  simp only [hostileGraph, List.mem_cons, List.not_mem_nil, or_false] at hmem
  rcases hmem with rfl | rfl
  · cases he
    decide
  · cases he

/-- A property that fails in another way is not caught. -/
theorem not_builds : ∃ e : PyError, e.isA .exception = true ∧ (hostileGraph e).Closed ∧
    (∀ exc ∈ hostileGraph e, exc.StrRaises) ∧ foreignEvidence (hostileGraph e) 0 = .error e ∧
      ¬(hostileGraph e).Builds 0 := by
  have hraises : foreignEvidence (hostileGraph ⟨ValueError, lit "log_safe_message"⟩) 0 =
      .error ⟨ValueError, lit "log_safe_message"⟩ := by
    rw [foreignEvidence, foreignLoop_visit List.not_mem_nil (by decide) rfl]
    rfl
  refine ⟨_, by decide, closed_hostileGraph _, strRaises_hostileGraph _, hraises, ?_⟩
  rintro ⟨evidence, hbuilt, -⟩
  cases hraises.symm.trans hbuilt

end NmLogging
