import NmLogging.EvidenceWalk

/-!
# Exceptions of any class

`build_evidence` on exceptions of foreign classes, whose `log_safe_message` may be any object
or fail, and whose `str()` may raise. The evidence of two graphs is the same where they differ
in what unmarked exceptions carry only (`foreignEvidence_alike`). On the heap of exception
objects this is `buildEvidence` (`foreignEvidence_graph`).
-/

namespace NmLogging

/-! ## The walk -/

/-- A frame of a traceback, with its local variables. -/
structure Frame where
  location : CodeLocation
  locals : Dict PyAtom PyObj

/-- An exception of any class. `marker` is what the lookup of `log_safe_message` gives or raises
(nothing, where there is no such attribute), and `str` what `str()` returns or raises. -/
structure ForeignExc where
  qualname : PyStr
  marker : Except PyError (Option PyObj)
  str : Except PyError PyStr
  cause : Option Nat
  context : Option Nat
  traceback : List Frame
  args : List PyObj := []
  notes : List PyStr := []

/-- The exceptions that there are, by their identity. -/
abbrev Graph := List ForeignExc

namespace ForeignExc

/-- `_message_is_safe`: exactly `True`. `getattr` takes an `AttributeError` of the lookup for the
lack of the attribute. -/
def messageIsSafe (exc : ForeignExc) : Except PyError Bool :=
  match exc.marker with
  | .ok value => .ok (value.getD (.atom (.bool false)) = .atom (.bool true))
  | .error e => if e.isA .attributeError then .ok false else .error e

/-- `_safe_message`. -/
def safeMessage (exc : ForeignExc) : Except PyError (Option PyStr) := do
  if ← exc.messageIsSafe then
    match exc.str with
    | .ok s => return some s
    | .error e => if e.isA .exception then return none else .error e
  else return none

/-- `_locations`. -/
def locations (exc : ForeignExc) : List CodeLocation :=
  (exc.traceback.map Frame.location).foldl (dequeAppend MAX_TRACEBACK_FRAMES) []

/-- `_evidence_for`. -/
def evidenceFor (exc : ForeignExc) (relation : Option PyStr) : Except PyError ExceptionEvidence := do
  let message ← exc.safeMessage
  return ⟨exc.qualname, message, exc.locations, relation⟩

/-- The links to exceptions not visited yet. -/
def related (visited : List Nat) (exc : ForeignExc) : List (Nat × Option PyStr) :=
  ((exc.cause.map fun i => (i, some (lit "cause"))).toList ++
    (exc.context.map fun i => (i, some (lit "context"))).toList).filter fun r => r.1 ∉ visited

end ForeignExc

/-- The loop of `build_evidence`. -/
def foreignLoop (g : Graph) (queue : List (Nat × Option PyStr)) (visited : List Nat)
    (entries : List ExceptionEvidence) : Except PyError Evidence :=
  match queue with
  | [] => .ok ⟨entries, false⟩
  | (current, relation) :: queue =>
    if current ∈ visited then foreignLoop g queue visited entries
    else if MAX_CHAIN_DEPTH ≤ entries.length then .ok ⟨entries, true⟩
    else
      match g[current]? with
      | none => foreignLoop g queue visited entries
      | some exc =>
        match exc.evidenceFor relation with
        | .error e => .error e
        | .ok entry =>
          foreignLoop g (queue ++ exc.related (current :: visited)) (current :: visited)
            (entries ++ [entry])
termination_by (MAX_CHAIN_DEPTH - entries.length, queue.length)

/-- `build_evidence`. -/
def foreignEvidence (g : Graph) (exc : Nat) : Except PyError Evidence := foreignLoop g [(exc, none)] [] []

/-- One round of the loop. -/
theorem foreignLoop_cons (g : Graph) (current : Nat) (relation : Option PyStr)
    (queue : List (Nat × Option PyStr)) (visited : List Nat) (entries : List ExceptionEvidence) :
    foreignLoop g ((current, relation) :: queue) visited entries =
      if current ∈ visited then foreignLoop g queue visited entries
      else if MAX_CHAIN_DEPTH ≤ entries.length then .ok ⟨entries, true⟩
      else
        match g[current]? with
        | none => foreignLoop g queue visited entries
        | some exc =>
          match exc.evidenceFor relation with
          | .error e => .error e
          | .ok entry =>
            foreignLoop g (queue ++ exc.related (current :: visited)) (current :: visited)
              (entries ++ [entry]) := by
  rw [foreignLoop]

/-- A round that visits an exception. -/
theorem foreignLoop_visit {g : Graph} {current : Nat} {relation : Option PyStr}
    {queue : List (Nat × Option PyStr)} {visited : List Nat} {entries : List ExceptionEvidence}
    {exc : ForeignExc} (hv : current ∉ visited) (hmax : ¬MAX_CHAIN_DEPTH ≤ entries.length)
    (hexc : g[current]? = some exc) :
    foreignLoop g ((current, relation) :: queue) visited entries =
      match exc.evidenceFor relation with
      | .error e => .error e
      | .ok entry =>
        foreignLoop g (queue ++ exc.related (current :: visited)) (current :: visited)
          (entries ++ [entry]) := by
  rw [foreignLoop_cons, if_neg hv, if_neg hmax, hexc]

/-! ## Two graphs -/

/-- Two results of `str()` that evidence cannot tell apart: the same, or exceptions both. -/
def SameStr (s s' : Except PyError PyStr) : Prop :=
  s = s' ∨ ∃ e e', s = .error e ∧ s' = .error e' ∧ e.isA .exception = true ∧ e'.isA .exception = true

/-- Two exceptions with the same type, links, traceback and marker, and the same text where they
are marked: what else they carry may differ. -/
structure ForeignExc.Alike (exc exc' : ForeignExc) : Prop where
  qualname : exc.qualname = exc'.qualname
  cause : exc.cause = exc'.cause
  context : exc.context = exc'.context
  traceback : exc.traceback.map Frame.location = exc'.traceback.map Frame.location
  marker : exc.marker = exc'.marker
  str : exc.messageIsSafe = .ok true → SameStr exc.str exc'.str

namespace ForeignExc.Alike

variable {exc exc' : ForeignExc}

theorem safeMessage (h : exc.Alike exc') : exc.safeMessage = exc'.safeMessage := by
  have hmarker : exc.messageIsSafe = exc'.messageIsSafe := by
    rw [messageIsSafe, messageIsSafe, h.marker]
  rw [ForeignExc.safeMessage, ForeignExc.safeMessage, ← hmarker]
  cases hsafe : exc.messageIsSafe with
  | error e => rfl
  | ok safe =>
    cases safe with
    | false => rfl
    | true =>
      rcases h.str hsafe with hs | ⟨e, e', hs, hs', he, he'⟩
      · rw [hs]
      · simp [bind, Except.bind, hs, hs', he, he']

theorem evidenceFor (h : exc.Alike exc') (relation : Option PyStr) :
    exc.evidenceFor relation = exc'.evidenceFor relation := by
  rw [ForeignExc.evidenceFor, ForeignExc.evidenceFor, h.safeMessage, h.qualname, locations, locations,
    h.traceback]

theorem related (h : exc.Alike exc') (visited : List Nat) :
    exc.related visited = exc'.related visited := by
  rw [ForeignExc.related, ForeignExc.related, h.cause, h.context]

end ForeignExc.Alike

theorem exists_alike {g g' : Graph} (h : List.Forall₂ ForeignExc.Alike g g') {i : Nat}
    {exc : ForeignExc} (hi : g[i]? = some exc) : ∃ exc', g'[i]? = some exc' ∧ exc.Alike exc' := by
  induction h generalizing i with
  | nil => simp at hi
  | cons ha _ ih =>
    cases i with
    | zero =>
      rw [List.getElem?_cons_zero] at hi
      cases hi
      exact ⟨_, List.getElem?_cons_zero, ha⟩
    | succ i =>
      rw [List.getElem?_cons_succ] at hi ⊢
      exact ih hi

theorem foreignLoop_alike {g g' : Graph} (h : List.Forall₂ ForeignExc.Alike g g')
    (queue : List (Nat × Option PyStr)) (visited : List Nat) (entries : List ExceptionEvidence) :
    foreignLoop g queue visited entries = foreignLoop g' queue visited entries := by
  fun_induction foreignLoop g queue visited entries with
  | case1 visited entries => rw [foreignLoop]
  | case2 visited entries current relation queue hv ih => rw [foreignLoop_cons, if_pos hv, ih]
  | case3 visited entries current relation queue hv hmax =>
    rw [foreignLoop_cons, if_neg hv, if_pos hmax]
  | case4 visited entries current relation queue hv hmax hnone ih =>
    have hnone' : g'[current]? = none := by
      rw [List.getElem?_eq_none_iff] at hnone ⊢
      exact h.length_eq ▸ hnone
    rw [foreignLoop_cons, if_neg hv, if_neg hmax, hnone', ih]
  | case5 visited entries current relation queue hv hmax exc hexc e he =>
    obtain ⟨exc', hexc', halike⟩ := exists_alike h hexc
    rw [foreignLoop_visit hv hmax hexc', ← halike.evidenceFor, he]
  | case6 visited entries current relation queue hv hmax exc hexc entry he ih =>
    obtain ⟨exc', hexc', halike⟩ := exists_alike h hexc
    rw [foreignLoop_visit hv hmax hexc', ← halike.evidenceFor, he, ← halike.related, ih]

/-- What unmarked exceptions carry does not show in the evidence, wherever they are. -/
theorem foreignEvidence_alike {g g' : Graph} (h : List.Forall₂ ForeignExc.Alike g g') (exc : Nat) :
    foreignEvidence g exc = foreignEvidence g' exc :=
  foreignLoop_alike h _ _ _

/-- A marked exception raised while an unmarked one was handled. -/
def handling (text : PyStr) : Graph :=
  [{ qualname := lit "SinkError", marker := .ok (some (.atom (.bool true))), str := .ok (lit "failed"),
     cause := none, context := some 1, traceback := [] },
   { qualname := lit "OSError", marker := .ok none, str := .ok text, cause := none, context := none,
     traceback := [], args := [.atom (.str text)] }]

theorem foreignEvidence_alike_handling :
    foreignEvidence (handling (lit "disk full")) 0 =
      foreignEvidence (handling (lit "secret")) 0 := by
  have halike : List.Forall₂ ForeignExc.Alike (handling (lit "disk full")) (handling (lit "secret")) :=
    .cons ⟨rfl, rfl, rfl, rfl, rfl, fun _ => .inl rfl⟩
      (.cons ⟨rfl, rfl, rfl, rfl, rfl, fun h => (by cases h)⟩ .nil)
  exact foreignEvidence_alike halike 0

/-! ## The exception objects of the heap -/

/-- An exception object, as evidence sees it: where `str()` does not return, it raises. -/
def ExcObj.foreign (o : ExcObj) : ForeignExc where
  qualname := o.cls.qualname
  marker := .ok (some (.atom (.bool o.safe)))
  str :=
    match o.text with
    | some s => .ok s
    | none => .error ⟨ValueError, []⟩
  cause := o.cause.map Exc.ref
  context := o.context.map Exc.ref
  traceback := o.traceback.map fun location => ⟨location, Dict.empty⟩
  notes := o.notes

def Heap.graph (h : Heap) : Graph := h.map ExcObj.foreign

theorem evidenceFor_foreign (o : ExcObj) (relation : Option PyStr) :
    o.foreign.evidenceFor relation = .ok (evidenceFor o relation) := by
  have hlocations : o.foreign.locations = locations o := by
    rw [ForeignExc.locations, locations_eq_foldl, ExcObj.foreign, List.map_map]
    congr 1
    exact List.map_id _
  have hmessage : o.foreign.safeMessage = .ok (safeMessage o) := by
    have hmarker : o.foreign.messageIsSafe = .ok o.safe := by
      cases hs : o.safe <;> simp [ForeignExc.messageIsSafe, ExcObj.foreign, hs]
    rw [ForeignExc.safeMessage, hmarker, safeMessage]
    cases o.safe with
    | false => rfl
    | true =>
      cases ht : o.text with
      | some s => simp [bind, Except.bind, ExcObj.foreign, ht, pure, Except.pure]
      | none =>
        have hvalue : (⟨ValueError, []⟩ : PyError).isA .exception = true := by decide
        simp [bind, Except.bind, ExcObj.foreign, ht, hvalue, pure, Except.pure]
  rw [ForeignExc.evidenceFor, hmessage, hlocations]
  rfl

theorem related_foreign (o : ExcObj) (visited : List Nat) :
    o.foreign.related visited = (related visited o).map node := by
  have hlinks : ∀ (l : Option Exc) (label : PyStr),
      ((l.map Exc.ref).map fun i => (i, some label)).toList =
        (l.map fun e => (e, some label)).toList.map node := by
    intro l label
    cases l <;> rfl
  rw [ForeignExc.related, ExcObj.foreign, hlinks, hlinks, ← List.map_append, List.filter_map]
  rfl

/-- On exception objects, it is the evidence of these. -/
theorem foreignLoop_graph (h : Heap) (queue : List (Exc × Option PyStr)) (visited : List Nat)
    (entries : List ExceptionEvidence) :
    foreignLoop h.graph (queue.map node) visited entries =
      .ok (evidenceLoop h queue visited entries) := by
  have hget : ∀ i : Nat, h.graph[i]? = h[i]?.map ExcObj.foreign := fun i => List.getElem?_map ..
  fun_induction evidenceLoop h queue visited entries with
  | case1 visited entries => rw [List.map_nil, foreignLoop]
  | case2 visited entries current relation queue hv ih =>
    rw [List.map_cons, node, foreignLoop_cons, if_pos hv, ih]
  | case3 visited entries current relation queue hv hmax =>
    rw [List.map_cons, node, foreignLoop_cons, if_neg hv, if_pos hmax]
  | case4 visited entries current relation queue hv hmax hnone ih =>
    rw [List.map_cons, node, foreignLoop_cons, if_neg hv, if_neg hmax, hget, hnone]
    exact ih
  | case5 visited entries current relation queue hv hmax o ho ih =>
    have hexc : h.graph[current.ref]? = some o.foreign := by rw [hget, ho]; rfl
    rw [List.map_cons, node, foreignLoop_visit hv hmax hexc, evidenceFor_foreign, related_foreign,
      ← List.map_append]
    exact ih

theorem foreignEvidence_graph (h : Heap) (e : Exc) :
    foreignEvidence h.graph e.ref = .ok (buildEvidence h e) :=
  foreignLoop_graph h [(e, none)] [] []

end NmLogging
