import NmLogging.Exceptions

/-!
# Exception evidence

`build_evidence` of `evidence.py`: a bounded walk over the causes and contexts of an
exception, which renders the text of an object only behind the safe-message marker.
Evidence does not depend on the texts of objects that cannot be reached by these links
(`buildEvidence_agree`).
-/

namespace NmLogging

def MAX_CHAIN_DEPTH : Nat := 10
def MAX_TRACEBACK_FRAMES : Nat := 20

/-- Safe evidence for one exception of the chain. -/
structure ExceptionEvidence where
  exceptionType : PyStr
  message : Option PyStr
  locations : List CodeLocation
  relation : Option PyStr
  deriving DecidableEq

/-- The evidence for a failure. -/
structure Evidence where
  chain : List ExceptionEvidence
  truncated : Bool
  deriving DecidableEq

/-- `_safe_message`. -/
def safeMessage (o : ExcObj) : Option PyStr := if o.safe then o.text else none

/-- `_locations`: the innermost frames. -/
def locations (o : ExcObj) : List CodeLocation :=
  o.traceback.drop (o.traceback.length - MAX_TRACEBACK_FRAMES)

/-- `_evidence_for`. -/
def evidenceFor (o : ExcObj) (relation : Option PyStr) : ExceptionEvidence :=
  ⟨o.cls.qualname, safeMessage o, locations o, relation⟩

/-- The links of an object that lead to objects not seen yet. -/
def related (visited : List Nat) (o : ExcObj) : List (Exc × Option PyStr) :=
  ((o.cause.map fun e => (e, some (lit "cause"))).toList ++
    (o.context.map fun e => (e, some (lit "context"))).toList).filter fun r => r.1.ref ∉ visited

/-- The loop of `build_evidence`. A reference always has its object, so the walk never gets
to a missing one. -/
def evidenceLoop (h : Heap) (queue : List (Exc × Option PyStr)) (visited : List Nat)
    (entries : List ExceptionEvidence) : Evidence :=
  match queue with
  | [] => ⟨entries, false⟩
  | (current, relation) :: queue =>
    if current.ref ∈ visited then evidenceLoop h queue visited entries
    else if MAX_CHAIN_DEPTH ≤ entries.length then ⟨entries, true⟩
    else
      match h[current.ref]? with
      | none => evidenceLoop h queue visited entries
      | some o =>
        evidenceLoop h (queue ++ related (current.ref :: visited) o) (current.ref :: visited)
          (entries ++ [evidenceFor o relation])
termination_by (MAX_CHAIN_DEPTH - entries.length, queue.length)

/-- `build_evidence`. -/
def buildEvidence (h : Heap) (e : Exc) : Evidence := evidenceLoop h [(e, none)] [] []

/-- One round of the loop. -/
theorem evidenceLoop_cons (h : Heap) (current : Exc) (relation : Option PyStr)
    (queue : List (Exc × Option PyStr)) (visited : List Nat) (entries : List ExceptionEvidence) :
    evidenceLoop h ((current, relation) :: queue) visited entries =
      if current.ref ∈ visited then evidenceLoop h queue visited entries
      else if MAX_CHAIN_DEPTH ≤ entries.length then ⟨entries, true⟩
      else
        match h[current.ref]? with
        | none => evidenceLoop h queue visited entries
        | some o =>
          evidenceLoop h (queue ++ related (current.ref :: visited) o) (current.ref :: visited)
            (entries ++ [evidenceFor o relation]) := by
  rw [evidenceLoop]

theorem not_mem_of_related {T : Nat → Prop} {visited : List Nat} {o : ExcObj}
    (ho : o.LinksOutside T) : ∀ r ∈ related visited o, ¬T r.1.ref := by
  intro r hr
  simp only [related, List.mem_filter, List.mem_append, Option.mem_toList, Option.map_eq_some_iff]
    at hr
  obtain ⟨⟨e, he, rfl⟩ | ⟨e, he, rfl⟩, -⟩ := hr
  · exact ho.1 e he
  · exact ho.2 e he

theorem evidenceLoop_agree {T : Nat → Prop} {h h' : Heap} (ha : h.Agree T h')
    (queue : List (Exc × Option PyStr)) (visited : List Nat) (entries : List ExceptionEvidence)
    (hq : ∀ r ∈ queue, ¬T r.1.ref) :
    evidenceLoop h queue visited entries = evidenceLoop h' queue visited entries := by
  fun_induction evidenceLoop h queue visited entries with
  | case1 => rw [evidenceLoop]
  | case2 visited entries e relation queue hv ih =>
    rw [evidenceLoop_cons h', if_pos hv]
    exact ih fun r hr => hq r (List.mem_cons_of_mem _ hr)
  | case3 visited entries e relation queue hv hmax =>
    rw [evidenceLoop_cons h', if_neg hv, if_pos hmax]
  | case4 visited entries e relation queue hv hmax hnone ih =>
    rw [ha.equal _ (hq _ List.mem_cons_self)] at hnone
    rw [evidenceLoop_cons h', if_neg hv, if_neg hmax, hnone]
    exact ih fun r hr => hq r (List.mem_cons_of_mem _ hr)
  | case5 visited entries e relation queue hv hmax o ho ih =>
    have he := hq _ List.mem_cons_self
    have hout := ha.outside _ o he ho
    rw [ha.equal _ he] at ho
    rw [evidenceLoop_cons h', if_neg hv, if_neg hmax, ho]
    refine ih fun r hr => ?_
    rcases List.mem_append.mp hr with hr | hr
    · exact hq r (List.mem_cons_of_mem _ hr)
    · exact not_mem_of_related hout r hr

/-- The evidence for an exception is the same in heaps that differ in the texts of objects
that it is not linked to. -/
theorem buildEvidence_agree {T : Nat → Prop} {h h' : Heap} (ha : h.Agree T h') {e : Exc}
    (he : ¬T e.ref) : buildEvidence h e = buildEvidence h' e :=
  evidenceLoop_agree ha _ _ _ fun r hr => by rw [List.mem_singleton.mp hr]; exact he

/-- The evidence for an exception without cause and context. -/
theorem buildEvidence_unlinked {h : Heap} {e : Exc} {o : ExcObj} (ho : h[e.ref]? = some o)
    (hc : o.cause = none) (hx : o.context = none) :
    buildEvidence h e = ⟨[evidenceFor o none], false⟩ := by
  have hrelated : related [e.ref] o = [] := by rw [related, hc, hx]; rfl
  rw [buildEvidence, evidenceLoop_cons, if_neg List.not_mem_nil, if_neg (by decide), ho]
  show evidenceLoop h ([] ++ related [e.ref] o) [e.ref] [evidenceFor o none] = _
  rw [hrelated, List.append_nil, evidenceLoop]

end NmLogging
