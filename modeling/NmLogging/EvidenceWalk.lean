import NmLogging.Evidence
import NmLogging.Framework.BreadthFirst

/-!
# The walk of build_evidence

The chain of `build_evidence` is a bounded breadth-first search over causes and contexts
(`buildEvidence_breadthFirst`): what the loop has recorded are the first nodes of the search
(`BreadthFirst.order`), and of what is in its queue and was not visited, the first is the
next node (`Walked`).
-/

namespace NmLogging

open BreadthFirst

/-! ## Locations -/

/-- `deque(maxlen=n).append(x)`. -/
def dequeAppend {α : Type} (n : Nat) (window : List α) (x : α) : List α :=
  (window ++ [x]).drop ((window ++ [x]).length - n)

/-- A bounded deque keeps the last items. -/
theorem foldl_dequeAppend {α : Type} (n : Nat) (xs : List α) :
    xs.foldl (dequeAppend n) [] = xs.drop (xs.length - n) := by
  induction xs using List.reverseRecOn with
  | nil => exact List.drop_nil.symm
  | append_singleton xs x ih =>
    have hdrop : xs.drop (xs.length - n) ++ [x] = (xs ++ [x]).drop (xs.length - n) :=
      (List.drop_append_of_le_length (Nat.sub_le _ _)).symm
    rw [List.foldl_append, List.foldl_cons, List.foldl_nil, ih, dequeAppend, hdrop, List.drop_drop,
      List.length_drop, List.length_append, List.length_singleton]
    congr 1
    omega

/-- `_locations`, frame by frame. -/
theorem locations_eq_foldl (o : ExcObj) :
    locations o = o.traceback.foldl (dequeAppend MAX_TRACEBACK_FRAMES) [] :=
  (foldl_dequeAppend _ _).symm

/-- The last frames, in their order. -/
theorem locations_suffix (o : ExcObj) :
    locations o <:+ o.traceback ∧
      (locations o).length = min MAX_TRACEBACK_FRAMES o.traceback.length := by
  refine ⟨List.drop_suffix _ _, ?_⟩
  rw [locations, List.length_drop]
  omega

/-! ## The graph -/

/-- Every link leads to an object. -/
def Heap.Closed (h : Heap) : Prop :=
  ∀ (i : Nat) (o : ExcObj), h[i]? = some o → o.LinksOutside fun j => h.length ≤ j

/-- The links of an exception that evidence follows. -/
def ExcObj.links (o : ExcObj) : List (Exc × PyStr) :=
  (o.cause.map fun e => (e, lit "cause")).toList ++ (o.context.map fun e => (e, lit "context")).toList

/-- The exceptions that one is linked to: its cause, then its context. -/
def Heap.links (h : Heap) (i : Nat) : List (Nat × PyStr) :=
  match h[i]? with
  | none => []
  | some o => o.links.map fun l => (l.1.ref, l.2)

/-- The entry of a node of the search. -/
def Heap.entryAt (h : Heap) (x : Nat × Option PyStr) : Option ExceptionEvidence :=
  h[x.1]?.map fun o => evidenceFor o x.2

/-- The node of an item of the queue. -/
def node (r : Exc × Option PyStr) : Nat × Option PyStr := (r.1.ref, r.2)

/-- What is not visited is what a list of nodes does not have. -/
def unseen (out xs : List (Nat × Option PyStr)) : List (Nat × Option PyStr) :=
  xs.filter fun x => x.1 ∉ out.map Prod.fst

theorem unseen_append (out xs ys : List (Nat × Option PyStr)) :
    unseen out (xs ++ ys) = unseen out xs ++ unseen out ys := List.filter_append ..

/-- What is unseen later is unseen before. -/
theorem unseen_unseen (out new xs : List (Nat × Option PyStr)) :
    unseen (out ++ new) (unseen out xs) = unseen (out ++ new) xs := by
  rw [unseen, unseen, unseen, List.filter_filter]
  refine List.filter_congr fun x _ => ?_
  simp only [List.map_append, List.mem_append, not_or]
  by_cases h : x.1 ∈ out.map Prod.fst <;> simp [h]

theorem next_eq_head? {h : Heap} {root : Nat} {out : List (Nat × Option PyStr)} :
    next h.links root out = (unseen out (leads h.links root out)).head? := by
  rw [next, unseen, List.head?_filter]

theorem labelled_links {h : Heap} {i : Nat} {o : ExcObj} (ho : h[i]? = some o) :
    labelled h.links i = o.links.map fun l => (l.1.ref, some l.2) := by
  rw [labelled, Heap.links, ho, List.map_map]
  rfl

/-- What the loop puts into its queue is what the object links to, but for what it has
visited. -/
theorem map_node_related {h : Heap} {i : Nat} {o : ExcObj} (ho : h[i]? = some o)
    {visited : List Nat} {out : List (Nat × Option PyStr)}
    (hv : ∀ j, j ∈ visited ↔ j ∈ out.map Prod.fst) :
    (related visited o).map node = unseen out (labelled h.links i) := by
  have hlinks : (o.cause.map fun e => (e, some (lit "cause"))).toList ++
      (o.context.map fun e => (e, some (lit "context"))).toList =
        o.links.map fun l => (l.1, some l.2) := by
    cases hc : o.cause <;> cases hx : o.context <;> simp [ExcObj.links, hc, hx]
  rw [related, hlinks, labelled_links ho, unseen, List.filter_map, List.filter_map, List.map_map]
  congr 1
  refine List.filter_congr fun l _ => ?_
  simp only [Function.comp_apply, hv]

/-! ## The loop -/

/-- What the loop has visited and recorded are the first nodes of the search, and of what is in
its queue and was not visited, the first is the next node. -/
structure Walked (h : Heap) (root : Nat) (queue : List (Exc × Option PyStr)) (visited : List Nat)
    (entries : List ExceptionEvidence) (out : List (Nat × Option PyStr)) : Prop where
  bounded : ∀ r ∈ queue, r.1.ref < h.length
  order : BreadthFirst.order h.links root out.length = out
  entries : entries.map some = out.map h.entryAt
  visited : ∀ j, j ∈ visited ↔ j ∈ out.map Prod.fst
  queue : unseen out (queue.map node) = unseen out (leads h.links root out)
  length_le : out.length ≤ MAX_CHAIN_DEPTH

namespace Walked

variable {h : Heap} {root : Nat} {queue : List (Exc × Option PyStr)} {visited : List Nat}
  {entries : List ExceptionEvidence} {out : List (Nat × Option PyStr)} {current : Exc}
  {relation : Option PyStr}

theorem start (e : Exc) (he : e.ref < h.length) : Walked h e.ref [(e, none)] [] [] [] where
  order := rfl
  entries := rfl
  visited _ := Iff.rfl
  queue := rfl
  bounded _ hr := by rw [List.mem_singleton.mp hr]; exact he
  length_le := Nat.zero_le _

theorem length_eq (hw : Walked h root queue visited entries out) : entries.length = out.length := by
  have := congrArg List.length hw.entries
  rwa [List.length_map, List.length_map] at this

/-- An item that was visited is passed over. -/
theorem skip (hw : Walked h root ((current, relation) :: queue) visited entries out)
    (hv : current.ref ∈ visited) : Walked h root queue visited entries out where
  order := hw.order
  entries := hw.entries
  visited := hw.visited
  queue := by
    rw [← hw.queue, List.map_cons, unseen, unseen, List.filter_cons_of_neg]
    exact fun hd => of_decide_eq_true hd ((hw.visited _).mp hv)
  bounded r hr := hw.bounded r (List.mem_cons_of_mem _ hr)
  length_le := hw.length_le

/-- One that was not is the next node. -/
theorem next_eq (hw : Walked h root ((current, relation) :: queue) visited entries out)
    (hv : current.ref ∉ visited) : next h.links root out = some (current.ref, relation) := by
  rw [next_eq_head?, ← hw.queue, List.map_cons, unseen, List.filter_cons_of_pos]
  · rfl
  · exact decide_eq_true fun hm => hv ((hw.visited _).mpr hm)

theorem next_eq_none (hw : Walked h root [] visited entries out) : next h.links root out = none := by
  rw [next_eq_head?, ← hw.queue]
  rfl

/-- It is recorded, and what it links to is put at the end of the queue. -/
theorem visit (hh : h.Closed) (hw : Walked h root ((current, relation) :: queue) visited entries out)
    (hv : current.ref ∉ visited) (hmax : ¬MAX_CHAIN_DEPTH ≤ entries.length) {o : ExcObj}
    (ho : h[current.ref]? = some o) :
    Walked h root (queue ++ related (current.ref :: visited) o) (current.ref :: visited)
      (entries ++ [evidenceFor o relation]) (out ++ [(current.ref, relation)]) := by
  have hnode : node (current, relation) = (current.ref, relation) := rfl
  have hvisited : ∀ j, j ∈ current.ref :: visited ↔
      j ∈ (out ++ [(current.ref, relation)]).map Prod.fst := by
    intro j
    rw [List.mem_cons, hw.visited, List.map_append, List.mem_append, List.map_cons, List.map_nil,
      List.mem_singleton, or_comm]
  have hseen : ∀ xs, unseen (out ++ [(current.ref, relation)]) ((current.ref, relation) :: xs) =
      unseen (out ++ [(current.ref, relation)]) xs :=
    fun xs => List.filter_cons_of_neg (by simp)
  refine ⟨fun r hr => ?_, ?_, ?_, hvisited, ?_, ?_⟩
  · rcases List.mem_append.mp hr with hr | hr
    · exact hw.bounded r (List.mem_cons_of_mem _ hr)
    · exact Nat.lt_of_not_le (not_mem_of_related (hh _ _ ho) r hr)
  · have hnext := hw.next_eq hv
    rw [← hw.order] at hnext
    rw [List.length_append, List.length_singleton, order_succ_of_next hnext, hw.order]
  · simp only [List.map_append, List.map_cons, List.map_nil, hw.entries, Heap.entryAt, ho,
      Option.map_some]
  · have hleads : leads h.links root (out ++ [(current.ref, relation)]) =
        leads h.links root out ++ labelled h.links current.ref := by
      simp [leads]
    have hqueue := congrArg (unseen (out ++ [(current.ref, relation)])) hw.queue
    rw [unseen_unseen, unseen_unseen, List.map_cons, hnode, hseen] at hqueue
    rw [List.map_append, unseen_append, hqueue, map_node_related ho hvisited, hleads, unseen_append]
    congr 1
    rw [unseen, unseen, List.filter_filter]
    simp only [Bool.and_self]
  · rw [List.length_append, List.length_singleton, ← hw.length_eq]
    omega

end Walked

/-- The loop ends with the first nodes of the search, and says whether there is a next one. -/
theorem evidenceLoop_walked {h : Heap} (hh : h.Closed) {root : Nat}
    (queue : List (Exc × Option PyStr)) (visited : List Nat) (entries : List ExceptionEvidence)
    {out : List (Nat × Option PyStr)} (hw : Walked h root queue visited entries out) :
    (evidenceLoop h queue visited entries).chain.map some =
        (order h.links root MAX_CHAIN_DEPTH).map h.entryAt ∧
      (evidenceLoop h queue visited entries).truncated =
        (next h.links root (order h.links root MAX_CHAIN_DEPTH)).isSome := by
  fun_induction evidenceLoop h queue visited entries generalizing out with
  | case1 visited entries =>
    have hnone := hw.next_eq_none
    rw [← hw.order] at hnone
    rw [order_of_none hnone hw.length_le, hnone, hw.order]
    exact ⟨hw.entries, rfl⟩
  | case2 visited entries current relation queue hv ih => exact ih (hw.skip hv)
  | case3 visited entries current relation queue hv hmax =>
    have hlen : MAX_CHAIN_DEPTH = out.length := Nat.le_antisymm (hw.length_eq ▸ hmax) hw.length_le
    rw [hlen, hw.order, hw.next_eq hv]
    exact ⟨hw.entries, rfl⟩
  | case4 visited entries current relation queue hv hmax hnone ih =>
    have hlt : current.ref < h.length := hw.bounded _ List.mem_cons_self
    rw [List.getElem?_eq_none_iff] at hnone
    omega
  | case5 visited entries current relation queue hv hmax o ho ih =>
    exact ih (hw.visit hh hv hmax ho)

/-- Links lead to objects only. -/
theorem Heap.Closed.reachable_lt {h : Heap} (hh : h.Closed) {root : Nat} (hr : root < h.length) :
    ∀ i ∈ reachable h.links root, i < h.length := by
  rintro i ⟨n, hn⟩
  induction hn with
  | root => exact hr
  | @link n i j l _ hl ih =>
    rw [Heap.links, List.getElem?_eq_getElem ih] at hl
    obtain ⟨hcause, hcontext⟩ := hh i _ (List.getElem?_eq_getElem ih)
    simp only [ExcObj.links, List.map_append, List.mem_append, List.mem_map, Option.mem_toList,
      Option.map_eq_some_iff, Prod.mk.injEq] at hl
    rcases hl with ⟨p, ⟨e, he, rfl⟩, rfl, -⟩ | ⟨p, ⟨e, he, rfl⟩, rfl, -⟩
    · exact Nat.lt_of_not_le (hcause e he)
    · exact Nat.lt_of_not_le (hcontext e he)

/-- The evidence for an exception lists the nodes that a breadth-first search finds: an entry for
each, all distinct, from the exception itself on, as many as may be listed and there are; each is
the next one after those before it, and reached by the link that its entry names; none is further
away than one behind it. The evidence is truncated where there are more, and an entry has the
innermost frames of its exception. -/
structure Finds (h : Heap) (e : Exc) (found : List (Nat × Option PyStr)) : Prop where
  chain : (buildEvidence h e).chain.map some = found.map h.entryAt
  distinct : (found.map Prod.fst).Nodup
  first : found.head? = some (e.ref, none)
  length : found.length = min MAX_CHAIN_DEPTH (reachable h.links e.ref).ncard
  reached : ∀ u x v, found = u ++ x :: v → next h.links e.ref u = some x
  nearest : ∀ u x v, found = u ++ x :: v → ∀ y ∈ v, ∀ k, Steps h.links e.ref k y.1 →
    ∃ m ≤ k, Steps h.links e.ref m x.1
  truncated : (buildEvidence h e).truncated = true ↔
    MAX_CHAIN_DEPTH < (reachable h.links e.ref).ncard
  frames : ∀ o relation, (evidenceFor o relation).locations <:+ o.traceback ∧
    (evidenceFor o relation).locations.length = min MAX_TRACEBACK_FRAMES o.traceback.length

/-- `build_evidence` is a bounded breadth-first search, whatever the graph. -/
theorem buildEvidence_breadthFirst {h : Heap} (hh : h.Closed) {e : Exc} (he : e.ref < h.length) :
    Finds h e (order h.links e.ref MAX_CHAIN_DEPTH) := by
  have hfin : (reachable h.links e.ref).Finite :=
    (Set.finite_lt_nat h.length).subset (hh.reachable_lt he)
  obtain ⟨hchain, htruncated⟩ := evidenceLoop_walked hh _ _ _ (Walked.start e he)
  exact {
    chain := hchain
    distinct := nodup_order _
    first := head?_order (by decide)
    length := length_order hfin _
    reached := fun u x v huv => (next_of_order_eq huv).2
    nearest := fun u x v huv y hy k hk => exists_steps_le huv hy hk
    truncated := (Bool.eq_iff_iff.mp htruncated).trans (next_isSome_iff hfin _)
    frames := fun o _ => locations_suffix o }

/-- An exception whose cause and context are the same one, which is its own context. -/
def loopHeap : Heap :=
  [{ ExcObj.ofError ⟨ValueError, lit "a"⟩ with
      cause := some ⟨1, ValueError⟩, context := some ⟨1, ValueError⟩ },
    { ExcObj.ofError ⟨ValueError, lit "b"⟩ with context := some ⟨1, ValueError⟩ }]

theorem closed_loopHeap : loopHeap.Closed := by
  have hlinks : ∀ o ∈ loopHeap, o.LinksOutside fun j => loopHeap.length ≤ j := by
    intro o ho
    simp only [loopHeap, List.mem_cons, List.not_mem_nil, or_false] at ho
    rcases ho with rfl | rfl
    · exact ⟨fun e he => (by cases he; decide), fun e he => (by cases he; decide)⟩
    · exact ⟨fun e he => (by cases he), fun e he => (by cases he; decide)⟩
  exact fun i o ho => hlinks o (List.mem_of_getElem? ho)

theorem buildEvidence_breadthFirst_loopHeap :
    Finds loopHeap ⟨0, ValueError⟩ [(0, none), (1, some (lit "cause"))] :=
  buildEvidence_breadthFirst closed_loopHeap (e := ⟨0, ValueError⟩) (by decide)

end NmLogging
