import NmLogging.AuditRun
import NmLogging.EvidenceWalk

/-!
# What raising adds to the graph

Raising a new exception adds a node to the graph of causes and contexts, with the links that
the `raise` statement gives it, and changes no other node (`Heap.Adds`). What evidence shows of
the old ones stays as it was, and of one that links to one other only it shows that and what
evidence for the other shows (`Heap.Adds.shown_new`).
-/

namespace NmLogging

open BreadthFirst

variable {h h' h'' : Heap} {e f : Exc} {i : Nat}

/-! ## Links -/

theorem ExcObj.linksOutside_iff {o : ExcObj} {T : Nat → Prop} :
    o.LinksOutside T ↔ ∀ l ∈ o.links, ¬T l.1.ref := by
  constructor
  · rintro ⟨hcause, hcontext⟩ l hl
    simp only [ExcObj.links, List.mem_append, Option.mem_toList, Option.map_eq_some_iff] at hl
    rcases hl with ⟨g, hg, rfl⟩ | ⟨g, hg, rfl⟩
    · exact hcause g hg
    · exact hcontext g hg
  · intro hl
    refine ⟨fun g hg => hl (g, lit "cause") ?_, fun g hg => hl (g, lit "context") ?_⟩
    · simp [ExcObj.links, hg]
    · simp [ExcObj.links, hg]

namespace Heap

theorem links_of_object {o : ExcObj} (ho : h[i]? = some o) :
    h.links i = o.links.map fun l => (l.1.ref, l.2) := by
  rw [links, ho]

theorem links_of_le (hi : h.length ≤ i) : h.links i = [] := by
  rw [links, List.getElem?_eq_none hi]

theorem closed_iff : h.Closed ↔ ∀ i, ∀ l ∈ h.links i, l.1 < h.length := by
  constructor
  · intro hc i l hl
    cases ho : h[i]? with
    | none => simp [links, ho] at hl
    | some o =>
      rw [links_of_object ho] at hl
      obtain ⟨m, hm, rfl⟩ := List.mem_map.mp hl
      exact Nat.lt_of_not_le (ExcObj.linksOutside_iff.mp (hc i o ho) m hm)
  · intro hl i o ho
    refine ExcObj.linksOutside_iff.mpr fun l hmem => Nat.not_le_of_lt (hl i (l.1.ref, l.2) ?_)
    rw [links_of_object ho]
    exact List.mem_map_of_mem hmem

theorem getElem?_update (h : Heap) (e : Exc) (g : ExcObj → ExcObj) (i : Nat) :
    (h.update e g)[i]? = h[i]?.map fun o => if e.ref = i then g o else o := by
  rw [update, List.getElem?_modify]
  rfl

theorem links_update_of_ne (g : ExcObj → ExcObj) (hi : e.ref ≠ i) :
    (h.update e g).links i = h.links i := by
  rw [links, links, getElem?_update]
  simp [hi]

/-- A change that keeps the cause and the context. -/
theorem links_update (e : Exc) {g : ExcObj → ExcObj} (hg : ∀ o, (g o).links = o.links) :
    (h.update e g).links = h.links := by
  funext i
  rw [links, links, getElem?_update]
  cases h[i]? with
  | none => rfl
  | some o =>
    simp only [Option.map_some]
    split
    · rw [hg]
    · rfl

theorem length_addFrame (h : Heap) (e : Exc) (loc : CodeLocation) :
    (h.addFrame e loc).length = h.length := length_update ..

@[simp] theorem links_addFrame (h : Heap) (e : Exc) (loc : CodeLocation) :
    (h.addFrame e loc).links = h.links := links_update e fun _ => rfl

end Heap

/-! ## A new node -/

/-- A heap has one object more, with these links, and no other has changed its links. -/
structure Heap.Adds (h h' : Heap) (links : List (Nat × PyStr)) : Prop where
  length : h'.length = h.length + 1
  old : ∀ i < h.length, h'.links i = h.links i
  new : h'.links h.length = links

/-- The links that a `raise` statement gives through its cause. -/
def RaiseFrom.links : RaiseFrom → List (Nat × PyStr)
  | .unsaid | .fromNone => []
  | .fromExc c => [(c.ref, lit "cause")]

namespace Heap

theorem adds_alloc (h : Heap) (o : ExcObj) :
    h.Adds (h.alloc o).2 (o.links.map fun l => (l.1.ref, l.2)) where
  length := List.length_append
  old i hi := by rw [links, links, alloc, List.getElem?_append_left hi]
  new := links_of_object (by rw [alloc, List.getElem?_concat_length])

/-- An exception that no other links to is in no context chain. -/
theorem unlink_eq_self {T : Nat → Prop} (ha : h.Agree T h) (he : T e.ref) (fuel : Nat)
    (hf : ¬T f.ref) : unlink e fuel f h = h := by
  induction fuel generalizing f with
  | zero => rfl
  | succ fuel ih =>
    rw [unlink]
    cases hc : h.contextOf f with
    | none => rfl
    | some g =>
      have hg := ha.not_contextOf hf hc
      have hne : g ≠ e := fun heq => hg (heq ▸ he)
      show (if g = e then _ else _) = _
      rw [if_neg hne]
      exact ih hg

theorem agree_alloc (hc : h.Closed) (o : ExcObj) :
    (h.alloc o).2.Agree (fun j => h.length ≤ j) (h.alloc o).2 where
  length := rfl
  equal _ _ := rfl
  same i p p' hp hp' := by
    cases hp.symm.trans hp'
    exact .refl p
  outside i p hi hp := by
    rw [alloc, List.getElem?_append_left (Nat.lt_of_not_le hi)] at hp
    exact hc i p hp

/-- A new exception without cause and context is raised while another is handled. -/
theorem adds_raise (hc : h.Closed) {o : ExcObj} (hcause : o.cause = none)
    (hf : f.ref < h.length) (cause : RaiseFrom) (loc : CodeLocation) :
    h.Adds ((h.alloc o).2.raise (h.alloc o).1 cause (some f) loc)
      (cause.links ++ [(f.ref, lit "context")]) := by
  generalize hx : (h.alloc o).1 = x
  have href : x.ref = h.length := by rw [← hx]; rfl
  have hne : f ≠ x := fun heq => by rw [heq, href] at hf; omega
  -- nothing links to the new object, so no context chain has to be cut for it
  have hcaused : ((h.alloc o).2.setCause x cause).Agree (fun j => h.length ≤ j)
      ((h.alloc o).2.setCause x cause) := by
    have hnew : ¬¬h.length ≤ x.ref := by omega
    cases cause with
    | unsaid => exact agree_alloc hc o
    | fromNone => exact (agree_alloc hc o).update x (fun _ _ => rfl) fun hx => absurd hx hnew
    | fromExc c => exact (agree_alloc hc o).update x (fun _ _ => rfl) fun hx => absurd hx hnew
  have hraise : (h.alloc o).2.raise x cause (some f) loc =
      (((h.alloc o).2.setCause x cause).update x fun o =>
        { o with context := some f }).addFrame x loc := by
    rw [raise, setContext, if_neg hne, unlink_eq_self hcaused (by omega) _ (by omega)]
  have hobject : (h.alloc o).2[x.ref]? = some o := by
    rw [href, alloc, List.getElem?_concat_length]
  have hold : ∀ i < h.length, (h.alloc o).2[i]? = h[i]? := fun i hi => by
    rw [alloc, List.getElem?_append_left hi]
  refine ⟨(length_raise ..).trans List.length_append, fun i hi => ?_, ?_⟩
  · rw [hraise, links_addFrame, links_update_of_ne _ (by omega)]
    cases cause with
    | unsaid => rw [setCause, links, links, hold i hi]
    | fromNone => rw [setCause, links_update_of_ne _ (by omega), links, links, hold i hi]
    | fromExc c => rw [setCause, links_update_of_ne _ (by omega), links, links, hold i hi]
  · rw [hraise, links_addFrame, ← href]
    cases cause with
    | unsaid =>
      simp [setCause, links, getElem?_update, hobject, ExcObj.links, RaiseFrom.links, hcause]
    | fromNone => simp [setCause, links, getElem?_update, hobject, ExcObj.links, RaiseFrom.links]
    | fromExc c => simp [setCause, links, getElem?_update, hobject, ExcObj.links, RaiseFrom.links]

/-! ## What evidence shows -/

/-- The exceptions that the first `n` entries of the evidence for one are about. -/
def shown (h : Heap) (e : Exc) (n : Nat) : List Nat := nodes h.links e.ref n

theorem shown_subset {m n : Nat} (hmn : m ≤ n) : h.shown e m ⊆ h.shown e n := nodes_subset hmn

theorem self_mem_shown {n : Nat} (hn : 0 < n) : e.ref ∈ h.shown e n := root_mem_nodes hn

/-- The evidence for `e` has an entry for `f`: some node of the walk is `f`, and the entry of the
evidence that is at its place is the one for `f`. -/
def Shows (h : Heap) (e f : Exc) : Prop :=
  ∃ (n : Nat) (relation : Option PyStr) (o : ExcObj),
    (order h.links e.ref MAX_CHAIN_DEPTH)[n]? = some (f.ref, relation) ∧ h[f.ref]? = some o ∧
    (buildEvidence h e).chain[n]? = some (evidenceFor o relation)

theorem shows_iff (hc : h.Closed) (he : e.ref < h.length) :
    h.Shows e f ↔ f.ref ∈ h.shown e MAX_CHAIN_DEPTH := by
  constructor
  · rintro ⟨n, relation, o, hn, -, -⟩
    exact List.mem_map.mpr ⟨_, List.mem_of_getElem? hn, rfl⟩
  · intro hf
    obtain ⟨⟨_, relation⟩, hx, rfl⟩ := List.mem_map.mp hf
    obtain ⟨n, hn⟩ := List.getElem?_of_mem hx
    have hlt : f.ref < h.length := hc.reachable_lt he _ (reachable_of_mem_order hx)
    have hchain := congrArg (fun l => l[n]?) (evidenceLoop_walked hc _ _ _ (Walked.start e he)).1
    simp only [List.getElem?_map, hn, Option.map_some, entryAt,
      List.getElem?_eq_getElem hlt] at hchain
    obtain ⟨entry, hentry, heq⟩ := Option.map_eq_some_iff.mp hchain
    cases heq
    exact ⟨n, relation, _, hn, List.getElem?_eq_getElem hlt, hentry⟩

namespace Adds

variable {links : List (Nat × PyStr)}

theorem closed (ha : h.Adds h' links) (hc : h.Closed) (hl : ∀ l ∈ links, l.1 < h.length) :
    h'.Closed := by
  rw [closed_iff, ha.length]
  intro i l hmem
  rcases Nat.lt_trichotomy i h.length with hi | rfl | hi
  · rw [ha.old i hi] at hmem
    exact Nat.lt_succ_of_lt (closed_iff.mp hc i l hmem)
  · rw [ha.new] at hmem
    exact Nat.lt_succ_of_lt (hl l hmem)
  · rw [links_of_le (by rw [ha.length]; omega)] at hmem
    cases hmem

/-- The search from an old node is as it was. -/
theorem shown_old (ha : h.Adds h' links) (hc : h.Closed) (he : e.ref < h.length) (n : Nat) :
    h'.shown e n = h.shown e n := by
  rw [shown, shown, nodes, nodes, order_congr fun i hi => ha.old i (hc.reachable_lt he i hi)]

theorem reachable_old (ha : h.Adds h' links) (hc : h.Closed) (he : e.ref < h.length) :
    ∀ i ∈ reachable h'.links e.ref, i < h.length := by
  rintro i ⟨n, hn⟩
  induction hn with
  | root => exact he
  | link _ hl ih => exact closed_iff.mp hc _ _ (ha.old _ ih ▸ hl)

/-- The search from the new node, if that links to one other only. -/
theorem shown_new (ha : h.Adds h' links) (hc : h.Closed) (hf : f.ref < h.length)
    (hlinks : links ≠ []) (hl : ∀ l ∈ links, l.1 = f.ref) (he : e.ref = h.length) (n : Nat) :
    h'.shown e (n + 1) = e.ref :: h.shown f n := by
  have hc' : h'.Closed := ha.closed hc fun l hmem => (hl l hmem).trans_lt hf
  rw [← ha.shown_old hc hf n, shown, shown, he]
  refine nodes_of_link (by rwa [ha.new]) (by rwa [ha.new]) (fun hreach => ?_) n
  exact absurd (ha.reachable_old hc hf _ hreach) (Nat.lt_irrefl _)

/-- A search from the new node finds what it links to first. -/
theorem mem_shown_new (ha : h.Adds h' links) (hl : (f.ref, lit "context") ∈ links)
    (he : e.ref = h.length) : f.ref ∈ h'.shown e (links.length + 1) := by
  refine mem_nodes_of_mem_take (x := (f.ref, some (lit "context"))) ?_
  have hhead : order h'.links e.ref (links.length + 1) =
      (e.ref, none) :: (order h'.links e.ref (links.length + 1)).tail := by
    have hfirst : (order h'.links e.ref (links.length + 1)).head? = some (e.ref, none) :=
      head?_order (Nat.succ_pos links.length)
    obtain ⟨tail, htail⟩ := List.head?_eq_some_iff.mp hfirst
    rw [htail, List.tail_cons]
  rw [hhead, leads, List.flatMap_cons, labelled, he, ha.new, List.take_succ_cons,
    List.take_append_of_le_length (by rw [List.length_map])]
  refine List.mem_cons_of_mem _ ?_
  rw [List.take_of_length_le (by rw [List.length_map])]
  exact List.mem_map.mpr ⟨_, hl, rfl⟩

end Adds

/-! ## Chains -/

/-- A new exception that was raised while another was handled, and from none. -/
theorem alloc_spec {o : ExcObj} (hcause : o.cause = none) (hcontext : o.context = some f)
    (hc : h.Closed) (hf : f.ref < h.length) {n j : Nat} (hj : j ∈ h.shown f n) :
    (h.alloc o).2.Closed ∧ h.length ≤ (h.alloc o).2.length ∧
      (h.alloc o).1.ref < (h.alloc o).2.length ∧ j ∈ (h.alloc o).2.shown (h.alloc o).1 (n + 1) := by
  have hadds := h.adds_alloc o
  have hlinks : (o.links.map fun l => (l.1.ref, l.2)) = [(f.ref, lit "context")] := by
    simp [ExcObj.links, hcause, hcontext]
  rw [hlinks] at hadds
  have href : (h.alloc o).1.ref = h.length := rfl
  refine ⟨hadds.closed hc (by simpa using hf), by rw [hadds.length]; omega,
    by rw [href, hadds.length]; omega, ?_⟩
  rw [hadds.shown_new hc hf (List.cons_ne_nil _ _) (by simp) href]
  exact List.mem_cons_of_mem _ hj

/-- New exceptions without causes, each the context of the next, put what the first one's context
shows further away by as many as they are. -/
theorem allocChain_spec {os : List ExcObj} (hos : ∀ o ∈ os, o.cause = none) (hc : h.Closed)
    (hf : f.ref < h.length) {n j : Nat} (hj : j ∈ h.shown f n) :
    ∃ g h', h.allocChain (some f) os = (some g, h') ∧ h'.Closed ∧ h.length ≤ h'.length ∧
      g.ref < h'.length ∧ j ∈ h'.shown g (n + os.length) := by
  induction os generalizing h f n with
  | nil => exact ⟨f, h, rfl, hc, Nat.le_refl _, hf, hj⟩
  | cons o os ih =>
    obtain ⟨hc₁, hle, hlt, hj₁⟩ := alloc_spec (o := { o with context := some f })
      (hos o List.mem_cons_self) rfl hc hf hj
    obtain ⟨g, h', heq, hc', hle', hg, hj'⟩ :=
      ih (fun p hp => hos p (List.mem_cons_of_mem _ hp)) hc₁ hlt hj₁
    refine ⟨g, h', heq, hc', hle.trans hle', hg, ?_⟩
    rwa [List.length_cons, Nat.add_comm os.length 1, ← Nat.add_assoc]

/-- Links still lead to objects, also where the first one has no context. -/
theorem allocChain_closed {os : List ExcObj} (hos : ∀ o ∈ os, o.cause = none) (hc : h.Closed)
    {context : Option Exc} (hcontext : ∀ g, context = some g → g.ref < h.length) :
    (h.allocChain context os).2.Closed ∧ h.length ≤ (h.allocChain context os).2.length ∧
      ∀ g, (h.allocChain context os).1 = some g → g.ref < (h.allocChain context os).2.length := by
  induction os generalizing h context with
  | nil => exact ⟨hc, Nat.le_refl _, hcontext⟩
  | cons o os ih =>
    have hadds := h.adds_alloc { o with context := context }
    have hc₁ : (h.alloc { o with context := context }).2.Closed := by
      refine hadds.closed hc fun l hl => ?_
      obtain ⟨m, hm, rfl⟩ := List.mem_map.mp hl
      simp only [ExcObj.links, hos o List.mem_cons_self, Option.map_none, Option.toList_none,
        List.nil_append, Option.mem_toList, Option.map_eq_some_iff] at hm
      obtain ⟨g, hg, rfl⟩ := hm
      exact hcontext g hg
    have hnew : ∀ g, some (h.alloc { o with context := context }).1 = some g →
        g.ref < (h.alloc { o with context := context }).2.length := by
      rintro _ ⟨⟩
      rw [hadds.length]
      exact Nat.lt_succ_self _
    obtain ⟨hclosed, hle, hlt⟩ := ih (fun p hp => hos p (List.mem_cons_of_mem _ hp)) hc₁ hnew
    exact ⟨hclosed, (Nat.le_of_lt (hadds.length ▸ Nat.lt_succ_self _)).trans hle, hlt⟩

end Heap

end NmLogging
