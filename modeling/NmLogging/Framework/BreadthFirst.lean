import Mathlib.Data.Set.Card
import Mathlib.Tactic.Common

/-!
# Breadth-first search

The nodes that links lead to from a root, in the order in which a breadth-first search
first reaches them, each with the label of the link that reached it. The next node is the
first one that is not yet there, of the root and of what the nodes before link to, in their
order (`next`), so it is no further from the root than those after it
(`exists_steps_le`). The first `n` of the nodes are all distinct, and `n` of them where so
many can be reached (`length_order`). The search depends on the links of the nodes that it
reaches only (`order_congr`), and from a node that links to one other only it goes on as that
from the other (`nodes_of_link`).
-/

namespace NmLogging.BreadthFirst

variable {α L : Type} [DecidableEq α] (links : α → List (α × L)) (root : α)

/-- A node that links lead to, and how many. -/
inductive Steps : Nat → α → Prop where
  | root : Steps 0 root
  | link {n : Nat} {a b : α} {l : L} : Steps n a → (b, l) ∈ links a → Steps (n + 1) b

/-- The nodes that links lead to. -/
def reachable : Set α := {a | ∃ n, Steps links root n a}

/-- What a node links to, with the labels of the links. -/
def labelled (a : α) : List (α × Option L) := (links a).map fun b => (b.1, some b.2)

/-- The root and what the nodes of a list link to, in their order. -/
def leads (out : List (α × Option L)) : List (α × Option L) :=
  (root, none) :: out.flatMap fun x => labelled links x.1

/-- The first of these that is not in the list itself. -/
def next (out : List (α × Option L)) : Option (α × Option L) :=
  (leads links root out).find? fun x => x.1 ∉ out.map Prod.fst

/-- The first `n` nodes that the search reaches. -/
def order : Nat → List (α × Option L)
  | 0 => []
  | n + 1 => order n ++ (next links root (order n)).toList

variable {links root}

theorem order_succ_of_next {n : Nat} {x : α × Option L}
    (h : next links root (order links root n) = some x) :
    order links root (n + 1) = order links root n ++ [x] := by
  rw [order, h]
  rfl

theorem order_succ_of_none {n : Nat} (h : next links root (order links root n) = none) :
    order links root (n + 1) = order links root n := by
  rw [order, h]
  exact List.append_nil _

/-- Once there is no next node, there is none later. -/
theorem order_of_none {n m : Nat} (h : next links root (order links root n) = none) (hm : n ≤ m) :
    order links root m = order links root n := by
  induction m, hm using Nat.le_induction with
  | base => rfl
  | succ m _ ih =>
    rw [← ih] at h
    rw [order_succ_of_none h, ih]

theorem next_nil : next links root [] = some (root, none) := by
  rw [next, leads, List.find?_cons_of_pos]
  simp

/-- The first nodes are first in every longer search. -/
theorem order_prefix_order {m n : Nat} (h : m ≤ n) : order links root m <+: order links root n := by
  induction n, h using Nat.le_induction with
  | base => exact List.prefix_rfl
  | succ n _ ih => exact ih.trans (List.prefix_append _ _)

theorem order_one : order links root 1 = [(root, none)] := order_succ_of_next next_nil

/-- The first node is the root. -/
theorem head?_order {n : Nat} (hn : 0 < n) :
    (order links root n).head? = some (root, none) := by
  induction n, Nat.succ_le_of_lt hn using Nat.le_induction with
  | base => rw [order_one]; rfl
  | succ n h ih => rw [order, List.head?_append, ih h, Option.some_or]

/-- The search reaches `n` nodes, if there is still a next one. -/
theorem length_order_of_next {n : Nat} {x : α × Option L}
    (h : next links root (order links root n) = some x) : (order links root n).length = n := by
  induction n generalizing x with
  | zero => rfl
  | succ n ih =>
    cases hn : next links root (order links root n) with
    | none =>
      rw [order_succ_of_none hn, hn] at h
      cases h
    | some y => rw [order_succ_of_next hn, List.length_append, ih hn, List.length_singleton]

theorem length_order_le (n : Nat) : (order links root n).length ≤ n := by
  induction n with
  | zero => exact Nat.le_refl 0
  | succ n ih =>
    rw [order, List.length_append]
    have : (next links root (order links root n)).toList.length ≤ 1 := by
      cases next links root (order links root n) <;> simp
    omega

theorem next_spec {out : List (α × Option L)} {x : α × Option L}
    (h : next links root out = some x) :
    x.1 ∉ out.map Prod.fst ∧ x ∈ leads links root out := by
  have hx := List.find?_some h
  exact ⟨of_decide_eq_true hx, List.mem_of_find?_eq_some h⟩

/-- The nodes are distinct. -/
theorem nodup_order (n : Nat) : ((order links root n).map Prod.fst).Nodup := by
  induction n with
  | zero => exact List.nodup_nil
  | succ n ih =>
    cases hn : next links root (order links root n) with
    | none => rwa [order_succ_of_none hn]
    | some x =>
      rw [order_succ_of_next hn, List.map_append]
      refine ih.append (List.nodup_singleton _) ?_
      intro a ha hx
      rw [List.map_cons, List.map_nil, List.mem_singleton] at hx
      exact (next_spec hn).1 (hx ▸ ha)

omit [DecidableEq α] in
theorem mem_leads {out : List (α × Option L)} {x : α × Option L} :
    x ∈ leads links root out ↔
      x = (root, none) ∨ ∃ y ∈ out, ∃ b l, (b, l) ∈ links y.1 ∧ x = (b, some l) := by
  simp only [leads, labelled, List.mem_cons, List.mem_flatMap, List.mem_map, Prod.exists]
  constructor
  · rintro (h | ⟨a, l, hy, b, l', hl, rfl⟩)
    · exact .inl h
    · exact .inr ⟨a, l, hy, b, l', hl, rfl⟩
  · rintro (h | ⟨a, l, hy, b, l', hl, rfl⟩)
    · exact .inl h
    · exact .inr ⟨a, l, hy, b, l', hl, rfl⟩

/-- Links lead to every node of the search. -/
theorem reachable_of_mem_order {n : Nat} {x : α × Option L} (hx : x ∈ order links root n) :
    x.1 ∈ reachable links root := by
  induction n generalizing x with
  | zero => cases hx
  | succ n ih =>
    rw [order, List.mem_append, Option.mem_toList] at hx
    rcases hx with hx | hx
    · exact ih hx
    · rcases mem_leads.mp (next_spec hx).2 with rfl | ⟨y, hy, b, l, hl, rfl⟩
      · exact ⟨0, .root⟩
      · obtain ⟨m, hm⟩ := ih hy
        exact ⟨m + 1, hm.link hl⟩

/-- Where there is no next node, the search has reached all there are. -/
theorem mem_order_of_none {n : Nat} (h : next links root (order links root n) = none) {a : α}
    (ha : a ∈ reachable links root) : a ∈ (order links root n).map Prod.fst := by
  have closed : ∀ x ∈ leads links root (order links root n),
      x.1 ∈ (order links root n).map Prod.fst := by
    intro x hx
    by_contra hn
    exact List.find?_eq_none.mp h x hx (decide_eq_true hn)
  obtain ⟨m, hm⟩ := ha
  induction hm with
  | root => exact closed _ (mem_leads.mpr (.inl rfl))
  | link _ hl ih =>
    obtain ⟨y, hy, rfl⟩ := List.mem_map.mp ih
    exact closed _ (mem_leads.mpr (.inr ⟨y, hy, _, _, hl, rfl⟩))

/-- The search reaches as many nodes as it is asked for, or all there are. -/
theorem length_order (hfin : (reachable links root).Finite) (n : Nat) :
    (order links root n).length = min n (reachable links root).ncard := by
  have hsub : {a | a ∈ (order links root n).map Prod.fst} ⊆ reachable links root := by
    intro a ha
    obtain ⟨x, hx, rfl⟩ := List.mem_map.mp ha
    exact reachable_of_mem_order hx
  have hcard : {a | a ∈ (order links root n).map Prod.fst}.ncard = (order links root n).length := by
    rw [← List.coe_toFinset, Set.ncard_coe_finset, List.toFinset_card_of_nodup (nodup_order n),
      List.length_map]
  have hle : (order links root n).length ≤ (reachable links root).ncard :=
    hcard ▸ Set.ncard_le_ncard hsub hfin
  cases hn : next links root (order links root n) with
  | none =>
    have heq : {a | a ∈ (order links root n).map Prod.fst} = reachable links root :=
      Set.Subset.antisymm hsub fun a ha => mem_order_of_none hn ha
    rw [heq] at hcard
    have : (order links root n).length ≤ n := length_order_le n
    omega
  | some x =>
    have := length_order_of_next hn
    omega

/-- There is a next node where more can be reached. -/
theorem next_isSome_iff (hfin : (reachable links root).Finite) (n : Nat) :
    (next links root (order links root n)).isSome ↔ n < (reachable links root).ncard := by
  have hlen := length_order hfin n
  cases hn : next links root (order links root n) with
  | none =>
    have hsucc := length_order hfin (n + 1)
    rw [order_succ_of_none hn] at hsucc
    simp only [Option.isSome_none, Bool.false_eq_true, false_iff]
    omega
  | some x =>
    have hsucc := length_order hfin (n + 1)
    rw [order_succ_of_next hn, List.length_append, List.length_singleton,
      length_order_of_next hn] at hsucc
    simp only [Option.isSome_some, true_iff]
    omega

/-! ## Nearest first -/

/-- Each node of the search is the next one after those before it. -/
theorem next_of_order_eq {n : Nat} {u v : List (α × Option L)} {x : α × Option L}
    (h : order links root n = u ++ x :: v) :
    order links root u.length = u ∧ next links root u = some x := by
  induction n generalizing v with
  | zero => exact absurd h (by simp [order])
  | succ n ih =>
    cases hn : next links root (order links root n) with
    | none => exact ih (order_succ_of_none hn ▸ h)
    | some y =>
      rw [order_succ_of_next hn] at h
      rcases List.eq_nil_or_concat v with rfl | ⟨w, z, rfl⟩
      · obtain ⟨hu, hy⟩ := List.append_inj' h rfl
        cases List.singleton_inj.mp hy
        rw [← hu, length_order_of_next hn]
        exact ⟨rfl, hn⟩
      · rw [List.concat_eq_append, ← List.cons_append, ← List.append_assoc] at h
        exact ih (List.append_inj' h rfl).1

/-- The next node is no further from the root than any node that is not there. -/
theorem exists_steps_le_of_next {i k : Nat} {a : α} {x : α × Option L}
    (ha : Steps links root k a) (hi : a ∉ (order links root i).map Prod.fst)
    (hx : next links root (order links root i) = some x) : ∃ m ≤ k, Steps links root m x.1 := by
  induction ha generalizing i x with
  | root =>
    rw [next, leads, List.find?_cons_of_pos (by simpa using hi)] at hx
    cases hx
    exact ⟨0, Nat.le_refl 0, .root⟩
  | @link k a b l ha hl ih =>
    by_cases hmem : a ∈ (order links root i).map Prod.fst
    · obtain ⟨y, hy, rfl⟩ := List.mem_map.mp hmem
      obtain ⟨u, v, huv⟩ := List.append_of_mem hy
      -- the link to `b` is one of `y`, so the next node is linked to by `y` or by one before it
      have hlead : x ∈ leads links root (u ++ [y]) := by
        have hsplit : leads links root (order links root i) =
            leads links root (u ++ [y]) ++ v.flatMap fun x => labelled links x.1 := by
          simp [leads, huv]
        have hfresh : (b, some l) ∈ leads links root (u ++ [y]) :=
          mem_leads.mpr (.inr ⟨y, List.mem_append_right _ List.mem_cons_self, b, l, hl, rfl⟩)
        rw [next, hsplit, List.find?_append] at hx
        cases hf : (leads links root (u ++ [y])).find? fun x =>
            x.1 ∉ (order links root i).map Prod.fst with
        | none => exact absurd (List.find?_eq_none.mp hf _ hfresh) (by simpa using hi)
        | some z =>
          rw [hf, Option.some_or] at hx
          cases hx
          exact List.mem_of_find?_eq_some hf
      rcases mem_leads.mp hlead with rfl | ⟨z, hz, c, l', hc, rfl⟩
      · exact ⟨0, Nat.zero_le _, .root⟩
      · have hstep : ∃ m ≤ k, Steps links root m z.1 := by
          rcases List.mem_append.mp hz with hz | hz
          · obtain ⟨u₁, u₂, rfl⟩ := List.append_of_mem hz
            have hnodup : ((order links root i).map Prod.fst).Nodup := nodup_order i
            rw [List.append_assoc, List.cons_append] at huv
            obtain ⟨horder, hnext⟩ := next_of_order_eq huv
            refine ih ?_ (horder.symm ▸ hnext)
            rw [huv, List.map_append] at hnodup
            rw [horder]
            exact fun hm => List.disjoint_of_nodup_append hnodup hm (by simp)
          · rw [List.mem_singleton.mp hz]
            exact ⟨k, Nat.le_refl k, ha⟩
        obtain ⟨m, hm, hs⟩ := hstep
        exact ⟨m + 1, Nat.succ_le_succ hm, hs.link hc⟩
    · obtain ⟨m, hm, hs⟩ := ih hmem hx
      exact ⟨m, hm.trans (Nat.le_succ k), hs⟩

/-- The nodes are in the order of their distance from the root. -/
theorem exists_steps_le {n k : Nat} {u v : List (α × Option L)} {x y : α × Option L}
    (h : order links root n = u ++ x :: v) (hy : y ∈ v) (hk : Steps links root k y.1) :
    ∃ m ≤ k, Steps links root m x.1 := by
  obtain ⟨horder, hnext⟩ := next_of_order_eq h
  refine exists_steps_le_of_next hk ?_ (horder.symm ▸ hnext)
  have hnodup : ((order links root n).map Prod.fst).Nodup := nodup_order n
  rw [h, List.map_append] at hnodup
  rw [horder]
  exact fun hm => List.disjoint_of_nodup_append hnodup hm
    (List.mem_map_of_mem (List.mem_cons_of_mem _ hy))

/-! ## Nodes -/

variable (links root) in
/-- The first `n` nodes without the labels of the links that reached them. -/
def nodes (n : Nat) : List α := (order links root n).map Prod.fst

omit [DecidableEq α] in
theorem leads_eq (out : List (α × Option L)) :
    leads links root out = (root, none) :: (out.map Prod.fst).flatMap (labelled links) := by
  rw [leads, List.flatMap_map]

theorem nodes_succ (n : Nat) :
    nodes links root (n + 1) = nodes links root n ++
      ((next links root (order links root n)).map Prod.fst).toList := by
  rw [nodes, order, List.map_append]
  cases next links root (order links root n) <;> rfl

theorem nodes_subset {m n : Nat} (h : m ≤ n) : nodes links root m ⊆ nodes links root n :=
  ((order_prefix_order h).map Prod.fst).subset

theorem root_mem_nodes {n : Nat} (hn : 0 < n) : root ∈ nodes links root n := by
  refine nodes_subset (Nat.succ_le_of_lt hn) ?_
  rw [nodes, order_one]
  exact List.mem_singleton_self root

/-- The first of the leads are among the first nodes. -/
theorem mem_nodes_of_mem_take {n : Nat} {x : α × Option L}
    (hx : x ∈ (leads links root (order links root n)).take n) : x.1 ∈ nodes links root n := by
  induction n generalizing x with
  | zero => simp at hx
  | succ n ih =>
    cases hnext : next links root (order links root n) with
    | none =>
      rw [order_succ_of_none hnext] at hx
      rw [nodes, order_succ_of_none hnext]
      by_contra hn
      exact List.find?_eq_none.mp hnext x (List.mem_of_mem_take hx) (decide_eq_true hn)
    | some y =>
      -- the leads before the next node are all there, and there are `n` of them at least
      obtain ⟨hy, u, v, huv, hu⟩ := List.find?_eq_some_iff_append.mp hnext
      have hlong : n ≤ u.length := by
        by_contra hlt
        refine of_decide_eq_true hy (ih ?_)
        rw [huv, List.take_append, List.take_cons (by omega)]
        exact List.mem_append_right _ List.mem_cons_self
      have hleads : leads links root (order links root (n + 1)) =
          u ++ y :: (v ++ labelled links y.1) := by
        rw [order_succ_of_next hnext, leads, List.flatMap_append, List.flatMap_singleton,
          ← List.cons_append, ← leads, huv, List.append_assoc, List.cons_append]
      rw [hleads, List.take_append] at hx
      rw [nodes, order_succ_of_next hnext, List.map_append, List.mem_append]
      rcases List.mem_append.mp hx with hx | hx
      · have hseen := hu x (List.mem_of_mem_take hx)
        exact .inl (by simpa using hseen)
      · have hone : n + 1 - u.length ≤ 1 := by omega
        have hx := List.take_subset_take_left _ hone hx
        rw [List.take_succ_cons, List.take_zero, List.mem_singleton] at hx
        exact .inr (List.mem_singleton.mpr (congrArg Prod.fst hx))

theorem order_congr {links' : α → List (α × L)}
    (h : ∀ a ∈ reachable links root, links' a = links a) (n : Nat) :
    order links' root n = order links root n := by
  induction n with
  | zero => rfl
  | succ n ih =>
    have hleads : leads links' root (order links root n) = leads links root (order links root n) := by
      rw [leads, leads]
      congr 1
      refine List.flatMap_congr fun x hx => ?_
      rw [labelled, labelled, h _ (reachable_of_mem_order hx)]
    rw [order, order, ih, next, next, hleads]

/-- The first lead that is not there depends on the nodes only. -/
theorem next_nodes (n : Nat) :
    next links root (order links root n) =
      ((root, none) :: (nodes links root n).flatMap (labelled links)).find?
        fun x => x.1 ∉ nodes links root n := by
  rw [next, leads_eq]
  rfl

omit [DecidableEq α] in
theorem fst_mem_reachable {a : α} {x : α × Option L} (ha : a ∈ reachable links root)
    (hx : x ∈ labelled links a) : x.1 ∈ reachable links root := by
  obtain ⟨m, hm⟩ := ha
  obtain ⟨⟨b, l⟩, hl, rfl⟩ := List.mem_map.mp hx
  exact ⟨m + 1, hm.link hl⟩

/-- A search from a node that links to one other only goes on as that from the other. -/
theorem nodes_of_link {a b : α} (hlinks : links a ≠ []) (hb : ∀ l ∈ links a, l.1 = b)
    (ha : a ∉ reachable links b) (n : Nat) :
    nodes links a (n + 1) = a :: nodes links b n := by
  induction n with
  | zero => rw [nodes, order_one]; rfl
  | succ n ih =>
    have hab : b ≠ a := fun h => ha ⟨0, h ▸ .root⟩
    have hlabelled : ∀ x ∈ labelled links a, x.1 = b := by
      intro x hx
      obtain ⟨l, hl, rfl⟩ := List.mem_map.mp hx
      exact hb l hl
    have hnext : (next links a (order links a (n + 1))).map Prod.fst =
        (next links b (order links b n)).map Prod.fst := by
      rw [next_nodes, next_nodes, ih]
      cases n with
      | zero =>
        obtain ⟨⟨c, l⟩, ls, hls⟩ := List.exists_cons_of_ne_nil hlinks
        obtain rfl : c = b := hb (c, l) (by rw [hls]; exact List.mem_cons_self)
        have hcons : labelled links a = (c, some l) :: labelled (fun _ => ls) a := by
          rw [labelled, hls]; rfl
        simp [nodes, order, hcons, hab]
      | succ n =>
        have hmem : b ∈ nodes links b (n + 1) := root_mem_nodes (Nat.succ_pos n)
        rw [List.find?_cons_of_neg (by simp), List.flatMap_cons, List.find?_append,
          List.find?_eq_none.mpr fun x hx => by simp [hlabelled x hx, hmem], Option.none_or,
          List.find?_cons_of_neg (by simp [hmem])]
        congr 1
        rw [← List.head?_filter, ← List.head?_filter]
        congr 1
        refine List.filter_congr fun x hx => ?_
        obtain ⟨c, hc, hx⟩ := List.mem_flatMap.mp hx
        obtain ⟨y, hy, rfl⟩ := List.mem_map.mp hc
        have hxa : x.1 ≠ a := fun h => ha (h ▸ fst_mem_reachable (reachable_of_mem_order hy) hx)
        simp [hxa]
    rw [nodes_succ, ih, nodes_succ, List.cons_append, hnext]

end NmLogging.BreadthFirst
