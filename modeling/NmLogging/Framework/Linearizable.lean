import Mathlib.Data.List.Induction
import Mathlib.Data.List.Nodup
import Mathlib.Data.List.Perm.Subperm
import NmLogging.Framework.Monitor

/-!
# Guarded objects are linearizable

An object all of whose methods are `with lock: body` (`guarded`). However their calls are
interleaved, operation by operation, they have been made one after the other, each without
interruption, in the order in which they released the lock (`Linearizes`). The order is never
revised: a run that goes on only adds to it (`Linearizes.later`), so a call that began after
another had ended comes after it. What is proved of the bodies alone thus holds of the object.
-/

namespace NmLogging

open Relation (ReflTransGen)

variable {S : Sig} {ε α C P : Type}

/-! ## Guarded methods -/

namespace Prog

/-- The operations of a body are on the payload. -/
def acts : Prog S ε α → Prog (lockSig S) ε α
  | ret a => ret a
  | throw e => throw e
  | op o k => op (S := lockSig S) (.act o) fun r => (k r).acts

/-- `with lock: body`. -/
def guarded (body : Prog S ε α) : Prog (lockSig S) ε α := withLock body.acts

/-- What is left of it, of whose body `p` is left. -/
def closing (p : Prog S ε α) : Prog (lockSig S) ε α :=
  p.acts.elim (fun a => op (S := lockSig S) .release fun _ => ret a)
    (fun e => op (S := lockSig S) .release fun _ => throw e)

end Prog

/-- A guarded object, as a monitor. -/
def guardedMonitor (body : C → Prog S ε α) (M : Semantics S P) : Monitor S ε α C P Unit where
  prog c := (body c).guarded
  sem _ _ := M
  onAcquire _ _ p := p
  view _ _ := ()

/-- The calls of a guarded object. -/
def guardedSystem (body : C → Prog S ε α) (M : Semantics S P) :
    System (lockSig S) ε α C (Locked P) := (guardedMonitor body M).system

/-! ## Atomic histories -/

/-- A call in a history: which it was, and how it ended. -/
structure CallEntry (C ε α : Type) where
  call : Nat
  method : C
  res : Except ε α

/-- Calls made one after the other from the payload `p`, each without interruption. -/
inductive Atomic (body : C → Prog S ε α) (M : Semantics S P) (p : P) :
    List (CallEntry C ε α) → P → Prop where
  | nil : Atomic body M p [] p
  | snoc {hist : List (CallEntry C ε α)} {q q' : P} {e : CallEntry C ε α} :
    Atomic body M p hist q → (body e.method).Runs M q e.res q' → Atomic body M p (hist ++ [e]) q'

variable {body : C → Prog S ε α} {M : Semantics S P} {p₀ : P}

/-- A history at one of its calls. -/
theorem Atomic.split {before after : List (CallEntry C ε α)} {e : CallEntry C ε α} {p : P}
    (h : Atomic body M p₀ (before ++ e :: after) p) :
    ∃ q q', Atomic body M p₀ before q ∧ (body e.method).Runs M q e.res q' := by
  generalize hx : before ++ e :: after = hist at h
  induction h generalizing after with
  | nil => simp at hx
  | @snoc hist q q' d hhist hruns ih =>
    rcases List.eq_nil_or_concat after with rfl | ⟨after, a, rfl⟩
    · obtain ⟨rfl, hd⟩ := List.append_inj' hx rfl
      cases hd
      exact ⟨q, q', hhist, hruns⟩
    · rw [List.concat_eq_append, ← List.cons_append, ← List.append_assoc] at hx
      exact ih (List.append_inj' hx rfl).1

/-- What holds at the start and is kept by each call holds after a history. -/
theorem Atomic.inv {I : List (CallEntry C ε α) → P → Prop} {hist : List (CallEntry C ε α)} {p : P}
    (h : Atomic body M p₀ hist p) (h₀ : I [] p₀)
    (hstep : ∀ {hist q e q'}, I hist q → (body e.method).Runs M q e.res q' → I (hist ++ [e]) q') :
    I hist p := by
  induction h with
  | nil => exact h₀
  | snoc _ hruns ih => exact hstep ih hruns

/-! ## Linearization -/

/-- Where a call stands: it has not taken the lock; it holds it, and what is left of its body
ends as the whole body would from the payload `base`; or it has ended as it did in the history. -/
inductive Stands (body : C → Prog S ε α) (M : Semantics S P) (base : P) (s : Locked P)
    (hist : List (CallEntry C ε α)) (i : Nat) (c : C) : Prog (lockSig S) ε α → Prop where
  | waiting (unheld : s.holder ≠ some i) (new : ∀ e ∈ hist, e.call ≠ i) :
    Stands body M base s hist i c (body c).guarded
  | inside {q : Prog S ε α} (held : s.holder = some i) (new : ∀ e ∈ hist, e.call ≠ i)
    (rest : ∀ {res p}, q.Runs M s.payload res p → (body c).Runs M base res p) :
    Stands body M base s hist i c q.closing
  | done {res : Except ε α} (unheld : s.holder ≠ some i) (mem : ⟨i, c, res⟩ ∈ hist) :
    Stands body M base s hist i c (.ended res)

/-- The calls have been made as the history has it. -/
structure Linearizes (body : C → Prog S ε α) (M : Semantics S P) (p₀ : P)
    (cfg : Config (lockSig S) ε α C (Locked P)) (hist : List (CallEntry C ε α)) : Prop where
  atomic : ∃ base, Atomic body M p₀ hist base ∧
    (cfg.shared.holder = none → cfg.shared.payload = base) ∧
    ∀ {i c p}, cfg.calls[i]? = some (c, p) → Stands body M base cfg.shared hist i c p
  made : ∀ e ∈ hist, ∃ p, cfg.calls[e.call]? = some (e.method, p)
  nodup : (hist.map CallEntry.call).Nodup
  holder : ∀ i, cfg.shared.holder = some i → i < cfg.calls.length

variable {cfg cfg' : Config (lockSig S) ε α C (Locked P)} {hist hist' : List (CallEntry C ε α)}

/-- A call that is not concerned stands where it did. -/
theorem Stands.other {base base' : P} {s s' : Locked P} {i : Nat} {c : C}
    {p : Prog (lockSig S) ε α} (h : Stands body M base s hist i c p) (hs : s.holder ≠ some i)
    (hs' : s'.holder ≠ some i) (hold : hist ⊆ hist')
    (hnew : ∀ e ∈ hist', e ∈ hist ∨ e.call ≠ i) : Stands body M base' s' hist' i c p := by
  cases h with
  | waiting unheld new =>
    refine .waiting hs' fun e he => ?_
    rcases hnew e he with he | he
    · exact new e he
    · exact he
  | inside held => exact absurd held hs
  | done unheld mem => exact .done hs' (hold mem)

theorem Linearizes.ended (h : Linearizes body M p₀ cfg hist) {i : Nat} {c : C}
    {res : Except ε α} (he : cfg.Ended i c res) : ⟨i, c, res⟩ ∈ hist := by
  obtain ⟨p, hi, hres⟩ := he
  obtain ⟨base, -, -, hcalls⟩ := h.atomic
  cases hcalls hi with
  | waiting => cases hres
  | @inside q => cases q <;> cases hres
  | @done res' _ mem => cases res' <;> cases hres <;> exact mem

/-- Every call made stands somewhere after a step of the `i`-th. -/
theorem stands_set {cs : List (C × Prog (lockSig S) ε α)} {base base' : P} {s s' : Locked P}
    {i : Nat} {c : C} {q : Prog (lockSig S) ε α}
    (h : ∀ {j d p}, cs[j]? = some (d, p) → Stands body M base s hist j d p)
    (hi : i < cs.length) (hq : Stands body M base' s' hist' i c q)
    (hs : ∀ j, j ≠ i → s.holder ≠ some j) (hs' : ∀ j, j ≠ i → s'.holder ≠ some j)
    (hold : hist ⊆ hist') (hnew : ∀ e ∈ hist', e ∈ hist ∨ e.call = i) {j : Nat} {d : C}
    {p : Prog (lockSig S) ε α} (hj : (cs.set i (c, q))[j]? = some (d, p)) :
    Stands body M base' s' hist' j d p := by
  by_cases e : j = i
  · subst e
    rw [List.getElem?_set_self hi] at hj
    cases hj
    exact hq
  · rw [List.getElem?_set_ne (Ne.symm e)] at hj
    refine (h hj).other (hs j e) (hs' j e) hold fun d hd => ?_
    rcases hnew d hd with hd | hd
    · exact .inl hd
    · exact .inr (by rw [hd]; exact Ne.symm e)

theorem made_set {cs : List (C × Prog (lockSig S) ε α)} {i j : Nat} {c d : C}
    {p q : Prog (lockSig S) ε α} (hi : cs[i]? = some (c, p)) (hj : ∃ p, cs[j]? = some (d, p)) :
    ∃ p, (cs.set i (c, q))[j]? = some (d, p) := by
  obtain ⟨p', hj⟩ := hj
  by_cases e : i = j
  · subst e
    cases hi.symm.trans hj
    exact ⟨q, List.getElem?_set_self (List.getElem?_eq_some_iff.mp hi).1⟩
  · exact ⟨p', by rw [List.getElem?_set_ne e]; exact hj⟩

/-- The `i`-th call ends, and is the last of the history. -/
theorem Linearizes.release {cs : List (C × Prog (lockSig S) ε α)} {s : Locked P} {i : Nat} {c : C}
    {p : Prog (lockSig S) ε α} {base : P} {res : Except ε α}
    (h : Linearizes body M p₀ ⟨s, cs⟩ hist) (hi : cs[i]? = some (c, p))
    (hatomic : Atomic body M p₀ hist base) (hheld : s.holder = some i)
    (hcalls : ∀ {j d p}, cs[j]? = some (d, p) → Stands body M base s hist j d p)
    (hnew : ∀ e ∈ hist, e.call ≠ i) (hruns : (body c).Runs M base res s.payload) :
    Linearizes body M p₀ ⟨⟨none, s.payload⟩, cs.set i (c, .ended res)⟩
      (hist ++ [⟨i, c, res⟩]) := by
  have hlt := (List.getElem?_eq_some_iff.mp hi).1
  refine ⟨⟨s.payload, hatomic.snoc (e := ⟨i, c, res⟩) hruns, fun _ => rfl, fun hj => ?_⟩,
    fun e he => ?_, ?_, by rintro j ⟨⟩⟩
  · refine stands_set hcalls hlt (.done (by rintro ⟨⟩) (by simp)) (fun j hj hh => ?_)
      (by rintro j - ⟨⟩) (List.subset_append_left _ _) (fun e he => ?_) hj
    · cases hheld.symm.trans hh
      exact hj rfl
    · rcases List.mem_append.mp he with he | he
      · exact .inl he
      · rw [List.mem_singleton.mp he]
        exact .inr rfl
  · rcases List.mem_append.mp he with he | he
    · exact made_set hi (h.made e he)
    · rw [List.mem_singleton.mp he]
      exact ⟨_, List.getElem?_set_self hlt⟩
  · rw [List.map_append, List.nodup_append]
    refine ⟨h.nodup, List.nodup_singleton _, fun a ha b hb => ?_⟩
    obtain ⟨e, he, rfl⟩ := List.mem_map.mp ha
    rw [List.mem_singleton.mp hb]
    exact hnew e he

/-- A step leaves the history as it is, or adds the call that it ends. -/
theorem Linearizes.step (h : Linearizes body M p₀ cfg hist)
    (hs : (guardedSystem body M).Step cfg cfg') :
    ∃ more, Linearizes body M p₀ cfg' (hist ++ more) := by
  obtain ⟨base, hatomic, hfree, hcalls⟩ := h.atomic
  cases hs with
  | @start s cs c _ =>
    refine ⟨[], ?_⟩
    rw [List.append_nil]
    refine ⟨⟨base, hatomic, hfree, fun {i d p} hi => ?_⟩, fun e he => ?_, h.nodup, fun i hi => ?_⟩
    · rcases getElem?_concat hi with hi | ⟨rfl, e⟩
      · exact hcalls hi
      · cases e
        refine .waiting (fun hh => Nat.lt_irrefl _ (h.holder _ hh)) fun e he hcall => ?_
        obtain ⟨p, hp⟩ := h.made e he
        rw [hcall] at hp
        exact Nat.lt_irrefl _ (List.getElem?_eq_some_iff.mp hp).1
    · obtain ⟨p, hp⟩ := h.made e he
      exact ⟨p, by rw [List.getElem?_append_left (List.getElem?_eq_some_iff.mp hp).1]; exact hp⟩
    · rw [List.length_append]
      exact Nat.lt_add_right _ (h.holder i hi)
  | @perform s s' cs i c o k r hi hstep =>
    have hlt := (List.getElem?_eq_some_iff.mp hi).1
    have hstands := hcalls hi
    generalize hp : (Prog.op o k : Prog (lockSig S) ε α) = p at hstands
    cases hstands with
    | waiting unheld new =>
      cases hp
      obtain ⟨hnone, rfl⟩ := hstep
      refine ⟨[], ?_⟩
      rw [List.append_nil]
      refine ⟨⟨base, hatomic, by rintro ⟨⟩, fun hj => ?_⟩, fun e he => made_set hi (h.made e he),
        h.nodup, fun j hj => ?_⟩
      · refine stands_set hcalls hlt (.inside (q := body c) rfl new fun hruns => ?_)
          (fun j _ hh => ?_) (fun j hj hh => ?_) (List.Subset.refl _) (fun e he => .inl he) hj
        · rwa [show s.payload = base from hfree hnone] at hruns
        · cases hnone.symm.trans hh
        · cases hh
          exact hj rfl
      · cases hj
        rw [List.length_set]
        exact hlt
    | @inside q held new rest =>
      cases q with
      | ret a =>
        cases hp
        obtain ⟨-, rfl⟩ := hstep
        exact ⟨_, h.release hi hatomic held hcalls new (rest .ret)⟩
      | throw e =>
        cases hp
        obtain ⟨-, rfl⟩ := hstep
        exact ⟨_, h.release hi hatomic held hcalls new (rest .throw)⟩
      | op o' k' =>
        cases hp
        obtain ⟨p', hact, rfl⟩ := hstep
        have hq : Stands body M base ⟨s.holder, p'⟩ hist i c (k' r).closing :=
          .inside held new fun hruns => rest (.op hact hruns)
        have hothers : ∀ j, j ≠ i → s.holder ≠ some j := by
          intro j hj hh
          cases held.symm.trans hh
          exact hj rfl
        refine ⟨[], ?_⟩
        rw [List.append_nil]
        refine ⟨⟨base, hatomic, fun hnone => ?_, fun hj => ?_⟩,
          fun e he => made_set hi (h.made e he), h.nodup, fun j hj => ?_⟩
        · cases held.symm.trans hnone
        · exact stands_set hcalls hlt hq hothers hothers (List.Subset.refl _)
            (fun e he => .inl he) hj
        · rw [List.length_set]
          exact h.holder j hj
    | @done res _ _ => cases res <;> cases hp

/-- A run that goes on only adds to the history. -/
theorem Linearizes.later (h : Linearizes body M p₀ cfg hist)
    (hr : ReflTransGen (guardedSystem body M).Step cfg cfg') :
    ∃ more, Linearizes body M p₀ cfg' (hist ++ more) := by
  induction hr with
  | refl => exact ⟨[], by rw [List.append_nil]; exact h⟩
  | tail _ hs ih =>
    obtain ⟨more, ih⟩ := ih
    obtain ⟨more', hmore⟩ := ih.step hs
    rw [List.append_assoc] at hmore
    exact ⟨_, hmore⟩

/-- Every run of a guarded object has a history. -/
theorem exists_linearizes (h : (guardedSystem body M).Reachable ⟨none, p₀⟩ cfg) :
    ∃ hist, Linearizes body M p₀ cfg hist := by
  have hnew : Linearizes body M p₀ ⟨⟨none, p₀⟩, []⟩ [] :=
    ⟨⟨p₀, .nil, fun _ => rfl, by rintro i c p ⟨⟩⟩, List.forall_mem_nil _, List.nodup_nil,
      by rintro i ⟨⟩⟩
  obtain ⟨hist, hhist⟩ := hnew.later h
  exact ⟨_, hhist⟩

/-- A call can be run where the lock is free. -/
theorem runs_guarded {i : Nat} {c : C} {p p' : P} {res : Except ε α}
    (h : (body c).Runs M p res p') :
    ((guardedSystem body M).prog c).Runs ((guardedSystem body M).sem i c) ⟨none, p⟩ res
      ⟨none, p'⟩ := by
  refine Monitor.runs_withLock (X := guardedMonitor body M) (i := i) (c := c) ?_
  show (body c).acts.Runs _ p res p'
  generalize body c = q at h
  induction h with
  | ret => exact .ret
  | throw => exact .throw
  | @op o k s t s' r res hs _ ih =>
    have hact : ((guardedMonitor body M).inside i c).step s (.act o) r t := hs
    exact .op hact ih

/-! ## Counting calls -/

section

variable {β : Type} {calls : List (C × β)} {q : C × β → Bool}

/-- The numbers of the calls that are counted. -/
def indices (calls : List (C × β)) (q : C × β → Bool) : List Nat :=
  (List.range calls.length).filter fun i => calls[i]?.any q

theorem mem_indices {i : Nat} : i ∈ indices calls q ↔ ∃ x, calls[i]? = some x ∧ q x = true := by
  rw [indices, List.mem_filter, List.mem_range, Option.any_eq_true]
  constructor
  · rintro ⟨-, h⟩
    exact h
  · rintro ⟨x, hx, hq⟩
    exact ⟨(List.getElem?_eq_some_iff.mp hx).1, x, hx, hq⟩

theorem length_indices : (indices calls q).length = calls.countP q := by
  induction calls using List.reverseRecOn with
  | nil => rfl
  | append_singleton calls x ih =>
    have hfirst : (List.range calls.length).filter (fun i => (calls ++ [x])[i]?.any q) =
        indices calls q := by
      refine List.filter_congr fun i hi => ?_
      rw [List.getElem?_append_left (List.mem_range.mp hi)]
    have hlast : (calls ++ [x])[calls.length]? = some x := by simp
    rw [indices, List.length_append, List.length_singleton, List.range_succ, List.filter_append,
      List.length_append, hfirst, ih, List.countP_append, List.filter_singleton, hlast,
      List.countP_singleton]
    cases hq : q x <;> simp [hq]

/-- Entries of different calls that were made are no more than these. -/
theorem countP_le_of_made {hist : List (CallEntry C ε α)} {d : C → Bool}
    (hnodup : (hist.map CallEntry.call).Nodup)
    (hmade : ∀ e ∈ hist, ∃ p, calls[e.call]? = some (e.method, p)) :
    hist.countP (fun e => d e.method) ≤ calls.countP fun x => d x.1 := by
  rw [List.countP_eq_length_filter, ← length_indices, ← List.length_map CallEntry.call]
  refine ((hnodup.sublist (List.filter_sublist.map _)).subperm fun i hi => ?_).length_le
  obtain ⟨e, he, rfl⟩ := List.mem_map.mp hi
  obtain ⟨he, hd⟩ := List.mem_filter.mp he
  obtain ⟨p, hp⟩ := hmade e he
  exact mem_indices.mpr ⟨_, hp, hd⟩

/-- Calls that are all among the entries are no more than these. -/
theorem countP_le_of_mem {hist : List (CallEntry C ε α)} {d : C → Bool}
    (hmem : ∀ i c p, calls[i]? = some (c, p) → q (c, p) = true →
      ∃ res, (⟨i, c, res⟩ : CallEntry C ε α) ∈ hist ∧ d c = true) :
    calls.countP q ≤ hist.countP fun e => d e.method := by
  rw [List.countP_eq_length_filter (l := hist), ← length_indices, ← List.length_map CallEntry.call]
  have hnodup : (indices calls q).Nodup := List.nodup_range.filter _
  refine (hnodup.subperm fun i hi => ?_).length_le
  obtain ⟨⟨c, p⟩, hi, hq⟩ := mem_indices.mp hi
  obtain ⟨res, hentry, hd⟩ := hmem i c p hi hq
  exact List.mem_map.mpr ⟨_, List.mem_filter.mpr ⟨hentry, hd⟩, rfl⟩

end

end NmLogging
