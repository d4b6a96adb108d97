import Mathlib.Data.List.Basic
import Mathlib.Data.List.Nodup

/-!
# Insertion-ordered dictionaries

A Python `dict`: keys are distinct, and keep the place of their first
insertion when their value is replaced. `assocSet` is assignment on the list of
entries; `Dict` carries the proof that its keys are distinct.
-/

namespace NmLogging

section Assoc

variable {κ ν : Type} [DecidableEq κ]

/-- `d[k] = v`, on the entries. -/
def assocSet (d : List (κ × ν)) (k : κ) (v : ν) : List (κ × ν) :=
  match d with
  | [] => [(k, v)]
  | e :: d => if e.1 = k then (k, v) :: d else e :: assocSet d k v

/-- `d.get(k)`, on the entries. -/
def assocGet (d : List (κ × ν)) (k : κ) : Option ν := (d.find? fun e => e.1 = k).map Prod.snd

theorem assocSet_of_notMem {d : List (κ × ν)} {k : κ} (h : k ∉ d.map Prod.fst) (v : ν) :
    assocSet d k v = d ++ [(k, v)] := by
  induction d with
  | nil => rfl
  | cons e d ih =>
    simp only [List.map_cons, List.mem_cons, not_or] at h
    rw [assocSet, if_neg (Ne.symm h.1), ih h.2, List.cons_append]

theorem keys_assocSet (d : List (κ × ν)) (k : κ) (v : ν) :
    (assocSet d k v).map Prod.fst =
      if k ∈ d.map Prod.fst then d.map Prod.fst else d.map Prod.fst ++ [k] := by
  induction d with
  | nil => simp [assocSet]
  | cons e d ih =>
    by_cases he : e.1 = k
    · simp [assocSet, he]
    · simp only [assocSet, if_neg he, List.map_cons, ih, List.mem_cons, Ne.symm he, false_or]
      split <;> simp

theorem nodup_assocSet {d : List (κ × ν)} (h : (d.map Prod.fst).Nodup) (k : κ) (v : ν) :
    ((assocSet d k v).map Prod.fst).Nodup := by
  rw [keys_assocSet]
  split
  · exact h
  · rename_i hk
    exact List.nodup_append.mpr ⟨h, List.nodup_singleton k, fun a ha b hb e => by
      simp only [List.mem_singleton] at hb; exact hk (hb ▸ e ▸ ha)⟩

theorem assocGet_eq_some {d : List (κ × ν)} (h : (d.map Prod.fst).Nodup) {k : κ} {v : ν} :
    assocGet d k = some v ↔ (k, v) ∈ d := by
  induction d with
  | nil => simp [assocGet]
  | cons e d ih =>
    simp only [List.map_cons, List.nodup_cons] at h
    by_cases he : e.1 = k
    · have hn : (k, v) ∉ d := fun hm => h.1 (he ▸ List.mem_map_of_mem hm)
      simp only [assocGet, he, decide_true, List.find?_cons_of_pos, Option.map_some,
        Option.some.injEq, List.mem_cons, hn, or_false]
      constructor
      · rintro rfl; rw [← he]
      · rintro rfl; rfl
    · have hne : (k, v) ≠ e := fun hm => he (by rw [← hm])
      have := ih h.2
      simp only [assocGet] at this
      simp only [assocGet, he, decide_false, Bool.false_eq_true, not_false_eq_true,
        List.find?_cons_of_neg, this, List.mem_cons, hne, false_or]

theorem assocGet_eq_none {d : List (κ × ν)} {k : κ} :
    assocGet d k = none ↔ k ∉ d.map Prod.fst := by
  simp only [assocGet, Option.map_eq_none_iff, List.find?_eq_none, decide_eq_true_eq, List.mem_map,
    not_exists, not_and]

theorem assocGet_assocSet (d : List (κ × ν)) (k k' : κ) (v : ν) :
    assocGet (assocSet d k v) k' = if k = k' then some v else assocGet d k' := by
  induction d with
  | nil => by_cases h : k = k' <;> simp [assocSet, assocGet, h]
  | cons e d ih =>
    simp only [assocGet] at ih
    by_cases he : e.1 = k
    · by_cases h : k = k' <;> simp [assocSet, assocGet, he, h]
    · by_cases hk' : e.1 = k'
      · have hne : k ≠ k' := fun h => he (hk'.trans h.symm)
        rw [assocSet, if_neg he, if_neg hne]
        simp [assocGet, hk']
      · simp only [assocSet, assocGet, if_neg he, List.find?_cons_of_neg, hk', decide_false,
          Bool.false_eq_true, not_false_eq_true, ih]

end Assoc

/-- A dictionary: entries in insertion order, with distinct keys. -/
structure Dict (κ ν : Type) where
  entries : List (κ × ν)
  nodup : (entries.map Prod.fst).Nodup

namespace Dict

variable {κ ν : Type}

instance [DecidableEq κ] [DecidableEq ν] : DecidableEq (Dict κ ν) := fun d e =>
  decidable_of_iff (d.entries = e.entries) ⟨fun h => by cases d; cases e; cases h; rfl, congrArg _⟩

@[ext] theorem ext {d e : Dict κ ν} (h : d.entries = e.entries) : d = e := by
  cases d; cases e; cases h; rfl

def keys (d : Dict κ ν) : List κ := d.entries.map Prod.fst
def values (d : Dict κ ν) : List ν := d.entries.map Prod.snd

def empty : Dict κ ν := ⟨[], List.nodup_nil⟩

@[simp] theorem entries_empty : (empty : Dict κ ν).entries = [] := rfl
@[simp] theorem keys_empty : (empty : Dict κ ν).keys = [] := rfl
@[simp] theorem values_empty : (empty : Dict κ ν).values = [] := rfl

/-- The values mapped, under the same keys. -/
def mapValues {ν' : Type} (f : ν → ν') (d : Dict κ ν) : Dict κ ν' where
  entries := d.entries.map fun e => (e.1, f e.2)
  nodup := by rw [List.map_map]; exact d.nodup

@[simp] theorem entries_mapValues {ν' : Type} (f : ν → ν') (d : Dict κ ν) :
    (d.mapValues f).entries = d.entries.map fun e => (e.1, f e.2) := rfl

@[simp] theorem keys_mapValues {ν' : Type} (f : ν → ν') (d : Dict κ ν) :
    (d.mapValues f).keys = d.keys := List.map_map

@[simp] theorem values_mapValues {ν' : Type} (f : ν → ν') (d : Dict κ ν) :
    (d.mapValues f).values = d.values.map f := by
  simp [values, List.map_map, Function.comp_def]

variable [DecidableEq κ]

/-- `d[k] = v`. -/
def set (d : Dict κ ν) (k : κ) (v : ν) : Dict κ ν := ⟨assocSet d.entries k v, nodup_assocSet d.nodup k v⟩

/-- `d.get(k)`. -/
def get? (d : Dict κ ν) (k : κ) : Option ν := assocGet d.entries k

@[simp] theorem get?_empty (k : κ) : (empty : Dict κ ν).get? k = none := rfl

/-- `k in d`. -/
def contains (d : Dict κ ν) (k : κ) : Bool := k ∈ d.keys

theorem get?_set (d : Dict κ ν) (k k' : κ) (v : ν) :
    (d.set k v).get? k' = if k = k' then some v else d.get? k' :=
  assocGet_assocSet d.entries k k' v

theorem entries_set_of_notMem {d : Dict κ ν} {k : κ} (h : k ∉ d.keys) (v : ν) :
    (d.set k v).entries = d.entries ++ [(k, v)] := assocSet_of_notMem h v

/-- Assignments in turn. -/
def setAll (d : Dict κ ν) (es : List (κ × ν)) : Dict κ ν := es.foldl (fun d e => d.set e.1 e.2) d

theorem setAll_append (d : Dict κ ν) (es fs : List (κ × ν)) :
    d.setAll (es ++ fs) = (d.setAll es).setAll fs := by
  simp [setAll]

theorem entries_setAll {d : Dict κ ν} {es : List (κ × ν)}
    (h : ((d.entries ++ es).map Prod.fst).Nodup) : (d.setAll es).entries = d.entries ++ es := by
  induction es generalizing d with
  | nil => simp [setAll]
  | cons e es ih =>
    have hk : e.1 ∉ d.keys := by
      intro hm
      rw [List.map_append, List.map_cons, List.nodup_append] at h
      exact h.2.2 e.1 hm e.1 List.mem_cons_self rfl
    have he := entries_set_of_notMem hk e.2
    have := ih (d := d.set e.1 e.2) (by rw [he]; simpa using h)
    rw [he] at this
    simp only [setAll, List.foldl_cons] at this ⊢
    rw [this]
    simp

theorem get?_eq_some {d : Dict κ ν} {k : κ} {v : ν} : d.get? k = some v ↔ (k, v) ∈ d.entries :=
  assocGet_eq_some d.nodup

theorem get?_eq_none {d : Dict κ ν} {k : κ} : d.get? k = none ↔ k ∉ d.keys := assocGet_eq_none

end Dict

end NmLogging
