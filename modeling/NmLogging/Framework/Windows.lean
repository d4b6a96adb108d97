import Mathlib.Algebra.BigOperators.Group.List.Basic
import Mathlib.Algebra.Order.Floor.Ring
import Mathlib.Tactic.Linarith

/-!
# Windows of time

Events in the order of their times, in windows of a fixed width: an event that comes as late as
that after the start of its window, or later, opens a new window, which starts with it.
`places` has the place of each event in its window. If what the events of one window cost is at
most `C`, all of them cost at most `C` for each time that the width fits into the whole, and
once more (`sum_places_le`).
-/

namespace NmLogging.Windows

variable {K : Type} [Field K] [LinearOrder K] {width start : K} {n : Nat}

/-- The window of an event at the time `t`, by its start and the number of events it has had. -/
def enter (width start : K) (n : Nat) (t : K) : K × Nat :=
  if width ≤ t - start then (t, 0) else (start, n)

/-- The places of events in their windows, of which the first started at `start` and has had `n`
events. -/
def places (width start : K) (n : Nat) : List K → List Nat
  | [] => []
  | t :: ts =>
    let (start, n) := enter width start n t
    n :: places width start (n + 1) ts

theorem places_of_le {t : K} (ts : List K) (h : width ≤ t - start) :
    places width start n (t :: ts) = 0 :: places width t 1 ts := by
  simp only [places, enter, if_pos h]

theorem places_of_not_le {t : K} (ts : List K) (h : ¬width ≤ t - start) :
    places width start n (t :: ts) = n :: places width start (n + 1) ts := by
  simp only [places, enter, if_neg h]

@[simp] theorem length_places (width start : K) (n : Nat) (ts : List K) :
    (places width start n ts).length = ts.length := by
  induction ts generalizing start n with
  | nil => rfl
  | cons t ts ih =>
    by_cases h : width ≤ t - start
    · rw [places_of_le ts h, List.length_cons, List.length_cons, ih]
    · rw [places_of_not_le ts h, List.length_cons, List.length_cons, ih]

variable [IsStrictOrderedRing K] [FloorRing K] {cost : Nat → Nat} {C : Nat}

/-- A window that is over is one more of those that fit. -/
theorem floor_div_succ_le {t : K} (last : K) (hwidth : 0 < width) (h : width ≤ t - start) :
    1 + ⌊(last - t) / width⌋ ≤ ⌊(last - start) / width⌋ := by
  have hle : (last - t) / width + 1 ≤ (last - start) / width := by
    rw [div_add_one hwidth.ne']
    exact div_le_div_of_nonneg_right (by linarith) hwidth.le
  have hfloor := Int.floor_le_floor hle
  rw [Int.floor_add_one] at hfloor
  omega

/-- What the events of all windows cost. -/
theorem sum_places_le (hwidth : 0 < width) (hcost : ∀ k, ((List.range k).map cost).sum ≤ C)
    {ts : List K} {last : K} (hts : (start :: ts).Pairwise (· ≤ ·))
    (hlast : ∀ t ∈ start :: ts, t ≤ last) :
    ((((List.range n).map cost).sum + ((places width start n ts).map cost).sum : Nat) : Int) ≤
      C * (1 + ⌊(last - start) / width⌋) := by
  induction ts generalizing start n with
  | nil =>
    have hfloor : 0 ≤ ⌊(last - start) / width⌋ :=
      Int.floor_nonneg.mpr (div_nonneg (sub_nonneg.mpr (hlast _ List.mem_cons_self)) hwidth.le)
    have hC : (((List.range n).map cost).sum : Int) ≤ C := Int.ofNat_le.mpr (hcost n)
    have hmul : (C : Int) * 1 ≤ C * (1 + ⌊(last - start) / width⌋) :=
      mul_le_mul_of_nonneg_left (by omega) (Int.natCast_nonneg C)
    rw [places, List.map_nil, List.sum_nil, Nat.add_zero]
    omega
  | cons t ts ih =>
    obtain ⟨hstart, hsorted⟩ := List.pairwise_cons.mp hts
    by_cases h : width ≤ t - start
    · have hrest := @ih t 1 hsorted fun u hu => hlast u (List.mem_cons_of_mem _ hu)
      have hfloor := floor_div_succ_le last hwidth h
      have hC : (((List.range n).map cost).sum : Int) ≤ C := Int.ofNat_le.mpr (hcost n)
      have hmul : (C : Int) * (1 + (1 + ⌊(last - t) / width⌋)) ≤
          C * (1 + ⌊(last - start) / width⌋) :=
        mul_le_mul_of_nonneg_left (by omega) (Int.natCast_nonneg C)
      rw [mul_add, mul_one] at hmul
      rw [places_of_le ts h, List.map_cons, List.sum_cons]
      simp only [List.range_one, List.map_cons, List.map_nil, List.sum_cons, List.sum_nil,
        Nat.add_zero] at hrest
      simp only [Nat.cast_add] at hrest ⊢
      omega
    · have hrest := @ih start (n + 1)
        (List.pairwise_cons.mpr ⟨fun u hu => hstart u (List.mem_cons_of_mem _ hu),
          (List.pairwise_cons.mp hsorted).2⟩)
        fun u hu => hlast u (by
          rcases List.mem_cons.mp hu with rfl | hu
          · exact List.mem_cons_self
          · exact List.mem_cons_of_mem _ (List.mem_cons_of_mem _ hu))
      rw [places_of_not_le ts h, List.map_cons, List.sum_cons]
      rw [List.range_succ, List.map_append, List.sum_append, List.map_cons, List.map_nil,
        List.sum_singleton] at hrest
      simp only [Nat.cast_add] at hrest ⊢
      omega

end NmLogging.Windows
