import Mathlib.Algebra.BigOperators.Group.Finset.Piecewise
import Mathlib.Algebra.GroupWithZero.Nat
import Mathlib.Algebra.Order.BigOperators.Group.Finset
import Mathlib.Tactic.SplitIfs

/-!
# Cyclic cursors over `n` slots

Arithmetic of a cursor pair that walks `0 .. n-1` and wraps to `0`. The C
idiom `i ++; if (i >= n) i = 0;` is `next`; `dist n t i` counts the steps from
`t` to `i`; `nth n t k` is the slot `k` steps after `t`. A slot lies in the
half-open cyclic interval `[t, h)` exactly when `dist n t i < dist n t h`, which
turns every wrap position into one linear inequality.

Sums over all slots (`∑ i ∈ range n`) change by one term when one slot is
overwritten: `sum_update`.
-/

namespace AndroidLearn.Cyclic

/-- `i ++; if (i >= n) i = 0;` -/
def next (n i : Nat) : Nat := if n ≤ i + 1 then 0 else i + 1

/-- Steps from slot `t` forward to slot `i`. -/
def dist (n t i : Nat) : Nat := if t ≤ i then i - t else i + n - t

/-- The slot `k` steps after `t`. -/
def nth (n t k : Nat) : Nat := if t + k < n then t + k else t + k - n

theorem next_lt {n i : Nat} (hn : 0 < n) : next n i < n := by
  unfold next
  split <;> omega

@[simp] theorem dist_self {n t : Nat} : dist n t t = 0 := by simp [dist]

theorem dist_lt {n t i : Nat} (ht : t < n) (hi : i < n) : dist n t i < n := by
  unfold dist
  split <;> omega

theorem nth_lt {n t k : Nat} (ht : t < n) (hk : k < n) : nth n t k < n := by
  unfold nth
  split <;> omega

@[simp] theorem nth_zero {n t : Nat} (ht : t < n) : nth n t 0 = t := by simp [nth, ht]

theorem dist_nth {n t k : Nat} (ht : t < n) (hk : k < n) : dist n t (nth n t k) = k := by
  unfold dist nth
  split <;> split <;> omega

theorem nth_dist {n t i : Nat} (ht : t < n) (hi : i < n) : nth n t (dist n t i) = i := by
  unfold dist nth
  split <;> split <;> omega

/-- Two slots at the same distance from `t` are the same slot. -/
theorem dist_inj {n t i j : Nat} (ht : t < n) (hi : i < n) (hj : j < n)
    (h : dist n t i = dist n t j) : i = j := by
  rw [← nth_dist ht hi, ← nth_dist ht hj, h]

theorem dist_eq_zero {n t i : Nat} (ht : t < n) : dist n t i = 0 ↔ i = t := by
  unfold dist
  split <;> omega

/-- Advancing the far cursor by one, when it does not meet `t`. -/
theorem dist_next {n t i : Nat} (ht : t < n) (hi : i < n) (h : next n i ≠ t) :
    dist n t (next n i) = dist n t i + 1 := by
  unfold next at h ⊢
  unfold dist
  split_ifs at h ⊢ <;> omega

/-- The far cursor meets `t` exactly when it was the last slot of the cycle. -/
theorem next_eq_iff {n t i : Nat} (ht : t < n) (hi : i < n) :
    next n i = t ↔ dist n t i + 1 = n := by
  unfold dist next
  split <;> split <;> omega

/-- Advancing the near cursor by one brings every other slot one step closer. -/
theorem dist_next_left {n t i : Nat} (ht : t < n) (hi : i < n) (h : i ≠ t) :
    dist n (next n t) i + 1 = dist n t i := by
  unfold dist next
  split <;> split <;> split <;> omega

/-- Advancing the near cursor past `t` puts `t` at the far end of the cycle. -/
theorem dist_next_self {n t : Nat} (ht : t < n) : dist n (next n t) t + 1 = n := by
  unfold dist next
  split <;> split <;> omega

/-- The places behind the next one. -/
theorem nth_next {n t k : Nat} (ht : t < n) (hk : k + 1 < n) :
    nth n (next n t) k = nth n t (k + 1) := by
  unfold nth next
  split <;> split <;> split <;> omega

/-- The place behind the `k`th. -/
theorem next_nth {n t k : Nat} (ht : t < n) (hk : k < n) :
    next n (nth n t k) = nth n t (k + 1) := by
  unfold nth next
  split <;> split <;> split <;> omega

section Sums

open Finset

variable {n : Nat} (f : Nat → Nat)

/-- Overwriting slot `i` trades its old term for the new one. -/
theorem sum_update {i v : Nat} (hi : i < n) :
    (∑ k ∈ range n, Function.update f i v k) + f i = (∑ k ∈ range n, f k) + v := by
  have hmem : i ∈ range n := mem_range.mpr hi
  rw [sum_update_of_mem hmem, ← add_sum_erase (range n) f hmem, sdiff_singleton_eq_erase]
  omega

theorem le_sum {i : Nat} (hi : i < n) : f i ≤ ∑ k ∈ range n, f k :=
  single_le_sum (fun _ _ => Nat.zero_le _) (mem_range.mpr hi)

/-- Summing once around the cycle is summing over all slots. -/
theorem sum_nth {t : Nat} (ht : t < n) : ∑ k ∈ range n, f (nth n t k) = ∑ i ∈ range n, f i := by
  refine sum_nbij' (nth n t) (dist n t) ?_ ?_ ?_ ?_ ?_
  · intro k hk
    exact mem_range.mpr (nth_lt ht (mem_range.mp hk))
  · intro i hi
    exact mem_range.mpr (dist_lt ht (mem_range.mp hi))
  · intro k hk
    exact dist_nth ht (mem_range.mp hk)
  · intro i hi
    exact nth_dist ht (mem_range.mp hi)
  · intro k _
    rfl

/-- A sum whose terms vanish from `m` on stops there. -/
theorem sum_range_eq_list {m : Nat} (hm : m ≤ n) (hzero : ∀ k, m ≤ k → k < n → f k = 0) :
    ∑ k ∈ range n, f k = ((List.range m).map f).sum := by
  have hsub : ∑ k ∈ range m, f k = ∑ k ∈ range n, f k := by
    refine sum_subset (range_subset_range.mpr hm) ?_
    intro k hk hkm
    exact hzero k (by simpa using hkm) (mem_range.mp hk)
  rw [← hsub]
  clear hsub hzero hm
  induction m with
  | zero => rfl
  | succ m ih => rw [sum_range_succ, List.range_succ, List.map_append, List.sum_append, ih]; simp

end Sums

end AndroidLearn.Cyclic
