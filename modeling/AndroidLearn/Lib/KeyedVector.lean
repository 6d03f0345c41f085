import Mathlib.Data.List.Basic
import Mathlib.Order.Lattice

/-!
# A vector of values, ordered by key

Pairs in the strict order of their keys, which the structure carries as a field: each key
is there once. `add` replaces the value of a key that is there, and puts a new one where
it belongs (`insert_sorted`).

What a sequence of `add` leaves is the set of their keys (`mem_keys_addAll`), and for each
key the value that was added last (`lookup_addAll_of_notMem`, `lookup_addAll_of_mem`). The
keys are of any linear order.
-/

namespace AndroidLearn

variable {κ α : Type} [LinearOrder κ]

/-- Entries that are kept in the order of their keys. -/
structure KeyedVector (κ α : Type) [LinearOrder κ] where
  entries : List (κ × α)
  sorted : (entries.map Prod.fst).Pairwise (· < ·)

namespace KeyedVector

/-- Puts an entry in its place. -/
def insert (key : κ) (value : α) : List (κ × α) → List (κ × α)
  | [] => [(key, value)]
  | (k, x) :: entries =>
    if key < k then (key, value) :: (k, x) :: entries
    else if key = k then (key, value) :: entries
    else (k, x) :: insert key value entries

variable {key k : κ} {value : α} {entries : List (κ × α)} {v w : KeyedVector κ α}
  {l : List (κ × α)}

/-- Which keys there are behind an insertion. -/
theorem mem_insert : k ∈ (insert key value entries).map Prod.fst ↔
    k = key ∨ k ∈ entries.map Prod.fst := by
  induction entries with
  | nil => simp [insert]
  | cons entry entries ih =>
    obtain ⟨k', x⟩ := entry
    rw [insert]
    split
    · rw [List.map_cons, List.mem_cons]
    · split
      · next heq =>
        rw [heq, List.map_cons, List.map_cons, List.mem_cons]
        exact ⟨fun h => .inr h, fun h => h.elim .inl id⟩
      · rw [List.map_cons, List.mem_cons, ih, List.map_cons, List.mem_cons]
        exact or_left_comm

/-- An insertion keeps the order. -/
theorem insert_sorted (h : (entries.map Prod.fst).Pairwise (· < ·)) :
    ((insert key value entries).map Prod.fst).Pairwise (· < ·) := by
  induction entries with
  | nil => exact List.pairwise_singleton _ _
  | cons entry entries ih =>
    obtain ⟨k', x⟩ := entry
    obtain ⟨hfirst, hrest⟩ := List.pairwise_cons.mp h
    rw [insert]
    split
    · next hlt =>
      refine List.pairwise_cons.mpr ⟨fun a ha => ?_, h⟩
      rcases List.mem_cons.mp ha with rfl | ha
      · exact hlt
      · exact hlt.trans (hfirst a ha)
    · next hnot =>
      split
      · next heq => exact List.pairwise_cons.mpr ⟨by rw [heq]; exact hfirst, hrest⟩
      · next hne =>
        refine List.pairwise_cons.mpr ⟨fun a ha => ?_, ih hrest⟩
        rcases mem_insert.mp ha with rfl | ha
        · exact lt_of_le_of_ne (not_lt.mp hnot) (Ne.symm hne)
        · exact hfirst a ha

/-- What was inserted is found. -/
theorem lookup_insert_self : (insert key value entries).lookup key = some value := by
  induction entries with
  | nil => exact List.lookup_cons_self
  | cons entry entries ih =>
    obtain ⟨k', x⟩ := entry
    rw [insert]
    split
    · exact List.lookup_cons_self
    · split
      · exact List.lookup_cons_self
      · next hne =>
        rw [List.lookup_cons, beq_false_of_ne hne]
        exact ih

/-- An insertion is seen under its key only. -/
theorem lookup_insert_ne (hne : k ≠ key) :
    (insert key value entries).lookup k = entries.lookup k := by
  induction entries with
  | nil =>
    rw [insert, List.lookup_cons, beq_false_of_ne hne]
  | cons entry entries ih =>
    obtain ⟨k', x⟩ := entry
    rw [insert]
    split
    · rw [List.lookup_cons, beq_false_of_ne hne]
    · split
      · next heq => rw [List.lookup_cons, List.lookup_cons, ← heq, beq_false_of_ne hne]
      · rw [List.lookup_cons, List.lookup_cons, ih]

/-- No entry. -/
def empty : KeyedVector κ α := ⟨[], List.Pairwise.nil⟩

/-- An entry is added, in the place of one with its key. -/
def add (v : KeyedVector κ α) (key : κ) (value : α) : KeyedVector κ α :=
  ⟨insert key value v.entries, insert_sorted v.sorted⟩

/-- The keys, in order. -/
def keys (v : KeyedVector κ α) : List κ := v.entries.map Prod.fst

/-- The value of a key. -/
def lookup (v : KeyedVector κ α) (key : κ) : Option α := v.entries.lookup key

/-- The entries are added one after the other. -/
def addAll (v : KeyedVector κ α) (l : List (κ × α)) : KeyedVector κ α :=
  l.foldl (fun v e => v.add e.1 e.2) v

theorem keys_nodup (v : KeyedVector κ α) : v.keys.Nodup := v.sorted.imp ne_of_lt

/-- Which keys there are behind several. -/
theorem mem_keys_addAll : k ∈ (v.addAll l).keys ↔ k ∈ v.keys ∨ k ∈ l.map Prod.fst := by
  induction l generalizing v with
  | nil => exact (or_iff_left List.not_mem_nil).symm
  | cons e l ih =>
    have hadd : k ∈ (v.add e.1 e.2).keys ↔ k = e.1 ∨ k ∈ v.keys := mem_insert
    rw [addAll, List.foldl_cons, ← addAll, ih, hadd, List.map_cons, List.mem_cons]
    exact or_assoc.trans or_left_comm

/-- A key that was not added has the value it had. -/
theorem lookup_addAll_of_notMem (h : k ∉ l.map Prod.fst) : (v.addAll l).lookup k = v.lookup k := by
  induction l generalizing v with
  | nil => rfl
  | cons e l ih =>
    rw [List.map_cons, List.mem_cons, not_or] at h
    rw [addAll, List.foldl_cons, ← addAll, ih h.2]
    exact lookup_insert_ne h.1

/-- What was there before does not matter for a key that is added. -/
theorem lookup_addAll_of_mem (h : k ∈ l.map Prod.fst) :
    (v.addAll l).lookup k = (w.addAll l).lookup k := by
  induction l generalizing v w with
  | nil => exact absurd h List.not_mem_nil
  | cons e l ih =>
    rw [addAll, addAll, List.foldl_cons, List.foldl_cons, ← addAll, ← addAll]
    by_cases hl : k ∈ l.map Prod.fst
    · exact ih hl
    · rw [List.map_cons, List.mem_cons, or_iff_left hl] at h
      rw [lookup_addAll_of_notMem hl, lookup_addAll_of_notMem hl, h]
      exact lookup_insert_self.trans lookup_insert_self.symm

end KeyedVector

end AndroidLearn
