import Mathlib.Algebra.BigOperators.Group.List.Basic
import Mathlib.Data.List.Perm.Basic
import Mathlib.Algebra.Order.BigOperators.Group.List
import Mathlib.Algebra.Order.Ring.Nat

/-!
# Processes that are at one place each

The processes of a concurrent program are a list of the places they are at: one of them
goes on (`List.set`), is through (`List.eraseIdx`), or a new one comes (`++ [_]`). `weigh
w ps` is the sum of the weights of the places. With the weights 0 and 1 it counts the
processes that hold something; with larger ones it bounds the steps still to come.

The lemmas say what each of the three changes does to a weight (`weigh_set`,
`weigh_eraseIdx`, `weigh_concat`), to what holds of all processes (`forall_set`,
`forall_concat`), to what each of them has with it (`filterMap_set_perm` and its like) and
to names that no two of them share (`map_set`, `not_mem_eraseIdx`).
-/

namespace AndroidLearn.Procs

variable {π : Type*} {w : π → Nat} {ps : List π} {p q : π} {i : Nat}

/-- What the processes weigh together. -/
def weigh (w : π → Nat) (ps : List π) : Nat := (ps.map w).sum

@[simp] theorem weigh_nil : weigh w [] = 0 := rfl

@[simp] theorem weigh_cons : weigh w (p :: ps) = w p + weigh w ps := by
  simp [weigh]

theorem weigh_append {qs : List π} : weigh w (ps ++ qs) = weigh w ps + weigh w qs := by
  simp [weigh]

@[simp] theorem weigh_concat : weigh w (ps ++ [p]) = weigh w ps + w p := by
  simp [weigh]

/-- A weight may be taken before or behind a map. -/
theorem weigh_map {ρ : Type*} {f : ρ → π} {rs : List ρ} :
    weigh w (rs.map f) = weigh (fun r => w (f r)) rs := by
  rw [weigh, weigh, List.map_map]
  rfl

theorem weigh_perm {qs : List π} (h : ps.Perm qs) : weigh w ps = weigh w qs :=
  (h.map w).sum_eq

/-- Processes without weight weigh nothing together. -/
theorem weigh_eq_zero (h : ∀ p ∈ ps, w p = 0) : weigh w ps = 0 := by
  induction ps with
  | nil => rfl
  | cons p ps ih =>
    rw [weigh_cons, h p List.mem_cons_self, ih fun q hq => h q (List.mem_cons_of_mem _ hq)]

/-- One process goes from `p` to `q`. -/
theorem weigh_set (hi : ps[i]? = some p) : weigh w (ps.set i q) + w p = weigh w ps + w q := by
  induction ps generalizing i with
  | nil => simp at hi
  | cons p' ps ih =>
    cases i with
    | zero =>
      obtain rfl : p' = p := by simpa using hi
      rw [List.set_cons_zero, weigh_cons, weigh_cons]
      omega
    | succ i =>
      have hset := ih (i := i) (by simpa using hi)
      rw [List.set_cons_succ, weigh_cons, weigh_cons]
      omega

/-- One process is through. -/
theorem weigh_eraseIdx (hi : ps[i]? = some p) : weigh w (ps.eraseIdx i) + w p = weigh w ps := by
  induction ps generalizing i with
  | nil => simp at hi
  | cons p' ps ih =>
    cases i with
    | zero =>
      obtain rfl : p' = p := by simpa using hi
      rw [List.eraseIdx_cons_zero, weigh_cons]
      omega
    | succ i =>
      have herase := ih (i := i) (by simpa using hi)
      rw [List.eraseIdx_cons_succ, weigh_cons, weigh_cons]
      omega

/-- No process weighs more than all. -/
theorem le_weigh (hi : ps[i]? = some p) : w p ≤ weigh w ps := by
  have herase := weigh_eraseIdx (w := w) hi
  omega

theorem weigh_le_of_le {w' : π → Nat} (h : ∀ p ∈ ps, w p ≤ w' p) : weigh w ps ≤ weigh w' ps :=
  List.sum_le_sum h

/-- What holds of the processes and of the new place, when one goes on. -/
theorem forall_set {P : π → Prop} (h : ∀ p ∈ ps, P p) (hq : P q) : ∀ p ∈ ps.set i q, P p := by
  intro p hp
  rcases List.mem_or_eq_of_mem_set hp with hmem | rfl
  · exact h p hmem
  · exact hq

theorem forall_concat {P : π → Prop} (h : ∀ p ∈ ps, P p) (hq : P q) : ∀ p ∈ ps ++ [q], P p :=
  List.forall_mem_append.mpr ⟨h, List.forall_mem_singleton.mpr hq⟩

/-- A process that goes on may look the same. -/
theorem map_set {α : Type*} {f : π → α} (hi : ps[i]? = some p) (hpq : f p = f q) :
    (ps.set i q).map f = ps.map f := by
  obtain ⟨hlt, rfl⟩ := List.getElem?_eq_some_iff.mp hi
  rw [List.map_set, ← hpq, ← List.getElem_map f (h := by simpa using hlt), List.set_getElem_self]

/-- What one process has and no other does is gone with it. -/
theorem not_mem_eraseIdx {α : Type*} [DecidableEq α] {f : π → α} {a : α} (hi : ps[i]? = some p)
    (h : (ps.map f).count a ≤ 1) (ha : f p = a) : a ∉ (ps.eraseIdx i).map f := by
  obtain ⟨hlt, rfl⟩ := List.getElem?_eq_some_iff.mp hi
  have hperm := ((List.getElem_cons_eraseIdx_perm hlt).map f).count_eq a
  rw [List.map_cons, ha, List.count_cons_self] at hperm
  exact List.count_eq_zero.mp (by omega)

/-- What the processes hold, when at most one place of them holds something. -/
theorem filterMap_set {α : Type*} {f : π → Option α} (hi : ps[i]? = some p) (hpq : f p = f q) :
    (ps.set i q).filterMap f = ps.filterMap f := by
  induction ps generalizing i with
  | nil => simp at hi
  | cons p' ps ih =>
    cases i with
    | zero =>
      obtain rfl : p' = p := by simpa using hi
      rw [List.set_cons_zero, List.filterMap_cons, List.filterMap_cons, hpq]
    | succ i =>
      rw [List.set_cons_succ, List.filterMap_cons, List.filterMap_cons,
        ih (i := i) (by simpa using hi)]

/-- A process that shows nothing may go. -/
theorem filterMap_eraseIdx {α : Type*} {f : π → Option α} (hi : ps[i]? = some p) (hp : f p = none) :
    (ps.eraseIdx i).filterMap f = ps.filterMap f := by
  induction ps generalizing i with
  | nil => simp at hi
  | cons p' ps ih =>
    cases i with
    | zero =>
      obtain rfl : p' = p := by simpa using hi
      rw [List.eraseIdx_cons_zero, List.filterMap_cons, hp]
    | succ i =>
      rw [List.eraseIdx_cons_succ, List.filterMap_cons, List.filterMap_cons,
        ih (i := i) (by simpa using hi)]

/-- What the processes hold in any case, up to the order. -/
theorem filterMap_set_perm {α : Type*} {f : π → Option α} (hi : ps[i]? = some p) :
    ((ps.set i q).filterMap f ++ (f p).toList).Perm (ps.filterMap f ++ (f q).toList) := by
  induction ps generalizing i with
  | nil => simp at hi
  | cons p' ps ih =>
    cases i with
    | zero =>
      obtain rfl : p' = p := by simpa using hi
      have hcons (r : π) : (r :: ps).filterMap f = (f r).toList ++ ps.filterMap f := by
        rw [List.filterMap_cons]
        cases f r <;> rfl
      rw [List.set_cons_zero, hcons, hcons, List.append_assoc (f p').toList]
      exact List.perm_append_comm.trans (List.perm_append_comm.append_left _)
    | succ i =>
      have hset := ih (i := i) (by simpa using hi)
      rw [List.set_cons_succ, List.filterMap_cons, List.filterMap_cons]
      cases f p' with
      | none => exact hset
      | some x => exact hset.cons x

/-- A process that goes takes what it shows with it. -/
theorem filterMap_eraseIdx_perm {α : Type*} {f : π → Option α} (hi : ps[i]? = some p) :
    ((ps.eraseIdx i).filterMap f ++ (f p).toList).Perm (ps.filterMap f) := by
  induction ps generalizing i with
  | nil => simp at hi
  | cons p' ps ih =>
    cases i with
    | zero =>
      obtain rfl : p' = p := by simpa using hi
      rw [List.eraseIdx_cons_zero, List.filterMap_cons]
      cases f p' with
      | none => simp
      | some x => exact List.perm_append_singleton x _
    | succ i =>
      have herase := ih (i := i) (by simpa using hi)
      rw [List.eraseIdx_cons_succ, List.filterMap_cons, List.filterMap_cons]
      cases f p' with
      | none => exact herase
      | some x => exact herase.cons x

/-- No more is shown than the processes weigh. -/
theorem length_filterMap_le_weigh {α : Type*} {f : π → Option α} (hf : ∀ p, f p ≠ none → 1 ≤ w p) :
    (ps.filterMap f).length ≤ weigh w ps := by
  induction ps with
  | nil => simp
  | cons p ps ih =>
    rw [List.filterMap_cons, weigh_cons]
    cases hp : f p with
    | none => exact ih.trans (Nat.le_add_left _ _)
    | some x =>
      have := hf p (by simp [hp])
      simp only [List.length_cons]
      omega

/-- If the places that hold something weigh at least one each, and all weigh one at most,
a process at such a place is the only one that holds something. -/
theorem filterMap_of_weigh_le {α : Type*} {f : π → Option α} (hf : ∀ p, f p ≠ none → 1 ≤ w p)
    (hone : weigh w ps ≤ 1) (hi : ps[i]? = some p) (hp : 1 ≤ w p) :
    ps.filterMap f = (f p).toList := by
  induction ps generalizing i with
  | nil => simp at hi
  | cons p' ps ih =>
    rw [weigh_cons] at hone
    cases i with
    | zero =>
      obtain rfl : p' = p := by simpa using hi
      have hnone : ps.filterMap f = [] := by
        refine List.filterMap_eq_nil_iff.mpr fun q hq => ?_
        by_contra hne
        obtain ⟨j, hj⟩ := List.mem_iff_getElem?.mp hq
        have := le_weigh (w := w) hj
        have := hf q hne
        omega
      rw [List.filterMap_cons, hnone]
      cases f p' <;> rfl
    | succ i =>
      have hi' : ps[i]? = some p := by simpa using hi
      have := le_weigh (w := w) hi'
      have hnone : f p' = none := by
        by_contra hne
        have := hf p' hne
        omega
      rw [List.filterMap_cons, hnone]
      exact ih (by omega) hi'

end AndroidLearn.Procs
