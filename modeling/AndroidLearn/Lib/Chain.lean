import Mathlib.Data.List.Basic
import Mathlib.Logic.Function.Basic

/-!
# Chains of cells

A heap gives each address the cell at it, if there is one, and a null pointer is `none`.
`Segment heap p cells q` says that the links lead from the pointer `p` through `cells`,
each with its address and its value, to the pointer `q`. A whole list is a segment to
`none`.

A segment is split and joined like the list of its cells (`segment_append`), and depends
on its own cells only (`Segment.congr`), so that a cell elsewhere may change or go
(`Segment.update`). A segment that is not empty begins with a cell that is there
(`Segment.start`, `Segment.isSome`).

`walk` follows a number of links and `seek` does so with a second pointer one link behind,
as loops over lists in C do. `walk_eq` and `seek_of_segment` say where they come to within
a segment, and `walk_none` and `seek_past` what they find behind its end.
-/

namespace AndroidLearn.Chain

/-- A cell of a list. -/
structure Cell (A V : Type) where
  next : Option A
  value : V
  deriving DecidableEq

/-- Where the cells are. -/
abbrev Heap (A V : Type) := A → Option (Cell A V)

variable {A V : Type}

/-- These are the cells from one address to another. -/
def Segment (heap : Heap A V) : Option A → List (A × V) → Option A → Prop
  | p, [], q => p = q
  | p, (a, v) :: cells, q =>
    p = some a ∧ ∃ next, heap a = some ⟨next, v⟩ ∧ Segment heap next cells q

def addresses (cells : List (A × V)) : List A := cells.map Prod.fst

@[simp] theorem addresses_nil : addresses ([] : List (A × V)) = [] := rfl

@[simp] theorem addresses_cons (cell : A × V) (cells : List (A × V)) :
    addresses (cell :: cells) = cell.1 :: addresses cells := rfl

@[simp] theorem addresses_append (front cells : List (A × V)) :
    addresses (front ++ cells) = addresses front ++ addresses cells := List.map_append

@[simp] theorem segment_nil {heap : Heap A V} {p q : Option A} :
    Segment heap p [] q ↔ p = q := Iff.rfl

theorem segment_cons {heap : Heap A V} {p q : Option A} {a : A} {v : V} {cells : List (A × V)} :
    Segment heap p ((a, v) :: cells) q ↔
      p = some a ∧ ∃ next, heap a = some ⟨next, v⟩ ∧ Segment heap next cells q := Iff.rfl

/-- A segment may be cut anywhere. -/
theorem segment_append {heap : Heap A V} {p q : Option A} {front cells : List (A × V)} :
    Segment heap p (front ++ cells) q ↔ ∃ r, Segment heap p front r ∧ Segment heap r cells q := by
  induction front generalizing p with
  | nil => simp
  | cons cell front ih =>
    obtain ⟨a, v⟩ := cell
    rw [List.cons_append, segment_cons]
    simp only [segment_cons, ih]
    constructor
    · intro h
      obtain ⟨hp, next, hcell, r, hfront, hcells⟩ := h
      exact ⟨r, ⟨hp, next, hcell, hfront⟩, hcells⟩
    · intro h
      obtain ⟨r, ⟨hp, next, hcell, hfront⟩, hcells⟩ := h
      exact ⟨hp, next, hcell, r, hfront, hcells⟩

/-- The last cell holds the pointer that a segment leads to. -/
theorem segment_concat {heap : Heap A V} {p q : Option A} {a : A} {v : V} {cells : List (A × V)} :
    Segment heap p (cells ++ [(a, v)]) q ↔
      Segment heap p cells (some a) ∧ heap a = some ⟨q, v⟩ := by
  rw [segment_append]
  constructor
  · intro h
    obtain ⟨r, hcells, hr, next, hcell, hnext⟩ := h
    exact ⟨hr ▸ hcells, segment_nil.mp hnext ▸ hcell⟩
  · intro h
    exact ⟨some a, h.1, rfl, q, h.2, rfl⟩

/-- A segment depends on its own cells only. -/
theorem Segment.congr {heap heap' : Heap A V} {p q : Option A} {cells : List (A × V)}
    (h : Segment heap p cells q) (hsame : ∀ a ∈ addresses cells, heap' a = heap a) :
    Segment heap' p cells q := by
  induction cells generalizing p with
  | nil => exact h
  | cons cell cells ih =>
    obtain ⟨a, v⟩ := cell
    obtain ⟨hp, next, hcell, hcells⟩ := h
    refine ⟨hp, next, ?_, ih hcells fun b hb => hsame b (List.mem_cons_of_mem _ hb)⟩
    rw [hsame a List.mem_cons_self, hcell]

/-- A change of another cell is not seen. -/
theorem Segment.update [DecidableEq A] {heap : Heap A V} {p q : Option A} {cells : List (A × V)}
    (h : Segment heap p cells q) {a : A} (ha : a ∉ addresses cells) (cell : Option (Cell A V)) :
    Segment (Function.update heap a cell) p cells q := by
  refine h.congr fun b hb => Function.update_of_ne ?_ _ _
  intro hba
  exact ha (hba ▸ hb)

/-- Every cell of a segment is there. -/
theorem Segment.isSome {heap : Heap A V} {p q : Option A} {cells : List (A × V)}
    (h : Segment heap p cells q) {a : A} (ha : a ∈ addresses cells) : (heap a).isSome := by
  induction cells generalizing p with
  | nil => exact absurd ha List.not_mem_nil
  | cons cell cells ih =>
    obtain ⟨b, v⟩ := cell
    obtain ⟨-, next, hcell, hcells⟩ := h
    rcases List.mem_cons.mp ha with rfl | ha
    · rw [hcell]
      rfl
    · exact ih hcells ha

/-- The pointer to the first cell. -/
theorem Segment.start {heap : Heap A V} {p : Option A} {cells : List (A × V)}
    (h : Segment heap p cells none) : p = (addresses cells).head? := by
  cases cells with
  | nil => exact h
  | cons cell cells => exact h.1

/-! ## Following the links -/

/-- `n` links from `p` on, or fewer where the list ends. `none` is a pointer to no cell. -/
def walk (heap : Heap A V) : Nat → Option A → Option (Option A)
  | 0, p => some p
  | _ + 1, none => some none
  | n + 1, some a => (heap a).bind fun cell => walk heap n cell.next

/-- The same with a pointer `pp` one link behind. -/
def seek (heap : Heap A V) : Nat → Option A → Option A → Option (Option A × Option A)
  | 0, pp, p => some (pp, p)
  | _ + 1, pp, none => some (pp, none)
  | n + 1, _, some a => (heap a).bind fun cell => seek heap n (some a) cell.next

theorem walk_none (heap : Heap A V) (n : Nat) : walk heap n none = some none := by
  cases n <;> rfl

/-- From the start of a list, `n` links lead to its cell with the index `n`. -/
theorem walk_eq {heap : Heap A V} {p : Option A} {cells : List (A × V)}
    (h : Segment heap p cells none) (n : Nat) : walk heap n p = some (addresses cells)[n]? := by
  induction cells generalizing p n with
  | nil =>
    rw [segment_nil.mp h, walk_none]
    rfl
  | cons cell cells ih =>
    obtain ⟨a, v⟩ := cell
    obtain ⟨rfl, next, hcell, hcells⟩ := h
    cases n with
    | zero => rfl
    | succ n =>
      simp only [walk, hcell, Option.bind_some]
      exact ih hcells n

/-- Walking a whole segment comes to its end. -/
theorem seek_of_segment {heap : Heap A V} {p q : Option A} {cells : List (A × V)}
    (h : Segment heap p cells q) (pp : Option A) :
    seek heap cells.length pp p = some ((addresses cells).getLast?.or pp, q) := by
  induction cells generalizing p pp with
  | nil => simp [segment_nil.mp h, seek]
  | cons cell cells ih =>
    obtain ⟨a, v⟩ := cell
    obtain ⟨rfl, next, hcell, hcells⟩ := h
    simp only [List.length_cons, seek, hcell, Option.bind_some]
    rw [ih hcells, addresses_cons, List.getLast?_cons]
    cases (addresses cells).getLast? <;> rfl

/-- Where the list ends early, the pointer in front is null. -/
theorem seek_past {heap : Heap A V} {p : Option A} {cells : List (A × V)}
    (h : Segment heap p cells none) {n : Nat} (hn : cells.length ≤ n) (pp : Option A) :
    ∃ last, seek heap n pp p = some (last, none) := by
  induction cells generalizing p n pp with
  | nil =>
    rw [segment_nil.mp h]
    cases n with
    | zero => exact ⟨pp, rfl⟩
    | succ n => exact ⟨pp, rfl⟩
  | cons cell cells ih =>
    obtain ⟨a, v⟩ := cell
    obtain ⟨rfl, next, hcell, hcells⟩ := h
    cases n with
    | zero => exact absurd hn (Nat.not_succ_le_zero _)
    | succ n =>
      simp only [seek, hcell, Option.bind_some]
      exact ih hcells (Nat.le_of_succ_le_succ hn) (some a)

end AndroidLearn.Chain
