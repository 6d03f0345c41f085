import Mathlib.Data.List.Perm.Basic

/-!
# `GLIST`, a singly linked list

The operations of `glist.c` as their callers see them. A list is modelled by its members
from the head on; the pointers of the nodes are not visible outside the file, and `CONF`
never looks at them.

An index or a result of `-1` is `none`, and the flag of `glistAdd` says whether `malloc`
returned a node. The members are of any type, and the test of `glist_find_ex` and the
comparator of `glist_sort` are functions of the caller.

`glistSort` makes the exchanges of the source's two cursors, on the sequence; that it
permutes the members needs nothing of the comparator (`glistSort_perm`). The nodes in
memory, and that their operations are these, are in `GlistNodes` (`Holds.glist`) and in
`Sort` (`Holds.glistSort`).
-/

namespace AndroidLearn.Conf

variable {α : Type}

/-- `glist_length`. -/
def glistLength : List α → Nat
  | [] => 0
  | _ :: l => glistLength l + 1

/-- The new node becomes the head. -/
def glistAdd (node : Bool) (l : List α) (member : α) : Option (List α) :=
  if node then some (member :: l) else none

/-- `glist_get`, for an index that may be out of range. -/
def glistGet (l : List α) (index : Option Nat) : Option α := index.bind fun i => l[i]?

/-- The index of the first member that compares equal. -/
def glistFindEx (equal : α → Bool) : List α → Option Nat
  | [] => none
  | x :: l => if equal x then some 0 else (glistFindEx equal l).map (· + 1)

/-- The loop over `p2`: whatever compares below the member at `p1` is exchanged
with it. -/
def glistExchange (compare : α → α → Int) : α → List α → α × List α
  | x, [] => (x, [])
  | x, y :: l =>
    if 0 < compare x y then
      let (least, rest) := glistExchange compare y l
      (least, x :: rest)
    else
      let (least, rest) := glistExchange compare x l
      (least, y :: rest)

/-- A turn of the sort changes the order only. -/
theorem glistExchange_perm (compare : α → α → Int) (x : α) (l : List α) :
    ((glistExchange compare x l).1 :: (glistExchange compare x l).2).Perm (x :: l) := by
  induction l generalizing x with
  | nil => exact .refl _
  | cons y l ih =>
    unfold glistExchange
    split
    · exact (List.Perm.swap _ _ _).trans ((ih y).cons x)
    · exact ((List.Perm.swap _ _ _).trans ((ih x).cons y)).trans (.swap _ _ _)

theorem glistExchange_length (compare : α → α → Int) (x : α) (l : List α) :
    (glistExchange compare x l).2.length = l.length := by
  have h := (glistExchange_perm compare x l).length_eq
  simpa using h

/-- The loop over `p1`. -/
def glistSort (compare : α → α → Int) : List α → List α
  | [] => []
  | x :: l => (glistExchange compare x l).1 :: glistSort compare (glistExchange compare x l).2
termination_by l => l.length
decreasing_by simp [glistExchange_length]

/-- `glist_delete`. -/
def glistDelete (l : List α) (index : Nat) : List α := l.eraseIdx index

/-! ## What the operations do -/

@[simp] theorem glistLength_eq (l : List α) : glistLength l = l.length := by
  induction l with
  | nil => rfl
  | cons x l ih => simp [glistLength, ih]

/-- The sort changes the order only. -/
theorem glistSort_perm (compare : α → α → Int) (l : List α) :
    (glistSort compare l).Perm l := by
  induction l using glistSort.induct compare with
  | case1 => rw [glistSort]
  | case2 x l ih =>
    rw [glistSort]
    exact (ih.cons _).trans (glistExchange_perm compare x l)

/-- The element at the index that is found is the first that is equal. -/
theorem glistGet_find (equal : α → Bool) (l : List α) :
    glistGet l (glistFindEx equal l) = l.find? equal := by
  induction l with
  | nil => rfl
  | cons x l ih =>
    unfold glistFindEx
    rw [List.find?_cons]
    cases equal x with
    | true => rfl
    | false => simpa [glistGet, Option.bind_map, Function.comp_def] using ih

theorem glistFindEx_isSome (equal : α → Bool) (l : List α) :
    (glistFindEx equal l).isSome = l.any equal := by
  induction l with
  | nil => rfl
  | cons x l ih =>
    unfold glistFindEx
    cases hx : equal x with
    | true => simp [hx]
    | false => simp [hx, ih]

theorem glistGet_ne_none {equal : α → Bool} {l : List α} {i : Nat}
    (h : glistFindEx equal l = some i) : glistGet l (some i) ≠ none := by
  have hsome := glistFindEx_isSome equal l
  rw [h, Option.isSome_some] at hsome
  obtain ⟨x, hx, heq⟩ := List.any_eq_true.mp hsome.symm
  rw [← h, glistGet_find]
  exact fun hnone => List.find?_eq_none.mp hnone x hx heq

/-- Deleting at the found index removes the first member that compares equal. -/
theorem glistDelete_find {equal : α → Bool} {l : List α} {i : Nat}
    (h : glistFindEx equal l = some i) : glistDelete l i = l.eraseP equal := by
  unfold glistDelete
  induction l generalizing i with
  | nil => exact absurd h (by simp [glistFindEx])
  | cons x l ih =>
    unfold glistFindEx at h
    cases hx : equal x with
    | true =>
      obtain rfl : 0 = i := by simpa [hx] using h
      rw [List.eraseP_cons_of_pos hx]
      rfl
    | false =>
      simp only [hx, Bool.false_eq_true, if_false, Option.map_eq_some_iff] at h
      obtain ⟨j, hj, rfl⟩ := h
      rw [List.eraseIdx_cons_succ, ih hj, List.eraseP_cons_of_neg (by simp [hx])]

end AndroidLearn.Conf
