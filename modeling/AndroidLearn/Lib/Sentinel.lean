import Mathlib.Data.List.ReduceOption

/-!
# Tables that end at an empty slot

A table of slots, some of them empty. A loop over it goes from the first slot to the first
empty one: `walk` is what it sees, `beyond` the rest, and the two make up the table
(`walk_append_beyond`). Without an empty slot in between, a loop sees all of it
(`walk_map_some`).

`loop` changes what a loop sees, entry by entry: what a later one sees are the changed
entries (`walk_loop`), and what stood behind the first empty slot stays there
(`beyond_loop`). So a table whose entries are emptied one by one loses what stands behind
the first of them to every loop.
-/

namespace AndroidLearn.Sentinel

variable {α : Type}

/-- The entries up to the first empty slot. -/
def walk : List (Option α) → List α
  | some x :: t => x :: walk t
  | _ => []

/-- The entries behind the first empty slot. -/
def beyond : List (Option α) → List α
  | some _ :: t => beyond t
  | t => t.reduceOption

/-- A loop that gives every entry it sees a turn. -/
def loop (turn : α → α) : List (Option α) → List (Option α)
  | some x :: t => some (turn x) :: loop turn t
  | t => t

@[simp] theorem walk_nil : walk ([] : List (Option α)) = [] := rfl
@[simp] theorem walk_none (t : List (Option α)) : walk (none :: t) = [] := rfl
@[simp] theorem walk_some (x : α) (t : List (Option α)) : walk (some x :: t) = x :: walk t := rfl
@[simp] theorem beyond_nil : beyond ([] : List (Option α)) = [] := rfl
@[simp] theorem beyond_none (t : List (Option α)) : beyond (none :: t) = t.reduceOption := rfl
@[simp] theorem beyond_some (x : α) (t : List (Option α)) : beyond (some x :: t) = beyond t := rfl

/-- What is left in the table is what loops see and what they do not. -/
theorem walk_append_beyond (t : List (Option α)) : walk t ++ beyond t = t.reduceOption := by
  induction t with
  | nil => rfl
  | cons slot t ih =>
    cases slot with
    | none => simp
    | some x => simp [ih]

@[simp] theorem walk_loop (turn : α → α) (t : List (Option α)) :
    walk (loop turn t) = (walk t).map turn := by
  induction t with
  | nil => rfl
  | cons slot t ih =>
    cases slot with
    | none => rfl
    | some x => simp [loop, ih]

/-- No loop reaches what is beyond. -/
@[simp] theorem beyond_loop (turn : α → α) (t : List (Option α)) :
    beyond (loop turn t) = beyond t := by
  induction t with
  | nil => rfl
  | cons slot t ih =>
    cases slot with
    | none => rfl
    | some x => simpa [loop] using ih

/-- A table without an empty slot is seen whole. -/
@[simp] theorem walk_map_some (t : List α) : walk (t.map some) = t := by
  induction t with
  | nil => rfl
  | cons x t ih => rw [List.map_cons, walk_some, ih]

@[simp] theorem beyond_map_some (t : List α) : beyond (t.map some) = [] := by
  induction t with
  | nil => rfl
  | cons x t ih => rw [List.map_cons, beyond_some, ih]

/-- An entry is beyond when an empty slot stands before it. -/
theorem mem_beyond_iff {x : α} {t : List (Option α)} :
    x ∈ beyond t ↔ ∃ front back, t = front ++ none :: back ∧ some x ∈ back := by
  induction t with
  | nil => simp
  | cons slot t ih =>
    cases slot with
    | none =>
      rw [beyond_none, List.reduceOption_mem_iff]
      constructor
      · intro hx
        exact ⟨[], t, rfl, hx⟩
      · rintro ⟨front, back, heq, hx⟩
        cases front with
        | nil =>
          obtain ⟨-, rfl⟩ := List.cons.inj heq
          exact hx
        | cons y front =>
          obtain ⟨-, rfl⟩ := List.cons.inj heq
          simp [hx]
    | some y =>
      rw [beyond_some, ih]
      constructor
      · rintro ⟨front, back, rfl, hx⟩
        exact ⟨some y :: front, back, rfl, hx⟩
      · rintro ⟨front, back, heq, hx⟩
        cases front with
        | nil => simp at heq
        | cons z front =>
          obtain ⟨-, rfl⟩ := List.cons.inj heq
          exact ⟨front, back, rfl, hx⟩

end AndroidLearn.Sentinel
