import Mathlib.Data.List.Induction
import Mathlib.Order.Lattice

/-!
# The running maximum

A loop over a list that keeps the best element so far: among the candidates, one that is
larger than the best one, which begins at a bound. A candidate that is not above the bound
is never taken, so the loop finds a maximum of the candidates if one of them is above the
bound (`best_eq_some`), and nothing otherwise (`best_eq_none_iff`). Of equal ones it keeps
the first (`IsFirstMax`).

`Knows` is the invariant of the loop, of the elements it has seen; it is kept by one more
(`best_knows`, by induction from the end of the list).
-/

namespace AndroidLearn.RunningMax

variable {α β : Type} [LinearOrder β] (p : α → Bool) (f : α → β) (bound : β)

/-- One round: the best element and its value. -/
def step (best : Option α × β) (x : α) : Option α × β :=
  if p x = true ∧ best.2 < f x then (some x, f x) else best

/-- The first greatest element above the bound, and its value. -/
def best (l : List α) : Option α × β := l.foldl (step p f) (none, bound)

/-- The first of the largest candidates. -/
def IsFirstMax (l : List α) (x : α) : Prop :=
  ∃ front back, l = front ++ x :: back ∧ p x = true ∧
    (∀ y ∈ front, p y = true → f y < f x) ∧ ∀ y ∈ back, p y = true → f y ≤ f x

/-- What the loop knows after each round. -/
structure Knows (l : List α) (r : Option α × β) : Prop where
  none : r.1 = none → r.2 = bound ∧ ∀ x ∈ l, p x = true → f x ≤ bound
  some : ∀ x, r.1 = some x → r.2 = f x ∧ bound < f x ∧ IsFirstMax p f l x

variable {p f bound}

theorem IsFirstMax.mem {l : List α} {x : α} (h : IsFirstMax p f l x) : x ∈ l := by
  obtain ⟨front, back, rfl, -⟩ := h
  exact List.mem_append_right _ List.mem_cons_self

theorem IsFirstMax.candidate {l : List α} {x : α} (h : IsFirstMax p f l x) : p x = true := by
  obtain ⟨front, back, -, hx, -⟩ := h
  exact hx

/-- No other is greater. -/
theorem IsFirstMax.le {l : List α} {x y : α} (h : IsFirstMax p f l x) (hy : y ∈ l)
    (hp : p y = true) : f y ≤ f x := by
  obtain ⟨front, back, rfl, -, hfront, hback⟩ := h
  rcases List.mem_append.mp hy with hy | hy
  · exact le_of_lt (hfront y hy hp)
  rcases List.mem_cons.mp hy with rfl | hy
  · exact le_rfl
  · exact hback y hy hp

/-- A further element that is no larger changes nothing. -/
theorem IsFirstMax.append {l : List α} {x y : α} (h : IsFirstMax p f l x)
    (hy : p y = true → f y ≤ f x) : IsFirstMax p f (l ++ [y]) x := by
  obtain ⟨front, back, rfl, hx, hfront, hback⟩ := h
  refine ⟨front, back ++ [y], by simp, hx, hfront, ?_⟩
  intro z hz
  rcases List.mem_append.mp hz with hz | hz
  · exact hback z hz
  · obtain rfl := List.mem_singleton.mp hz
    exact hy

/-- One element more. -/
theorem best_append (l : List α) (x : α) :
    best p f bound (l ++ [x]) = step p f (best p f bound l) x := by
  unfold best
  rw [List.foldl_append]
  rfl

/-- What the walk knows behind a list is true of it. -/
theorem best_knows (l : List α) : Knows p f bound l (best p f bound l) := by
  induction l using List.reverseRecOn with
  | nil => exact ⟨fun _ => ⟨rfl, List.forall_mem_nil _⟩, fun x hx => absurd hx (by simp [best])⟩
  | append_singleton l x ih =>
    rw [best_append, step]
    split
    next hlarger =>
      obtain ⟨hp, hlt⟩ := hlarger
      refine ⟨fun hnone => absurd hnone (by simp), ?_⟩
      intro y hy
      obtain rfl : x = y := Option.some.inj hy
      cases hbest : (best p f bound l).1 with
      | none =>
        obtain ⟨hbound, hall⟩ := ih.none hbest
        rw [hbound] at hlt
        exact ⟨rfl, hlt, l, [], rfl, hp, fun y hy hpy => lt_of_le_of_lt (hall y hy hpy) hlt,
          List.forall_mem_nil _⟩
      | some z =>
        obtain ⟨hvalue, hbound, hmax⟩ := ih.some z hbest
        rw [hvalue] at hlt
        exact ⟨rfl, lt_trans hbound hlt, l, [], rfl, hp,
          fun y hy hpy => lt_of_le_of_lt (hmax.le hy hpy) hlt, List.forall_mem_nil _⟩
    next hnot =>
      have hle : p x = true → f x ≤ (best p f bound l).2 :=
        fun hp => not_lt.mp fun hlt => hnot ⟨hp, hlt⟩
      constructor
      · intro hnone
        obtain ⟨hbound, hall⟩ := ih.none hnone
        refine ⟨hbound, fun y hy hpy => ?_⟩
        rcases List.mem_append.mp hy with hy | hy
        · exact hall y hy hpy
        · obtain rfl := List.mem_singleton.mp hy
          exact hbound ▸ hle hpy
      · intro y hy
        obtain ⟨hvalue, hbound, hmax⟩ := ih.some y hy
        exact ⟨hvalue, hbound, hmax.append fun hp => hvalue ▸ hle hp⟩

/-- There is none if nothing is above the bound. -/
theorem best_eq_none_iff (l : List α) :
    (best p f bound l).1 = none ↔ ∀ x ∈ l, p x = true → f x ≤ bound := by
  constructor
  · intro hnone
    exact ((best_knows l).none hnone).2
  · intro hall
    cases hbest : (best p f bound l).1 with
    | none => rfl
    | some x =>
      obtain ⟨-, hbound, hmax⟩ := (best_knows l).some x hbest
      exact absurd (hall x hmax.mem hmax.candidate) (not_le.mpr hbound)

theorem best_eq_some {l : List α} {x : α} (h : (best p f bound l).1 = some x) :
    bound < f x ∧ IsFirstMax p f l x := ((best_knows l).some x h).2

end AndroidLearn.RunningMax
