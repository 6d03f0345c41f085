import Mathlib.Data.List.Basic

/-!
# A queue that merges

A notice that says the same as the last one of the queue is not queued again (`post`), as
the queues of inotify do it. So a reader finds every notice in the queue, though not as
often as it was posted, and what was posted at a queue with another tail is there once
more (`post_of_ne`). `post_cases` is the case split that proofs about a posted notice
begin with.

The last two lemmas are about the place of a notice in such a queue: where one that is the
last, or in front of one that was put behind, can stand.
-/

namespace AndroidLearn.Coalesce

variable {α : Type*} {same : α → α → Bool} {queue before : List α} {n m : α}

/-- An event is put at the end, unless it is the same as the last one. -/
def post (same : α → α → Bool) (queue : List α) (n : α) : List α :=
  match queue.getLast? with
  | some m => if same m n then queue else queue ++ [n]
  | none => queue ++ [n]

/-- With what was taken from the queue before it: the notice is at the end, itself or
as another one that says the same. -/
theorem post_cases (before : List α) :
    (∃ m, (before ++ queue).getLast? = some m ∧ queue.getLast? = some m ∧ same m n = true ∧
        before ++ post same queue n = before ++ queue) ∨
      before ++ post same queue n = (before ++ queue) ++ [n] := by
  unfold post
  split
  next m hm =>
    split
    next hsame => exact .inl ⟨m, by rw [List.getLast?_append, hm]; rfl, hm, hsame, rfl⟩
    next => exact .inr (List.append_assoc _ _ _).symm
  next => exact .inr (List.append_assoc _ _ _).symm

/-- One that is not the same as the last is put at the end. -/
theorem post_of_ne (h : ∀ m, queue.getLast? = some m → same m n = false) :
    post same queue n = queue ++ [n] := by
  unfold post
  split
  next m hm => rw [h m hm, if_neg Bool.false_ne_true]
  next => rfl

/-- What a place in the longer list is: a place of the list, or the end. -/
theorem split_append_singleton {xs pre suf : List α} {x : α} (h : xs ++ [n] = pre ++ x :: suf) :
    (∃ suf', suf = suf' ++ [n] ∧ xs = pre ++ x :: suf') ∨ (x = n ∧ suf = [] ∧ xs = pre) := by
  rcases List.eq_nil_or_concat suf with rfl | ⟨suf', y, rfl⟩
  · obtain ⟨hpre, hx⟩ := List.append_inj' h rfl
    exact .inr ⟨(List.cons.inj hx).1.symm, rfl, hpre⟩
  · rw [List.concat_eq_append] at h ⊢
    rw [← List.cons_append, ← List.append_assoc] at h
    obtain ⟨hpre, hy⟩ := List.append_inj' h rfl
    obtain rfl := (List.cons.inj hy).1
    exact .inl ⟨suf', rfl, hpre⟩

/-- The last of a list, seen from a place of it. -/
theorem getLast?_split {xs pre suf : List α} {x : α} (h : xs = pre ++ x :: suf)
    (hlast : xs.getLast? = some m) : (suf = [] ∧ x = m) ∨ m ∈ suf := by
  rcases List.eq_nil_or_concat suf with rfl | ⟨suf', y, rfl⟩
  · rw [h, List.getLast?_concat] at hlast
    exact .inl ⟨rfl, Option.some.inj hlast⟩
  · rw [h, List.concat_eq_append, ← List.cons_append, ← List.append_assoc,
      List.getLast?_concat] at hlast
    obtain rfl := Option.some.inj hlast
    exact .inr (by simp)

end AndroidLearn.Coalesce
