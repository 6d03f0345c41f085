import Mathlib.Data.List.Basic
import Mathlib.Data.List.Induction

/-!
# A matcher that starts over

A matcher counts how much of a pattern it has just seen (`advance`). Where the next symbol
is not the next one of the pattern, the count goes back to nothing, and the symbol is not
looked at again. What it has read is then a number of false starts, each of them a piece
of the front of the pattern and the symbol that broke it off, and the part of the pattern
that it is in (`exists_starts`).

This is no search for the pattern: the symbol that breaks off a false start could have
been the first of the pattern. The matcher sees the pattern exactly where that begins
behind false starts (`Fresh`, `full_iff`).
-/

namespace AndroidLearn.Matcher

variable {α : Type*} {p u s front : List α} {c : α}

/-- The front of the pattern, up to a symbol that does not go on with it. -/
def FalseStart (p s : List α) : Prop :=
  ∃ u c, s = u ++ [c] ∧ u <+: p ∧ ¬ u ++ [c] <+: p

/-- Nothing but false starts. -/
def Fresh (p front : List α) : Prop :=
  ∃ starts : List (List α), (∀ s ∈ starts, FalseStart p s) ∧ front = starts.flatten

/-- A prefix may be lengthened by the next element. -/
theorem concat_isPrefix_iff (h : u <+: p) : u ++ [c] <+: p ↔ p[u.length]? = some c := by
  obtain ⟨rest, rfl⟩ := h
  rw [List.prefix_append_right_inj, List.getElem?_append_right (Nat.le_refl _), Nat.sub_self]
  cases rest with
  | nil => simp
  | cons d rest => simp [eq_comm]

variable [DecidableEq α]

/-- The count after one symbol. -/
def advance (p : List α) (m : Nat) (c : α) : Nat := if p[m]? = some c then m + 1 else 0

/-- The count after all of them. -/
def matched (p cs : List α) : Nat := cs.foldl (advance p) 0

/-- One element more. -/
theorem matched_concat (p cs : List α) (c : α) :
    matched p (cs ++ [c]) = advance p (matched p cs) c := by
  rw [matched, List.foldl_append]
  rfl

/-- In front of the pattern's own front the count goes up. -/
theorem matched_append (hfront : matched p front = 0) (h : u <+: p) :
    matched p (front ++ u) = u.length := by
  induction u using List.reverseRecOn with
  | nil => rw [List.append_nil, hfront, List.length_nil]
  | append_singleton u c ih =>
    have hu : u <+: p := (List.prefix_append u [c]).trans h
    rw [← List.append_assoc, matched_concat, ih hu, advance, if_pos ((concat_isPrefix_iff hu).mp h),
      List.length_append, List.length_singleton]

/-- Nothing is matched yet. -/
theorem matched_of_fresh (h : Fresh p front) : matched p front = 0 := by
  obtain ⟨starts, hstarts, rfl⟩ := h
  induction starts using List.reverseRecOn with
  | nil => rfl
  | append_singleton starts s ih =>
    obtain ⟨u, c, rfl, hu, hc⟩ := hstarts s (by simp)
    have hfront := ih fun s hs => hstarts s (List.mem_append_left _ hs)
    rw [List.flatten_append, List.flatten_singleton, ← List.append_assoc, matched_concat,
      matched_append hfront hu, advance, if_neg fun he => hc ((concat_isPrefix_iff hu).mpr he)]

/-- Whatever was read is false starts and a part of the pattern, as long as the count. -/
theorem exists_starts (p cs : List α) :
    ∃ front u, cs = front ++ u ∧ Fresh p front ∧ u <+: p ∧ matched p cs = u.length := by
  induction cs using List.reverseRecOn with
  | nil => exact ⟨[], [], rfl, ⟨[], by simp, rfl⟩, List.nil_prefix, rfl⟩
  | append_singleton cs c ih =>
    obtain ⟨front, u, rfl, hfresh, hu, hm⟩ := ih
    by_cases hc : u ++ [c] <+: p
    · refine ⟨front, u ++ [c], List.append_assoc .., hfresh, hc, ?_⟩
      rw [List.append_assoc, matched_append (matched_of_fresh hfresh) hc]
    · refine ⟨front ++ u ++ [c], [], (List.append_nil _).symm, ?_, List.nil_prefix, ?_⟩
      · obtain ⟨starts, hstarts, rfl⟩ := hfresh
        refine ⟨starts ++ [u ++ [c]], ?_, ?_⟩
        · intro s hs
          rcases List.mem_append.mp hs with hs | hs
          · exact hstarts s hs
          · exact ⟨u, c, List.mem_singleton.mp hs, hu, hc⟩
        · rw [List.flatten_append, List.flatten_singleton, List.append_assoc]
      · rw [matched_concat, hm, advance, if_neg fun he => hc ((concat_isPrefix_iff hu).mpr he)]
        rfl

/-- The count is full where the pattern has come behind false starts. -/
theorem full_iff (p cs : List α) :
    matched p cs = p.length ↔ ∃ front, cs = front ++ p ∧ Fresh p front := by
  constructor
  · intro h
    obtain ⟨front, u, rfl, hfresh, hu, hm⟩ := exists_starts p cs
    have hlen : u.length = p.length := hm.symm.trans h
    exact ⟨front, by rw [hu.eq_of_length hlen], hfresh⟩
  · rintro ⟨front, rfl, hfresh⟩
    exact matched_append (matched_of_fresh hfresh) (List.prefix_refl p)

/-- So every place of the pattern is seen exactly if false starts are in front of it. -/
theorem seen_iff (p cs : List α) :
    (matched p cs = p.length ↔ p <:+ cs) ↔ ∀ front, cs = front ++ p → Fresh p front := by
  rw [full_iff]
  constructor
  · rintro h front rfl
    obtain ⟨front', he, hfresh⟩ := h.mpr (List.suffix_append front p)
    rwa [List.append_cancel_right he]
  · intro h
    constructor
    · rintro ⟨front, rfl, -⟩
      exact List.suffix_append front p
    · rintro ⟨front, rfl⟩
      exact ⟨front, rfl, h front rfl⟩

end AndroidLearn.Matcher
