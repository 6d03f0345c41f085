import Mathlib.Data.List.Basic
import Mathlib.Data.Nat.Find

/-!
# The first occurrence of a sublist

`strstr` is `List.dropInfix?`: it cuts a list at the first place where another one occurs
in it. `dropInfix_eq_some` and `dropInfix_eq_none` are its two cases over a lawful
equality: the first occurrence, and none.

The other lemmas are about occurrences next to a separator: what does not contain it lies
on one side of it (`infix_separated`), and a pair of symbols that is in a list once is
found there (`pair_unique`, `pair_infix_append`).
-/

namespace AndroidLearn.Strstr

variable {α : Type} {xs ys front rest : List α}

/-- An occurrence without the separator is on one side of it. -/
theorem infix_separated {sep : α} (hsep : sep ∉ ys) {left right : List α}
    (h : ys <:+: left ++ sep :: right) : ys <:+: left ∨ ys <:+: right := by
  rcases List.infix_append_iff.mp h with h | h | ⟨a, b, rfl, ha, hb⟩
  · exact .inl h
  · rcases List.infix_cons_iff.mp h with h | h
    · cases ys with
      | nil => exact .inl (List.nil_infix)
      | cons y ys =>
        obtain ⟨rfl, -⟩ := List.cons_prefix_cons.mp h
        exact absurd (by simp) hsep
    · exact .inr h
  · cases b with
    | nil =>
      rw [List.append_nil]
      exact .inl ha.isInfix
    | cons y b =>
      obtain ⟨rfl, -⟩ := List.cons_prefix_cons.mp hb
      exact absurd (by simp) hsep

/-- A pair occurs where its first element does. -/
theorem pair_infix_append {a b : α} (ha : a ∉ xs) : [a, b] <:+: xs ++ ys ↔ [a, b] <:+: ys := by
  refine ⟨fun h => ?_, fun h => h.trans (List.suffix_append xs ys).isInfix⟩
  induction xs with
  | nil => exact h
  | cons x xs ih =>
    simp only [List.mem_cons, not_or] at ha
    rcases List.infix_cons_iff.mp h with h | h
    · exact absurd (List.cons_prefix_cons.mp h).1 ha.1
    · exact ih ha.2 h

/-- Where a pair of different elements occurs once, it is cut there only. -/
theorem pair_unique {a b : α} {front' rest' : List α} (hab : a ≠ b) (hfront : a ∉ front)
    (hrest : ¬ [a, b] <:+: rest) (h : front' ++ a :: b :: rest' = front ++ a :: b :: rest) :
    front' = front ∧ rest' = rest := by
  rcases List.append_eq_append_iff.mp h with ⟨w, hw, htail⟩ | ⟨w, hw, htail⟩
  · cases w with
    | nil =>
      obtain ⟨-, hcons⟩ := List.cons.inj htail
      exact ⟨by simpa using hw.symm, (List.cons.inj hcons).2⟩
    | cons x w =>
      obtain ⟨rfl, -⟩ := List.cons.inj htail
      exact absurd (by rw [hw]; simp) hfront
  · cases w with
    | nil =>
      obtain ⟨-, hcons⟩ := List.cons.inj htail
      exact ⟨by simpa using hw, (List.cons.inj hcons).2.symm⟩
    | cons x w =>
      obtain ⟨hx, hbehind⟩ := List.cons.inj htail
      cases w with
      | nil => exact absurd (List.cons.inj hbehind).1.symm hab
      | cons y w =>
        obtain ⟨rfl, rfl⟩ := List.cons.inj hbehind
        exact absurd ⟨w, rest', by simp⟩ hrest

variable [BEq α] [LawfulBEq α]

/-- The first place of a pattern is the one that is found. -/
theorem dropInfix_eq_some :
    xs.dropInfix? ys = some (front, rest) ↔
      xs = front ++ ys ++ rest ∧
        ∀ front' rest', xs = front' ++ ys ++ rest' → front.length ≤ front'.length := by
  rw [List.dropInfix?_eq_some_iff]
  constructor
  · rintro ⟨⟨found, heq, hfound⟩, hfirst⟩
    obtain rfl := eq_of_beq hfound
    exact ⟨heq, fun front' rest' h => hfirst front' _ rest' h (by simp)⟩
  · rintro ⟨heq, hfirst⟩
    refine ⟨⟨ys, heq, by simp⟩, fun front' found rest' h hfound => ?_⟩
    obtain rfl := eq_of_beq hfound
    exact hfirst front' rest' h

/-- A pattern that is not found is not there. -/
theorem dropInfix_eq_none : xs.dropInfix? ys = none ↔ ¬ ys <:+: xs := by
  classical
  constructor
  · rintro hnone ⟨front, rest, heq⟩
    -- among the places where it occurs, take the first
    have hex : ∃ n, ∃ front' rest', front'.length = n ∧ xs = front' ++ ys ++ rest' :=
      ⟨front.length, front, rest, rfl, heq.symm⟩
    obtain ⟨front', rest', hlen, hxs⟩ := Nat.find_spec hex
    have hsome : xs.dropInfix? ys = some (front', rest') := by
      refine dropInfix_eq_some.mpr ⟨hxs, fun front'' rest'' h => ?_⟩
      rw [hlen]
      exact Nat.find_min' hex ⟨front'', rest'', rfl, h⟩
    rw [hnone] at hsome
    exact absurd hsome (by simp)
  · intro h
    cases hfind : xs.dropInfix? ys with
    | none => rfl
    | some cut =>
      obtain ⟨front, rest⟩ := cut
      exact absurd ⟨front, rest, (dropInfix_eq_some.mp hfind).1.symm⟩ h

/-- Behind a separator, where it did not occur before it, is the first occurrence. -/
theorem dropInfix_behind {sep : α} (hsep : sep ∉ ys) (hne : ys ≠ []) (h : ¬ ys <:+: xs) :
    (xs ++ sep :: ys).dropInfix? ys = some (xs ++ [sep], []) := by
  refine dropInfix_eq_some.mpr ⟨by simp, fun front' rest' heq => ?_⟩
  by_contra hlt
  -- an earlier one ends before the last element
  have hlen := congrArg List.length heq
  simp only [List.length_append, List.length_cons, List.length_nil] at hlen hlt
  have hrest : rest' ≠ [] := by
    rintro rfl
    rw [List.length_nil] at hlen
    omega
  have hdrop := congrArg List.dropLast heq
  rw [List.dropLast_append_of_ne_nil (by simp), List.dropLast_append_of_ne_nil hrest,
    List.dropLast_cons_of_ne_nil hne] at hdrop
  have hwithin : ys <:+: xs ++ sep :: ys.dropLast := ⟨front', rest'.dropLast, hdrop.symm⟩
  rcases infix_separated hsep hwithin with hleft | hright
  · exact h hleft
  · have hle := hright.length_le
    have hpos := List.length_pos_iff.mpr hne
    rw [List.length_dropLast] at hle
    omega

end AndroidLearn.Strstr
