import Mathlib.Data.List.TakeWhile

/-!
# Lines ended by a separator

`Framed sep stream lines tail` says that `stream` is the lines, each ended by `sep`, and
then `tail`, which has not ended. Neither a line nor the tail has a separator in it, so
there is one such reading of a stream.

A reader sees the stream as what it already holds and what is still to come. Where what it
holds has a separator, the first line is what stands in front of it (`Framed.next`); where
it has none, it is a begin of the next line (`Framed.held_prefix`). Both are for every
place where the stream is cut.
-/

namespace AndroidLearn.Framing

variable {α : Type} {sep : α} {stream held later line tail : List α} {lines : List (List α)}

/-- The stream is these lines and what is left behind the last separator. -/
structure Framed (sep : α) (stream : List α) (lines : List (List α)) (tail : List α) : Prop where
  stream_eq : stream = (lines.flatMap fun line => line ++ [sep]) ++ tail
  lines_free : ∀ line ∈ lines, sep ∉ line
  tail_free : sep ∉ tail

/-- A stream without a line. -/
theorem Framed.nil_iff : Framed sep stream [] tail ↔ stream = tail ∧ sep ∉ tail := by
  constructor
  · rintro ⟨rfl, -, htail⟩
    exact ⟨rfl, htail⟩
  · rintro ⟨rfl, htail⟩
    exact ⟨rfl, fun _ h => absurd h List.not_mem_nil, htail⟩

/-- A stream with a first line. -/
theorem Framed.cons_iff : Framed sep stream (line :: lines) tail ↔
    sep ∉ line ∧ ∃ rest, stream = line ++ sep :: rest ∧ Framed sep rest lines tail := by
  constructor
  · rintro ⟨rfl, hlines, htail⟩
    refine ⟨hlines line List.mem_cons_self, _, by simp, rfl, fun l hl => ?_, htail⟩
    exact hlines l (List.mem_cons_of_mem _ hl)
  · rintro ⟨hline, rest, rfl, rfl, hlines, htail⟩
    refine ⟨by simp, fun l hl => ?_, htail⟩
    rcases List.mem_cons.mp hl with rfl | hl
    · exact hline
    · exact hlines l hl

/-! ## Up to the separator -/

/-- No separator is in front of the first one. -/
theorem not_mem_takeWhile [DecidableEq α] (sep : α) (l : List α) :
    sep ∉ l.takeWhile (· ≠ sep) := by
  intro h
  have hne := List.mem_takeWhile_imp h
  simp at hne

theorem takeWhile_free [DecidableEq α] (h : sep ∉ line) : line.takeWhile (· ≠ sep) = line := by
  refine List.takeWhile_eq_self_iff.mpr fun x hx => decide_eq_true ?_
  rintro rfl
  exact h hx

/-- A line ends at its separator. -/
theorem takeWhile_sep [DecidableEq α] (h : sep ∉ line) (rest : List α) :
    (line ++ sep :: rest).takeWhile (· ≠ sep) = line := by
  rw [List.takeWhile_append_of_pos (List.takeWhile_eq_self_iff.mp (takeWhile_free h))]
  simp

/-! ## Where the stream is cut -/

/-- Two lists that begin alike: the one without the separator ends before the other's. -/
theorem prefix_of_free (hheld : sep ∉ held) (h : held ++ later = line ++ sep :: tail) :
    held <+: line := by
  rcases List.append_eq_append_iff.mp h with ⟨front, rfl, -⟩ | ⟨back, rfl, hback⟩
  · exact List.prefix_append _ _
  · cases back with
    | nil => simp
    | cons x back =>
      obtain ⟨rfl, -⟩ := List.cons_eq_cons.mp hback
      exact absurd (by simp) hheld

/-- Where the separator has been seen, the first line is there, and the rest is framed. -/
theorem Framed.next (h : Framed sep (held ++ later) lines tail) (hheld : sep ∈ held) :
    ∃ line more rest, lines = line :: more ∧ held = line ++ sep :: rest ∧ sep ∉ line ∧
      Framed sep (rest ++ later) more tail := by
  obtain ⟨front, rest, rfl, hfront⟩ := List.eq_append_cons_of_mem hheld
  cases lines with
  | nil =>
    obtain ⟨rfl, htail⟩ := Framed.nil_iff.mp h
    exact absurd (by simp) htail
  | cons line more =>
    obtain ⟨hline, rest', heq, hrest⟩ := Framed.cons_iff.mp h
    rw [List.append_assoc, List.cons_append] at heq
    -- both fronts end where the first separator stands
    have hle := prefix_of_free hfront heq
    have hge := prefix_of_free hline heq.symm
    obtain rfl := hle.eq_of_length (Nat.le_antisymm hle.length_le hge.length_le)
    obtain rfl : rest ++ later = rest' := by simpa using heq
    exact ⟨front, more, rest, rfl, rfl, hfront, hrest⟩

/-- Where it has not been seen, what is held is part of one line, or of the tail. -/
theorem Framed.held_prefix (h : Framed sep (held ++ later) lines tail) (hheld : sep ∉ held) :
    (∃ line ∈ lines, held <+: line) ∨ lines = [] ∧ held ++ later = tail := by
  cases lines with
  | nil => exact .inr ⟨rfl, (Framed.nil_iff.mp h).1⟩
  | cons line more =>
    obtain ⟨-, rest, heq, -⟩ := Framed.cons_iff.mp h
    exact .inl ⟨line, List.mem_cons_self, prefix_of_free hheld heq⟩

end AndroidLearn.Framing
