import AndroidLearn.Logctl.Programs

/-!
# Numbers as texts

The `%d` and the `atoi` that `config_load` of `logctl.c` makes of the numbers in the
configuration. What `%d` prints of an `int`, `atoi` reads as the same `int`
(`atoi_decimal`), and it fits the 16 bytes of `tmp` (`tmp16_decimal`); two numbers have
different texts (`decimal_inj`). `config_load` reads a flag it has written itself back as
it was (`isValueTrue_enableText`).
-/

namespace AndroidLearn.Logctl

open Conf

/-- The text of a number: a sign, if need be, and its digits. -/
theorem decimal_eq (n : Int32) : decimal n =
    if 0 ≤ n.toInt then Nat.toDigits 10 n.toInt.toNat
    else '-' :: Nat.toDigits 10 (-n.toInt).toNat := by
  unfold decimal
  rw [Int.toString_eq_repr, Int.repr_eq_if]
  split
  · exact Nat.toList_repr
  · rw [String.toList_append, Nat.toList_repr]
    rfl

/-- The digits of a number, with nothing behind them, are read as the number. -/
theorem foldl_toDigits (n : Nat) :
    ((Nat.toDigits 10 n).takeWhile Char.isDigit).foldl
      (fun n c => 10 * n + (c.toNat - '0'.toNat)) 0 = n := by
  have hall : (Nat.toDigits 10 n).takeWhile Char.isDigit = Nat.toDigits 10 n := by
    rw [List.takeWhile_eq_self_iff]
    intro c hc
    exact Nat.isDigit_of_mem_toDigits (by omega) (by omega) hc
  rw [hall, ← Nat.ofDigitChars_eq_foldl, Nat.ofDigitChars_ten_toDigits]

/-- A number has a first digit. -/
theorem isDigit_head_toDigits (n : Nat) :
    ∃ c l, Nat.toDigits 10 n = c :: l ∧ c.isDigit = true := by
  obtain ⟨c, l, h⟩ := List.exists_cons_of_ne_nil (@Nat.toDigits_ne_nil n 10)
  refine ⟨c, l, h, Nat.isDigit_of_mem_toDigits (b := 10) (n := n) (by omega) (by omega) ?_⟩
  rw [h]
  exact List.mem_cons_self

/-- A blank or a sign is no digit. -/
theorem not_isDigit_of_special {c : Char} (h : isSpace c = true ∨ c = '-' ∨ c = '+') :
    c.isDigit = false := by
  unfold isSpace at h
  simp only [List.contains_eq_mem, List.mem_cons, List.not_mem_nil, or_false,
    decide_eq_true_eq] at h
  rcases h with (rfl | rfl | rfl | rfl | rfl | rfl) | rfl | rfl <;> rfl

/-- `atol` reads the number back. -/
theorem atol_decimal (n : Int32) : atol (decimal n) = n.toInt := by
  have hlow := n.le_toInt
  have hhigh := n.toInt_lt
  obtain ⟨c, l, hcl, hc⟩ := isDigit_head_toDigits n.toInt.toNat
  have hspace : isSpace c = false := by
    by_contra h
    rw [not_isDigit_of_special (.inl (by simpa using h))] at hc
    exact absurd hc (by simp)
  have hminus : c ≠ '-' := fun h => by
    rw [not_isDigit_of_special (.inr (.inl h))] at hc
    exact absurd hc (by simp)
  have hplus : c ≠ '+' := fun h => by
    rw [not_isDigit_of_special (.inr (.inr h))] at hc
    exact absurd hc (by simp)
  unfold atol
  rw [decimal_eq]
  dsimp only
  split
  next hneg =>
    have hval := foldl_toDigits n.toInt.toNat
    rw [hcl] at hval ⊢
    rw [List.dropWhile_cons_of_neg (by simp [hspace])]
    simp only [List.head?_cons, Option.some.injEq, hminus, hplus, or_self, if_false, hval]
    omega
  next hneg =>
    have hdash : isSpace '-' = false := by decide
    rw [List.dropWhile_cons_of_neg (by simp [hdash])]
    simp only [List.head?_cons, true_or, if_true, List.tail_cons, foldl_toDigits]
    omega

theorem atoi_decimal (n : Int32) : atoi (decimal n) = n := by
  unfold atoi
  rw [atol_decimal]
  exact Int32.ofInt_toInt n

/-- It fits into the buffers of the source. -/
theorem decimal_length (n : Int32) : (decimal n).length ≤ 15 := by
  have hlow := n.le_toInt
  have hhigh := n.toInt_lt
  rw [decimal_eq]
  split
  · rw [Nat.length_toDigits_le_iff (by omega) (by omega)]
    omega
  · rw [List.length_cons, Nat.succ_le_succ_iff, Nat.length_toDigits_le_iff (by omega) (by omega)]
    omega

/-- A text that `tmp` holds is not cut. -/
theorem tmp16_eq_self_iff {s : CString} : tmp16 s = s ↔ s.length ≤ 15 := by
  unfold tmp16
  exact List.take_eq_self_iff s

theorem tmp16_decimal (n : Int32) : tmp16 (decimal n) = decimal n :=
  tmp16_eq_self_iff.mpr (decimal_length n)

theorem decimal_inj {n m : Int32} : decimal n = decimal m ↔ n = m := by
  refine ⟨fun h => ?_, fun h => h ▸ rfl⟩
  rw [← atoi_decimal n, h, atoi_decimal]

/-- What the loop does to an overload below zero. -/
theorem max_zero_eq_iff {n : Int32} : max n 0 = n ↔ 0 ≤ n := by
  have hmax : max n 0 = if n ≤ 0 then 0 else n := rfl
  rw [hmax]
  split
  next hle => exact ⟨fun heq => heq ▸ Int32.le_refl _, fun hge => Int32.le_antisymm hge hle⟩
  next hlt => exact ⟨fun _ => (Int32.le_total n 0).resolve_left hlt, fun _ => rfl⟩

theorem tmp16_enableText (enabled : Bool) : tmp16 (enableText enabled) = enableText enabled := by
  cases enabled <;> rfl

theorem isValueTrue_enableText (enabled : Bool) : isValueTrue (enableText enabled) = enabled := by
  cases enabled <;> decide

end AndroidLearn.Logctl
