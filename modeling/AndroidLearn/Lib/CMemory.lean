import Mathlib.Data.Int.Order.Basic
import Mathlib.Data.List.Basic
import Mathlib.Logic.Function.Basic

/-!
# Strings in memory

Memory gives each address a byte, and there are addresses in front of every other, so that
a pointer can be one below the string it was made from. `BytesAt mem p s` says that the
bytes of `s` begin at `p`, and `StringAt` that a NUL, the first one, is behind them. Both
are split where a list of bytes is appended to another (`bytesAt_append`).

What is read is listed with the result: `strlen` reads up to the NUL (`StringAt.strlen`).
A program stays within a string if all that it reads and writes is (`Within`).

A string is changed in two ways: it is cut where a NUL is written into it
(`StringAt.cut`), and moved to the front of its buffer (`StringAt.memmove`). What is
changed elsewhere does not concern it (`StringAt.congr`).
-/

namespace AndroidLearn.CMemory

variable {α : Type} {mem mem' : Int → α} {nul c : α} {p q : Int} {s t : List α}

/-- These are the elements from here on. -/
def BytesAt (mem : Int → α) (p : Int) (s : List α) : Prop :=
  ∀ (i : Nat) (c : α), s[i]? = some c → mem (p + i) = c

/-- A string is here, and ends here. -/
structure StringAt (nul : α) (mem : Int → α) (p : Int) (s : List α) : Prop where
  bytes : BytesAt mem p s
  free : nul ∉ s
  ends : mem (p + s.length) = nul

/-- The addresses of a string, its NUL included. -/
def Within (p : Int) (s : List α) (a : Int) : Prop := p ≤ a ∧ a ≤ p + s.length

/-- `memmove (dst, src, n)` -/
def memmove (mem : Int → α) (dst src : Int) (n : Nat) : Int → α :=
  fun a => if dst ≤ a ∧ a < dst + n then mem (src + (a - dst)) else mem a

/-- `n` addresses from `p` on. -/
def range (p : Int) (n : Nat) : List Int := (List.range n).map fun (i : Nat) => p + i

/-- `strlen`, with what it reads, in at most `fuel` rounds. -/
def strlen [DecidableEq α] (nul : α) (mem : Int → α) : Nat → Int → Option (Nat × List Int)
  | 0, _ => none
  | fuel + 1, p =>
    if mem p = nul then some (0, [p])
    else (strlen nul mem fuel (p + 1)).map fun (len, reads) => (len + 1, p :: reads)

/-- Which addresses are in a range. -/
theorem mem_range {n : Nat} {a : Int} : a ∈ range p n ↔ p ≤ a ∧ a < p + n := by
  unfold range
  rw [List.mem_map]
  constructor
  · rintro ⟨i, hi, rfl⟩
    have hlt := List.mem_range.mp hi
    omega
  · intro h
    exact ⟨(a - p).toNat, List.mem_range.mpr (by omega), by omega⟩

theorem range_succ (p : Int) (n : Nat) : range p (n + 1) = p :: range (p + 1) n := by
  unfold range
  rw [List.range_succ_eq_map, List.map_cons, List.map_map, Int.natCast_zero, Int.add_zero]
  congr 2
  funext i
  show p + ((i + 1 : Nat) : Int) = p + 1 + i
  omega

/-! ## Bytes -/

theorem bytesAt_nil : BytesAt mem p [] := fun _ _ h => absurd h (by simp)

/-- What is behind the first part is the second. -/
theorem bytesAt_append : BytesAt mem p (s ++ t) ↔ BytesAt mem p s ∧ BytesAt mem (p + s.length) t := by
  constructor
  · intro h
    constructor
    · intro i c hi
      have hlt := (List.getElem?_eq_some_iff.mp hi).1
      exact h i c (by rw [List.getElem?_append_left hlt, hi])
    · intro i c hi
      have hbyte := h (s.length + i) c (by
        rw [List.getElem?_append_right (Nat.le_add_right _ _), Nat.add_sub_cancel_left, hi])
      rw [← hbyte, Int.natCast_add, Int.add_assoc]
  · rintro ⟨hs, ht⟩ i c hi
    by_cases hlt : i < s.length
    · exact hs i c (by rwa [List.getElem?_append_left hlt] at hi)
    · rw [List.getElem?_append_right (Nat.le_of_not_lt hlt)] at hi
      have hbyte := ht (i - s.length) c hi
      rw [← hbyte]
      congr 1
      omega

theorem bytesAt_singleton : BytesAt mem p [c] ↔ mem p = c := by
  constructor
  · intro h
    have hbyte := h 0 c rfl
    rwa [Int.natCast_zero, Int.add_zero] at hbyte
  · intro h i d hi
    cases i with
    | zero =>
      obtain rfl : c = d := Option.some.inj hi
      rwa [Int.natCast_zero, Int.add_zero]
    | succ i => exact absurd hi (by simp)

theorem bytesAt_cons : BytesAt mem p (c :: s) ↔ mem p = c ∧ BytesAt mem (p + 1) s := by
  rw [← List.singleton_append, bytesAt_append, bytesAt_singleton]
  rfl

/-- What is read inside the block alone is the same. -/
theorem BytesAt.congr (h : BytesAt mem p s)
    (hsame : ∀ a, p ≤ a → a < p + s.length → mem' a = mem a) : BytesAt mem' p s := by
  intro i c hi
  have hlt := (List.getElem?_eq_some_iff.mp hi).1
  rw [hsame _ (by omega) (by omega), h i c hi]

/-! ## Strings -/

/-- The end of a string is a string. -/
theorem StringAt.of_append (h : StringAt nul mem p (s ++ t)) :
    StringAt nul mem (p + s.length) t := by
  refine ⟨(bytesAt_append.mp h.bytes).2, fun hmem => h.free (List.mem_append_right _ hmem), ?_⟩
  rw [← h.ends, List.length_append, Int.natCast_add, Int.add_assoc]

/-- What is read inside the string alone is the same. -/
theorem StringAt.congr (h : StringAt nul mem p s)
    (hsame : ∀ a, Within p s a → mem' a = mem a) : StringAt nul mem' p s := by
  refine ⟨h.bytes.congr fun a hle hlt => hsame a ⟨hle, Int.le_of_lt hlt⟩, h.free, ?_⟩
  rw [hsame _ ⟨by omega, Int.le_refl _⟩, h.ends]

/-- A NUL is put into a string. -/
theorem StringAt.cut (h : StringAt nul mem p (s ++ t)) :
    StringAt nul (Function.update mem (p + s.length) nul) p s := by
  refine ⟨(bytesAt_append.mp h.bytes).1.congr fun a _ hlt => ?_,
    fun hmem => h.free (List.mem_append_left _ hmem), Function.update_self ..⟩
  exact Function.update_of_ne (Int.ne_of_lt hlt) _ _

/-- The last part of a string is moved to its beginning. -/
theorem StringAt.memmove (h : StringAt nul mem p (s ++ t)) :
    StringAt nul (memmove mem p (p + s.length) (t.length + 1)) p t := by
  have ht := h.of_append
  have hmoved (i : Nat) (hi : i < t.length + 1) :
      CMemory.memmove mem p (p + s.length) (t.length + 1) (p + i) = mem (p + s.length + i) := by
    unfold CMemory.memmove
    have hshift : p + s.length + (p + i - p) = p + s.length + i := by omega
    rw [if_pos ⟨by omega, by omega⟩, hshift]
  refine ⟨fun i c hi => ?_, ht.free, ?_⟩
  · have hlt := (List.getElem?_eq_some_iff.mp hi).1
    rw [hmoved i (Nat.lt_succ_of_lt hlt)]
    exact ht.bytes i c hi
  · rw [hmoved t.length (Nat.lt_succ_self _)]
    exact ht.ends

/-- `strlen` of a string, and what it reads. -/
theorem StringAt.strlen [DecidableEq α] (h : StringAt nul mem p s) {fuel : Nat}
    (hfuel : s.length < fuel) :
    strlen nul mem fuel p = some (s.length, range p (s.length + 1)) := by
  induction s generalizing p fuel with
  | nil =>
    obtain ⟨fuel, rfl⟩ := Nat.exists_eq_succ_of_ne_zero (Nat.ne_of_gt hfuel)
    have hend := h.ends
    rw [List.length_nil, Int.natCast_zero, Int.add_zero] at hend
    rw [CMemory.strlen, if_pos hend, range_succ]
    rfl
  | cons c s ih =>
    obtain ⟨fuel, rfl⟩ := Nat.exists_eq_succ_of_ne_zero (Nat.ne_of_gt (Nat.zero_lt_of_lt hfuel))
    have hne : ¬ mem p = nul := by
      rw [(bytesAt_cons.mp h.bytes).1]
      exact fun hc => h.free (hc ▸ List.mem_cons_self)
    have htail : StringAt nul mem (p + 1) s := StringAt.of_append (s := [c]) h
    rw [CMemory.strlen, if_neg hne, ih htail (Nat.lt_of_succ_lt_succ hfuel), List.length_cons,
      range_succ p (s.length + 1)]
    rfl

end AndroidLearn.CMemory
