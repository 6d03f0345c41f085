import AndroidLearn.Logctl.Calls
import Mathlib.Data.List.Induction
import Mathlib.Data.Nat.Log

/-!
# The number of a rotated log

`get_log_filename_with_rotate_number_nolock` of `lognet.c`, and the part of `thread_main`
that sets `zero_count`. The logs of a session end in a number, with zeros in front of it.
How many there are is worked out from the text of the rotation count: as many as it has
characters, one less if the count is 10, 100 and so on, since the numbers begin with zero.
The loops over the logs of a session go on while there is a log, and do not look at the
count.

The text is any string, and `atoi` reads it as an `int`; the name in front of the number
is left out. The logs of a session are the numbers for which there is a file, and a loop
comes to the numbers up to the first that has none (`Reached`).

With that a loop comes to a number that is too long for the zeros when all the numbers are
there that have room.

Theorem: `padded_iff` says, for every text of a positive count and every set of logs, when
the numbers that a loop comes to are in the range of the count, and those in the range are
printed at one width and apart (`Padded`).
-/

namespace AndroidLearn.Lognet

open Conf Logctl

/-- `log10 (x) == (int) log10 (x)` and the logarithm is at least 1, for a positive `x`. -/
def isRound (x : Nat) : Bool := decide (10 ^ Nat.log 10 x = x) && decide (1 ≤ Nat.log 10 x)

/-- `zc`, from the text of `log_rotate`. -/
def zeroWidth (logRotate : CString) : Int :=
  if isRound (atoi logRotate).toInt.toNat then (logRotate.length : Int) - 1 else logRotate.length

/-- `zero_count` -/
def zeroCount (logRotate : CString) (rn : Nat) : Int :=
  if 0 < rn then zeroWidth logRotate - 1 - Nat.log 10 rn else zeroWidth logRotate - 1

/-- The bytes up to `rotate_zero [zero_count]` are written, of `zc + 1`. -/
def InRange (logRotate : CString) (rn : Nat) : Prop :=
  0 ≤ zeroCount logRotate rn ∧ zeroCount logRotate rn ≤ zeroWidth logRotate

instance (logRotate : CString) (rn : Nat) : Decidable (InRange logRotate rn) :=
  inferInstanceAs (Decidable (_ ∧ _))

/-- What `%s%d` prints at the end of the name; nothing is known of it without the zeros. -/
def suffix (logRotate : CString) (rn : Nat) : Option CString :=
  if InRange logRotate rn then
    some (List.replicate (zeroCount logRotate rn).toNat '0' ++ Nat.toDigits 10 rn)
  else none

/-- `INT_MAX` -/
def intMax : Nat := 2 ^ 31 - 1

/-- `for (i = 0;; i ++)`, up to the first log that is not there. -/
def Reached (present : Nat → Bool) (rn : Nat) : Prop := rn ≤ intMax ∧ ∀ i < rn, present i = true

/-- The numbers are padded as they should be, where those of the logs that are there are
`present`. -/
structure Padded (logRotate : CString) (present : Nat → Bool) : Prop where
  inRange : ∀ rn, Reached present rn → InRange logRotate rn
  width : ∀ rn < (atoi logRotate).toInt.toNat, ∃ s, suffix logRotate rn = some s ∧
    s.length = zeroWidth logRotate
  distinct : ∀ rn < (atoi logRotate).toInt.toNat, ∀ rn' < (atoi logRotate).toInt.toNat,
    suffix logRotate rn = suffix logRotate rn' → rn = rn'

/-! ## Digits -/

/-- How long a number is. -/
theorem length_toDigits {n : Nat} (h : 0 < n) : (Nat.toDigits 10 n).length = Nat.log 10 n + 1 := by
  apply Nat.le_antisymm
  · rw [Nat.length_toDigits_le_iff (by omega) (by omega)]
    exact Nat.lt_pow_succ_log_self (by omega) n
  · by_contra hlt
    have hpos := Nat.length_toDigits_pos (b := 10) (n := n)
    have hle : (Nat.toDigits 10 n).length ≤ Nat.log 10 n := by omega
    have hlog := (Nat.length_toDigits_le_iff (by omega) (by omega)).mp hle
    have := Nat.pow_log_le_self 10 (Nat.pos_iff_ne_zero.mp h)
    omega

/-- Padded numbers that look the same are the same. -/
theorem padded_inj {z z' n n' : Nat} (h : List.replicate z '0' ++ Nat.toDigits 10 n =
    List.replicate z' '0' ++ Nat.toDigits 10 n') : n = n' := by
  have hvalue := congrArg (Nat.ofDigitChars 10 · 0) h
  simpa only [Nat.ofDigitChars_append, Nat.ofDigitChars_replicate_zero, Nat.mul_zero,
    Nat.ofDigitChars_ten_toDigits] using hvalue

/-- What digits can stand for. -/
theorem value_lt (digits : List Char) (h : ∀ c ∈ digits, c.isDigit = true) :
    digits.foldl (fun n c => 10 * n + (c.toNat - '0'.toNat)) 0 < 10 ^ digits.length := by
  induction digits using List.reverseRecOn with
  | nil => exact Nat.one_pos
  | append_singleton digits c ih =>
    have hvalue := ih fun c hc => h c (List.mem_append_left _ hc)
    have hc : c.toNat - '0'.toNat ≤ 9 := by
      have hdigit := (Char.isDigit_iff_toNat.mp (h c (by simp))).2
      show c.toNat - 48 ≤ 9
      exact Nat.sub_le_of_le_add hdigit
    rw [List.foldl_append, List.length_append, List.length_singleton, Nat.pow_succ]
    show 10 * _ + (c.toNat - '0'.toNat) < _
    omega

/-- What a text can stand for. -/
theorem natAbs_atol_lt (s : CString) : (atol s).natAbs < 10 ^ s.length := by
  let t := s.dropWhile isSpace
  let digits := (if t.head? = some '-' ∨ t.head? = some '+' then t.tail else t).takeWhile Char.isDigit
  have hlen : digits.length ≤ s.length := by
    have ht : t.length ≤ s.length := (List.dropWhile_sublist _).length_le
    have htail : (if t.head? = some '-' ∨ t.head? = some '+' then t.tail else t).length ≤ t.length := by
      split_ifs
      · rw [List.length_tail]
        omega
      · exact Nat.le_refl _
    exact ((List.takeWhile_sublist _).length_le.trans htail).trans ht
  have hvalue := value_lt digits fun c hc => List.mem_takeWhile_imp hc
  have hpow : 10 ^ digits.length ≤ 10 ^ s.length := Nat.pow_le_pow_right (by omega) hlen
  have hatol : atol s = if t.head? = some '-' then
      max (-((digits.foldl (fun n c => 10 * n + (c.toNat - '0'.toNat)) 0 : Nat) : Int)) (-(2 ^ 63))
      else min ((digits.foldl (fun n c => 10 * n + (c.toNat - '0'.toNat)) 0 : Nat) : Int)
        (2 ^ 63 - 1) := rfl
  rw [hatol]
  split_ifs
  · omega
  · omega

theorem toNat_atoi_lt {s : CString} (h : 1 ≤ (atoi s).toInt) :
    (atoi s).toInt.toNat < 10 ^ s.length := by
  have habs := natAbs_atol_lt s
  have hmod : (atoi s).toInt = (atol s).bmod (2 ^ 32) := Int32.toInt_ofInt
  rw [hmod, Int.bmod_def] at h ⊢
  split_ifs at h ⊢
  · omega
  · omega

/-! ## The zeros -/

variable {logRotate : CString} {w : Nat}

/-- The numbers below the count have room in the width. -/
theorem exists_width (h : 1 ≤ (atoi logRotate).toInt) :
    ∃ w : Nat, zeroWidth logRotate = w ∧ 1 ≤ w ∧ (atoi logRotate).toInt.toNat ≤ 10 ^ w := by
  have hlt := toNat_atoi_lt h
  unfold zeroWidth
  split_ifs with hround
  · obtain ⟨hpow, hlog⟩ : 10 ^ Nat.log 10 (atoi logRotate).toInt.toNat = (atoi logRotate).toInt.toNat ∧
        1 ≤ Nat.log 10 (atoi logRotate).toInt.toNat := by
      simpa [isRound] using hround
    rw [← hpow] at hlt ⊢
    have hlen := (Nat.pow_lt_pow_iff_right (by omega)).mp hlt
    refine ⟨logRotate.length - 1, by omega, by omega, ?_⟩
    exact Nat.pow_le_pow_right (by omega) (by omega)
  · refine ⟨logRotate.length, rfl, ?_, hlt.le⟩
    by_contra hzero
    have hlen : logRotate.length = 0 := by omega
    rw [hlen] at hlt
    omega

/-- When a number has no more digits than the suffix. -/
theorem inRange_iff (hw : zeroWidth logRotate = w) (hpos : 1 ≤ w) (rn : Nat) :
    InRange logRotate rn ↔ rn < 10 ^ w := by
  unfold InRange zeroCount
  rw [hw]
  split_ifs with hrn
  · rw [← Nat.log_lt_iff_lt_pow (by omega) hrn.ne']
    omega
  · have hrn : rn = 0 := by omega
    subst hrn
    exact ⟨fun _ => Nat.pow_pos (by omega), fun _ => by omega⟩

/-- The suffix of such a number. -/
theorem suffix_eq (hw : zeroWidth logRotate = w) (hpos : 1 ≤ w) {rn : Nat} (h : rn < 10 ^ w) :
    ∃ z, suffix logRotate rn = some (List.replicate z '0' ++ Nat.toDigits 10 rn) ∧
      z + (Nat.toDigits 10 rn).length = w := by
  refine ⟨_, if_pos ((inRange_iff hw hpos rn).mpr h), ?_⟩
  unfold zeroCount
  rw [hw]
  split_ifs with hrn
  · have hlog := Nat.log_lt_of_lt_pow hrn.ne' h
    rw [length_toDigits hrn]
    omega
  · have hrn : rn = 0 := by omega
    subst hrn
    show _ + 1 = w
    omega

/-- The numbers below the count are always padded; the others are unless there are logs with
all the numbers of the width. -/
theorem padded_iff (logRotate : CString) (present : Nat → Bool) (h : 1 ≤ (atoi logRotate).toInt) :
    Padded logRotate present ↔ ¬ (10 ^ (zeroWidth logRotate).toNat ≤ intMax ∧
      ∀ i < 10 ^ (zeroWidth logRotate).toNat, present i = true) := by
  obtain ⟨w, hw, hpos, hcount⟩ := exists_width h
  rw [hw, Int.toNat_natCast]
  constructor
  · intro hpadded hall
    have hrange := hpadded.inRange (10 ^ w) hall
    exact Nat.lt_irrefl _ ((inRange_iff hw hpos _).mp hrange)
  · intro hall
    refine ⟨?_, ?_, ?_⟩
    · rintro rn ⟨hmax, hpresent⟩
      rw [inRange_iff hw hpos]
      by_contra hge
      apply hall
      exact ⟨by omega, fun i hi => hpresent i (by omega)⟩
    · intro rn hrn
      obtain ⟨z, hs, hlen⟩ := suffix_eq hw hpos (Nat.lt_of_lt_of_le hrn hcount)
      refine ⟨_, hs, ?_⟩
      rw [List.length_append, List.length_replicate, hlen, hw]
    · intro rn hrn rn' hrn' he
      obtain ⟨z, hs, -⟩ := suffix_eq hw hpos (Nat.lt_of_lt_of_le hrn hcount)
      obtain ⟨z', hs', -⟩ := suffix_eq hw hpos (Nat.lt_of_lt_of_le hrn' hcount)
      rw [hs, hs'] at he
      exact padded_inj (Option.some.inj he)

/-- As it is set at first, with the eight logs of a session that are all there. -/
theorem padded_eight : 1 ≤ (atoi ['8']).toInt ∧ Padded ['8'] fun i => decide (i < 8) :=
  ⟨by decide, (padded_iff ['8'] (fun i => decide (i < 8)) (by decide)).mpr
    fun hall => absurd (hall.2 8 (by decide)) (by decide)⟩

/-- Ten logs, and all of them are there. -/
theorem padded_fails_ten :
    ¬ ∀ logRotate present, 1 ≤ (atoi logRotate).toInt → Padded logRotate present := by
  intro h
  have hrange := (h ['1', '0'] (fun i => decide (i < 10)) (by decide)).inRange 10
    ⟨by decide, fun i hi => decide_eq_true hi⟩
  exact absurd hrange (by decide)

end AndroidLearn.Lognet
