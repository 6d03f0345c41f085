import Mathlib.Data.List.Infix
import Mathlib.Tactic.Ring

/-!
# Erasing a range of a partition

`mtd_set_partition_erase_info` of `mtd.c` goes over a partition in steps of the global
`erase_size`, from `start` on. It stops at `length`, where the range stops at `start +
length`, so the end of a range that does not begin at 0 is left as it was.

A partition is its size, and which of its blocks are bad; the offsets are those of the
source, in `unsigned int`. `MEMGETBADBLOCK` and `MEMERASE` answer as the block is, and the
blocks that were erased are the result.

`mem_erased` says which blocks it erases: those good blocks of the range that a step
reaches. Nothing outside the range is erased.

Theorem: `erasesRange_iff_covers`, for every geometry, start and length in range. All good
blocks of the range are erased if and only if the steps cover it.
-/

namespace AndroidLearn.Mtd

/-! ## The partition -/

/-- An erase block. A `worn` one is not marked bad and fails when it is erased. -/
inductive EraseBlock
  | good
  | bad
  | worn
  deriving DecidableEq

/-- The partition that a descriptor is open on. -/
structure Chip where
  blockSize : Nat
  blocks : List EraseBlock
  blockSize_pos : 0 < blockSize

/-- The size of the chip. -/
def Chip.size (c : Chip) : Nat := c.blocks.length * c.blockSize

/-- The block is good. -/
def Chip.Good (c : Chip) (i : Nat) : Prop := c.blocks[i]? = some .good

/-- `MEMGETBADBLOCK`. -/
def Chip.getBadBlock (c : Chip) (off : Int) : Int :=
  if off < 0 ∨ (c.size : Int) ≤ off then -1
  else if c.blocks[off.toNat / c.blockSize]? = some .bad then 1
  else 0

/-- `MEMERASE`, with the blocks that it erases. It takes whole blocks only, and stops at
one that cannot be erased. -/
def Chip.memErase (c : Chip) (start length : UInt32) : List Nat × Int :=
  if c.blockSize ∣ start.toNat ∧ c.blockSize ∣ length.toNat ∧
      start.toNat + length.toNat ≤ c.size then
    let blocks := (c.blocks.drop (start.toNat / c.blockSize)).take (length.toNat / c.blockSize)
    let erased := blocks.takeWhile (· = .good)
    (List.range' (start.toNat / c.blockSize) erased.length,
      if erased.length = blocks.length then 0 else -1)
  else ([], -1)

/-! ## The routine -/

/-- `erase_size`, which nothing sets. -/
def eraseSize : UInt32 := 131072

/-- `(off_t) erase_info.start`, where an `off_t` has 32 bits. -/
def offset (start : UInt32) : Int := start.toInt32.toInt

theorem toNat_eraseSize : eraseSize.toNat = 131072 := rfl

theorem toNat_mod_of_mod {length : UInt32} (h : length % eraseSize = 0) :
    length.toNat % 131072 = 0 := by
  rw [← toNat_eraseSize, ← UInt32.toNat_mod, h]
  rfl

/-- The sum does not wrap around: `length` is a multiple of the step. -/
theorem toNat_add_eraseSize {start length : UInt32} (h : length % eraseSize = 0)
    (hlt : start < length) : (start + eraseSize).toNat = start.toNat + 131072 := by
  have hmod := toNat_mod_of_mod h
  have hlength := length.toNat_lt
  rw [UInt32.lt_iff_toNat_lt] at hlt
  rw [UInt32.toNat_add, toNat_eraseSize, Nat.mod_eq_of_lt (by omega)]

/-- A `MEMERASE` of `erase_size` bytes, with the blocks that it erases. -/
structure Request where
  start : UInt32
  erased : List Nat
  deriving DecidableEq

/-- The loop, with the requests made so far and the result. -/
def eraseLoop (c : Chip) (length : UInt32) (h : length % eraseSize = 0) (start : UInt32)
    (requests : List Request) (result : Int) : List Request × Int :=
  if start < length then
    if c.getBadBlock (offset start) ≠ 0 then
      eraseLoop c length h (start + eraseSize) requests result
    else
      let (erased, ret) := c.memErase start eraseSize
      eraseLoop c length h (start + eraseSize) (requests ++ [⟨start, erased⟩])
        (if ret < 0 then -1 else result)
  else (requests, result)
termination_by length.toNat - start.toNat
decreasing_by
  all_goals
    rename_i hlt _
    rw [toNat_add_eraseSize h hlt]
    have := UInt32.lt_iff_toNat_lt.mp hlt
    omega

/-- `mtd_set_partition_erase_info`, with its requests. A negative descriptor is `none`. -/
def mtdSetPartitionEraseInfo (fd : Option Chip) (start length : UInt32) : List Request × Int :=
  match fd with
  | none => ([], -1)
  | some c =>
    if h : length % eraseSize = 0 then eraseLoop c length h start [] 0
    else ([], -1)

/-- The blocks that some request erases. -/
def erased (requests : List Request) : List Nat := requests.flatMap Request.erased

/-! ## One step -/

/-- The offset of a start, which may come out negative. -/
theorem toInt_toInt32 (start : UInt32) :
    offset start = if start.toNat < 2 ^ 31 then (start.toNat : Int) else start.toNat - 2 ^ 32 := by
  show start.toBitVec.toInt = _
  rw [BitVec.toInt_eq_toNat_cond]
  have hnat : start.toBitVec.toNat = start.toNat := rfl
  rw [hnat]
  split <;> split <;> first | rfl | omega

theorem offset_nonneg {start : UInt32} : 0 ≤ offset start ↔ start.toNat < 2 ^ 31 := by
  rw [toInt_toInt32]
  have := start.toNat_lt
  split <;> constructor <;> intro _ <;> omega

theorem offset_eq {start : UInt32} (h : start.toNat < 2 ^ 31) : offset start = start.toNat := by
  rw [toInt_toInt32, if_pos h]

/-- A step asks about a place of the partition that has no bad block. -/
theorem getBadBlock_eq_zero {c : Chip} {start : UInt32} :
    c.getBadBlock (offset start) = 0 ↔ start.toNat < 2 ^ 31 ∧ start.toNat < c.size ∧
      c.blocks[start.toNat / c.blockSize]? ≠ some .bad := by
  unfold Chip.getBadBlock
  by_cases hlow : start.toNat < 2 ^ 31
  · rw [offset_eq hlow]
    have hneg : ¬ (start.toNat : Int) < 0 := by omega
    by_cases hsize : start.toNat < c.size
    · have hout : ¬ ((start.toNat : Int) < 0 ∨ (c.size : Int) ≤ start.toNat) := by omega
      rw [if_neg hout, Int.toNat_natCast]
      split
      next hbad => exact ⟨fun h => absurd h one_ne_zero, fun h => absurd hbad h.2.2⟩
      next hbad => exact ⟨fun _ => ⟨hlow, hsize, hbad⟩, fun _ => rfl⟩
    · rw [if_pos (Or.inr (by omega))]
      exact ⟨fun h => absurd h (by decide), fun h => absurd h.2.1 hsize⟩
  · have hneg : offset start < 0 := by
      have hiff : 0 ≤ offset start ↔ start.toNat < 2 ^ 31 := offset_nonneg
      omega
    rw [if_pos (Or.inl hneg)]
    exact ⟨fun h => absurd h (by decide), fun h => absurd h.1 hlow⟩

/-- The blocks in front of the first bad one. -/
theorem mem_takeWhile_good {blocks : List EraseBlock} {d : Nat} :
    d < (blocks.takeWhile (· = .good)).length ↔ ∀ j ≤ d, blocks[j]? = some .good := by
  induction blocks generalizing d with
  | nil =>
    simp only [List.takeWhile_nil, List.length_nil, Nat.not_lt_zero, false_iff]
    intro h
    exact absurd (h 0 (Nat.zero_le d)) (by simp)
  | cons block blocks ih =>
    by_cases hgood : block = .good
    · rw [List.takeWhile_cons_of_pos (by simp [hgood]), List.length_cons]
      cases d with
      | zero => simp [hgood]
      | succ d =>
        rw [Nat.add_lt_add_iff_right, ih]
        constructor
        · intro h j hj
          cases j with
          | zero => simp [hgood]
          | succ j => exact h j (by omega)
        · intro h j hj
          exact h (j + 1) (by omega)
    · rw [List.takeWhile_cons_of_neg (by simp [hgood])]
      constructor
      · intro h
        exact absurd h (Nat.not_lt_zero d)
      · intro h
        exact absurd (Option.some.inj (h 0 (Nat.zero_le d))) hgood

/-- Block `i` lies in the bytes `[start, end)`. -/
def Chip.Inside (c : Chip) (start stop i : Nat) : Prop :=
  start ≤ i * c.blockSize ∧ (i + 1) * c.blockSize ≤ stop

/-- All blocks from the byte `start` to block `i` are good. -/
def Chip.GoodFrom (c : Chip) (start i : Nat) : Prop :=
  ∀ j ≤ i, start ≤ j * c.blockSize → c.Good j

/-- Which blocks lie inside a range of whole ones. -/
theorem inside_iff {c : Chip} {q m i : Nat} :
    c.Inside (q * c.blockSize) (q * c.blockSize + m * c.blockSize) i ↔ q ≤ i ∧ i < q + m := by
  unfold Chip.Inside
  rw [← Nat.add_mul, Nat.mul_le_mul_right_iff c.blockSize_pos,
    Nat.mul_le_mul_right_iff c.blockSize_pos]
  rfl

/-- The blocks that `MEMERASE` erases: the good ones in front of the first other one. -/
theorem mem_memErase {c : Chip} {start length : UInt32} {i : Nat} :
    i ∈ (c.memErase start length).1 ↔
      c.blockSize ∣ start.toNat ∧ c.blockSize ∣ length.toNat ∧
      start.toNat + length.toNat ≤ c.size ∧
      c.Inside start.toNat (start.toNat + length.toNat) i ∧ c.GoodFrom start.toNat i := by
  unfold Chip.memErase
  by_cases haligned : c.blockSize ∣ start.toNat ∧ c.blockSize ∣ length.toNat ∧
      start.toNat + length.toNat ≤ c.size
  · rw [if_pos haligned]
    obtain ⟨⟨q, hq⟩, ⟨m, hm⟩, hsize⟩ := haligned
    have hdivq : start.toNat / c.blockSize = q := by
      rw [hq, Nat.mul_div_cancel_left _ c.blockSize_pos]
    have hdivm : length.toNat / c.blockSize = m := by
      rw [hm, Nat.mul_div_cancel_left _ c.blockSize_pos]
    have hinside : c.Inside start.toNat (start.toNat + length.toNat) i ↔ q ≤ i ∧ i < q + m := by
      rw [hq, hm, Nat.mul_comm c.blockSize q, Nat.mul_comm c.blockSize m]
      exact inside_iff
    have hfrom : ∀ j, start.toNat ≤ j * c.blockSize ↔ q ≤ j := by
      intro j
      rw [hq, Nat.mul_comm c.blockSize q]
      exact Nat.mul_le_mul_right_iff c.blockSize_pos
    show i ∈ List.range' _ _ ↔ _
    rw [List.mem_range'_1, hdivq, hdivm, hinside]
    constructor
    · intro h
      have hlt : i - q < (((c.blocks.drop q).take m).takeWhile (· = .good)).length := by omega
      have hgood := mem_takeWhile_good.mp hlt
      have him : i - q < m := by
        have hle := (List.takeWhile_prefix (l := (c.blocks.drop q).take m) (p := (· = .good))).length_le
        have := List.length_take_le m (c.blocks.drop q)
        omega
      refine ⟨⟨q, hq⟩, ⟨m, hm⟩, hsize, ⟨h.1, by omega⟩, ?_⟩
      intro j hji hj
      have hqj := (hfrom j).mp hj
      have hj' := hgood (j - q) (by omega)
      rw [List.getElem?_take_of_lt (by omega), List.getElem?_drop, Nat.add_sub_cancel' hqj] at hj'
      exact hj'
    · intro h
      obtain ⟨-, -, -, ⟨hqi, him⟩, hgood⟩ := h
      have hlt : i - q < (((c.blocks.drop q).take m).takeWhile (· = .good)).length := by
        rw [mem_takeWhile_good]
        intro j hj
        rw [List.getElem?_take_of_lt (by omega), List.getElem?_drop]
        exact hgood (q + j) (by omega) ((hfrom _).mpr (Nat.le_add_right q j))
      exact ⟨hqi, by omega⟩
  · rw [if_neg haligned]
    constructor
    · intro h
      exact absurd h List.not_mem_nil
    · intro h
      exact absurd ⟨h.1, h.2.1, h.2.2.1⟩ haligned

/-- What one step needs to erase block `i`: the alignment that the driver asks for, an
offset that an `off_t` holds, and no block in front of it at which the driver stops. -/
def Chip.Reaches (c : Chip) (start i : Nat) : Prop :=
  c.blockSize ∣ start ∧ c.blockSize ∣ 131072 ∧ start + 131072 ≤ c.size ∧ start < 2 ^ 31 ∧
  c.Inside start (start + 131072) i ∧ c.GoodFrom start i

/-- A step makes a request. -/
def Chip.Asks (c : Chip) (start : UInt32) : Prop := c.getBadBlock (offset start) = 0

/-- A step that reaches a block makes a request, as its first block is good. -/
theorem mem_step {c : Chip} {start : UInt32} {i : Nat} :
    (c.Asks start ∧ i ∈ (c.memErase start eraseSize).1) ↔ c.Reaches start.toNat i := by
  unfold Chip.Reaches
  rw [mem_memErase, toNat_eraseSize]
  constructor
  · intro h
    have hlow := (getBadBlock_eq_zero.mp h.1).1
    exact ⟨h.2.1, h.2.2.1, h.2.2.2.1, hlow, h.2.2.2.2⟩
  · intro h
    obtain ⟨⟨q, hq⟩, hstep, hsize, hlow, hinside, hgood⟩ := h
    refine ⟨?_, ⟨q, hq⟩, hstep, hsize, hinside, hgood⟩
    have hfirst : c.blocks[start.toNat / c.blockSize]? = some .good := by
      rw [hq, Nat.mul_div_cancel_left _ c.blockSize_pos]
      have hqi : q * c.blockSize ≤ i * c.blockSize := by
        rw [Nat.mul_comm q, ← hq]
        exact hinside.1
      exact hgood q (Nat.le_of_mul_le_mul_right hqi c.blockSize_pos) (by rw [hq, Nat.mul_comm])
    refine getBadBlock_eq_zero.mpr ⟨hlow, by omega, ?_⟩
    rw [hfirst]
    simp

/-! ## The whole routine -/

/-- Some step of the loop from `start` reaches block `i`. -/
def Chip.Stepped (c : Chip) (start length i : Nat) : Prop :=
  ∃ k, start + k * 131072 < length ∧ c.Reaches (start + k * 131072) i

/-- A step of the loop, and the steps behind it. -/
theorem stepped_iff {c : Chip} {start length i : Nat} (hlt : start < length) :
    c.Stepped start length i ↔ c.Reaches start i ∨ c.Stepped (start + 131072) length i := by
  constructor
  · intro h
    obtain ⟨k, hk, hr⟩ := h
    cases k with
    | zero => exact Or.inl (by simpa using hr)
    | succ k =>
      have hstart : start + (k + 1) * 131072 = start + 131072 + k * 131072 := by ring
      rw [hstart] at hk hr
      exact Or.inr ⟨k, hk, hr⟩
  · intro h
    rcases h with hr | ⟨k, hk, hr⟩
    · exact ⟨0, by simpa using hlt, by simpa using hr⟩
    · have hstart : start + 131072 + k * 131072 = start + (k + 1) * 131072 := by ring
      rw [hstart] at hk hr
      exact ⟨k + 1, hk, hr⟩

/-- Behind the end there is no step. -/
theorem not_stepped {c : Chip} {start length i : Nat} (hge : length ≤ start) :
    ¬ c.Stepped start length i := by
  intro h
  obtain ⟨k, hk, -⟩ := h
  omega

/-- What the loop asks for and erases. -/
theorem eraseLoop_spec (c : Chip) (length : UInt32) (h : length % eraseSize = 0) (start : UInt32)
    (requests : List Request) (result : Int) :
    ∃ more, (eraseLoop c length h start requests result).1 = requests ++ more ∧
      (∀ r ∈ more, ∃ k, r.start.toNat = start.toNat + k * 131072 ∧ r.start < length) ∧
      ∀ i, i ∈ erased more ↔ c.Stepped start.toNat length.toNat i := by
  fun_induction eraseLoop c length h start requests result with
  | case1 start requests result hlt hbad ih =>
    obtain ⟨more, heq, hstarts, hmem⟩ := ih
    rw [toNat_add_eraseSize h hlt] at hstarts hmem
    refine ⟨more, heq, ?_, ?_⟩
    · intro r hr
      obtain ⟨k, hk, hrl⟩ := hstarts r hr
      exact ⟨k + 1, by omega, hrl⟩
    · intro i
      rw [hmem, stepped_iff (UInt32.lt_iff_toNat_lt.mp hlt)]
      have hnot : ¬ c.Reaches start.toNat i := fun hr => hbad (mem_step.mpr hr).1
      exact (or_iff_right hnot).symm
  | case2 start requests result hlt hask blocks ret hstep ih =>
    obtain ⟨more, heq, hstarts, hmem⟩ := ih
    rw [toNat_add_eraseSize h hlt] at hstarts hmem
    refine ⟨⟨start, blocks⟩ :: more, ?_, ?_, ?_⟩
    · exact heq.trans (List.append_cons ..).symm
    · intro r hr
      rcases List.mem_cons.mp hr with rfl | hr
      · exact ⟨0, by simp, hlt⟩
      · obtain ⟨k, hk, hrl⟩ := hstarts r hr
        exact ⟨k + 1, by omega, hrl⟩
    · intro i
      have hreach : i ∈ blocks ↔ c.Reaches start.toNat i := by
        have hblocks : (c.memErase start eraseSize).1 = blocks := by rw [hstep]
        rw [← mem_step, hblocks]
        exact (and_iff_right (not_not.mp hask)).symm
      show i ∈ blocks ++ erased more ↔ _
      rw [List.mem_append, hreach, hmem, stepped_iff (UInt32.lt_iff_toNat_lt.mp hlt)]
  | case3 start requests result hge =>
    refine ⟨[], by simp, List.forall_mem_nil _, ?_⟩
    intro i
    have hle : length.toNat ≤ start.toNat := by
      rw [UInt32.lt_iff_toNat_lt] at hge
      omega
    exact iff_of_false List.not_mem_nil (not_stepped hle)

/-- The byte at which the step that covers block `i` begins. -/
def Chip.stepOf (c : Chip) (start i : Nat) : Nat :=
  start + (i * c.blockSize - start) / 131072 * 131072

/-- A step of the loop covers block `i` of the range, the driver accepts it, and no block
in front of `i` stops it: the alignment of `start` and `length` is right, and the step
begins below `length` and at an offset that an `off_t` holds. -/
def Chip.Covers (c : Chip) (start length i : Nat) : Prop :=
  131072 ∣ length ∧ c.blockSize ∣ start ∧ c.blockSize ∣ 131072 ∧
  c.stepOf start i < length ∧ c.stepOf start i < 2 ^ 31 ∧
  c.GoodFrom (c.stepOf start i) i

/-- The only step that can reach block `i` is the one whose bytes hold it. -/
theorem eq_stepOf {c : Chip} {start k i : Nat}
    (hinside : c.Inside (start + k * 131072) (start + k * 131072 + 131072) i) :
    start + k * 131072 = c.stepOf start i := by
  have hpos := c.blockSize_pos
  unfold Chip.Inside at hinside
  rw [Nat.add_mul, Nat.one_mul] at hinside
  unfold Chip.stepOf
  have hk : (i * c.blockSize - start) / 131072 = k := by omega
  rw [hk]

/-- The blocks fill the steps. -/
theorem inside_stepOf {c : Chip} {start i : Nat} (hstart : c.blockSize ∣ start)
    (hstep : c.blockSize ∣ 131072) (hle : start ≤ i * c.blockSize) :
    c.Inside (c.stepOf start i) (c.stepOf start i + 131072) i := by
  obtain ⟨a, ha⟩ := hstart
  obtain ⟨n, hn⟩ := hstep
  have hpos := c.blockSize_pos
  have hn0 : 0 < n := Nat.pos_of_ne_zero (by rintro rfl; omega)
  have hai : a ≤ i := by
    rw [ha, Nat.mul_comm] at hle
    exact Nat.le_of_mul_le_mul_right hle hpos
  have hindex : (i * c.blockSize - start) / 131072 = (i - a) / n := by
    rw [ha, hn, Nat.mul_comm c.blockSize a, ← Nat.sub_mul, Nat.mul_comm c.blockSize n,
      Nat.mul_div_mul_right _ _ hpos]
  have hbegin : c.stepOf start i = (a + (i - a) / n * n) * c.blockSize := by
    unfold Chip.stepOf
    rw [hindex, ha]
    calc c.blockSize * a + (i - a) / n * 131072
        = c.blockSize * a + (i - a) / n * (c.blockSize * n) := by rw [← hn]
      _ = (a + (i - a) / n * n) * c.blockSize := by ring
  have hbytes : (131072 : Nat) = n * c.blockSize := by rw [hn, Nat.mul_comm]
  rw [hbegin, hbytes, inside_iff]
  have hdiv := Nat.div_add_mod' (i - a) n
  have hmod := Nat.mod_lt (i - a) hn0
  omega

/-- Where the sizes divide each other, a step that begins inside the range ends in it. -/
theorem step_le {start length k : Nat} (hlength : 131072 ∣ length)
    (hlt : start + k * 131072 < length) : start + k * 131072 + 131072 ≤ start + length := by
  obtain ⟨n, hn⟩ := hlength
  have hkn : k < n := by omega
  omega

/-- Which blocks the loop comes to. -/
theorem stepped_iff_covers {c : Chip} {start length i : Nat} (hlength : 131072 ∣ length)
    (hrange : start + length ≤ c.size) :
    c.Stepped start length i ↔
      (c.Good i ∧ c.Inside start (start + length) i) ∧ c.Covers start length i := by
  constructor
  · intro h
    obtain ⟨k, hlt, hstart, hstep, -, hlow, hinside, hgood⟩ := h
    have hend := step_le hlength hlt
    have heq := eq_stepOf hinside
    have hblock : c.blockSize ∣ start :=
      (Nat.dvd_add_left (Dvd.dvd.mul_left hstep k)).mp hstart
    refine ⟨⟨hgood i le_rfl hinside.1, ?_, hinside.2.trans hend⟩, hlength, hblock, hstep, ?_⟩
    · exact (Nat.le_add_right start _).trans hinside.1
    · rw [← heq]
      exact ⟨hlt, hlow, hgood⟩
  · intro h
    obtain ⟨⟨-, hinside⟩, -, hstart, hstep, hlt, hlow, hgood⟩ := h
    have hend := step_le hlength hlt
    refine ⟨(i * c.blockSize - start) / 131072, hlt, ?_, hstep, hend.trans hrange, hlow, ?_, hgood⟩
    · exact Nat.dvd_add hstart (Dvd.dvd.mul_left hstep _)
    · exact inside_stepOf hstart hstep hinside.1

/-- Which blocks are erased. -/
theorem mem_erased {c : Chip} {start length : UInt32} {i : Nat}
    (hrange : start.toNat + length.toNat ≤ c.size) :
    i ∈ erased (mtdSetPartitionEraseInfo (some c) start length).1 ↔
      (c.Good i ∧ c.Inside start.toNat (start.toNat + length.toNat) i) ∧
      c.Covers start.toNat length.toNat i := by
  unfold mtdSetPartitionEraseInfo
  by_cases h : length % eraseSize = 0
  · have hlength : 131072 ∣ length.toNat := Nat.dvd_of_mod_eq_zero (toNat_mod_of_mod h)
    obtain ⟨more, heq, -, hmem⟩ := eraseLoop_spec c length h start [] 0
    rw [← stepped_iff_covers hlength hrange, ← hmem]
    simp only [h, dite_true, heq, List.nil_append]
  · have hlength : ¬ 131072 ∣ length.toNat := by
      intro hdvd
      refine h (UInt32.toNat_inj.mp ?_)
      rw [UInt32.toNat_mod, toNat_eraseSize]
      exact Nat.mod_eq_zero_of_dvd hdvd
    simp only [h, dite_false]
    exact iff_of_false List.not_mem_nil fun hcovers => hlength hcovers.2.1

/-- No request goes outside the range. -/
theorem requests_inside {c : Chip} {start length : UInt32} {r : Request}
    (hr : r ∈ (mtdSetPartitionEraseInfo (some c) start length).1) :
    start.toNat ≤ r.start.toNat ∧ r.start.toNat + 131072 ≤ start.toNat + length.toNat := by
  unfold mtdSetPartitionEraseInfo at hr
  by_cases h : length % eraseSize = 0
  · have hlength : 131072 ∣ length.toNat := Nat.dvd_of_mod_eq_zero (toNat_mod_of_mod h)
    obtain ⟨more, heq, hstarts, -⟩ := eraseLoop_spec c length h start [] 0
    simp only [h, dite_true, heq, List.nil_append] at hr
    obtain ⟨k, hk, hlt⟩ := hstarts r hr
    rw [UInt32.lt_iff_toNat_lt, hk] at hlt
    rw [hk]
    exact ⟨Nat.le_add_right _ _, step_le hlength hlt⟩
  · simp only [h, dite_false] at hr
    exact absurd hr List.not_mem_nil

/-- The routine does what it is asked: it erases the good blocks of the range, and makes no
request outside it. -/
def ErasesRange (c : Chip) (start length : UInt32) : Prop :=
  (∀ i, i ∈ erased (mtdSetPartitionEraseInfo (some c) start length).1 ↔
    c.Good i ∧ c.Inside start.toNat (start.toNat + length.toNat) i) ∧
  ∀ r ∈ (mtdSetPartitionEraseInfo (some c) start length).1,
    start.toNat ≤ r.start.toNat ∧ r.start.toNat + 131072 ≤ start.toNat + length.toNat

/-- If the range is erased the loop comes to all its good blocks. -/
theorem covers_of_erasesRange {c : Chip} {start length : UInt32}
    (hrange : start.toNat + length.toNat ≤ c.size) (h : ErasesRange c start length) {i : Nat}
    (hgood : c.Good i) (hinside : c.Inside start.toNat (start.toNat + length.toNat) i) :
    c.Covers start.toNat length.toNat i :=
  ((mem_erased hrange).mp ((h.1 i).mpr ⟨hgood, hinside⟩)).2

/-- If it comes to them the range is erased. -/
theorem erasesRange_of_covers {c : Chip} {start length : UInt32}
    (hrange : start.toNat + length.toNat ≤ c.size)
    (h : ∀ i, c.Good i → c.Inside start.toNat (start.toNat + length.toNat) i →
      c.Covers start.toNat length.toNat i) : ErasesRange c start length := by
  refine ⟨fun i => ?_, fun r hr => requests_inside hr⟩
  rw [mem_erased hrange]
  exact and_iff_left_of_imp fun hi => h i hi.1 hi.2

/-- The exact condition for a range to be erased. -/
theorem erasesRange_iff_covers (c : Chip) (start length : UInt32)
    (hrange : start.toNat + length.toNat ≤ c.size) :
    ErasesRange c start length ↔
      ∀ i, c.Good i → c.Inside start.toNat (start.toNat + length.toNat) i →
        c.Covers start.toNat length.toNat i :=
  ⟨fun h _ => covers_of_erasesRange hrange h, erasesRange_of_covers hrange⟩

/-! ## Blocks of `erase_size` bytes -/

/-- Where blocks are as large as the step each is a step. -/
theorem stepOf_eq {c : Chip} (hsize : c.blockSize = 131072) {start i : Nat}
    (hstart : 131072 ∣ start) (hle : start ≤ i * c.blockSize) :
    c.stepOf start i = i * 131072 := by
  obtain ⟨a, ha⟩ := hstart
  unfold Chip.stepOf
  rw [hsize] at hle ⊢
  omega

/-- On blocks of the size that the code expects, what is lost is what lies behind
`length`. -/
theorem erasesRange_iff_lt {c : Chip} (hsize : c.blockSize = 131072) {start length : UInt32}
    (hrange : start.toNat + length.toNat ≤ c.size) (hstart : 131072 ∣ start.toNat)
    (hlength : 131072 ∣ length.toNat) (hlow : start.toNat + length.toNat ≤ 2 ^ 31) :
    ErasesRange c start length ↔
      ∀ i, c.Good i → c.Inside start.toNat (start.toNat + length.toNat) i →
        i * 131072 < length.toNat := by
  constructor
  · intro h i hgood hinside
    have hcovers := covers_of_erasesRange hrange h hgood hinside
    rw [← stepOf_eq hsize hstart hinside.1]
    exact hcovers.2.2.2.1
  · intro h
    refine erasesRange_of_covers hrange fun i hgood hinside => ?_
    have hend := hinside.2
    rw [hsize] at hend
    refine ⟨hlength, hsize ▸ hstart, hsize ▸ dvd_rfl, ?_⟩
    rw [stepOf_eq hsize hstart hinside.1]
    refine ⟨h i hgood hinside, by omega, ?_⟩
    intro j hji hj
    rw [hsize] at hj
    have hij : j = i := by omega
    exact hij ▸ hgood

/-- Four good blocks. -/
def fourBlocks : Chip := ⟨131072, List.replicate 4 .good, by decide⟩

/-- The second block alone is never erased. -/
theorem erasesRange_second :
    (131072 : UInt32).toNat + (131072 : UInt32).toNat ≤ fourBlocks.size ∧
    ¬ ErasesRange fourBlocks 131072 131072 := by
  have hrange : (131072 : UInt32).toNat + (131072 : UInt32).toNat ≤ fourBlocks.size := by decide
  refine ⟨hrange, ?_⟩
  rw [erasesRange_iff_lt rfl hrange (by decide) (by decide) (by decide)]
  intro h
  exact absurd (h 1 rfl ⟨le_rfl, le_rfl⟩) (by decide)

/-- The first two are. -/
theorem erasesRange_first_two : ErasesRange fourBlocks 0 262144 := by
  rw [erasesRange_iff_covers fourBlocks 0 262144 (by decide)]
  intro i hgood hinside
  have hend : (i + 1) * 131072 ≤ 0 + 262144 := hinside.2
  have hstep : fourBlocks.stepOf (0 : UInt32).toNat i = i * 131072 :=
    stepOf_eq rfl (Nat.dvd_zero _) hinside.1
  refine ⟨by decide, by decide, dvd_rfl, ?_⟩
  rw [hstep]
  refine ⟨?_, by omega, ?_⟩
  · show i * 131072 < 262144
    omega
  · intro j hji hj
    have hj' : i * 131072 ≤ j * 131072 := hj
    have hij : j = i := by omega
    exact hij ▸ hgood

end AndroidLearn.Mtd
