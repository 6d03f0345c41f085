import AndroidLearn.Lib.Bytes

/-!
# The MTD store

`mtd_read`, `mtd_write`, `read_block` and `write_block` of `mtd.c`. The first two address
a partition as if it were one array of bytes. Both walk over its erase blocks.
`read_block` goes past a block that is bad, that does not read, that counts an ECC failure
or that is all zero; `write_block` only goes past a block that is bad or that fails twice.

A device is a list of blocks of one size, each with what it holds and what the calls on it
answer: bad or not, whether a read succeeds, whether it counts an ECC failure, how the two
attempts of `write_block` end, and what the block holds when both have failed. A walk
stands between two blocks (`Cursor`).

The bytes of a partition are those of the blocks that `read_block` finds, and `mtdRead_eq`
says that `mtd_read` reads them at an offset.

Theorem: `mtdWrite_keeps` says when `mtd_write` writes them there: when the two walks
agree on the blocks it covers (`InStep`). Where every block that the write puts together
reads, and none that it gives up does (`Plain`), this is necessary too.
-/

namespace AndroidLearn.Mtd

/-! ## Blocks -/

/-- What a block holds. It is `readable` when `read` transfers it, and `ecc` when
reading it counts a failure in the ECC statistics. -/
structure Stored where
  data : Bytes
  readable : Bool
  ecc : Bool
  deriving DecidableEq

/-- How one of the two attempts of `write_block` ends. -/
inductive Attempt
  | eraseFailure
  | writeError
  | reReadError
  | verificationError
  | done
  deriving DecidableEq

/-- An erase block, with what the device will answer: whether it is bad, how the two
attempts to write it end, and what is left in it when `write_block` gives up on it. -/
structure Block where
  bad : Bool
  stored : Stored
  attempts : Attempt × Attempt
  left : Stored
  deriving DecidableEq

/-- A position on the device, between two blocks. -/
structure Cursor where
  passed : List Block
  rest : List Block
  deriving DecidableEq

/-- All blocks, in the order of the device. -/
def Cursor.blocks (c : Cursor) : List Block := c.passed ++ c.rest

/-- Is it all zeros? `read_block` passes such a block over. -/
def zero (data : Bytes) : Bool := data.all (· = 0)

/-- `read_block`. The statistics are compared with those before the call, so once a
block has failed, the ones behind it look failed too. -/
def readBlockFrom (failed : Bool) (passed : List Block) : List Block → Option (Bytes × Cursor)
  | [] => none
  | block :: rest =>
    if block.bad then readBlockFrom failed (passed ++ [block]) rest
    else if !block.stored.readable then
      readBlockFrom (failed || block.stored.ecc) (passed ++ [block]) rest
    else if failed || block.stored.ecc then readBlockFrom true (passed ++ [block]) rest
    else if zero block.stored.data then readBlockFrom false (passed ++ [block]) rest
    else some (block.stored.data, ⟨passed ++ [block], rest⟩)

/-- The next block that is read. -/
def Cursor.readBlock (c : Cursor) : Option (Bytes × Cursor) := readBlockFrom false c.passed c.rest

/-- `write_block`. A block on which both attempts fail is erased once more and left. -/
def writeBlockFrom (data : Bytes) (passed : List Block) : List Block → Option Cursor
  | [] => none
  | block :: rest =>
    if block.bad then writeBlockFrom data (passed ++ [block]) rest
    else if block.attempts.1 = .done ∨ block.attempts.2 = .done then
      some ⟨passed ++ [{ block with stored := ⟨data, true, false⟩ }], rest⟩
    else writeBlockFrom data (passed ++ [{ block with stored := block.left }]) rest

/-- The next block that takes the data. -/
def Cursor.writeBlock (c : Cursor) (data : Bytes) : Option Cursor :=
  writeBlockFrom data c.passed c.rest

/-- `n` rounds of a loop around `read_block`. -/
def readBlocks : Nat → Cursor → Option (Bytes × Cursor)
  | 0, c => some ([], c)
  | n + 1, c => do
    let (data, c) ← c.readBlock
    let (rest, c) ← readBlocks n c
    some (data ++ rest, c)

/-- `n` rounds of the loop around `write_block`, with the data that it leaves. -/
def writeBlocks (eraseSize : Nat) : Nat → Bytes → Cursor → Option (Bytes × Cursor)
  | 0, data, c => some (data, c)
  | n + 1, data, c => do
    let c ← c.writeBlock (data.take eraseSize)
    writeBlocks eraseSize n (data.drop eraseSize) c

/-! ## Partitions -/

/-- Every block is of the erase size, in what it holds and in what a failed write leaves. -/
def Sized (eraseSize : Nat) (l : List Block) : Prop :=
  ∀ b ∈ l, b.stored.data.length = eraseSize ∧ b.left.data.length = eraseSize

/-- A partition, whose blocks are of its erase size. -/
structure MtdPartition where
  eraseSize : Nat
  blocks : List Block
  erasePos : 0 < eraseSize
  sized : Sized eraseSize blocks

/-- The fragment in front, when the offset is inside a block. -/
def readFirst (eraseSize offset length : Nat) (c : Cursor) : Option (Bytes × Cursor) :=
  if offset ≠ 0 then do
    let (oneblock, c) ← c.readBlock
    some ((oneblock.drop offset).take (min (eraseSize - offset) length), c)
  else some ([], c)

/-- The fragment at the end. -/
def readLast (length : Nat) (c : Cursor) : Option Bytes :=
  if 0 < length then c.readBlock.map fun (oneblock, _) => oneblock.take length
  else some []

/-- `mtd_read`. Its first loop runs while the offset is not inside the next block. -/
def MtdPartition.mtdRead (p : MtdPartition) (offset length : Nat) : Option Bytes :=
  if length = 0 then none
  else do
    let (_, c) ← readBlocks (offset / p.eraseSize) ⟨[], p.blocks⟩
    let (first, c) ← readFirst p.eraseSize (offset % p.eraseSize) length c
    let (whole, c) ← readBlocks ((length - first.length) / p.eraseSize) c
    let last ← readLast (length - first.length - whole.length) c
    some (first ++ whole ++ last)

/-- The fragment in front, and the data that it leaves: the position is set back between
`read_block` and `write_block`. -/
def writeFirst (eraseSize offset : Nat) (data : Bytes) (c : Cursor) : Option (Bytes × Cursor) :=
  if offset ≠ 0 then do
    -- the block that is read need not be the one that is written
    let (oneblock, _) ← c.readBlock
    let byteswrote := min (eraseSize - offset) data.length
    let c ← c.writeBlock (oneblock.writeAt offset (data.take byteswrote))
    some (data.drop byteswrote, c)
  else some (data, c)

/-- The fragment at the end. -/
def writeLast (data : Bytes) (c : Cursor) : Option Cursor :=
  if 0 < data.length then do
    let (oneblock, _) ← c.readBlock
    c.writeBlock (oneblock.writeAt 0 data)
  else some c

/-- The write from a block on: the head of the first block, the whole ones, and the tail of the
last. -/
def writeFrom (eraseSize offset : Nat) (data : Bytes) (c : Cursor) : Option Cursor := do
  let (data, c) ← writeFirst eraseSize offset data c
  let (data, c) ← writeBlocks eraseSize (data.length / eraseSize) data c
  writeLast data c

/-! ## The bytes that read -/

/-- The blocks that `read_block` finds, one call after the other. -/
def readable (failed : Bool) : List Block → List Bytes
  | [] => []
  | block :: rest =>
    if block.bad then readable failed rest
    else if block.stored.readable && !(failed || block.stored.ecc) && !zero block.stored.data then
      block.stored.data :: readable failed rest
    else readable (failed || block.stored.ecc) rest

/-- What can be read of the blocks. -/
def bytes (l : List Block) : Bytes := (readable false l).flatten

/-- A read of a block comes to the next one that can be read, or to the end. -/
theorem readBlockFrom_cases (failed : Bool) (passed l : List Block) :
    (readable failed l = [] ∧ readBlockFrom failed passed l = none) ∨
    ∃ data mid rest, l = mid ++ rest ∧
      readBlockFrom failed passed l = some (data, ⟨passed ++ mid, rest⟩) ∧
      (∃ b ∈ mid, b.stored.data = data) ∧
      ∀ r, readable failed (mid ++ r) = data :: readable false r := by
  induction l generalizing failed passed with
  | nil => exact .inl ⟨rfl, rfl⟩
  | cons block l ih =>
    -- a block that is gone past, with what it makes of `failed`
    have hskip : ∀ failed', (∀ r, readable failed (block :: r) = readable failed' r) →
        readBlockFrom failed passed (block :: l) = readBlockFrom failed' (passed ++ [block]) l →
        (readable failed (block :: l) = [] ∧ readBlockFrom failed passed (block :: l) = none) ∨
        ∃ data mid rest, block :: l = mid ++ rest ∧
          readBlockFrom failed passed (block :: l) = some (data, ⟨passed ++ mid, rest⟩) ∧
          (∃ b ∈ mid, b.stored.data = data) ∧
          ∀ r, readable failed (mid ++ r) = data :: readable false r := by
      intro failed' hreadable hread
      rw [hread, hreadable]
      rcases ih failed' (passed ++ [block]) with hnone | ⟨data, mid, rest, rfl, hsome, hmem, hmid⟩
      · exact .inl hnone
      · obtain ⟨b, hb, hdata⟩ := hmem
        refine .inr ⟨data, block :: mid, rest, rfl, ?_, ⟨b, List.mem_cons_of_mem _ hb, hdata⟩, ?_⟩
        · rw [hsome, List.append_assoc, List.singleton_append]
        · intro r
          rw [List.cons_append, hreadable, hmid]
    by_cases hbad : block.bad = true
    · exact hskip failed (by simp [readable, hbad]) (by simp [readBlockFrom, hbad])
    by_cases hread : block.stored.readable = true
    swap
    · exact hskip (failed || block.stored.ecc) (by simp [readable, hbad, hread])
        (by simp [readBlockFrom, hbad, hread])
    by_cases hfailed : (failed || block.stored.ecc) = true
    · exact hskip true (by simp [readable, hbad, hfailed])
        (by simp only [readBlockFrom, hbad, hread, hfailed]; simp)
    rw [Bool.or_eq_true, not_or, Bool.not_eq_true, Bool.not_eq_true] at hfailed
    obtain ⟨rfl, hecc⟩ := hfailed
    by_cases hzero : zero block.stored.data = true
    · exact hskip false (by simp [readable, hbad, hecc, hzero])
        (by simp [readBlockFrom, hbad, hread, hecc, hzero])
    · refine .inr ⟨block.stored.data, [block], l, rfl, ?_, ⟨block, by simp, rfl⟩, ?_⟩
      · simp [readBlockFrom, hbad, hread, hecc, hzero]
      · intro r
        simp [readable, hbad, hread, hecc, hzero]

/-- From `c` on, `data` reads, and then what reads from `c'` on. -/
def Cursor.Reads (c : Cursor) (data : Bytes) (c' : Cursor) : Prop :=
  ∃ mid, c.rest = mid ++ c'.rest ∧ c'.passed = c.passed ++ mid ∧
    ∀ r, bytes (mid ++ r) = data ++ bytes r

section Reads

variable {c c' c'' : Cursor} {data data' : Bytes} {eraseSize n : Nat}

theorem Cursor.Reads.refl : c.Reads [] c := ⟨[], rfl, (List.append_nil _).symm, fun _ => rfl⟩

/-- One read after another. -/
theorem Cursor.Reads.trans (h : c.Reads data c') (h' : c'.Reads data' c'') :
    c.Reads (data ++ data') c'' := by
  obtain ⟨mid, hrest, hpassed, hbytes⟩ := h
  obtain ⟨mid', hrest', hpassed', hbytes'⟩ := h'
  refine ⟨mid ++ mid', ?_, ?_, fun r => ?_⟩
  · rw [hrest, hrest', List.append_assoc]
  · rw [hpassed', hpassed, List.append_assoc]
  · rw [List.append_assoc, hbytes, hbytes', List.append_assoc]

theorem Cursor.Reads.bytes_eq (h : c.Reads data c') : bytes c.rest = data ++ bytes c'.rest := by
  obtain ⟨mid, hrest, -, hbytes⟩ := h
  rw [hrest, hbytes]

/-- What is left is of the erase size. -/
theorem Cursor.Reads.sized (h : c.Reads data c') (hc : Sized eraseSize c.rest) :
    Sized eraseSize c'.rest := by
  obtain ⟨mid, hrest, -, -⟩ := h
  intro b hb
  exact hc b (hrest ▸ List.mem_append_right mid hb)

theorem Cursor.Reads.blocks_eq (h : c.Reads data c') : c'.blocks = c.blocks := by
  obtain ⟨mid, hrest, hpassed, -⟩ := h
  rw [Cursor.blocks, Cursor.blocks, hpassed, hrest, List.append_assoc]

/-- A block that is read is whole. -/
theorem Cursor.readBlock_some (hc : Sized eraseSize c.rest) (h : c.readBlock = some (data, c')) :
    c.Reads data c' ∧ data.length = eraseSize := by
  rcases readBlockFrom_cases false c.passed c.rest with
    ⟨-, hnone⟩ | ⟨d, mid, rest, hrest, hsome, ⟨b, hb, hdata⟩, hmid⟩
  · exact absurd (h.symm.trans hnone) (by simp)
  · obtain ⟨rfl, rfl⟩ : data = d ∧ c' = ⟨c.passed ++ mid, rest⟩ := by
      simpa using h.symm.trans hsome
    refine ⟨⟨mid, hrest, rfl, fun r => ?_⟩, ?_⟩
    · rw [bytes, hmid, List.flatten_cons, bytes]
    · rw [← hdata]
      exact (hc b (hrest ▸ List.mem_append_left rest hb)).1

/-- While something reads, `read_block` finds it. -/
theorem Cursor.readBlock_isSome (h : 0 < (bytes c.rest).length) :
    ∃ data c', c.readBlock = some (data, c') := by
  rcases readBlockFrom_cases false c.passed c.rest with
    ⟨hnil, -⟩ | ⟨d, mid, rest, -, hsome, -, -⟩
  · rw [bytes, hnil] at h
    exact absurd h (by simp)
  · exact ⟨d, _, hsome⟩

theorem readBlocks_some (hc : Sized eraseSize c.rest) (h : readBlocks n c = some (data, c')) :
    c.Reads data c' ∧ data.length = n * eraseSize := by
  induction n generalizing c data with
  | zero =>
    obtain ⟨rfl, rfl⟩ : [] = data ∧ c = c' := by simpa [readBlocks] using h
    exact ⟨.refl, by simp⟩
  | succ n ih =>
    simp only [readBlocks, Option.bind_eq_bind, Option.bind_eq_some_iff, Prod.exists,
      Option.some.injEq, Prod.mk.injEq] at h
    obtain ⟨d, c₁, hblock, ds, c₂, hblocks, rfl, rfl⟩ := h
    obtain ⟨hreads, hlen⟩ := Cursor.readBlock_some hc hblock
    obtain ⟨hreads', hlen'⟩ := ih (hreads.sized hc) hblocks
    refine ⟨hreads.trans hreads', ?_⟩
    rw [List.length_append, hlen, hlen']
    ring

/-- They can be read when there are so many. -/
theorem readBlocks_isSome (hc : Sized eraseSize c.rest) (herase : 0 < eraseSize)
    (h : n * eraseSize ≤ (bytes c.rest).length) : ∃ data c', readBlocks n c = some (data, c') := by
  induction n generalizing c with
  | zero => exact ⟨_, _, rfl⟩
  | succ n ih =>
    rw [Nat.add_mul] at h
    obtain ⟨d, c₁, hblock⟩ := Cursor.readBlock_isSome (c := c) (by omega)
    obtain ⟨hreads, hlen⟩ := Cursor.readBlock_some hc hblock
    have hbytes := congrArg List.length hreads.bytes_eq
    rw [List.length_append] at hbytes
    obtain ⟨ds, c₂, hblocks⟩ := ih (hreads.sized hc) (by omega)
    exact ⟨d ++ ds, c₂, by simp [readBlocks, hblock, hblocks]⟩

end Reads

/-! ## Reading -/

section Reading

variable {c c' : Cursor} {data : Bytes} {eraseSize offset length : Nat}

/-- The end of a block is read from its offset on. -/
theorem readFirst_some (hc : Sized eraseSize c.rest) (hoffset : offset < eraseSize)
    (h : readFirst eraseSize offset length c = some (data, c')) :
    ∃ skipped, c.Reads skipped c' ∧
      skipped.length = (if offset = 0 then 0 else eraseSize) ∧
      data = (skipped.drop offset).take length := by
  unfold readFirst at h
  split at h
  next hne =>
    simp only [Option.bind_eq_bind, Option.bind_eq_some_iff, Prod.exists, Option.some.injEq,
      Prod.mk.injEq] at h
    obtain ⟨d, c₁, hblock, rfl, rfl⟩ := h
    obtain ⟨hreads, hlen⟩ := Cursor.readBlock_some hc hblock
    refine ⟨d, hreads, by rw [hlen, if_neg hne], ?_⟩
    rw [List.take_eq_take_iff, List.length_drop, hlen]
    omega
  next heq =>
    obtain ⟨rfl, rfl⟩ : [] = data ∧ c = c' := by simpa using h
    obtain rfl : offset = 0 := not_not.mp heq
    exact ⟨[], .refl, by simp, by simp⟩

/-- The front of a block is read. -/
theorem readLast_some (hc : Sized eraseSize c.rest) (hlength : length ≤ eraseSize)
    (h : readLast length c = some data) :
    data = (bytes c.rest).take length ∧ data.length = length := by
  unfold readLast at h
  split at h
  next hpos =>
    rw [Option.map_eq_some_iff] at h
    obtain ⟨⟨d, c₁⟩, hblock, rfl⟩ := h
    obtain ⟨hreads, hlen⟩ := Cursor.readBlock_some hc hblock
    rw [hreads.bytes_eq, List.take_append_of_le_length (by omega), List.length_take]
    exact ⟨rfl, by omega⟩
  next heq =>
    obtain rfl : [] = data := by simpa using h
    obtain rfl : length = 0 := by omega
    simp

/-- What is read is what can be read there. -/
theorem MtdPartition.mtdRead_some {p : MtdPartition} (h : p.mtdRead offset length = some data) :
    (bytes p.blocks).readAt offset length = some data := by
  unfold mtdRead at h
  split at h
  · exact absurd h (by simp)
  simp only [Option.bind_eq_bind, Option.bind_eq_some_iff, Prod.exists, Option.some.injEq] at h
  obtain ⟨seek, c₁, hseek, first, c₂, hfirst, whole, c₃, hwhole, last, hlast, rfl⟩ := h
  have herase := p.erasePos
  obtain ⟨hreads₁, hlen₁⟩ := readBlocks_some (c := ⟨[], p.blocks⟩) p.sized hseek
  have hsized₁ := hreads₁.sized p.sized
  obtain ⟨front, hreads₂, hlen₂, hdata⟩ := readFirst_some hsized₁ (Nat.mod_lt _ herase) hfirst
  have hsized₂ := hreads₂.sized hsized₁
  obtain ⟨hreads₃, hlen₃⟩ := readBlocks_some hsized₂ hwhole
  -- what is left when the whole blocks are read
  have hdiv := Nat.div_add_mod' (length - first.length) p.eraseSize
  have hleft : length - first.length - whole.length =
      (length - first.length) % p.eraseSize := by omega
  have hmod := Nat.mod_lt (length - first.length) herase
  obtain ⟨hlast, hlen₄⟩ := readLast_some (hreads₃.sized hsized₂) (by omega) hlast
  have hbytes : bytes p.blocks = seek ++ (front ++ (whole ++ bytes c₃.rest)) := by
    rw [hreads₁.bytes_eq, hreads₂.bytes_eq, hreads₃.bytes_eq]
  have hoffset := Nat.div_add_mod' offset p.eraseSize
  have hfront : offset % p.eraseSize ≤ front.length := by
    rw [hlen₂]
    split <;> have := Nat.mod_lt offset herase <;> omega
  have hfirst : first.length = min length (front.length - offset % p.eraseSize) := by
    rw [hdata, List.length_take, List.length_drop]
  have hdrop : (bytes p.blocks).drop offset =
      front.drop (offset % p.eraseSize) ++ (whole ++ bytes c₃.rest) := by
    rw [hbytes, List.drop_append, List.drop_of_length_le (by omega), List.nil_append, hlen₁,
      show offset - offset / p.eraseSize * p.eraseSize = offset % p.eraseSize by omega,
      List.drop_append_of_le_length hfront]
  have hrest : last.length ≤ (bytes c₃.rest).length := by
    rw [hlast, List.length_take]
    omega
  have hlength := congrArg List.length hbytes
  simp only [List.length_append] at hlength
  rw [Bytes.readAt_of_le (by omega), hdrop, List.take_append, ← hdata, List.append_assoc,
    List.length_drop, List.take_append, List.take_of_length_le (i := _) (l := whole) (by omega), hlast]
  congr 3
  congr 1
  omega

/-- The end of a block can be read when there is one. -/
theorem readFirst_isSome (h : offset ≠ 0 → 0 < (bytes c.rest).length) :
    ∃ data c', readFirst eraseSize offset length c = some (data, c') := by
  unfold readFirst
  split
  next hne =>
    obtain ⟨d, c₁, hblock⟩ := Cursor.readBlock_isSome (h hne)
    exact ⟨_, c₁, by rw [hblock]; rfl⟩
  next => exact ⟨_, _, rfl⟩

theorem readLast_isSome (h : 0 < length → 0 < (bytes c.rest).length) :
    ∃ data, readLast length c = some data := by
  unfold readLast
  split
  next hpos =>
    obtain ⟨d, c₁, hblock⟩ := Cursor.readBlock_isSome (h hpos)
    exact ⟨_, by rw [hblock]; rfl⟩
  next => exact ⟨_, rfl⟩

/-- A read comes through when all of it can be read. -/
theorem MtdPartition.mtdRead_isSome {p : MtdPartition} (hlength : length ≠ 0)
    (h : offset + length ≤ (bytes p.blocks).length) :
    ∃ data, p.mtdRead offset length = some data := by
  have herase := p.erasePos
  have hoffset := Nat.div_add_mod' offset p.eraseSize
  obtain ⟨seek, c₁, hseek⟩ := readBlocks_isSome (c := ⟨[], p.blocks⟩)
    (n := offset / p.eraseSize) p.sized herase (by dsimp only; omega)
  obtain ⟨hreads₁, hlen₁⟩ := readBlocks_some (c := ⟨[], p.blocks⟩) p.sized hseek
  have hsized₁ := hreads₁.sized p.sized
  have hbytes₁ := congrArg List.length hreads₁.bytes_eq
  rw [List.length_append] at hbytes₁
  dsimp only at hbytes₁
  obtain ⟨first, c₂, hfirst⟩ : ∃ data c,
      readFirst p.eraseSize (offset % p.eraseSize) length c₁ = some (data, c) :=
    readFirst_isSome fun _ => by omega
  obtain ⟨front, hreads₂, hlen₂, hdata⟩ := readFirst_some hsized₁ (Nat.mod_lt _ herase) hfirst
  have hsized₂ := hreads₂.sized hsized₁
  have hbytes₂ := congrArg List.length hreads₂.bytes_eq
  rw [List.length_append] at hbytes₂
  have hfirstLen : first.length = min length (front.length - offset % p.eraseSize) := by
    rw [hdata, List.length_take, List.length_drop]
  have hdiv := Nat.div_add_mod' (length - first.length) p.eraseSize
  have hmod := Nat.mod_lt offset herase
  have hfront : length - first.length ≤ (bytes c₂.rest).length := by
    split at hlen₂ <;> omega
  obtain ⟨whole, c₃, hwhole⟩ := readBlocks_isSome (c := c₂)
    (n := (length - first.length) / p.eraseSize) hsized₂ herase (by omega)
  obtain ⟨hreads₃, hlen₃⟩ := readBlocks_some hsized₂ hwhole
  have hbytes₃ := congrArg List.length hreads₃.bytes_eq
  rw [List.length_append] at hbytes₃
  obtain ⟨last, hlast⟩ : ∃ data, readLast (length - first.length - whole.length) c₃ = some data :=
    readLast_isSome fun _ => by omega
  refine ⟨first ++ whole ++ last, ?_⟩
  unfold mtdRead
  rw [if_neg hlength, hseek]
  simp [hfirst, hwhole, hlast]

/-- `mtd_read` reads the bytes of the partition. -/
theorem MtdPartition.mtdRead_eq (p : MtdPartition) (hlength : length ≠ 0) :
    p.mtdRead offset length = (bytes p.blocks).readAt offset length := by
  cases hread : p.mtdRead offset length with
  | some data => exact (mtdRead_some hread).symm
  | none =>
    by_cases h : offset + length ≤ (bytes p.blocks).length
    · obtain ⟨data, hsome⟩ := mtdRead_isSome hlength h
      exact absurd (hread.symm.trans hsome) (by simp)
    · exact (Bytes.readAt_of_lt (by omega)).symm

end Reading

/-! ## The blocks that `write_block` uses -/

/-- The block is good, and one of the two attempts to write it comes through. -/
def Block.takes (b : Block) : Bool :=
  !b.bad && (b.attempts.1 = .done ∨ b.attempts.2 = .done)

/-- Nothing reads, and no failure is counted. -/
def Stored.silent (s : Stored) : Bool := !s.ecc && (!s.readable || zero s.data)

/-- The blocks behind the `n`th that `write_block` uses. -/
def behind : Nat → List Block → List Block
  | 0, l => l
  | _ + 1, [] => []
  | n + 1, b :: l => if b.takes then behind n l else behind (n + 1) l

/-- The blocks that `write_block` gives up before the `n`th that it uses. -/
def givenUp : Nat → List Block → List Block
  | 0, _ => []
  | _ + 1, [] => []
  | n + 1, b :: l =>
    if b.takes then givenUp n l
    else if b.bad then givenUp (n + 1) l
    else b :: givenUp (n + 1) l

@[simp] theorem behind_nil (n : Nat) : behind n [] = [] := by cases n <;> rfl

@[simp] theorem givenUp_nil (n : Nat) : givenUp n [] = [] := by cases n <;> rfl

/-- What is behind so many blocks, and so many more. -/
theorem behind_add (m n : Nat) (l : List Block) : behind (m + n) l = behind n (behind m l) := by
  induction l generalizing m with
  | nil => simp
  | cons b l ih =>
    cases m with
    | zero => rw [Nat.zero_add, behind]
    | succ m =>
      rw [Nat.add_right_comm, behind, behind, ih, Nat.add_right_comm, ih]
      split <;> rfl

/-- What was given up on the way. -/
theorem givenUp_add (m n : Nat) (l : List Block) :
    givenUp (m + n) l = givenUp m l ++ givenUp n (behind m l) := by
  induction l generalizing m with
  | nil => simp
  | cons b l ih =>
    cases m with
    | zero => rw [Nat.zero_add, givenUp, behind, List.nil_append]
    | succ m =>
      rw [Nat.add_right_comm, givenUp, givenUp, behind, ih, Nat.add_right_comm, ih]
      split
      · rfl
      · split <;> rfl

theorem bytes_cons_bad {b : Block} (h : b.bad = true) (r : List Block) : bytes (b :: r) = bytes r := by
  simp [bytes, readable, h]

/-- A block that cannot be read has no bytes. -/
theorem bytes_cons_silent {b : Block} (h : b.stored.silent = true) (r : List Block) :
    bytes (b :: r) = bytes r := by
  obtain ⟨hecc, hdata⟩ : b.stored.ecc = false ∧
      (b.stored.readable = false ∨ zero b.stored.data = true) := by
    simpa [Stored.silent] using h
  rcases hdata with h | h <;> simp [bytes, readable, hecc, h]

/-- A block that was written has what was written. -/
theorem bytes_cons_written {b : Block} {data : Bytes} (hbad : b.bad = false)
    (h : zero data = false) (r : List Block) :
    bytes ({ b with stored := ⟨data, true, false⟩ } :: r) = data ++ bytes r := by
  simp [bytes, readable, hbad, h]

/-- No erase block of `data` is all zero. -/
def Nonzero (eraseSize n : Nat) (data : Bytes) : Prop :=
  ∀ i < n, zero ((data.drop (i * eraseSize)).take eraseSize) = false

instance (eraseSize n : Nat) (data : Bytes) : Decidable (Nonzero eraseSize n data) :=
  inferInstanceAs (Decidable (∀ i < n, _))

/-- From `c` on, `n` blocks are written with `data`, which leads to `c'`. -/
structure Cursor.Writes (eraseSize : Nat) (c : Cursor) (n : Nat) (data : Bytes) (c' : Cursor) :
    Prop where
  length : data.length = n * eraseSize
  rest : c'.rest = behind n c.rest
  passed : ∃ written, c'.passed = c.passed ++ written ∧
    (Sized eraseSize c.rest → Sized eraseSize (written ++ c'.rest)) ∧
    ((∀ b ∈ givenUp n c.rest, b.left.silent = true) → Nonzero eraseSize n data →
      ∀ r, bytes (written ++ r) = data ++ bytes r)

section Writes

variable {c c' c'' : Cursor} {data data' : Bytes} {eraseSize m n : Nat}

/-- No block is written. -/
theorem Cursor.Writes.refl : c.Writes eraseSize 0 [] c where
  length := by simp
  rest := by rw [behind]
  passed := ⟨[], by simp, fun h => h, fun _ _ _ => rfl⟩

/-- No block of the two parts is all zeros. -/
theorem Nonzero.append (h : Nonzero eraseSize (m + n) (data ++ data'))
    (hlen : data.length = m * eraseSize) :
    Nonzero eraseSize m data ∧ Nonzero eraseSize n data' := by
  refine ⟨fun i hi => ?_, fun i hi => ?_⟩
  · have hle : (i + 1) * eraseSize ≤ m * eraseSize := Nat.mul_le_mul_right _ hi
    rw [Nat.add_mul] at hle
    have hblock := h i (by omega)
    rwa [List.drop_append_of_le_length (by omega), List.take_append_of_le_length
      (by rw [List.length_drop]; omega)] at hblock
  · have hblock := h (m + i) (by omega)
    rwa [Nat.add_mul, List.drop_append, List.drop_of_length_le (by omega), List.nil_append, hlen,
      Nat.add_sub_cancel_left] at hblock

/-- One write after another. -/
theorem Cursor.Writes.trans (h : c.Writes eraseSize m data c')
    (h' : c'.Writes eraseSize n data' c'') :
    c.Writes eraseSize (m + n) (data ++ data') c'' where
  length := by rw [List.length_append, h.length, h'.length, Nat.add_mul]
  rest := by rw [h'.rest, h.rest, behind_add]
  passed := by
    obtain ⟨written, hpassed, hsized, hbytes⟩ := h.passed
    obtain ⟨written', hpassed', hsized', hbytes'⟩ := h'.passed
    refine ⟨written ++ written', ?_, fun hc => ?_, fun hsilent hnonzero r => ?_⟩
    · rw [hpassed', hpassed, List.append_assoc]
    · have hall := hsized hc
      have hall' := hsized' fun b hb => hall b (List.mem_append_right _ hb)
      intro b hb
      rw [List.append_assoc] at hb
      rcases List.mem_append.mp hb with hb | hb
      · exact hall b (List.mem_append_left _ hb)
      · exact hall' b hb
    · rw [givenUp_add, ← h.rest] at hsilent
      obtain ⟨hm, hn⟩ := hnonzero.append h.length
      rw [List.append_assoc, hbytes (fun b hb => hsilent b (List.mem_append_left _ hb)) hm,
        hbytes' (fun b hb => hsilent b (List.mem_append_right _ hb)) hn, List.append_assoc]

/-- A block is written. -/
theorem Cursor.writeBlock_some (hdata : data.length = eraseSize)
    (h : c.writeBlock data = some c') : c.Writes eraseSize 1 data c' := by
  obtain ⟨passed, rest⟩ := c
  unfold writeBlock at h
  dsimp only at h
  induction rest generalizing passed with
  | nil => exact absurd h (by simp [writeBlockFrom])
  | cons b l ih =>
    -- a block that is gone past, and what it is then
    have hskip : ∀ b' : Block, b.takes = false → b.bad = b'.bad →
        (b.bad = false → b'.stored = b.left) → (b.bad = true → b' = b) → b'.left = b.left →
        writeBlockFrom data (passed ++ [b']) l = some c' →
        (⟨passed, b :: l⟩ : Cursor).Writes eraseSize 1 data c' := by
      intro b' htakes hbad hleft hsame hleft' h
      obtain ⟨hlength, hrest, written, hpassed, hsized, hbytes⟩ := ih _ h
      refine ⟨hlength, ?_, b' :: written, ?_, fun hc => ?_, fun hsilent hnonzero r => ?_⟩
      · rw [hrest, behind, if_neg (by rw [htakes]; simp)]
      · rw [hpassed, List.append_assoc, List.singleton_append]
      · have hl := hsized fun b hb => hc b (List.mem_cons_of_mem _ hb)
        have hb := hc b List.mem_cons_self
        intro b'' hb''
        rcases List.mem_cons.mp hb'' with rfl | hmem
        · cases hb' : b.bad with
          | true => rw [hsame hb']; exact hb
          | false => rw [hleft hb', hleft']; exact ⟨hb.2, hb.2⟩
        · exact hl b'' hmem
      · rw [givenUp, if_neg (by rw [htakes]; simp)] at hsilent
        cases hb' : b.bad with
        | true =>
          rw [if_pos hb'] at hsilent
          rw [List.cons_append, bytes_cons_bad (hbad ▸ hb'), hbytes hsilent hnonzero]
        | false =>
          rw [if_neg (by rw [hb']; simp)] at hsilent
          have hb := hsilent b List.mem_cons_self
          rw [← hleft hb'] at hb
          rw [List.cons_append, bytes_cons_silent hb,
            hbytes (fun b hb => hsilent b (List.mem_cons_of_mem _ hb)) hnonzero]
    unfold writeBlockFrom at h
    split at h
    next hbad =>
      exact hskip b (by simp [Block.takes, hbad]) rfl (fun h => absurd (hbad.symm.trans h) (by simp))
        (fun _ => rfl) rfl h
    next hbad =>
      rw [Bool.not_eq_true] at hbad
      split at h
      next hdone =>
        cases h
        have htakes : b.takes = true := by simp [Block.takes, hbad, hdone]
        refine ⟨by omega, ?_, [{ b with stored := ⟨data, true, false⟩ }], rfl, fun hc => ?_,
          fun _ hnonzero r => ?_⟩
        · rw [behind, if_pos htakes, behind]
        · intro b' hb'
          rcases List.mem_append.mp hb' with hmem | hmem
          · rw [List.mem_singleton] at hmem
            exact hmem ▸ ⟨hdata, (hc b List.mem_cons_self).2⟩
          · exact hc b' (List.mem_cons_of_mem _ hmem)
        · have hzero := hnonzero 0 (by omega)
          rw [Nat.zero_mul, List.drop_zero, List.take_of_length_le (by omega)] at hzero
          exact bytes_cons_written hbad hzero r
      next hdone =>
        refine hskip { b with stored := b.left } ?_ rfl (fun _ => rfl) ?_ rfl h
        · simp only [Block.takes, hbad, hdone]
          simp
        · exact fun h => absurd (hbad.symm.trans h) (by simp)

theorem writeBlocks_some {rest : Bytes} (hdata : n * eraseSize ≤ data.length)
    (h : writeBlocks eraseSize n data c = some (rest, c')) :
    c.Writes eraseSize n (data.take (n * eraseSize)) c' ∧ rest = data.drop (n * eraseSize) := by
  induction n generalizing c data with
  | zero =>
    obtain ⟨rfl, rfl⟩ : data = rest ∧ c = c' := by simpa [writeBlocks] using h
    rw [Nat.zero_mul, List.take_zero, List.drop_zero]
    exact ⟨.refl, rfl⟩
  | succ n ih =>
    rw [Nat.add_mul, Nat.one_mul] at hdata
    simp only [writeBlocks, Option.bind_eq_bind, Option.bind_eq_some_iff] at h
    obtain ⟨c₁, hblock, hblocks⟩ := h
    have hlen : (data.take eraseSize).length = eraseSize := by
      rw [List.length_take]
      omega
    have hwrites := Cursor.writeBlock_some hlen hblock
    obtain ⟨hwrites', hrest⟩ := ih (by rw [List.length_drop]; omega) hblocks
    have hsum : (n + 1) * eraseSize = eraseSize + n * eraseSize := by ring
    rw [hsum, List.take_add, Nat.add_comm n 1]
    exact ⟨hwrites.trans hwrites', by rw [hrest, List.drop_drop]⟩

end Writes

/-! ## Writing -/

/-- How many blocks `length` bytes cover, `offset` bytes into the first of them. -/
def touched (eraseSize offset length : Nat) : Nat := (offset + length + (eraseSize - 1)) / eraseSize

/-- How many blocks a range touches. -/
theorem touched_eq {eraseSize offset length n : Nat} (hlo : n * eraseSize < offset + length)
    (hhi : offset + length ≤ (n + 1) * eraseSize) : touched eraseSize offset length = n + 1 := by
  rw [Nat.add_mul] at hhi
  refine Nat.div_eq_of_lt_le ?_ ?_
  · rw [Nat.add_mul]
    omega
  · rw [Nat.add_mul, Nat.add_mul]
    omega

/-- They reach to its end. -/
theorem le_touched {eraseSize : Nat} (herase : 0 < eraseSize) (offset length : Nat) :
    offset + length ≤ touched eraseSize offset length * eraseSize := by
  have hdiv := Nat.div_add_mod' (offset + length + (eraseSize - 1)) eraseSize
  have hmod := Nat.mod_lt (offset + length + (eraseSize - 1)) herase
  unfold touched
  omega

/-- One less does not. -/
theorem touched_le {eraseSize : Nat} (herase : 0 < eraseSize) (offset length : Nat) :
    (touched eraseSize offset length - 1) * eraseSize ≤ offset + length := by
  have hdiv := Nat.div_add_mod' (offset + length + (eraseSize - 1)) eraseSize
  unfold touched
  rw [Nat.sub_mul, Nat.one_mul]
  omega

/-- What `mtd_write` puts into the blocks it covers, when `l` are the blocks behind its
seek: the fragments around the data are those of the blocks that it reads. -/
def composed (eraseSize offset : Nat) (data : Bytes) (l : List Block) : Bytes :=
  let n := touched eraseSize offset data.length
  (bytes l).take offset ++ data ++
    ((bytes (behind (n - 1) l)).drop (offset + data.length - (n - 1) * eraseSize)).take
      (n * eraseSize - (offset + data.length))

section Writing

variable {c c' : Cursor} {data rest : Bytes} {eraseSize offset : Nat}

/-- The first block keeps what is in front of the data. -/
theorem writeFirst_some (hc : Sized eraseSize c.rest) (hoffset : offset < eraseSize)
    (hne : offset ≠ 0) (h : writeFirst eraseSize offset data c = some (rest, c')) :
    c.Writes eraseSize 1 ((bytes c.rest).take offset ++
      (data.take (eraseSize - offset) ++
        ((bytes c.rest).take eraseSize).drop (offset + data.length))) c' ∧
      rest = data.drop (eraseSize - offset) := by
  unfold writeFirst at h
  rw [if_pos hne] at h
  simp only [Option.bind_eq_bind, Option.bind_eq_some_iff, Prod.exists, Option.some.injEq,
    Prod.mk.injEq] at h
  obtain ⟨oneblock, c₁, hread, c₂, hwrite, rfl, rfl⟩ := h
  obtain ⟨hreads, hlen⟩ := Cursor.readBlock_some hc hread
  have hlenTake : (data.take (min (eraseSize - offset) data.length)).length =
      min (eraseSize - offset) data.length := by
    rw [List.length_take]
    omega
  have hle : offset + (data.take (min (eraseSize - offset) data.length)).length ≤
      oneblock.length := by
    omega
  have hwrites := Cursor.writeBlock_some ((Bytes.length_writeAt hle).trans hlen) hwrite
  rw [Bytes.writeAt_eq hle, hlenTake] at hwrites
  have htake : data.take (min (eraseSize - offset) data.length) =
      data.take (eraseSize - offset) := by
    rw [List.take_eq_take_iff]
    omega
  have hdrop : data.drop (min (eraseSize - offset) data.length) =
      data.drop (eraseSize - offset) := by
    by_cases hfits : eraseSize - offset ≤ data.length
    · rw [Nat.min_eq_left hfits]
    · rw [Nat.min_eq_right (by omega), List.drop_length, List.drop_of_length_le (by omega)]
  have hbehind : oneblock.drop (offset + min (eraseSize - offset) data.length) =
      oneblock.drop (offset + data.length) := by
    by_cases hfits : eraseSize - offset ≤ data.length
    · rw [List.drop_of_length_le (by omega), List.drop_of_length_le (by omega)]
    · rw [Nat.min_eq_right (by omega)]
  rw [hreads.bytes_eq, List.take_append_of_le_length (by omega),
    List.take_append_of_le_length (by omega), List.take_of_length_le (i := eraseSize) (by omega)]
  rw [htake, hbehind] at hwrites
  exact ⟨hwrites, hdrop⟩

/-- The last block keeps what is behind it. -/
theorem writeLast_some (hc : Sized eraseSize c.rest) (hdata : data.length < eraseSize)
    (hpos : 0 < data.length) (h : writeLast data c = some c') :
    c.Writes eraseSize 1
      (data ++ ((bytes c.rest).drop data.length).take (eraseSize - data.length)) c' := by
  unfold writeLast at h
  rw [if_pos hpos] at h
  simp only [Option.bind_eq_bind, Option.bind_eq_some_iff, Prod.exists] at h
  obtain ⟨oneblock, c₁, hread, hwrite⟩ := h
  obtain ⟨hreads, hlen⟩ := Cursor.readBlock_some hc hread
  have hle : 0 + data.length ≤ oneblock.length := by omega
  have hwrites := Cursor.writeBlock_some ((Bytes.length_writeAt hle).trans hlen) hwrite
  rw [Bytes.writeAt_eq hle, List.take_zero, List.nil_append, Nat.zero_add] at hwrites
  rw [hreads.bytes_eq, List.drop_append_of_le_length (by omega), List.take_append_of_le_length
    (by rw [List.length_drop]; omega), List.take_of_length_le (by rw [List.length_drop]; omega)]
  exact hwrites

/-- The blocks behind the first one, when the data goes on there. -/
theorem writeMore_some (hc : Sized eraseSize c.rest) (herase : 0 < eraseSize)
    (h : (writeBlocks eraseSize (data.length / eraseSize) data c).bind
      (fun r => writeLast r.1 r.2) = some c') :
    ∃ n, n * eraseSize < data.length + eraseSize ∧ data.length ≤ n * eraseSize ∧
      c.Writes eraseSize n
        (data ++ ((bytes (behind (n - 1) c.rest)).drop (data.length - (n - 1) * eraseSize)).take
          (n * eraseSize - data.length)) c' := by
  rw [Option.bind_eq_some_iff] at h
  obtain ⟨⟨left, c₁⟩, hblocks, hlast⟩ := h
  have hdiv := Nat.div_add_mod' data.length eraseSize
  have hmod := Nat.mod_lt data.length herase
  obtain ⟨hwrites, hleft⟩ := writeBlocks_some (by omega) hblocks
  have hlen : left.length = data.length % eraseSize := by
    rw [hleft, List.length_drop]
    omega
  by_cases hpos : 0 < left.length
  -- a fragment is left, for which one more block is read and written
  · have hsized : Sized eraseSize c₁.rest := by
      obtain ⟨written, -, hsized, -⟩ := hwrites.passed
      exact fun b hb => hsized hc b (List.mem_append_right _ hb)
    have hall := hwrites.trans (writeLast_some hsized (by omega) hpos hlast)
    refine ⟨data.length / eraseSize + 1, ?_, ?_, ?_⟩
    · rw [Nat.add_mul]
      omega
    · rw [Nat.add_mul]
      omega
    · rw [← List.append_assoc, hleft, List.take_append_drop, ← hleft, hwrites.rest] at hall
      rw [Nat.add_sub_cancel, Nat.add_mul, Nat.one_mul]
      rwa [show data.length - data.length / eraseSize * eraseSize = left.length by omega,
        show data.length / eraseSize * eraseSize + eraseSize - data.length =
          eraseSize - left.length by omega]
  · unfold writeLast at hlast
    rw [if_neg hpos] at hlast
    obtain rfl : c₁ = c' := by simpa using hlast
    refine ⟨data.length / eraseSize, by omega, by omega, ?_⟩
    rw [show data.length / eraseSize * eraseSize - data.length = 0 by omega, List.take_zero,
      List.append_nil]
    rwa [List.take_of_length_le (by omega)] at hwrites

/-- The write as a whole. -/
theorem writeFrom_some (hc : Sized eraseSize c.rest) (hoffset : offset < eraseSize)
    (hdata : data ≠ []) (h : writeFrom eraseSize offset data c = some c') :
    c.Writes eraseSize (touched eraseSize offset data.length)
      (composed eraseSize offset data c.rest) c' := by
  have herase : 0 < eraseSize := by omega
  have hpos := List.length_pos_iff.mpr hdata
  unfold writeFrom at h
  simp only [Option.bind_eq_bind, Option.bind_eq_some_iff, Prod.exists] at h
  obtain ⟨left, c₁, hfirst, left', c₂, hblocks, hlast⟩ := h
  have hmore : (writeBlocks eraseSize (left.length / eraseSize) left c₁).bind
      (fun r => writeLast r.1 r.2) = some c' := by
    rw [hblocks]
    exact hlast
  by_cases hne : offset = 0
  -- there is no fragment in front
  · subst hne
    obtain ⟨rfl, rfl⟩ : data = left ∧ c = c₁ := by simpa [writeFirst] using hfirst
    obtain ⟨n, hlo, hhi, hwrites⟩ := writeMore_some hc herase hmore
    obtain ⟨m, rfl⟩ : ∃ m, n = m + 1 := Nat.exists_eq_succ_of_ne_zero (by rintro rfl; omega)
    have htouched : touched eraseSize 0 data.length = m + 1 :=
      touched_eq (by rw [Nat.add_mul] at hlo; omega) (by omega)
    unfold composed
    dsimp only
    rwa [htouched, List.take_zero, List.nil_append, Nat.zero_add]
  · obtain ⟨hwrites, rfl⟩ := writeFirst_some hc hoffset hne hfirst
    have hsized : Sized eraseSize c₁.rest := by
      obtain ⟨written, -, hsized, -⟩ := hwrites.passed
      exact fun b hb => hsized hc b (List.mem_append_right _ hb)
    obtain ⟨n, hlo, hhi, hwrites'⟩ := writeMore_some hsized herase hmore
    have hall := hwrites.trans hwrites'
    rw [List.length_drop] at hlo hhi hall
    by_cases hfits : data.length ≤ eraseSize - offset
    -- the data ends inside the first block
    · obtain rfl : n = 0 := by
        by_contra hn
        have := Nat.mul_le_mul_right eraseSize (Nat.one_le_iff_ne_zero.mpr hn)
        omega
      have htouched : touched eraseSize offset data.length = 1 := touched_eq (by omega) (by omega)
      unfold composed
      dsimp only
      rw [htouched, Nat.sub_self, Nat.zero_mul, Nat.sub_zero, Nat.one_mul, behind,
        ← List.drop_take]
      rwa [Nat.zero_mul, Nat.zero_sub, List.take_zero, List.append_nil, Nat.add_zero,
        List.drop_of_length_le hfits, List.append_nil, List.take_of_length_le hfits,
        ← List.append_assoc] at hall
    -- the data fills the first block, and nothing of that is left behind it
    · obtain ⟨m, rfl⟩ : ∃ m, n = m + 1 := Nat.exists_eq_succ_of_ne_zero (by rintro rfl; omega)
      have htouched : touched eraseSize offset data.length = m + 1 + 1 :=
        touched_eq (by rw [Nat.add_mul] at hlo ⊢; omega) (by rw [Nat.add_mul]; omega)
      have hnone : ((bytes c.rest).take eraseSize).drop (offset + data.length) = [] := by
        rw [List.drop_eq_nil_iff, List.length_take]
        omega
      unfold composed
      dsimp only
      rw [htouched]
      rw [hnone, List.append_nil, List.append_assoc, ← List.append_assoc (data.take _),
        List.take_append_drop, hwrites.rest, ← behind_add] at hall
      rw [List.append_assoc]
      rw [Nat.add_sub_cancel] at hall ⊢
      rw [Nat.add_comm 1 m, Nat.add_comm 1 (m + 1)] at hall
      rw [show offset + data.length - (m + 1) * eraseSize =
          data.length - (eraseSize - offset) - m * eraseSize by rw [Nat.add_mul]; omega,
        show (m + 1 + 1) * eraseSize - (offset + data.length) =
          (m + 1) * eraseSize - (data.length - (eraseSize - offset)) by
            rw [Nat.add_mul (m + 1)]; omega]
      exact hall

end Writing

/-- The blocks behind the `n`th that reads. -/
def beyond (n : Nat) (l : List Block) : List Block :=
  ((readBlocks n ⟨[], l⟩).map fun r => r.2.rest).getD []

namespace MtdPartition

/-- The write of a command at an offset: the blocks in front of it are passed over first. -/
def writeData (p : MtdPartition) (offset : Nat) (data : Bytes) : Option Cursor :=
  if data = [] then none
  else do
    let (_, c) ← readBlocks (offset / p.eraseSize) ⟨[], p.blocks⟩
    writeFrom p.eraseSize (offset % p.eraseSize) data c

section

variable {p p' : MtdPartition} {offset : Nat} {data : Bytes}

/-- The blocks behind the seek, which reads the blocks in front of the offset. -/
def sought (p : MtdPartition) (offset : Nat) : List Block := beyond (offset / p.eraseSize) p.blocks

theorem writeData_some {c : Cursor} (h : p.writeData offset data = some c) :
    ∃ seek c₀, (⟨[], p.blocks⟩ : Cursor).Reads seek c₀ ∧
      seek.length = offset / p.eraseSize * p.eraseSize ∧ c₀.rest = p.sought offset ∧
      c₀.Writes p.eraseSize (touched p.eraseSize (offset % p.eraseSize) data.length)
        (composed p.eraseSize (offset % p.eraseSize) data (p.sought offset)) c := by
  unfold writeData at h
  split at h
  · exact absurd h (by simp)
  next hdata =>
    simp only [Option.bind_eq_bind, Option.bind_eq_some_iff, Prod.exists] at h
    obtain ⟨seek, c₀, hseek, hwrite⟩ := h
    obtain ⟨hreads, hlen⟩ := readBlocks_some (c := ⟨[], p.blocks⟩) p.sized hseek
    have hrest : c₀.rest = p.sought offset := by
      rw [sought, beyond, hseek]
      rfl
    have hwrites := writeFrom_some (hreads.sized p.sized) (Nat.mod_lt _ p.erasePos) hdata hwrite
    rw [hrest] at hwrites
    exact ⟨seek, c₀, hreads, hlen, hrest, hwrites⟩

/-- It leaves blocks of the erase size. -/
theorem sized_writeData {c : Cursor} (h : p.writeData offset data = some c) :
    Sized p.eraseSize c.blocks := by
  obtain ⟨seek, c₀, hreads, -, -, hwrites⟩ := writeData_some h
  obtain ⟨written, hpassed, hsized, -⟩ := hwrites.passed
  have hblocks := hreads.blocks_eq
  dsimp only [Cursor.blocks, List.nil_append] at hblocks
  have hrest := hsized (hreads.sized p.sized)
  intro b hb
  rw [Cursor.blocks, hpassed, List.append_assoc] at hb
  rcases List.mem_append.mp hb with hb | hb
  · exact p.sized b (hblocks ▸ List.mem_append_left _ hb)
  · exact hrest b hb

/-- `mtd_write` -/
def mtdWrite (p : MtdPartition) (offset : Nat) (data : Bytes) : Option MtdPartition :=
  match h : p.writeData offset data with
  | none => none
  | some c => some { p with blocks := c.blocks, sized := sized_writeData h }

/-- What `mtd_write` leaves. -/
theorem mtdWrite_some (h : p.mtdWrite offset data = some p') :
    p'.eraseSize = p.eraseSize ∧ ∃ c, p.writeData offset data = some c ∧ p'.blocks = c.blocks := by
  unfold mtdWrite at h
  split at h
  · exact absurd h (by simp)
  next c hc =>
    cases h
    exact ⟨rfl, c, hc, rfl⟩

end

end MtdPartition

/-! ## What a write keeps -/

/-- `data` reads back, and no other byte that read before reads differently. -/
structure Kept (p p' : MtdPartition) (offset : Nat) (data : Bytes) : Prop where
  same : p'.mtdRead offset data.length = some data
  others : ∀ k b, k < offset ∨ offset + data.length ≤ k → p.mtdRead k 1 = some [b] →
    p'.mtdRead k 1 = some [b]

/-- Every block that the write puts together reads, and none that it gives up does. -/
structure MtdPartition.Plain (p : MtdPartition) (offset : Nat) (data : Bytes) : Prop where
  nonzero : Nonzero p.eraseSize (touched p.eraseSize (offset % p.eraseSize) data.length)
    (composed p.eraseSize (offset % p.eraseSize) data (p.sought offset))
  silent : ∀ b ∈ givenUp (touched p.eraseSize (offset % p.eraseSize) data.length) (p.sought offset),
    b.left.silent = true

/-- Over the `n` blocks that the write covers, `write_block` keeps in step with
`read_block`: what reads behind the `n`th that it uses goes on like what reads behind
`n` blocks that read, and so does the rest of the last one when the data ends inside it. -/
structure MtdPartition.InStep (p : MtdPartition) (offset length : Nat) : Prop where
  fragment :
    let n := touched p.eraseSize (offset % p.eraseSize) length
    let stop := offset % p.eraseSize + length
    ((bytes (p.sought offset)).drop stop).take (n * p.eraseSize - stop) <+:
      (bytes (Mtd.behind (n - 1) (p.sought offset))).drop (stop - (n - 1) * p.eraseSize)
  behind :
    let n := touched p.eraseSize (offset % p.eraseSize) length
    (bytes (p.sought offset)).drop (n * p.eraseSize) <+: bytes (Mtd.behind n (p.sought offset))

section Kept

variable {p p' : MtdPartition} {offset : Nat} {data : Bytes}

/-- One byte. -/
theorem mtdRead_one {k : Nat} {b : UInt8} :
    p.mtdRead k 1 = some [b] ↔ (bytes p.blocks)[k]? = some b := by
  rw [p.mtdRead_eq (by omega)]
  unfold Bytes.readAt
  split
  next hle =>
    rw [Option.some_inj, List.getElem?_eq_getElem (by omega), Option.some_inj,
      List.drop_eq_getElem_cons (by omega), List.take_succ_cons, List.take_zero]
    simp
  next hgt =>
    rw [List.getElem?_eq_none (by omega)]
    simp

theorem prefix_append_iff {α : Type} {l t r : List α} :
    l <+: t ++ r ↔ l.take t.length <+: t ∧ l.drop t.length <+: r := by
  induction t generalizing l with
  | nil => simp
  | cons a t ih =>
    cases l with
    | nil => simp
    | cons b l => simp [List.cons_prefix_cons, ih, and_assoc]

/-- A write that puts `data` and then `rest` behind the offset keeps the bytes behind
the range when they go on in `rest`. -/
theorem kept_iff_goesOn {rest : Bytes} (hdata : data ≠ []) (hoffset : offset ≤ (bytes p.blocks).length)
    (h : bytes p'.blocks = (bytes p.blocks).take offset ++ (data ++ rest)) :
    Kept p p' offset data ↔ (bytes p.blocks).drop (offset + data.length) <+: rest := by
  have htake : ((bytes p.blocks).take offset).length = offset := by
    rw [List.length_take]
    omega
  have hbehind : ∀ i, (bytes p'.blocks)[offset + data.length + i]? = rest[i]? := by
    intro i
    rw [h, List.getElem?_append_right (by omega), List.getElem?_append_right (by omega), htake]
    congr 1
    omega
  constructor
  · intro hkept
    rw [List.prefix_iff_getElem?]
    intro i hi
    have hread : p.mtdRead (offset + data.length + i) 1 =
        some [((bytes p.blocks).drop (offset + data.length))[i]] := by
      rw [mtdRead_one, List.getElem_drop, List.getElem?_eq_getElem]
    have hkeeps := hkept.others _ _ (.inr (Nat.le_add_right _ i)) hread
    rwa [mtdRead_one, hbehind] at hkeeps
  · intro hgoes
    refine ⟨?_, fun k b hk hread => ?_⟩
    · rw [p'.mtdRead_eq (List.length_pos_iff.mpr hdata).ne']
      have hlength := congrArg List.length h
      simp only [List.length_append] at hlength
      rw [Bytes.readAt_of_le (by omega), h, List.drop_append_of_le_length (by omega),
        List.drop_of_length_le (by omega), List.nil_append, List.take_left]
    · rw [mtdRead_one] at hread ⊢
      rcases hk with hk | hk
      · rwa [h, List.getElem?_append_left (by omega), List.getElem?_take, if_pos hk]
      · obtain ⟨i, rfl⟩ := Nat.exists_eq_add_of_le hk
        rw [hbehind]
        rw [← List.getElem?_drop] at hread
        obtain ⟨hi, rfl⟩ := List.getElem?_eq_some_iff.mp hread
        exact List.prefix_iff_getElem?.mp hgoes i hi

/-- What the store reads once a plain write is done. -/
theorem MtdPartition.Plain.bytes_eq (hplain : p.Plain offset data)
    (hwrite : p.mtdWrite offset data = some p') :
    ∃ seek, seek.length = offset / p.eraseSize * p.eraseSize ∧
      bytes p.blocks = seek ++ bytes (p.sought offset) ∧
      (composed p.eraseSize (offset % p.eraseSize) data (p.sought offset)).length =
        touched p.eraseSize (offset % p.eraseSize) data.length * p.eraseSize ∧
      bytes p'.blocks =
        seek ++ (composed p.eraseSize (offset % p.eraseSize) data (p.sought offset) ++
          bytes (Mtd.behind (touched p.eraseSize (offset % p.eraseSize) data.length)
            (p.sought offset))) := by
  obtain ⟨-, c, hc, hblocks⟩ := mtdWrite_some hwrite
  obtain ⟨seek, c₀, hreads, hlen, hrest, hwrites⟩ := writeData_some hc
  refine ⟨seek, hlen, hrest ▸ hreads.bytes_eq, hwrites.length, ?_⟩
  obtain ⟨mid, -, hmid, hseek⟩ := hreads
  obtain ⟨written, hpassed, -, hbytes⟩ := hwrites.passed
  rw [hrest] at hbytes
  rw [hblocks, Cursor.blocks, hpassed, hmid, List.nil_append, List.append_assoc, hseek,
    hbytes hplain.silent hplain.nonzero, hwrites.rest, hrest]

/-- On a plain partition a write keeps the contract exactly when reads and writes are in step. -/
theorem MtdPartition.Plain.kept_iff (hplain : p.Plain offset data)
    (hwrite : p.mtdWrite offset data = some p') :
    Kept p p' offset data ↔ p.InStep offset data.length := by
  obtain ⟨seek, hlen, hbytes, hcomposed, hbytes'⟩ := hplain.bytes_eq hwrite
  have hdata : data ≠ [] := by
    rintro rfl
    obtain ⟨-, c, hc, -⟩ := mtdWrite_some hwrite
    exact absurd hc (by simp [writeData])
  have hle := le_touched p.erasePos (offset % p.eraseSize) data.length
  have hoffset := Nat.div_add_mod' offset p.eraseSize
  unfold composed at hcomposed hbytes'
  dsimp only at hcomposed hbytes'
  -- the fragments of the composed blocks are whole
  rw [List.length_append, List.length_append, List.length_take] at hcomposed
  have htail := List.length_take_le (touched p.eraseSize (offset % p.eraseSize) data.length *
    p.eraseSize - (offset % p.eraseSize + data.length))
    ((bytes (Mtd.behind (touched p.eraseSize (offset % p.eraseSize) data.length - 1)
      (p.sought offset))).drop (offset % p.eraseSize + data.length -
        (touched p.eraseSize (offset % p.eraseSize) data.length - 1) * p.eraseSize))
  generalize hT : List.take _ (List.drop _ (bytes (Mtd.behind _ _))) = tail at hcomposed hbytes' htail
  have htake : (bytes p.blocks).take offset =
      seek ++ (bytes (p.sought offset)).take (offset % p.eraseSize) := by
    rw [hbytes, List.take_append, List.take_of_length_le (by omega), hlen]
    congr 2
    omega
  have hdrop : (bytes p.blocks).drop (offset + data.length) =
      (bytes (p.sought offset)).drop (offset % p.eraseSize + data.length) := by
    rw [hbytes, List.drop_append, List.drop_of_length_le (by omega), List.nil_append, hlen]
    congr 1
    omega
  have hlength := congrArg List.length hbytes
  rw [List.length_append] at hlength
  rw [kept_iff_goesOn hdata (by omega) (by rw [htake, hbytes']; simp only [List.append_assoc]; rfl),
    hdrop, prefix_append_iff, List.drop_drop]
  have hlenTail : tail.length = touched p.eraseSize (offset % p.eraseSize) data.length *
      p.eraseSize - (offset % p.eraseSize + data.length) := by
    omega
  -- the bytes behind the range go on in the fragment, and then in the blocks behind it
  rw [hlenTail, Nat.add_sub_cancel' hle, ← hT, List.prefix_take_iff]
  constructor
  · rintro ⟨⟨hfragment, -⟩, hbehind⟩
    exact ⟨hfragment, hbehind⟩
  · rintro ⟨hfragment, hbehind⟩
    exact ⟨⟨hfragment, List.length_take_le _ _⟩, hbehind⟩

/-! ## Healthy blocks -/

/-- It is bad, or else it reads and takes what is written. -/
def Block.healthy (b : Block) : Bool :=
  b.bad || (b.takes && b.stored.readable && !b.stored.ecc && !zero b.stored.data)

section Healthy

variable {l : List Block} {eraseSize : Nat}

/-- A good block is read and written. -/
theorem bytes_cons_healthy {b : Block} (h : b.healthy = true) (hbad : b.bad = false) :
    b.takes = true ∧ bytes (b :: l) = b.stored.data ++ bytes l := by
  obtain ⟨⟨⟨htakes, hread⟩, hecc⟩, hzero⟩ : ((b.takes = true ∧ b.stored.readable = true) ∧
      b.stored.ecc = false) ∧ zero b.stored.data = false := by
    simpa [Block.healthy, hbad] using h
  exact ⟨htakes, by simp [bytes, readable, hbad, hread, hecc, hzero]⟩

/-- What is behind so many good blocks. -/
theorem bytes_behind (hl : Sized eraseSize l) (hhealthy : ∀ b ∈ l, b.healthy = true) (n : Nat) :
    bytes (behind n l) = (bytes l).drop (n * eraseSize) := by
  induction l generalizing n with
  | nil => simp [bytes, readable]
  | cons b l ih =>
    cases n with
    | zero => rw [behind, Nat.zero_mul, List.drop_zero]
    | succ n =>
      have hrest := ih (fun b hb => hl b (List.mem_cons_of_mem _ hb))
        fun b hb => hhealthy b (List.mem_cons_of_mem _ hb)
      cases hbad : b.bad with
      | true =>
        rw [behind, if_neg (by simp [Block.takes, hbad]), hrest, bytes_cons_bad hbad]
      | false =>
        -- a block that is used is one that reads, so that both walks go on behind it
        obtain ⟨htakes, hbytes⟩ := bytes_cons_healthy (l := l) (hhealthy b List.mem_cons_self) hbad
        have hlen := (hl b List.mem_cons_self).1
        have hgone : b.stored.data.drop (n * eraseSize + eraseSize) = [] := by
          rw [List.drop_eq_nil_iff]
          omega
        rw [behind, if_pos htakes, hrest, hbytes, Nat.add_mul, Nat.one_mul, List.drop_append, hgone,
          List.nil_append, hlen, Nat.add_sub_cancel]

/-- No good block is given up. -/
theorem givenUp_healthy (hhealthy : ∀ b ∈ l, b.healthy = true) (n : Nat) : givenUp n l = [] := by
  induction l generalizing n with
  | nil => exact givenUp_nil n
  | cons b l ih =>
    have hrest := ih fun b hb => hhealthy b (List.mem_cons_of_mem _ hb)
    cases n with
    | zero => rw [givenUp]
    | succ n =>
      cases hbad : b.bad with
      | true => rw [givenUp, if_neg (by simp [Block.takes, hbad]), if_pos hbad, hrest]
      | false =>
        obtain ⟨htakes, -⟩ := bytes_cons_healthy (l := l) (hhealthy b List.mem_cons_self) hbad
        rw [givenUp, if_pos htakes, hrest]

end Healthy

/-- The blocks behind the offset are of the partition. -/
theorem MtdPartition.mem_sought {b : Block} (h : b ∈ p.sought offset) : b ∈ p.blocks := by
  unfold sought beyond at h
  cases hseek : readBlocks (offset / p.eraseSize) ⟨[], p.blocks⟩ with
  | none =>
    rw [hseek] at h
    exact absurd h List.not_mem_nil
  | some r =>
    rw [hseek] at h
    obtain ⟨⟨mid, hrest, -⟩, -⟩ := readBlocks_some (c := ⟨[], p.blocks⟩) p.sized hseek
    dsimp only at hrest
    rw [hrest]
    exact List.mem_append_right mid h

/-- Among healthy blocks, wherever the bad ones are, the two walks keep in step. -/
theorem MtdPartition.inStep_of_healthy (hhealthy : ∀ b ∈ p.blocks, b.healthy = true)
    (length : Nat) : p.InStep offset length := by
  have hbehind : ∀ n, bytes (Mtd.behind n (p.sought offset)) =
      (bytes (p.sought offset)).drop (n * p.eraseSize) :=
    bytes_behind (fun b hb => p.sized b (mem_sought hb)) fun b hb => hhealthy b (mem_sought hb)
  constructor
  · dsimp only
    rw [hbehind, List.drop_drop,
      Nat.add_sub_cancel' (touched_le p.erasePos (offset % p.eraseSize) length)]
    exact List.take_prefix _ _
  · refine ⟨[], ?_⟩
    rw [List.append_nil, hbehind]

/-- On good blocks the contract is kept. -/
theorem mtdWrite_healthy (hhealthy : ∀ b ∈ p.blocks, b.healthy = true)
    (hwrite : p.mtdWrite offset data = some p')
    (hnonzero : Nonzero p.eraseSize (touched p.eraseSize (offset % p.eraseSize) data.length)
      (composed p.eraseSize (offset % p.eraseSize) data (p.sought offset))) :
    Kept p p' offset data := by
  have hplain : p.Plain offset data := by
    refine ⟨hnonzero, fun b hb => ?_⟩
    rw [givenUp_healthy fun b hb => hhealthy b (MtdPartition.mem_sought hb)] at hb
    exact absurd hb List.not_mem_nil
  exact (hplain.kept_iff hwrite).mpr (MtdPartition.inStep_of_healthy hhealthy data.length)

/-- A write keeps the other bytes, and its data reads back, when `write_block` keeps in
step with `read_block`, and only then: at least where no block that it puts together is
all zero and no block that it gives up reads. -/
theorem mtdWrite_keeps (hwrite : p.mtdWrite offset data = some p') :
    (p.Plain offset data ∧ p.InStep offset data.length → Kept p p' offset data) ∧
      (p.Plain offset data → Kept p p' offset data → p.InStep offset data.length) :=
  ⟨fun h => (h.1.kept_iff hwrite).mpr h.2, fun h => (h.kept_iff hwrite).mp⟩

/-- A block in order, all of whose bytes are `b`. -/
def filled (eraseSize : Nat) (b : UInt8) : Block where
  bad := false
  stored := ⟨List.replicate eraseSize b, true, false⟩
  attempts := (.done, .done)
  left := ⟨List.replicate eraseSize b, true, false⟩

/-- A partition of good blocks, each full of one byte. -/
def filledStore (eraseSize : Nat) (herase : 0 < eraseSize) (bs : List UInt8) : MtdPartition where
  eraseSize := eraseSize
  blocks := bs.map (filled eraseSize)
  erasePos := herase
  sized := by
    intro b hb
    obtain ⟨c, -, rfl⟩ := List.mem_map.mp hb
    exact ⟨List.length_replicate, List.length_replicate⟩

theorem mtdWrite_keeps_filled : ∃ p',
    (filledStore 2 Nat.two_pos [1, 2]).mtdWrite 1 [9, 9] = some p' ∧
      Kept (filledStore 2 Nat.two_pos [1, 2]) p' 1 [9, 9] :=
  ⟨_, rfl, (mtdWrite_keeps rfl).1 ⟨⟨by decide, by decide⟩, ⟨by decide, by decide⟩⟩⟩

end Kept

/-! ## An all-zero block in front -/

section ZeroBlock

variable {eraseSize : Nat}

/-- A block of one byte is zero if the byte is. -/
theorem zero_replicate (herase : 0 < eraseSize) (b : UInt8) :
    zero (List.replicate eraseSize b) = (b == 0) := by
  rw [zero, List.all_replicate, if_neg (by omega)]
  rfl

/-- What can be read of a block of one byte. -/
theorem bytes_cons_filled (herase : 0 < eraseSize) (b : UInt8) (r : List Block) :
    bytes (filled eraseSize b :: r) =
      if b = 0 then bytes r else List.replicate eraseSize b ++ bytes r := by
  split
  next h =>
    refine bytes_cons_silent ?_ r
    simp [filled, Stored.silent, zero_replicate herase, h]
  next h =>
    refine bytes_cons_written (b := filled eraseSize b) rfl ?_ r
    simp [zero_replicate herase, h]

/-- `read_block` goes past the block of zeros, and `write_block` writes to it. -/
theorem mtdWrite_zeroBlock (herase : 0 < eraseSize) :
    ∃ p', (filledStore eraseSize herase [0, 1, 2]).mtdWrite 0 (List.replicate eraseSize 9) = some p' ∧
      bytes p'.blocks = List.replicate eraseSize 9 ++
        bytes (filledStore eraseSize herase [0, 1, 2]).blocks := by
  have hne : List.replicate eraseSize (9 : UInt8) ≠ [] := by
    simp
    omega
  have hdata : (filledStore eraseSize herase [0, 1, 2]).writeData 0 (List.replicate eraseSize 9) =
      some ⟨[{ filled eraseSize 0 with stored := ⟨List.replicate eraseSize 9, true, false⟩ }],
        [filled eraseSize 1, filled eraseSize 2]⟩ := by
    unfold MtdPartition.writeData
    rw [if_neg hne]
    simp [filledStore, readBlocks, writeFrom, writeFirst, Nat.div_self herase, writeBlocks,
      Cursor.writeBlock, writeBlockFrom, filled, writeLast]
  obtain ⟨p', hwrite, hblocks⟩ : ∃ p', (filledStore eraseSize herase [0, 1, 2]).mtdWrite 0
      (List.replicate eraseSize 9) = some p' ∧ p'.blocks =
        [{ filled eraseSize 0 with stored := ⟨List.replicate eraseSize 9, true, false⟩ },
          filled eraseSize 1, filled eraseSize 2] := by
    unfold MtdPartition.mtdWrite
    split
    next hnone => exact absurd (hdata.symm.trans hnone) (by simp)
    next c hc =>
      obtain rfl := Option.some_inj.mp (hdata.symm.trans hc)
      exact ⟨_, rfl, rfl⟩
  refine ⟨p', hwrite, ?_⟩
  rw [hblocks, bytes_cons_written rfl (by simp [zero_replicate herase])]
  unfold filledStore
  dsimp only [List.map]
  rw [bytes_cons_filled herase 0, if_pos rfl]

/-- The blocks behind have moved. -/
theorem not_kept_zeroBlock (herase : 0 < eraseSize) :
    ∃ p', (filledStore eraseSize herase [0, 1, 2]).mtdWrite 0 (List.replicate eraseSize 9) = some p' ∧
      ¬ Kept (filledStore eraseSize herase [0, 1, 2]) p' 0 (List.replicate eraseSize 9) := by
  obtain ⟨p', hwrite, hbytes⟩ := mtdWrite_zeroBlock herase
  refine ⟨p', hwrite, fun hkept => ?_⟩
  have hblocks : bytes (filledStore eraseSize herase [0, 1, 2]).blocks =
      List.replicate eraseSize 1 ++ (List.replicate eraseSize 2 ++ []) := by
    unfold filledStore
    dsimp only [List.map]
    rw [bytes_cons_filled herase, bytes_cons_filled herase, bytes_cons_filled herase]
    rfl
  have hbefore : (filledStore eraseSize herase [0, 1, 2]).mtdRead eraseSize 1 = some [2] := by
    rw [mtdRead_one, hblocks, List.getElem?_append_right (by simp)]
    simp [herase]
  have hafter := hkept.others eraseSize 2 (.inr (by simp)) hbefore
  rw [mtdRead_one, hbytes, hblocks, List.getElem?_append_right (by simp)] at hafter
  simp [herase] at hafter

/-- `erase_size` -/
def eraseSizeDefault : Nat := 131072

theorem mtdWrite_fails_zeroBlock : ∃ p',
    (filledStore eraseSizeDefault (Nat.succ_pos _) [0, 1, 2]).mtdWrite 0
      (List.replicate eraseSizeDefault 9) = some p' ∧
    ¬ Kept (filledStore eraseSizeDefault (Nat.succ_pos _) [0, 1, 2]) p' 0
      (List.replicate eraseSizeDefault 9) :=
  not_kept_zeroBlock _

end ZeroBlock

end AndroidLearn.Mtd
