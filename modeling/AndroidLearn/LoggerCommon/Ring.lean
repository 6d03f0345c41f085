import AndroidLearn.LoggerCommon.Index

/-!
# The ring invariant of the index

`Shape h f`: the header `h` (in memory, or on disk) and the slots of the file `f` form a
cyclic buffer. Both cursors are in range; the slots from the tail up to but excluding the
head name files; the slots strictly outside the interval are empty. The head slot itself
may be empty, which happens after a rebuild only. `Ring` adds that the recorded total is
the exact sum of the slot sizes, which takes sizes that sum to less than `2 ^ 64`; nothing
else depends on it.

Positions are counted from the tail on (`Lib.Cyclic`), so that no lemma has a case for the
wrap-around.

Each operation gets one lemma that says what it computes (`_eq`, no guard left) and one
that it leaves a shape. With the sum exact, the guarded subtraction is a plain one: no
slot is larger than the total (`Ring.le_total`).
-/

namespace AndroidLearn.LoggerCommon

open Cyclic Finset

/-- Sum of the sizes recorded in all slots. -/
def slotSum (f : Bytes) : Nat := ∑ i ∈ range logdataCount, (slotAt f i).size

/-- The cyclic buffer, for a header and the slots of a file. Slot `i` is in the
cyclic interval `[tail, head)` when it is fewer steps from the tail than the
head is. -/
structure Shape (h : LogdataHeader) (f : Bytes) : Prop where
  length : f.length = indexSize
  reserved : h.reserved.length = 8
  magic : h.magic = logdataMagic
  entryCount : h.entryCount = logdataCount
  entrySize : h.entrySize = sizeofLogdata
  headerSize : h.headerSize = sizeofHeader
  head_lt : h.indexHead < logdataCount
  tail_lt : h.indexTail < logdataCount
  total_lt : h.totalSize < ulongMod
  named : ∀ i < logdataCount,
    dist logdataCount h.indexTail i < dist logdataCount h.indexTail h.indexHead →
      (slotAt f i).Occupied
  outside : ∀ i < logdataCount,
    dist logdataCount h.indexTail h.indexHead < dist logdataCount h.indexTail i →
      (slotAt f i).name = [] ∧ (slotAt f i).size = 0
  head_empty : (slotAt f h.indexHead).name = [] → (slotAt f h.indexHead).size = 0

/-- A cyclic buffer whose recorded total is exact. -/
structure Ring (h : LogdataHeader) (f : Bytes) : Prop extends Shape h f where
  total : h.totalSize = slotSum f

/-- What the operations need in order not to fail: a file with every slot and
cursors that address one. A ring without its contents. -/
structure Usable (h : LogdataHeader) (f : Bytes) : Prop where
  length : f.length = indexSize
  fits : h.Fits
  magic : h.magic = logdataMagic
  entryCount : h.entryCount = logdataCount
  entrySize : h.entrySize = sizeofLogdata
  headerSize : h.headerSize = sizeofHeader
  head_lt : h.indexHead < logdataCount
  tail_lt : h.indexTail < logdataCount

/-- An index file whose own header closes the cyclic buffer. -/
def Shaped (f : Bytes) : Prop := Shape (hdr f) f

/-- And whose total is exact. -/
def WellFormed (f : Bytes) : Prop := Ring (hdr f) f

theorem WellFormed.shaped {f : Bytes} (hw : WellFormed f) : Shaped f := hw.toShape

/-! ## Reading the slots after a write -/

/-- A slot, once one was written. -/
theorem slotAt_writeSlot {f : Bytes} {d : Logdata} {i j : Nat} (hf : f.length = indexSize)
    (hi : i < logdataCount) (hj : j < logdataCount) (hd : d.Fits) :
    slotAt (writeSlot f (slotOffset i) d) j = if j = i then d else slotAt f j := by
  by_cases hij : j = i
  · rw [if_pos hij, hij, slotAt_writeSlot_same hf hi hd]
  · rw [if_neg hij, slotAt_writeSlot_ne hf hi hj hd hij]

/-- A header does not change the sizes. -/
theorem slotSum_writeHeader {f : Bytes} {h : LogdataHeader} (hf : f.length = indexSize)
    (hh : h.Fits) : slotSum (writeHeader f h) = slotSum f := by
  apply sum_congr rfl
  intro i hi
  rw [slotAt_writeHeader hf hh (mem_range.mp hi)]

/-- Overwriting one slot trades its size for the new one in the sum. -/
theorem slotSum_writeSlot {f : Bytes} {d : Logdata} {i : Nat} (hf : f.length = indexSize)
    (hi : i < logdataCount) (hd : d.Fits) :
    slotSum (writeSlot f (slotOffset i) d) + (slotAt f i).size = slotSum f + d.size := by
  have hupd : slotSum (writeSlot f (slotOffset i) d)
      = ∑ k ∈ range logdataCount, Function.update (fun k => (slotAt f k).size) i d.size k := by
    apply sum_congr rfl
    intro k hk
    rw [slotAt_writeSlot hf hi (mem_range.mp hk) hd, Function.update_apply]
    split
    · rfl
    · rfl
  rw [hupd]
  exact sum_update (fun k => (slotAt f k).size) hi

theorem size_le_slotSum {f : Bytes} {i : Nat} (hi : i < logdataCount) :
    (slotAt f i).size ≤ slotSum f :=
  le_sum (fun k => (slotAt f k).size) hi

/-- The subtraction of the source does not go below zero. -/
theorem guardedSub_eq (total size : Nat) : guardedSub total size = total - size := by
  unfold guardedSub
  split
  · rfl
  · omega

@[simp] theorem unlink_index (s : Store) (n : Name) : (s.unlink n).index = s.index := by
  unfold Store.unlink
  split <;> rfl

namespace Usable

variable {h : LogdataHeader} {f : Bytes}

theorem readSlot_head (hu : Usable h f) :
    readSlot f (slotOffset h.indexHead % ulongMod) = some (slotAt f h.indexHead) := by
  rw [slotOffset_lt_ulongMod hu.head_lt, readSlot_eq hu.length hu.head_lt]

theorem readSlot_tail (hu : Usable h f) :
    readSlot f (slotOffset h.indexTail % ulongMod) = some (slotAt f h.indexTail) := by
  rw [slotOffset_lt_ulongMod hu.tail_lt, readSlot_eq hu.length hu.tail_lt]

end Usable

namespace Shape

variable {h : LogdataHeader} {f : Bytes}

/-- The header of such an index can be written. -/
theorem fits (hs : Shape h f) : h.Fits where
  magic := by rw [hs.magic]; decide
  entryCount := by rw [hs.entryCount]; exact logdataCount_lt_ulongMod
  entrySize := by rw [hs.entrySize]; decide
  indexHead := Nat.lt_trans hs.head_lt logdataCount_lt_ulongMod
  indexTail := Nat.lt_trans hs.tail_lt logdataCount_lt_ulongMod
  totalSize := hs.total_lt
  headerSize := by rw [hs.headerSize]; decide
  reserved := hs.reserved

theorem usable (hs : Shape h f) : Usable h f :=
  ⟨hs.length, hs.fits, hs.magic, hs.entryCount, hs.entrySize, hs.headerSize, hs.head_lt,
    hs.tail_lt⟩

/-- The slot of the tail has a name. -/
theorem named_tail (hs : Shape h f) (hne : h.indexHead ≠ h.indexTail) :
    (slotAt f h.indexTail).Occupied := by
  apply hs.named _ hs.tail_lt
  rw [dist_self]
  exact Nat.pos_of_ne_zero fun h0 => hne ((dist_eq_zero hs.tail_lt).mp h0)

/-- Writing the header back closes the buffer on disk. -/
theorem writeHeader_shaped (hs : Shape h f) : Shaped (writeHeader f h) := by
  have hlen := length_writeHeader hs.length hs.fits
  have hhdr := hdr_writeHeader hs.length hs.fits
  have hslot : ∀ i < logdataCount, slotAt (writeHeader f h) i = slotAt f i :=
    fun i hi => slotAt_writeHeader hs.length hs.fits hi
  unfold Shaped
  rw [hhdr]
  exact
    { hs with
      length := hlen
      named := fun i hi hd => by rw [hslot i hi]; exact hs.named i hi hd
      outside := fun i hi hd => by rw [hslot i hi]; exact hs.outside i hi hd
      head_empty := by rw [hslot _ hs.head_lt]; exact hs.head_empty }

/-- The buffer looks at the file through its length and its slots only. -/
theorem congr {g : Bytes} (hs : Shape h f) (hlen : g.length = f.length)
    (hslot : ∀ i < logdataCount, slotAt g i = slotAt f i) : Shape h g :=
  { hs with
    length := hlen.trans hs.length
    named := fun i hi hd => by rw [hslot i hi]; exact hs.named i hi hd
    outside := fun i hi hd => by rw [hslot i hi]; exact hs.outside i hi hd
    head_empty := by rw [hslot _ hs.head_lt]; exact hs.head_empty }

end Shape

namespace Ring

variable {h : LogdataHeader} {f : Bytes}

/-- No slot is larger than the total, so the guarded subtraction is exact. -/
theorem le_total (hr : Ring h f) {i : Nat} (hi : i < logdataCount) :
    (slotAt f i).size ≤ h.totalSize := by
  rw [hr.total]
  exact size_le_slotSum hi

/-- An index whose header is written is well formed. -/
theorem writeHeader_wellFormed (hr : Ring h f) : WellFormed (writeHeader f h) := by
  have hs := hr.toShape.writeHeader_shaped
  unfold WellFormed
  refine { hs with total := ?_ }
  rw [hdr_writeHeader hr.length hr.fits, slotSum_writeHeader hr.length hr.fits]
  exact hr.total

end Ring

/-! ## `logdataRemoveFile` -/

/-- Clearing the tail slot and stepping over it keeps the shape. -/
theorem Shape.removed {h : LogdataHeader} {f : Bytes} (hs : Shape h f)
    (hne : h.indexHead ≠ h.indexTail) {t : Nat} (ht : t < ulongMod) :
    Shape { h with totalSize := t, indexTail := next logdataCount h.indexTail }
      (writeSlot f (slotOffset h.indexTail) (slotAt f h.indexTail).clear) := by
  have hfit := Logdata.clear_fits (slotAt_fits hs.length hs.tail_lt)
  have hslot : ∀ j < logdataCount,
      slotAt (writeSlot f (slotOffset h.indexTail) (slotAt f h.indexTail).clear) j
        = if j = h.indexTail then (slotAt f h.indexTail).clear else slotAt f j :=
    fun j hj => slotAt_writeSlot hs.length hs.tail_lt hj hfit
  -- every slot but the old tail is one step closer to the new one
  have hdh := dist_next_left hs.tail_lt hs.head_lt hne
  have hself := dist_next_self hs.tail_lt
  refine
    { hs with
      length := length_writeSlot hs.length hs.tail_lt hfit
      tail_lt := next_lt logdataCount_pos
      total_lt := ht
      named := ?_
      outside := ?_
      head_empty := ?_ }
  · intro i hi hd
    dsimp only at hd
    have hit : i ≠ h.indexTail := by
      rintro rfl
      have hlt := dist_lt hs.tail_lt hs.head_lt
      omega
    have hdi := dist_next_left hs.tail_lt hi hit
    rw [hslot i hi, if_neg hit]
    exact hs.named i hi (by omega)
  · intro i hi hd
    dsimp only at hd
    rw [hslot i hi]
    by_cases hit : i = h.indexTail
    · rw [if_pos hit]
      exact ⟨Logdata.clear_name _, Logdata.clear_size _⟩
    · rw [if_neg hit]
      have hdi := dist_next_left hs.tail_lt hi hit
      exact hs.outside i hi (by omega)
  · dsimp only
    rw [hslot _ hs.head_lt, if_neg hne]
    exact hs.head_empty

section Remove

variable {s : Store} {h : LogdataHeader}

theorem removeFile_eq_zero (heq : h.indexHead = h.indexTail) :
    logdataRemoveFile s h = ⟨0, s, h⟩ := by
  rw [logdataRemoveFile, if_pos heq]

/-- A removal from a usable index succeeds. -/
theorem removeFile_eq_one (hu : Usable h s.index) (hne : h.indexHead ≠ h.indexTail) :
    logdataRemoveFile s h =
      ⟨1, { s.unlink (slotAt s.index h.indexTail).name with
            index := writeSlot s.index (slotOffset h.indexTail)
              (slotAt s.index h.indexTail).clear },
          { h with
            totalSize := h.totalSize - (slotAt s.index h.indexTail).size
            indexTail := next logdataCount h.indexTail }⟩ := by
  rw [logdataRemoveFile, if_neg hne]
  dsimp only
  rw [hu.readSlot_tail]
  simp only [guardedSub_eq, hu.entryCount, unlink_index, slotOffset_lt_ulongMod hu.tail_lt]

/-- It leaves the index as it should be. -/
theorem removeFile_shape (hs : Shape h s.index) :
    Shape (logdataRemoveFile s h).hdr (logdataRemoveFile s h).store.index := by
  by_cases heq : h.indexHead = h.indexTail
  · rw [removeFile_eq_zero heq]
    exact hs
  · rw [removeFile_eq_one hs.usable heq]
    exact hs.removed heq (Nat.lt_of_le_of_lt (Nat.sub_le ..) hs.total_lt)

/-- The total drops by exactly the size of the removed slot. -/
theorem removeFile_total (hr : Ring h s.index) (hne : h.indexHead ≠ h.indexTail) :
    (logdataRemoveFile s h).hdr.totalSize + (slotAt s.index h.indexTail).size = h.totalSize := by
  rw [removeFile_eq_one hr.usable hne]
  exact Nat.sub_add_cancel (hr.le_total hr.tail_lt)

/-- Removing keeps the ring. -/
theorem removeFile_ring (hr : Ring h s.index) :
    Ring (logdataRemoveFile s h).hdr (logdataRemoveFile s h).store.index := by
  refine { removeFile_shape hr.toShape with total := ?_ }
  by_cases heq : h.indexHead = h.indexTail
  · rw [removeFile_eq_zero heq]
    exact hr.total
  · have htotal := removeFile_total hr heq
    have hclear := Logdata.clear_fits (slotAt_fits hr.length hr.tail_lt)
    have hsum := slotSum_writeSlot hr.length hr.tail_lt hclear
    have htot := hr.total
    rw [removeFile_eq_one hr.usable heq] at htotal ⊢
    rw [Logdata.clear_size] at hsum
    dsimp only at htotal ⊢
    omega

end Remove

/-! ## The head slot: refresh and add -/

namespace Shape

variable {h : LogdataHeader} {f : Bytes} {d : Logdata}

/-- Overwriting the head slot with a named entry keeps the shape, whatever the
slot held. -/
theorem filled (hs : Shape h f) (hd : d.Fits) (hocc : d.Occupied) {t : Nat}
    (ht : t < ulongMod) :
    Shape { h with totalSize := t } (writeSlot f (slotOffset h.indexHead) d) := by
  have hslot : ∀ j < logdataCount, slotAt (writeSlot f (slotOffset h.indexHead) d) j
      = if j = h.indexHead then d else slotAt f j :=
    fun j hj => slotAt_writeSlot hs.length hs.head_lt hj hd
  refine
    { hs with
      length := length_writeSlot hs.length hs.head_lt hd
      total_lt := ht
      named := ?_
      outside := ?_
      head_empty := ?_ }
  · intro i hi hdi
    dsimp only at hdi
    have hih : i ≠ h.indexHead := by
      rintro rfl
      omega
    rw [hslot i hi, if_neg hih]
    exact hs.named i hi hdi
  · intro i hi hdi
    dsimp only at hdi
    have hih : i ≠ h.indexHead := by
      rintro rfl
      omega
    rw [hslot i hi, if_neg hih]
    exact hs.outside i hi hdi
  · dsimp only
    rw [hslot _ hs.head_lt, if_pos rfl]
    intro hempty
    exact absurd hempty hocc

/-- Stepping the head onto the next slot when the buffer is not full. The new
head slot is empty. -/
theorem stepped (hs : Shape h f) (hocc : (slotAt f h.indexHead).Occupied)
    (hfull : next logdataCount h.indexHead ≠ h.indexTail) :
    Shape { h with indexHead := next logdataCount h.indexHead } f ∧
      (slotAt f (next logdataCount h.indexHead)).name = [] ∧
      (slotAt f (next logdataCount h.indexHead)).size = 0 := by
  have hdn := dist_next hs.tail_lt hs.head_lt hfull
  have hnlt : next logdataCount h.indexHead < logdataCount := next_lt logdataCount_pos
  have hempty := hs.outside _ hnlt (by omega)
  refine ⟨{ hs with head_lt := hnlt, named := ?_, outside := ?_, head_empty := ?_ }, hempty⟩
  · intro i hi hd
    dsimp only at hd
    rcases Nat.lt_or_ge (dist logdataCount h.indexTail i)
      (dist logdataCount h.indexTail h.indexHead) with hlt | hge
    · exact hs.named i hi hlt
    · have hih : i = h.indexHead := dist_inj hs.tail_lt hi hs.head_lt (by omega)
      rw [hih]
      exact hocc
  · intro i hi hd
    dsimp only at hd
    exact hs.outside i hi (by omega)
  · intro _
    exact hempty.2

end Shape

section Refresh

variable {s : Store} {h : LogdataHeader}

/-- The refresh of the head's recorded size keeps the shape. -/
theorem refresh_shape (hs : Shape h s.index) :
    Shape
      (logdataRefresh s h (slotOffset h.indexHead) (slotAt s.index h.indexHead)).2
      (logdataRefresh s h (slotOffset h.indexHead) (slotAt s.index h.indexHead)).1.index := by
  unfold logdataRefresh
  split
  next hocc =>
    have hsz := slotAt_fits hs.length hs.head_lt
    have hd : Logdata.Fits
        { slotAt s.index h.indexHead with
          size := fileSize s.disk (slotAt s.index h.indexHead).name } :=
      ⟨hsz.file, UInt64.toNat_lt _⟩
    exact hs.filled hd hocc (Nat.mod_lt _ (Nat.two_pow_pos 64))
  next => exact hs

/-- Reading the size of the current file anew keeps the ring. -/
theorem refresh_ring (hr : Ring h s.index)
    (hfit : slotSum s.index + fileSize s.disk (slotAt s.index h.indexHead).name < ulongMod) :
    Ring
      (logdataRefresh s h (slotOffset h.indexHead) (slotAt s.index h.indexHead)).2
      (logdataRefresh s h (slotOffset h.indexHead) (slotAt s.index h.indexHead)).1.index := by
  refine { refresh_shape hr.toShape with total := ?_ }
  unfold logdataRefresh
  split
  next hocc =>
    have hle := hr.le_total hr.head_lt
    have htot := hr.total
    have hsz := slotAt_fits hr.length hr.head_lt
    have hd : Logdata.Fits
        { slotAt s.index h.indexHead with
          size := fileSize s.disk (slotAt s.index h.indexHead).name } :=
      ⟨hsz.file, UInt64.toNat_lt _⟩
    have hsum := slotSum_writeSlot hr.length hr.head_lt hd
    dsimp only at hsum ⊢
    rw [guardedSub_eq, Nat.mod_eq_of_lt (by omega)]
    omega
  next => exact hr.total

end Refresh

end AndroidLearn.LoggerCommon
