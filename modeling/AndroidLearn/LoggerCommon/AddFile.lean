import AndroidLearn.LoggerCommon.Journal

/-!
# `logger_common_logdata_add_file` is the queue's `add`

Three cases, as in the source. The head slot is empty: the new file goes there. It is
taken and the next slot is free: the head steps onto the next slot. The next slot is the
tail: the ring is full, the tail is pushed ahead and its file unlinked. The last case is a
removal followed by the second one (`Shape.removed`, `Shape.stepped`), which is how the
wrap-around is dealt with.

`addPlan_spec` is the call up to its two writes, and `addFile_spec` the call as a whole:
on the queue that `Journal` reads off the ring it is `Journal.add`, and on the disk it
unlinks the evicted file and no other. `addFile_wellFormed` is about the exact total,
which needs the sizes to add up to less than 2^64.
-/

namespace AndroidLearn.LoggerCommon

open Cyclic

/-- The store after the eviction that making room for a new file takes. -/
def Store.evict (s : Store) : Store :=
  match (indexJournal s.index).evicted logdataCount with
  | some e => s.unlink e.name
  | none => s

/-- The size that making room takes off the recorded total. -/
def evictedSize (f : Bytes) : Nat := ((indexJournal f).evicted logdataCount).elim 0 Entry.size

/-- With room left nothing is evicted. -/
theorem evictedSize_of_not_full {f : Bytes} (hroom : ¬ (indexJournal f).Full logdataCount) :
    evictedSize f = 0 := by
  unfold evictedSize Journal.evicted
  rw [if_neg hroom]
  rfl

theorem evict_of_not_full {s : Store} (hroom : ¬ (indexJournal s.index).Full logdataCount) :
    s.evict = s := by
  unfold Store.evict Journal.evicted
  rw [if_neg hroom]

section Plan

variable {s : Store} {n : LogPath}

/-- `unlink` takes one file. -/
theorem unlink_disk (s : Store) (n : Name) : (s.unlink n).disk = Function.update s.disk n none := by
  unfold Store.unlink
  split
  next => rfl
  next hnone =>
    have hn : s.disk n = none := by simpa using hnone
    rw [← hn, Function.update_eq_self]

/-- It makes no file larger. -/
theorem unlink_fileSize_le (s : Store) (n m : Name) :
    fileSize (s.unlink n).disk m ≤ fileSize s.disk m := by
  rw [unlink_disk]
  unfold fileSize
  by_cases hmn : m = n
  · rw [hmn, Function.update_self]
    exact Nat.zero_le _
  · rw [Function.update_of_ne hmn]

/-- The evicted log is a closed one. -/
theorem evict_disk_of_not_mem {s : Store} {m : Name}
    (hm : m ∉ (indexJournal s.index).closed.map Entry.name) : s.evict.disk m = s.disk m := by
  unfold Store.evict
  split
  next x hx =>
    have hmem : x.name ∈ (indexJournal s.index).closed.map Entry.name := by
      unfold Journal.evicted at hx
      split at hx
      next => exact List.mem_map_of_mem (List.mem_of_mem_head? hx)
      next => exact absurd hx (by simp)
    have hne : m ≠ x.name := by
      intro heq
      rw [heq] at hm
      exact hm hmem
    rw [unlink_disk, Function.update_of_ne hne]
  next => rfl

theorem evict_fileSize_le (s : Store) (m : Name) : fileSize s.evict.disk m ≤ fileSize s.disk m := by
  unfold Store.evict
  split
  next => exact unlink_fileSize_le s _ m
  next => exact Nat.le_refl _

/-- The head slot is empty. -/
theorem addPlan_empty (hs : Shaped s.index)
    (hocc : ¬ (slotAt s.index (hdr s.index).indexHead).Occupied) :
    logdataAddFilePlan s n = some (.finish s (slotOffset (hdr s.index).indexHead)
      (slotAt s.index (hdr s.index).indexHead) (hdr s.index) n) := by
  unfold logdataAddFilePlan
  rw [readHeader_eq hs.length]
  dsimp only
  rw [if_neg (not_not.mpr hs.magic), hs.usable.readSlot_head]
  dsimp only
  rw [if_neg hocc, slotOffset_lt_ulongMod hs.head_lt]

/-- The head slot is taken; what follows is decided at the next slot. -/
theorem addPlan_occupied (hu : Usable (hdr s.index) s.index)
    (hocc : (slotAt s.index (hdr s.index).indexHead).Occupied)
    (hlt : (advanceHead (hdr s.index)).indexHead < logdataCount) :
    logdataAddFilePlan s n =
      let h := advanceHead (hdr s.index)
      let d := slotAt s.index h.indexHead
      if d.Occupied then
        some (.finish (s.unlink d.name) (slotOffset h.indexHead) d
          { h with totalSize := h.totalSize - d.size } n)
      else some (.finish s (slotOffset h.indexHead) d h n) := by
  unfold logdataAddFilePlan
  rw [readHeader_eq hu.length]
  dsimp only
  rw [if_neg (not_not.mpr hu.magic), hu.readSlot_head]
  dsimp only
  rw [if_pos hocc, slotOffset_lt_ulongMod hlt, readSlot_eq hu.length hlt]
  simp only [guardedSub_eq]

/-- With room left the head goes on alone. -/
theorem advanceHead_notFull {h : LogdataHeader} {f : Bytes} (hs : Shape h f)
    (hfull : next logdataCount h.indexHead ≠ h.indexTail) :
    advanceHead h = { h with indexHead := next logdataCount h.indexHead } := by
  have htail := hs.tail_lt
  unfold advanceHead
  simp only [hs.entryCount]
  rw [if_neg hfull, if_neg (by omega)]

/-- Otherwise the tail goes on with it. -/
theorem advanceHead_full {h : LogdataHeader} {f : Bytes} (hs : Shape h f)
    (hfull : next logdataCount h.indexHead = h.indexTail) :
    advanceHead h = { h with
      indexHead := h.indexTail
      indexTail := next logdataCount h.indexTail } := by
  unfold advanceHead
  simp only [hs.entryCount]
  rw [if_pos hfull, hfull]
  rfl

/-- The next slot is free. -/
theorem addPlan_notFull (hs : Shaped s.index)
    (hocc : (slotAt s.index (hdr s.index).indexHead).Occupied)
    (hfull : next logdataCount (hdr s.index).indexHead ≠ (hdr s.index).indexTail) :
    logdataAddFilePlan s n =
      some (.finish s (slotOffset (next logdataCount (hdr s.index).indexHead))
        (slotAt s.index (next logdataCount (hdr s.index).indexHead))
        { hdr s.index with indexHead := next logdataCount (hdr s.index).indexHead } n) := by
  have hadv := advanceHead_notFull hs hfull
  have hempty := (hs.stepped hocc hfull).2.1
  rw [addPlan_occupied hs.usable hocc (by rw [hadv]; exact next_lt logdataCount_pos), hadv]
  dsimp only
  rw [if_neg (Logdata.not_occupied_iff.mpr hempty)]

/-- A full ring is not empty. -/
theorem head_ne_tail_of_full {h : LogdataHeader} {f : Bytes} (hs : Shape h f)
    (hfull : next logdataCount h.indexHead = h.indexTail) : h.indexHead ≠ h.indexTail := by
  intro heq
  have hcount := (next_eq_iff hs.tail_lt hs.head_lt).mp hfull
  rw [heq, dist_self, logdataCount_eq] at hcount
  omega

/-- The next slot is the tail, whose file goes. -/
theorem addPlan_full (hs : Shaped s.index)
    (hocc : (slotAt s.index (hdr s.index).indexHead).Occupied)
    (hfull : next logdataCount (hdr s.index).indexHead = (hdr s.index).indexTail) :
    logdataAddFilePlan s n =
      some (.finish (s.unlink (slotAt s.index (hdr s.index).indexTail).name)
        (slotOffset (hdr s.index).indexTail) (slotAt s.index (hdr s.index).indexTail)
        { hdr s.index with
          indexHead := (hdr s.index).indexTail
          indexTail := next logdataCount (hdr s.index).indexTail
          totalSize := (hdr s.index).totalSize
            - (slotAt s.index (hdr s.index).indexTail).size } n) := by
  have hadv := advanceHead_full hs hfull
  have hne := head_ne_tail_of_full hs hfull
  rw [addPlan_occupied hs.usable hocc (by rw [hadv]; exact hs.tail_lt), hadv]
  dsimp only
  rw [if_pos (hs.named_tail hne)]

/-- On a full buffer the tail slot is overwritten. The slots are those of a
buffer from which the tail was removed first, onto whose cleared slot the head
then stepped. -/
theorem full_shape (hs : Shaped s.index)
    (hocc : (slotAt s.index (hdr s.index).indexHead).Occupied)
    (hfull : next logdataCount (hdr s.index).indexHead = (hdr s.index).indexTail) :
    let t := (hdr s.index).indexTail
    let p := AddPlan.finish (s.unlink (slotAt s.index t).name) (slotOffset t) (slotAt s.index t)
      { hdr s.index with
        indexHead := t
        indexTail := next logdataCount t
        totalSize := (hdr s.index).totalSize - (slotAt s.index t).size } n
    Shape p.hdr p.slotWritten.index ∧
      journal p.hdr p.slotWritten.index
        = { (indexJournal s.index).remove.close with
            current := some (newEntry (s.unlink (slotAt s.index t).name).disk n) } := by
  have hne := head_ne_tail_of_full hs hfull
  have hslotfit := slotAt_fits hs.length hs.tail_lt
  have hclear := Logdata.clear_fits hslotfit
  have hlt : (hdr s.index).totalSize - (slotAt s.index (hdr s.index).indexTail).size < ulongMod :=
    Nat.lt_of_le_of_lt (Nat.sub_le ..) hs.total_lt
  have hrem := hs.removed hne hlt
  have hjrem := journal_removed hs hne
    ((hdr s.index).totalSize - (slotAt s.index (hdr s.index).indexTail).size)
  -- the head slot survives the removal, and the head can step onto the old tail
  have hhead := slotAt_writeSlot_ne hs.length hs.tail_lt hs.head_lt hclear hne
  have hocc' : (slotAt (writeSlot s.index (slotOffset (hdr s.index).indexTail)
      (slotAt s.index (hdr s.index).indexTail).clear) (hdr s.index).indexHead).Occupied := by
    rw [hhead]
    exact hocc
  have hfree : next logdataCount (hdr s.index).indexHead
      ≠ next logdataCount (hdr s.index).indexTail := by
    rw [hfull]
    intro heq
    have hcount := dist_next_self hs.tail_lt
    rw [← heq, dist_self, logdataCount_eq] at hcount
    omega
  have hstep := hrem.stepped hocc' hfree
  have hjstep := journal_stepped hrem hocc' hfree
  rw [hjrem] at hjstep
  dsimp only at hstep hjstep
  rw [hfull] at hstep hjstep
  let cleared : Store := { s.unlink (slotAt s.index (hdr s.index).indexTail).name with
    index := writeSlot s.index (slotOffset (hdr s.index).indexTail)
      (slotAt s.index (hdr s.index).indexTail).clear }
  have hfin := finish_spec (s := cleared) (n := n) hstep.1 rfl hslotfit
  -- the slot is overwritten at once, not cleared first: same slots
  have hlen : ∀ d : Logdata, d.Fits →
      (writeSlot s.index (slotOffset (hdr s.index).indexTail) d).length
        = (writeSlot cleared.index (slotOffset (hdr s.index).indexTail) d).length := by
    intro d hd
    rw [length_writeSlot hs.length hs.tail_lt hd, length_writeSlot hrem.length hs.tail_lt hd]
  have hsame : ∀ d : Logdata, d.Fits → ∀ i < logdataCount,
      slotAt (writeSlot s.index (slotOffset (hdr s.index).indexTail) d) i
        = slotAt (writeSlot cleared.index (slotOffset (hdr s.index).indexTail) d) i := by
    intro d hd i hi
    rw [slotAt_writeSlot hs.length hs.tail_lt hi hd, slotAt_writeSlot hrem.length hs.tail_lt hi hd,
      slotAt_writeSlot hs.length hs.tail_lt hi hclear]
    split
    next => rfl
    next => rfl
  have hsized : Logdata.Fits { slotAt s.index (hdr s.index).indexTail with
      size := fileSize (s.unlink (slotAt s.index (hdr s.index).indexTail).name).disk n.bytes } :=
    ⟨hslotfit.file, UInt64.toNat_lt _⟩
  have hd := Logdata.setFile_fits hsized n.base
  unfold AddPlan.slotWritten at hfin ⊢
  dsimp only [AddPlan.finish] at hfin ⊢
  rw [unlink_index]
  refine ⟨hfin.1.congr (hlen _ hd) (hsame _ hd), ?_⟩
  rw [journal_congr hfin.1 (hsame _ hd), hfin.2, hjstep]
  rfl

/-- What the two writes of `logdataAddFile` leave: a buffer that holds the queue
with the new file added, and a disk without the evicted log. -/
theorem addPlan_spec (hs : Shaped s.index) (n : LogPath) :
    ∃ p, logdataAddFilePlan s n = some p ∧ Shape p.hdr p.slotWritten.index ∧
      journal p.hdr p.slotWritten.index
        = (indexJournal s.index).add logdataCount (newEntry s.evict.disk n) ∧
      p.store = s.evict ∧
      p.hdr.totalSize = ((hdr s.index).totalSize - evictedSize s.index
        + fileSize s.evict.disk n.bytes) % ulongMod := by
  by_cases hocc : (slotAt s.index (hdr s.index).indexHead).Occupied
  · by_cases hfull : next logdataCount (hdr s.index).indexHead = (hdr s.index).indexTail
    · -- full: a removal, then a step onto the slot it cleared
      have hFull : (indexJournal s.index).Full logdataCount := (journal_full hs).mpr ⟨hocc, hfull⟩
      have hne := head_ne_tail_of_full hs hfull
      have hevicted : (indexJournal s.index).evicted logdataCount
          = some (entryOf (slotAt s.index (hdr s.index).indexTail)) := by
        unfold Journal.evicted indexJournal
        rw [if_pos (by exact hFull), closed_eq_cons hs hne]
        rfl
      have hevict : s.evict = s.unlink (slotAt s.index (hdr s.index).indexTail).name := by
        unfold Store.evict
        rw [hevicted]
        rfl
      have hsize : evictedSize s.index = (slotAt s.index (hdr s.index).indexTail).size := by
        unfold evictedSize
        rw [hevicted]
        rfl
      have hshape := full_shape (n := n) hs hocc hfull
      refine ⟨_, addPlan_full hs hocc hfull, hshape.1, ?_, hevict.symm, ?_⟩
      · rw [hshape.2, hevict]
        unfold Journal.add
        rw [if_pos hFull]
      · rw [hevict, hsize]
        rfl
    · have hFull : ¬ (indexJournal s.index).Full logdataCount :=
        fun h => hfull ((journal_full hs).mp h).2
      have hevict := evict_of_not_full hFull
      have hsize := evictedSize_of_not_full hFull
      have hstep := hs.stepped hocc hfull
      have hfin := finish_spec (n := n) hstep.1 rfl (slotAt_fits hs.length hstep.1.head_lt)
      refine ⟨_, addPlan_notFull hs hocc hfull, hfin.1, ?_, hevict.symm, ?_⟩
      · rw [hfin.2, journal_stepped hs hocc hfull, hevict]
        unfold Journal.add
        rw [if_neg hFull]
        rfl
      · rw [hevict, hsize]
        rfl
  · have hFull : ¬ (indexJournal s.index).Full logdataCount :=
      fun h => hocc ((journal_full hs).mp h).1
    have hevict := evict_of_not_full hFull
    have hsize := evictedSize_of_not_full hFull
    have hempty := Logdata.not_occupied_iff.mp hocc
    have hfin := finish_spec (n := n) hs rfl (slotAt_fits hs.length hs.head_lt)
    refine ⟨_, addPlan_empty hs hocc, hfin.1, ?_, hevict.symm, ?_⟩
    · have hnone : (journal (hdr s.index) s.index).current = none := current_eq_none.mpr hempty
      rw [hfin.2, hevict]
      unfold Journal.add
      rw [if_neg hFull]
      unfold Journal.close Journal.entries indexJournal
      rw [hnone]
      simp
    · rw [hevict, hsize]
      rfl

/-- `logdataAddFile` succeeds on a shaped index and adds to its queue. -/
theorem addFile_spec (hs : Shaped s.index) (n : LogPath) :
    (logdataAddFile s n).1 = 0 ∧ Shaped (s.added n).index ∧
      indexJournal (s.added n).index
        = (indexJournal s.index).add logdataCount (newEntry s.evict.disk n) ∧
      (s.added n).disk = s.evict.disk ∧
      (s.added n).unlinked = s.evict.unlinked := by
  obtain ⟨p, hp, hshape, hj, hstore, _⟩ := addPlan_spec hs n
  unfold Store.added logdataAddFile
  rw [hp]
  dsimp only [AddPlan.headerWritten]
  refine ⟨rfl, hshape.writeHeader_shaped, ?_, ?_, ?_⟩
  · rw [indexJournal_writeHeader hshape, hj]
  · show p.store.disk = s.evict.disk
    rw [hstore]
  · show p.store.unlinked = s.evict.unlinked
    rw [hstore]

/-- The new total is exact: what is evicted comes off and the new size goes on. -/
theorem addPlan_ring {p : AddPlan} (hw : WellFormed s.index)
    (hfit : slotSum s.index + fileSize s.disk n.bytes < ulongMod)
    (hp : logdataAddFilePlan s n = some p) : Ring p.hdr p.slotWritten.index := by
  obtain ⟨p', hp', hshape, hj, _, htotal⟩ := addPlan_spec hw.shaped n
  obtain rfl : p = p' := Option.some.inj (hp.symm.trans hp')
  have hadd := @Journal.total_add logdataCount (indexJournal s.index)
    (newEntry s.evict.disk n)
  have hsum := journal_total hw
  have hout := @Journal.evicted_le_total logdataCount (indexJournal s.index)
  have hle := evict_fileSize_le s n.bytes
  have hslots := slotSum_index hw.shaped
  refine { hshape with total := ?_ }
  rw [slotSum_eq_total hshape, hj, htotal]
  unfold evictedSize
  unfold newEntry at hadd
  dsimp only at hadd
  rw [show (indexJournal s.index).total = _ from hsum] at hadd hout hslots
  rw [hslots] at hfit
  rw [Nat.mod_eq_of_lt (by omega)]
  unfold newEntry
  omega

/-- Adding a file keeps the index well formed, as long as the sizes can be added up. -/
theorem addFile_wellFormed (hw : WellFormed s.index)
    (hfit : slotSum s.index + fileSize s.disk n.bytes < ulongMod) :
    WellFormed (s.added n).index := by
  obtain ⟨p, hp, _⟩ := addPlan_spec hw.shaped n
  have hring := addPlan_ring hw hfit hp
  unfold Store.added logdataAddFile
  rw [hp]
  exact hring.writeHeader_wellFormed

/-- With nothing current, the file becomes current and nothing else changes. -/
theorem addFile_vacant (hs : Shaped s.index) (n : LogPath)
    (hnone : (indexJournal s.index).current = none) :
    indexJournal (s.added n).index
        = { indexJournal s.index with current := some (newEntry s.disk n) } ∧
      (s.added n).disk = s.disk ∧
      (s.added n).unlinked = s.unlinked := by
  have hroom : ¬ (indexJournal s.index).Full logdataCount := fun hfull => hfull.1 hnone
  obtain ⟨_, _, hj, hdisk, hunl⟩ := addFile_spec hs n
  rw [evict_of_not_full hroom] at hj hdisk hunl
  refine ⟨?_, hdisk, hunl⟩
  rw [hj]
  unfold Journal.add Journal.close Journal.entries
  rw [if_neg hroom, hnone]
  simp

end Plan

end AndroidLearn.LoggerCommon
