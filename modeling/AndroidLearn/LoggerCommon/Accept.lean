import AndroidLearn.LoggerCommon.RingRun

/-!
# What an accepted index is good for

`logger_common_logdata_open` of `logctl.c` checks every header field that the later
calls rely on, but one: the tail. With both cursors on slots every later call
succeeds, whatever the slots hold, and goes on succeeding (`Usable` is kept by
every call). With a tail beyond the last slot the file is accepted all the same,
and a removal seeks behind the slots and fails.

No removal repairs such a tail, so that limit passes alone never enforce the size
limit. An add does: where the head steps, `advanceHead` sets a tail that is no slot
to 0, and the passes that follow find logs to remove.

`acceptedUsable_iff` says, over every content of the file, that what is accepted is
usable exactly when its tail is a slot.
-/

namespace AndroidLearn.LoggerCommon

open Cyclic Run

/-! ## Usable files stay usable -/

section Keep

variable {s : Store} {h : LogdataHeader} {f : Bytes} {n : LogPath}

theorem Usable.writeHeader (hu : Usable h f) : Usable (hdr (writeHeader f h)) (writeHeader f h) := by
  rw [hdr_writeHeader hu.length hu.fits]
  exact { hu with length := length_writeHeader hu.length hu.fits }

/-- Writing a slot and moving the cursors among the slots. -/
theorem Usable.slotWritten {h' : LogdataHeader} {d : Logdata} {i : Nat} (hu : Usable h f)
    (hi : i < logdataCount) (hd : d.Fits) (hhead : h'.indexHead < logdataCount)
    (htail : h'.indexTail < logdataCount) (htotal : h'.totalSize < ulongMod)
    (heq : { h' with
      indexHead := h.indexHead, indexTail := h.indexTail, totalSize := h.totalSize } = h) :
    Usable h' (writeSlot f (slotOffset i) d) where
  length := length_writeSlot hu.length hi hd
  fits := by
    have hf := hu.fits
    rw [← heq] at hf
    exact
      { hf with
        indexHead := Nat.lt_trans hhead logdataCount_lt_ulongMod
        indexTail := Nat.lt_trans htail logdataCount_lt_ulongMod
        totalSize := htotal }
  magic := by rw [← hu.magic, ← heq]
  entryCount := by rw [← hu.entryCount, ← heq]
  entrySize := by rw [← hu.entrySize, ← heq]
  headerSize := by rw [← hu.headerSize, ← heq]
  head_lt := hhead
  tail_lt := htail

/-- Filling slot `h.indexHead`, with the total that `finish` computes. -/
theorem finish_usable {t : Store} {data : Logdata} (hu : Usable h t.index) (hd : data.Fits) :
    let p := AddPlan.finish t (slotOffset h.indexHead) data h n
    Usable p.hdr p.slotWritten.index := by
  have hsized : Logdata.Fits { data with size := fileSize t.disk n.bytes } :=
    ⟨hd.file, UInt64.toNat_lt _⟩
  exact hu.slotWritten hu.head_lt (Logdata.setFile_fits hsized n.base) hu.head_lt hu.tail_lt
    (Nat.mod_lt _ (Nat.two_pow_pos 64)) rfl

/-- The next slot keeps an index usable. -/
theorem advanceHead_usable (hu : Usable h f) : Usable (advanceHead h) f := by
  have hnext : next h.entryCount h.indexHead < logdataCount := by
    rw [hu.entryCount]
    exact next_lt logdataCount_pos
  have htail : (advanceHead h).indexTail < logdataCount := by
    have hpos := logdataCount_pos
    have hlt := hu.tail_lt
    unfold advanceHead
    dsimp only
    rw [hu.entryCount]
    split
    all_goals split
    all_goals omega
  exact
    { hu with
      fits :=
        { hu.fits with
          indexHead := Nat.lt_trans hnext logdataCount_lt_ulongMod
          indexTail := Nat.lt_trans htail logdataCount_lt_ulongMod }
      head_lt := hnext
      tail_lt := htail }

/-- `logdataAddFile` needs no more than usable cursors. -/
theorem addPlan_usable (hu : Usable (hdr s.index) s.index) (n : LogPath) :
    ∃ p, logdataAddFilePlan s n = some p ∧ Usable p.hdr p.slotWritten.index := by
  have hadv := advanceHead_usable hu
  have hslot := slotAt_fits hu.length hu.head_lt
  have hslot' := slotAt_fits hu.length hadv.head_lt
  unfold logdataAddFilePlan
  rw [readHeader_eq hu.length]
  dsimp only
  rw [if_neg (not_not.mpr hu.magic), hu.readSlot_head]
  dsimp only
  by_cases hocc : (slotAt s.index (hdr s.index).indexHead).Occupied
  · rw [if_pos hocc, hadv.readSlot_head]
    dsimp only
    rw [slotOffset_lt_ulongMod hadv.head_lt]
    split
    next =>
      refine ⟨_, rfl, finish_usable (h := { advanceHead (hdr s.index) with
        totalSize := guardedSub (advanceHead (hdr s.index)).totalSize
          (slotAt s.index (advanceHead (hdr s.index)).indexHead).size }) ?_ hslot'⟩
      rw [unlink_index, guardedSub_eq]
      exact
        { hadv with
          fits := { hadv.fits with
            totalSize := Nat.lt_of_le_of_lt (Nat.sub_le ..) hadv.fits.totalSize } }
    next => exact ⟨_, rfl, finish_usable hadv hslot'⟩
  · rw [if_neg hocc, slotOffset_lt_ulongMod hu.head_lt]
    exact ⟨_, rfl, finish_usable hu hslot⟩

/-- A file may be added to a usable index, which stays so. -/
theorem addFile_usable (hu : Usable (hdr s.index) s.index) (n : LogPath) :
    (logdataAddFile s n).1 = 0 ∧ Usable (hdr (s.added n).index) (s.added n).index := by
  obtain ⟨p, hp, hu'⟩ := addPlan_usable hu n
  unfold Store.added logdataAddFile
  rw [hp]
  exact ⟨rfl, hu'.writeHeader⟩

/-- A file may be removed from it. -/
theorem removeOne_usable (hu : Usable (hdr s.index) s.index) :
    0 ≤ (logdataRemoveFile s (hdr s.index)).ret ∧
      Usable (hdr (logdataRemoveOne s).index) (logdataRemoveOne s).index := by
  unfold logdataRemoveOne
  rw [readHeader_eq hu.length]
  dsimp only
  by_cases heq : (hdr s.index).indexHead = (hdr s.index).indexTail
  · rw [removeFile_eq_zero heq]
    exact ⟨Int.le_refl 0, hu.writeHeader⟩
  · have hret : (logdataRemoveFile s (hdr s.index)).ret = 1 := by
      rw [removeFile_eq_one hu heq]
    exact ⟨by rw [hret]; decide, (hu.step heq).writeHeader⟩

/-- It may be limited, and the pass comes to its end. -/
theorem limitSize_usable (hu : Usable (hdr s.index) s.index) (a : LimitArgs) :
    ∃ r k m, LimitOutcome a s r k m ∧ Usable (hdr r.store.index) r.store.index := by
  obtain ⟨r, k, m, hout, hr⟩ := limitOutcome hu a
  have hle := hout.le_closed
  rw [closed_length_eq, ← refreshed_closedCount] at hle
  have hrem := removed_iterate (refreshed_usable hu) (k + m) hle
  refine ⟨r, k, m, hout, ?_⟩
  rw [hr]
  exact hrem.usable.writeHeader

end Keep

/-! ## Later calls -/

/-- A call on an open index, or a change to the directory. -/
def Op.Later : Op → Prop
  | .open _ _ => False
  | _ => True

/-- The call returns success; a limit pass ends and enforces the limit as far as
there are closed logs. -/
def OpSucceeds (s : Store) : Op → Prop
  | .open _ _ => True
  | .add n => (logdataAddFile s n).1 = 0
  | .limit a => ∃ r k m, LimitOutcome a s r k m
  | .remove => ∃ h, readHeader s.index = some h ∧ 0 ≤ (logdataRemoveFile s h).ret
  | .env _ => True

/-- What acceptance is to guarantee for the bytes of an index file; what is not
accepted is rebuilt. -/
structure AcceptedUsable (f : Bytes) : Prop where
  head_lt : logdataAccepts f = true → (hdr f).indexHead < (hdr f).entryCount
  tail_lt : logdataAccepts f = true → (hdr f).indexTail < (hdr f).entryCount
  length : logdataAccepts f = true → ∀ i < (hdr f).entryCount,
    slotOffset i + sizeofLogdata ≤ f.length
  later : logdataAccepts f = true → ∀ (s : Store) (ops : List Op), s.index = f →
    (∀ op ∈ ops, op.Later) → AllSteps execOp OpSucceeds s ops
  rebuilt : logdataAccepts f = false → ∀ (e : OpenEnv) (s : Store), s.index = f →
    logdataOpen e s = logdataRebuild e s ∧ Shaped (logdataOpen e s).index

section Runs

variable {s : Store} {op : Op} {ops : List Op} {f : Bytes}

/-- Every operation succeeds on it, and leaves it usable. -/
theorem usable_step (hu : Usable (hdr s.index) s.index) (hlater : op.Later) :
    Usable (hdr (execOp s op).index) (execOp s op).index ∧ OpSucceeds s op := by
  cases op with
  | «open» found e => exact hlater.elim
  | add n =>
    obtain ⟨hret, hu'⟩ := addFile_usable hu n
    exact ⟨hu', hret⟩
  | limit a =>
    obtain ⟨r, k, m, hout, hu'⟩ := limitSize_usable hu a
    refine ⟨?_, r, k, m, hout⟩
    have heq : execOp s (.limit a) = r.store := by
      unfold execOp
      dsimp only
      rw [hout.returns]
    rw [heq]
    exact hu'
  | remove =>
    obtain ⟨hret, hu'⟩ := removeOne_usable hu
    exact ⟨hu', hdr s.index, readHeader_eq hu.length, hret⟩
  | env d => exact ⟨hu, trivial⟩

/-- Every operation of a run succeeds on a usable index. -/
theorem usable_run (hu : Usable (hdr s.index) s.index) :
    (∀ op ∈ ops, op.Later) → AllSteps execOp OpSucceeds s ops := by
  induction ops generalizing s with
  | nil => exact fun _ => trivial
  | cons op ops ih =>
    intro hlater
    obtain ⟨hu', hok⟩ := usable_step hu (hlater op (List.mem_cons_self ..))
    exact ⟨hok, ih hu' fun o ho => hlater o (List.mem_cons_of_mem _ ho)⟩

/-- Acceptance keeps its promise exactly on the files whose tail is a slot. -/
theorem acceptedUsable_iff (f : Bytes) :
    AcceptedUsable f ↔ (logdataAccepts f = true → (hdr f).indexTail < logdataCount) := by
  constructor
  · intro hac hacc
    have htail := hac.tail_lt hacc
    rwa [((accepts_iff f).mp hacc).2.2.1] at htail
  · intro htail
    have husable : logdataAccepts f = true → Usable (hdr f) f :=
      fun hacc => (usable_iff f).mpr ⟨hacc, htail hacc⟩
    refine ⟨?_, ?_, ?_, ?_, ?_⟩
    · intro hacc
      rw [(husable hacc).entryCount]
      exact (husable hacc).head_lt
    · intro hacc
      rw [(husable hacc).entryCount]
      exact (husable hacc).tail_lt
    · intro hacc i hi
      rw [(husable hacc).entryCount] at hi
      exact slot_in_file (husable hacc).length hi
    · intro hacc s ops hs
      exact usable_run (by rw [hs]; exact husable hacc)
    · intro hrej e s hs
      have heq : logdataOpen e s = logdataRebuild e s := by
        unfold logdataOpen
        rw [hs, hrej]
        rfl
      rw [heq]
      exact ⟨rfl, (rebuild_spec e s).1⟩

end Runs

/-- An index whose tail is one past the last slot. -/
def strayTail : Bytes :=
  fileOf { fixdataHeader (List.replicate 8 0) with indexTail := logdataCount }
    (List.replicate logdataCount Logdata.zero)

/-- It is accepted, and a removal from it fails. -/
theorem acceptedUsable_fails_strayTail : logdataAccepts strayTail = true ∧
    ¬ AcceptedUsable strayTail ∧
    ∀ s : Store, s.index = strayTail → (logdataRemoveFile s (hdr strayTail)).ret = -1 := by
  have hh : LogdataHeader.Fits
      { fixdataHeader (List.replicate 8 0) with indexTail := logdataCount } :=
    { @fixdataHeader_fits (List.replicate 8 0) rfl with
      indexTail := logdataCount_lt_ulongMod }
  have hds : ∀ d ∈ List.replicate logdataCount Logdata.zero, d.Fits := by
    intro d hd
    rw [List.eq_of_mem_replicate hd]
    exact Logdata.zero_fits
  have hlen : strayTail.length = indexSize := by
    rw [strayTail, length_fileOf hh hds, List.length_replicate, indexSize]
  have hhdr : hdr strayTail
      = { fixdataHeader (List.replicate 8 0) with indexTail := logdataCount } := by
    have htake : strayTail.take sizeofHeader
        = { fixdataHeader (List.replicate 8 0) with indexTail := logdataCount }.encode := by
      rw [strayTail, fileOf, ← LogdataHeader.length_encode hh, List.take_left]
    rw [hdr, htake, LogdataHeader.decode_encode hh]
  have htail : (hdr strayTail).indexTail = logdataCount := by rw [hhdr]
  have hhead : (hdr strayTail).indexHead = 0 := by
    rw [hhdr]
    rfl
  have hacc : logdataAccepts strayTail = true := by
    rw [accepts_iff, hhdr]
    exact ⟨hlen, rfl, rfl, rfl, rfl, logdataCount_pos⟩
  refine ⟨hacc, ?_, ?_⟩
  · intro hac
    have hlt := hac.tail_lt hacc
    rw [htail, ((accepts_iff _).mp hacc).2.2.1] at hlt
    exact Nat.lt_irrefl _ hlt
  · intro s hs
    -- the slot after the last one lies behind the end of the file
    have hread := readSlot_behind (f := s.index) (by rw [hs]; exact hlen)
    unfold logdataRemoveFile
    rw [hhead, htail, if_neg (Nat.ne_of_lt logdataCount_pos)]
    dsimp only
    rw [hread]

end AndroidLearn.LoggerCommon
