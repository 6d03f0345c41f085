import AndroidLearn.LoggerCommon.Accounting
import AndroidLearn.LoggerCommon.Accept

/-!
# Cutting `logger_common_logdata_add_file` short

The call makes two writes: the data slot, then the header. A power loss between them
leaves the old header with the new log in a slot, either in the head slot, if that was
empty, or in the slot behind the head, where no log is expected. A power loss in front of
both leaves the index as it was, with a file that no slot names. A write itself is done or
not (`Cut`).

After the restart the files of the directory may have changed; the index is opened, and
the calls of the source come again: an add, and the limit pass behind it (`restart`).
`CrashSafe` says that they leave the files that are left after both writes or after none,
and that the recorded total is the sum of the slots.

In the first case the recorded total stays short by the size of the new log. In the second
case the next add takes the new log for the oldest one of a full index and unlinks it.
Only a log of size 0 in an empty head slot does no harm: then the header that was not
written is the one already there.

Theorem: `crashSafe_iff`, for both cuts, every well-formed index and every new log.
-/

namespace AndroidLearn.LoggerCommon

open Cyclic Run Bytes

/-- Where the call is cut short: after the eviction's `unlink`, or after the
slot was written too. -/
inductive Cut where
  | beforeSlot
  | afterSlot

/-- What is in the index when the power goes. -/
def AddPlan.cut (p : AddPlan) : Cut → Store
  | .beforeSlot => p.store
  | .afterSlot => p.slotWritten

/-- What follows the restart: the index is opened, a log added and the limit
enforced. In between the files of the directory may have changed to `d`. -/
def restart (d : Disk) (e : OpenEnv) (m : LogPath) (a : LimitArgs) (t : Store) : Store :=
  execOp (execOp (logdataOpen e (t.withDisk d)) (.add m)) (.limit a)

/-- However the add of `n` is cut short and whatever follows, the files that go
are those that would have gone if the add had completed, or those that would
have gone if it had not begun; and the total is exact again. -/
def CrashSafe (s : Store) (n : LogPath) : Prop :=
  ∀ p, logdataAddFilePlan s n = some p → ∀ (c : Cut) (d : Disk) (e : OpenEnv) (m : LogPath)
    (a : LimitArgs), slotSum s.index + fileSize d m.bytes + fileSize d (slotName m) < ulongMod →
      ((restart d e m a (p.cut c)).disk = (restart d e m a p.headerWritten).disk ∨
        (restart d e m a (p.cut c)).disk = (restart d e m a s).disk) ∧
      (hdr (restart d e m a (p.cut c)).index).totalSize
        = slotSum (restart d e m a (p.cut c)).index

section Restart

variable {s t : Store} {d : Disk} {e : OpenEnv} {m n : LogPath} {a : LimitArgs} {p : AddPlan}

/-- An add and a limit pass on a sound index leave a sound index. -/
theorem addLimit_wellFormed (hw : WellFormed t.index)
    (hfit : slotSum t.index + fileSize t.disk m.bytes + fileSize t.disk (slotName m) < ulongMod) :
    WellFormed (execOp (execOp t (.add m)) (.limit a)).index := by
  have hw' : WellFormed (t.added m).index := addFile_wellFormed hw (by omega)
  obtain ⟨_, _, hj, hdisk, _⟩ := addFile_spec hw.shaped m
  have hcurrent : (indexJournal (t.added m).index).current
      = some ⟨slotName m, fileSize t.evict.disk m.bytes⟩ := by
    rw [hj]
    rfl
  have htotal := @Journal.total_add logdataCount (indexJournal t.index)
    (newEntry t.evict.disk m)
  have hsize : (newEntry t.evict.disk m).size = fileSize t.evict.disk m.bytes := rfl
  have hle := evict_fileSize_le t m.bytes
  have hle' := evict_fileSize_le t (slotName m)
  have hsum := slotSum_index hw.shaped
  have hlimit : SizesFit (t.added m) (.limit a) := by
    rw [sizesFit_limit hw' hcurrent, hj, hdisk]
    dsimp only
    omega
  exact (execOp_step hw' hlimit).1

/-- A restart on a sound index leaves a sound index. -/
theorem restart_wellFormed (hw : WellFormed t.index)
    (hfit : slotSum t.index + fileSize d m.bytes + fileSize d (slotName m) < ulongMod) :
    WellFormed (restart d e m a t).index := by
  have hw' : WellFormed (t.withDisk d).index := hw
  unfold restart
  rw [open_shaped hw'.shaped]
  exact addLimit_wellFormed hw' hfit

/-- A pass that has no reason to remove anything. -/
def noRemoval : LimitArgs := ⟨ulongMod, 0, 0, false, 0⟩

/-- A limit pass that removes nothing. -/
theorem limit_noRemoval (hu : Usable (hdr t.index) t.index) :
    execOp t (.limit noRemoval) = { (refreshed t).1 with
      index := writeHeader (refreshed t).1.index (refreshed t).2 } := by
  obtain ⟨r, k, l, hout, hr⟩ := limitOutcome hu noRemoval
  have hl : l = 0 := Nat.le_zero.mp hout.reservePhase
  have hk : k = 0 := by
    by_contra hpos
    have hneeded := hout.limitNeeded 0 (Nat.pos_of_ne_zero hpos)
    have hlt := (refreshed_usable hu).fits.totalSize
    have hdiv := Nat.div_le_self (refreshed t).2.totalSize mb
    have : ulongMod ≤ (refreshed t).2.totalSize / mb := hneeded
    omega
  subst hl hk
  unfold execOp
  dsimp only
  rw [hout.returns, hr]
  rfl

/-- Such a restart takes no file. -/
theorem restart_noRemoval_disk (hu : Usable (hdr t.index) t.index) :
    (restart d e m noRemoval t).disk = ((t.withDisk d).added m).disk := by
  have hopen : logdataOpen e (t.withDisk d) = t.withDisk d :=
    open_accepted ((usable_iff _).mp hu).1
  have hu' : Usable (hdr (t.withDisk d).index) (t.withDisk d).index := hu
  have hadd : execOp (t.withDisk d) (.add m) = (t.withDisk d).added m := rfl
  unfold restart
  rw [hopen, hadd, limit_noRemoval (addFile_usable hu' m).2]
  exact refreshed_disk _

/-! ### A taken head slot -/

/-- The slot image a plan writes. -/
theorem finish_data (offset : Nat) {data : Logdata} {h : LogdataHeader} (hd : data.Fits) :
    (AddPlan.finish t offset data h n).data.Fits ∧
      (AddPlan.finish t offset data h n).data.name = slotName n ∧
      (AddPlan.finish t offset data h n).data.Occupied ∧
      (AddPlan.finish t offset data h n).data.size = fileSize t.disk n.bytes := by
  have hsized : Logdata.Fits { data with size := fileSize t.disk n.bytes } :=
    ⟨hd.file, UInt64.toNat_lt _⟩
  exact ⟨Logdata.setFile_fits hsized _, Logdata.setFile_name _ n.base_no_nul,
    Logdata.setFile_occupied _ n.base_no_nul n.base_ne_nil, rfl⟩

/-- With the head slot taken, the new log goes to the slot behind it. -/
theorem addPlan_behind (hs : Shaped s.index)
    (hocc : (slotAt s.index (hdr s.index).indexHead).Occupied) (n : LogPath) :
    ∃ p, logdataAddFilePlan s n = some p ∧ p.data.Fits ∧ p.data.name = slotName n ∧
      p.data.Occupied ∧ p.slotWritten.index
        = writeSlot s.index (slotOffset (next logdataCount (hdr s.index).indexHead)) p.data := by
  by_cases hfull : next logdataCount (hdr s.index).indexHead = (hdr s.index).indexTail
  · obtain ⟨hfits, hname, hdocc, _⟩ := finish_data (t := s.unlink _) (n := n)
      (h := { hdr s.index with
        indexHead := (hdr s.index).indexTail
        indexTail := next logdataCount (hdr s.index).indexTail
        totalSize := (hdr s.index).totalSize - (slotAt s.index (hdr s.index).indexTail).size })
      (slotOffset (hdr s.index).indexTail) (slotAt_fits hs.length hs.tail_lt)
    refine ⟨_, addPlan_full hs hocc hfull, hfits, hname, hdocc, ?_⟩
    rw [hfull, AddPlan.slotWritten]
    exact congrArg (writeSlot · _ _) (unlink_index _ _)
  · obtain ⟨hfits, hname, hdocc, _⟩ := finish_data (t := s) (n := n)
      (h := { hdr s.index with indexHead := next logdataCount (hdr s.index).indexHead })
      (slotOffset (next logdataCount (hdr s.index).indexHead)) (slotAt_fits hs.length (hs.stepped hocc hfull).1.head_lt)
    exact ⟨_, addPlan_notFull hs hocc hfull, hfits, hname, hdocc, rfl⟩

/-- The next add unlinks the log found there. -/
theorem behind_unlinked {data : Logdata} {i : Nat} (hs : Shaped s.index)
    (hocc : (slotAt s.index (hdr s.index).indexHead).Occupied)
    (hi : i = next logdataCount (hdr s.index).indexHead) (hd : data.Fits)
    (hdocc : data.Occupied) (ht : t.index = writeSlot s.index (slotOffset i) data) :
    Usable (hdr t.index) t.index ∧ (t.added m).disk data.name = none := by
  have hlt : i < logdataCount := by
    rw [hi]
    exact next_lt logdataCount_pos
  have hhdr : hdr t.index = hdr s.index := by rw [ht, hdr_writeSlot hs.length hlt hd]
  have hlen : t.index.length = indexSize := by rw [ht, length_writeSlot hs.length hlt hd]
  have hu : Usable (hdr t.index) t.index := by
    rw [hhdr]
    exact { hs.usable with length := hlen }
  have hne : (hdr s.index).indexHead ≠ i := by
    intro heq
    have hcount := logdataCount_eq
    have hhead := hs.head_lt
    rw [hi] at heq
    unfold next at heq
    split at heq
    all_goals omega
  have hhead : slotAt t.index (hdr t.index).indexHead
      = slotAt s.index (hdr s.index).indexHead := by
    rw [hhdr, ht, slotAt_writeSlot_ne hs.length hlt hs.head_lt hd hne]
  have hadv : (advanceHead (hdr t.index)).indexHead = i := by
    rw [hhdr, hi, ← hs.entryCount]
    rfl
  have hslot : slotAt t.index i = data := by rw [ht, slotAt_writeSlot_same hs.length hlt hd]
  have hplan := addPlan_occupied (n := m) hu (by rw [hhead]; exact hocc)
    (by rw [hadv]; exact hlt)
  dsimp only at hplan
  rw [hadv, hslot, if_pos hdocc] at hplan
  refine ⟨hu, ?_⟩
  unfold Store.added logdataAddFile
  rw [hplan]
  show (t.unlink data.name).disk data.name = none
  rw [unlink_disk, Function.update_self]

/-- A log whose name no closed log has survives an add. -/
theorem added_spares {x : Name} (hs : Shaped t.index)
    (hx : x ∉ (indexJournal t.index).closed.map Entry.name) : (t.added m).disk x = t.disk x := by
  rw [(addFile_spec hs m).2.2.2.1]
  exact evict_disk_of_not_mem hx

/-- With the head slot taken, the cut add costs the new log. -/
theorem not_crashSafe_of_taken (hw : WellFormed s.index)
    (hocc : (slotAt s.index (hdr s.index).indexHead).Occupied)
    (hnew : slotName n ∉ (indexJournal s.index).names) : ¬ CrashSafe s n := by
  intro hsafe
  have hs := hw.shaped
  obtain ⟨p, hp, hfits, hname, hdocc, hindex⟩ := addPlan_behind hs hocc n
  obtain ⟨p', hp', hshape, hj, _, _⟩ := addPlan_spec hs n
  obtain rfl : p = p' := Option.some.inj (hp.symm.trans hp')
  -- afterwards the new log is the only file, and an empty one
  let d : Disk := fun k => if k = slotName n then some 0 else none
  let e : OpenEnv := ⟨none, [], Logdata.zero, Logdata.zero_fits⟩
  have hsize : ∀ k, fileSize d k = 0 := by
    intro k
    show (((if k = slotName n then some 0 else none : Option UInt64)).getD 0).toNat = 0
    split <;> rfl
  have hthere : d (slotName n) = some 0 := if_pos rfl
  obtain ⟨hdisk, _⟩ := hsafe p hp .afterSlot d e n noRemoval (by
    rw [hsize, hsize, ← hw.total]
    exact hw.total_lt)
  obtain ⟨hcut, hgone⟩ := behind_unlinked (t := p.slotWritten.withDisk d) (m := n) hs hocc rfl
    hfits hdocc hindex
  have hclosed : slotName n ∉ (indexJournal s.index).closed.map Entry.name := by
    intro hmem
    refine hnew ?_
    unfold Journal.names Journal.entries
    rw [List.map_append]
    exact List.mem_append_left _ hmem
  have hnever : ((s.withDisk d).added n).disk (slotName n) = some 0 := by
    rw [added_spares (t := s.withDisk d) hs hclosed]
    exact hthere
  have hdone : ((p.headerWritten.withDisk d).added n).disk (slotName n) = some 0 := by
    have hs' : Shaped p.headerWritten.index := hshape.writeHeader_shaped
    have hj' : indexJournal p.headerWritten.index
        = (indexJournal s.index).add logdataCount (newEntry s.evict.disk n) :=
      (indexJournal_writeHeader hshape).trans hj
    rw [added_spares (t := p.headerWritten.withDisk d) hs', withDisk_disk]
    · exact hthere
    · -- the logs closed by the completed add were in the index before
      rw [withDisk_index, hj']
      intro hmem
      refine hnew ?_
      obtain ⟨x, hx, hxname⟩ := List.mem_map.mp hmem
      have hx' : x ∈ (if (indexJournal s.index).Full logdataCount
          then (indexJournal s.index).remove else indexJournal s.index).entries := hx
      rw [← hxname]
      split at hx'
      next => exact (remove_names_sublist _).subset (List.mem_map_of_mem hx')
      next => exact List.mem_map_of_mem hx'
  have hcut' : Usable (hdr (p.cut .afterSlot).index) (p.cut .afterSlot).index := hcut
  rw [restart_noRemoval_disk hcut', restart_noRemoval_disk hs.usable,
    restart_noRemoval_disk hshape.writeHeader_shaped.usable] at hdisk
  rw [hname] at hgone
  rcases hdisk with heq | heq
  · have hsame := congrFun heq (slotName n)
    rw [hdone] at hsame
    exact absurd (hgone.symm.trans hsame) (by simp)
  · have hsame := congrFun heq (slotName n)
    rw [hnever] at hsame
    exact absurd (hgone.symm.trans hsame) (by simp)

/-! ### An empty head slot -/

/-- With the head slot empty, the new log goes there and only the total is left
behind. -/
theorem addPlan_vacant (hs : Shaped s.index)
    (hocc : ¬ (slotAt s.index (hdr s.index).indexHead).Occupied) (n : LogPath) :
    ∃ p, logdataAddFilePlan s n = some p ∧ p.data.Fits ∧ p.data.Occupied ∧
      p.data.size = fileSize s.disk n.bytes ∧ p.store = s ∧
      p.slotWritten.index = writeSlot s.index (slotOffset (hdr s.index).indexHead) p.data ∧
      p.hdr = { hdr s.index with
        totalSize := ((hdr s.index).totalSize + fileSize s.disk n.bytes) % ulongMod } := by
  obtain ⟨hfits, _, hdocc, hsize⟩ := finish_data (t := s) (n := n)
    (h := hdr s.index) (slotOffset (hdr s.index).indexHead)
    (slotAt_fits hs.length hs.head_lt)
  exact ⟨_, addPlan_empty hs hocc, hfits, hdocc, hsize, rfl, rfl, rfl⟩

/-- A refresh that finds the size it recorded, 0, changes no size. -/
theorem refreshed_same (hs : Shaped t.index)
    (hhead : (slotAt t.index (hdr t.index).indexHead).size = 0)
    (hdisk : ∀ k, fileSize t.disk k = 0) :
    (refreshed t).2.totalSize = (hdr t.index).totalSize ∧
      slotSum (refreshed t).1.index = slotSum t.index := by
  have hfit := slotAt_fits hs.length hs.head_lt
  have hstored : Logdata.Fits { slotAt t.index (hdr t.index).indexHead with
      size := fileSize t.disk (slotAt t.index (hdr t.index).indexHead).name } :=
    ⟨hfit.file, UInt64.toNat_lt _⟩
  have hsum := slotSum_writeSlot hs.length hs.head_lt hstored
  unfold refreshed logdataRefresh
  split
  next hocc =>
    dsimp only at hsum ⊢
    rw [hdisk, hhead] at hsum
    rw [hdisk, hhead, guardedSub_eq, Nat.sub_zero, Nat.add_zero, Nat.mod_eq_of_lt hs.total_lt]
    exact ⟨rfl, Nat.add_right_cancel hsum⟩
  next hocc => exact ⟨rfl, rfl⟩

/-- The cut store: the old header over a slot more. -/
theorem writeSlot_vacant {data : Logdata} (hw : WellFormed s.index)
    (hocc : ¬ (slotAt s.index (hdr s.index).indexHead).Occupied) (hfits : data.Fits)
    (hdocc : data.Occupied)
    (hindex : t.index = writeSlot s.index (slotOffset (hdr s.index).indexHead) data) :
    hdr t.index = hdr s.index ∧ Shaped t.index ∧
      slotSum t.index = (hdr s.index).totalSize + data.size ∧
      indexJournal t.index = { indexJournal s.index with current := some (entryOf data) } := by
  have hs := hw.shaped
  have hhdr : hdr t.index = hdr s.index := by
    rw [hindex, hdr_writeSlot hs.length hs.head_lt hfits]
  refine ⟨hhdr, ?_, ?_, ?_⟩
  · have hfilled := hs.filled hfits hdocc hs.total_lt
    unfold Shaped
    rw [hhdr, hindex]
    exact hfilled
  · have hsum := slotSum_writeSlot hs.length hs.head_lt hfits
    rw [hs.head_empty (Logdata.not_occupied_iff.mp hocc), ← hw.total, Nat.add_zero] at hsum
    rw [hindex]
    exact hsum
  · have hj := journal_filled hs hfits hdocc (hdr s.index).totalSize
    unfold indexJournal
    rw [hhdr, hindex]
    exact hj

/-- An add and a pass that find no log on the disk take the evicted log out of the total and out
of the slots. -/
theorem restart_empty (hs : Shaped t.index) (e : OpenEnv) (n : LogPath) :
    (hdr (restart (fun _ => none) e n noRemoval t).index).totalSize
        = ((hdr t.index).totalSize - evictedSize t.index) % ulongMod ∧
      slotSum (restart (fun _ => none) e n noRemoval t).index + evictedSize t.index
        = slotSum t.index := by
  have hs' : Shaped (t.withDisk fun _ => none).index := hs
  have hevict : ∀ k, fileSize (t.withDisk fun _ => none).evict.disk k = 0 :=
    fun k => Nat.le_zero.mp (evict_fileSize_le (t.withDisk fun _ => none) k)
  -- the index behind the add
  obtain ⟨u, hu⟩ : ∃ u, (t.withDisk fun _ => none).added n = u := ⟨_, rfl⟩
  obtain ⟨-, hshape, hj, hdisk, -⟩ := addFile_spec hs' n
  obtain ⟨q, hq, hqshape, -, -, hqtotal⟩ := addPlan_spec hs' n
  have hutotal : (hdr u.index).totalSize
      = ((hdr t.index).totalSize - evictedSize t.index) % ulongMod := by
    have hheader : u = q.headerWritten := by
      rw [← hu]
      unfold Store.added logdataAddFile
      rw [hq]
    rw [hheader, AddPlan.headerWritten]
    rw [hevict, Nat.add_zero] at hqtotal
    exact (congrArg LogdataHeader.totalSize
      (hdr_writeHeader hqshape.length hqshape.fits)).trans hqtotal
  rw [hu] at hshape hj hdisk
  have hudisk : ∀ k, fileSize u.disk k = 0 := by
    intro k
    rw [hdisk]
    exact hevict k
  have huhead : (slotAt u.index (hdr u.index).indexHead).size = 0 := by
    have hcurrent : (indexJournal u.index).current
        = some (newEntry (t.withDisk fun _ => none).evict.disk n) := by
      rw [hj]
      rfl
    exact (congrArg Entry.size (current_eq_some.mp hcurrent).2).trans (hevict n.bytes)
  have husum : slotSum u.index + evictedSize t.index = slotSum t.index := by
    have hadd := @Journal.total_add logdataCount (indexJournal t.index)
      (newEntry (t.withDisk fun _ => none).evict.disk n)
    have hsize : (newEntry (t.withDisk fun _ => none).evict.disk n).size = 0 := hevict n.bytes
    rw [hsize, Nat.add_zero] at hadd
    rw [slotSum_index hshape, slotSum_index hs, hj]
    exact hadd
  -- and behind the pass
  obtain ⟨hsameTotal, hsameSum⟩ := refreshed_same hshape huhead hudisk
  have hru := refreshed_usable hshape.usable
  have hend : restart (fun _ => none) e n noRemoval t
      = { (refreshed u).1 with index := writeHeader (refreshed u).1.index (refreshed u).2 } := by
    unfold restart
    rw [open_shaped hs']
    show execOp ((t.withDisk fun _ => none).added n) (.limit noRemoval) = _
    rw [hu]
    exact limit_noRemoval hshape.usable
  rw [hend]
  dsimp only
  rw [hdr_writeHeader hru.length hru.fits, slotSum_writeHeader hru.length hru.fits, hsameTotal,
    hsameSum]
  exact ⟨hutotal, husum⟩

/-- With the head slot empty, the size of the new log is missing from the total
for good. -/
theorem not_crashSafe_of_size (hw : WellFormed s.index)
    (hocc : ¬ (slotAt s.index (hdr s.index).indexHead).Occupied)
    (hsize : fileSize s.disk n.bytes ≠ 0) : ¬ CrashSafe s n := by
  intro hsafe
  obtain ⟨p, hp, hfits, hdocc, hpsize, _, hindex, _⟩ := addPlan_vacant hw.shaped hocc n
  obtain ⟨hcutHdr, hcut, hcutSum, hcutJournal⟩ := writeSlot_vacant hw hocc hfits hdocc hindex
  let e : OpenEnv := ⟨none, [], Logdata.zero, Logdata.zero_fits⟩
  have hzero : ∀ k, fileSize (fun _ => none) k = 0 := fun _ => rfl
  obtain ⟨_, htotal⟩ := hsafe p hp .afterSlot (fun _ => none) e n noRemoval (by
    rw [hzero, hzero, ← hw.total]
    exact hw.total_lt)
  obtain ⟨hendTotal, hendSum⟩ := restart_empty hcut e n
  have hcutEq : p.cut .afterSlot = p.slotWritten := rfl
  rw [hcutEq] at htotal
  -- the evicted log was in the index before
  have hout : evictedSize p.slotWritten.index ≤ (hdr s.index).totalSize := by
    have hle := @Journal.evicted_le_closed logdataCount (indexJournal p.slotWritten.index)
    have hclosed := Journal.closed_le_total (j := indexJournal s.index)
    have hjtotal : (indexJournal s.index).total = (hdr s.index).totalSize := journal_total hw
    rw [hcutJournal] at hle
    unfold evictedSize
    rw [hcutJournal]
    exact Nat.le_trans hle (hjtotal ▸ hclosed)
  have hlt := hw.total_lt
  rw [hcutHdr, Nat.mod_eq_of_lt (by omega)] at hendTotal
  omega

/-- A log of size 0 in an empty head slot: the header to be written is the one
already there. -/
theorem crashSafe_of_vacant (hw : WellFormed s.index)
    (hocc : ¬ (slotAt s.index (hdr s.index).indexHead).Occupied)
    (hsize : fileSize s.disk n.bytes = 0) : CrashSafe s n := by
  intro p hp c d e m a hfit
  have hs := hw.shaped
  obtain ⟨p', hp', hfits, hdocc, hpsize, hstore, hindex, hphdr⟩ := addPlan_vacant hs hocc n
  obtain rfl : p = p' := Option.some.inj (hp.symm.trans hp')
  have hsame : p.hdr = hdr s.index := by
    rw [hphdr, hsize, Nat.add_zero, Nat.mod_eq_of_lt hw.total_lt]
  have hcutHdr : hdr p.slotWritten.index = hdr s.index := by
    rw [hindex, hdr_writeSlot hs.length hs.head_lt hfits]
  have hring : Ring p.hdr p.slotWritten.index := addPlan_ring hw (by
    rw [hsize, ← hw.total]
    exact hw.total_lt) hp
  have hdone : p.headerWritten = p.slotWritten := by
    unfold AddPlan.headerWritten
    rw [hsame, ← hcutHdr, writeHeader_hdr hring.length]
  have hcut : WellFormed p.slotWritten.index := by
    unfold WellFormed
    rw [hcutHdr, ← hsame]
    exact hring
  cases c with
  | beforeSlot =>
    have heq : p.cut .beforeSlot = s := hstore
    rw [heq]
    exact ⟨Or.inr rfl, (restart_wellFormed hw hfit).total⟩
  | afterSlot =>
    have heq : p.cut .afterSlot = p.slotWritten := rfl
    rw [heq, hdone]
    refine ⟨Or.inl rfl, (restart_wellFormed hcut ?_).total⟩
    have hsum : slotSum p.slotWritten.index = slotSum s.index := by
      rw [← hring.total, hsame, hw.total]
    rw [hsum]
    exact hfit

/-- The add of a log that is new to the index survives every cut exactly when
the head slot is empty and the log has no size yet. -/
theorem crashSafe_iff (hw : WellFormed s.index)
    (hnew : slotName n ∉ (indexJournal s.index).names) :
    CrashSafe s n ↔
      (indexJournal s.index).current = none ∧ fileSize s.disk n.bytes = 0 := by
  have hnone : (indexJournal s.index).current = none ↔
      ¬ (slotAt s.index (hdr s.index).indexHead).Occupied :=
    current_eq_none.trans Logdata.not_occupied_iff.symm
  rw [hnone]
  constructor
  · intro hsafe
    by_cases hocc : (slotAt s.index (hdr s.index).indexHead).Occupied
    · exact absurd hsafe (not_crashSafe_of_taken hw hocc hnew)
    · refine ⟨hocc, ?_⟩
      by_contra hsize
      exact not_crashSafe_of_size hw hocc hsize hsafe
  · rintro ⟨hocc, hsize⟩
    exact crashSafe_of_vacant hw hocc hsize

end Restart

theorem crashSafe_iff_emptyIndex : CrashSafe emptyIndex bootLog ↔
    (indexJournal emptyIndex.index).current = none ∧
      fileSize emptyIndex.disk bootLog.bytes = 0 := by
  obtain ⟨hw, hj, _⟩ := emptyIndex_spec
  refine crashSafe_iff hw ?_
  rw [hj]
  exact List.not_mem_nil

/-- A rotation that is cut short: the next one deletes the new log. -/
theorem crashSafe_fails_grown : WellFormed grown.index ∧
    slotName nextLog ∉ (indexJournal grown.index).names ∧ ¬ CrashSafe grown nextLog := by
  obtain ⟨hw, hj⟩ := grown_spec
  have hnew : slotName nextLog ∉ (indexJournal grown.index).names := by
    rw [hj]
    decide
  have hcurrent : (indexJournal grown.index).current = some ⟨bootLog.bytes, 0⟩ := by rw [hj]
  exact ⟨hw, hnew, not_crashSafe_of_taken hw (current_eq_some.mp hcurrent).1 hnew⟩

end AndroidLearn.LoggerCommon
