import AndroidLearn.Lib.Run
import AndroidLearn.LoggerCommon.Limit

/-!
# The ring over whole runs

A run mixes the four operations of `logctl.c` on the index in any order, with anything
happening to the files of the directory in between, and with an index that may be found
missing or corrupt whenever it is opened. The size of a file is what `file_size` gives,
and `SizesFit` asks of a step that the sizes it counts add up to less than 2^64, which no
file system exceeds.

Theorem: `wellFormed_run`. Each step that meets the size condition leaves a ring
(`execOp_step`), hence every call of every run does; and it removes logs from the tail on,
the oldest first.
-/

namespace AndroidLearn.LoggerCommon

open Cyclic Run

/-! ## Removals and the limit pass keep the ring and drop from the queue -/

section Removals

variable {s : Store} {h : LogdataHeader} {a : LimitArgs}

/-- Removals leave the index as it should be. -/
theorem iterate_shape (hs : Shape h s.index) (k : Nat) :
    Shape (removeStep^[k] (s, h)).2 (removeStep^[k] (s, h)).1.index := by
  induction k with
  | zero => exact hs
  | succ k ih =>
    rw [Function.iterate_succ_apply']
    exact removeFile_shape ih

/-- They keep the ring. -/
theorem iterate_ring (hr : Ring h s.index) (k : Nat) :
    Ring (removeStep^[k] (s, h)).2 (removeStep^[k] (s, h)).1.index := by
  induction k with
  | zero => exact hr
  | succ k ih =>
    rw [Function.iterate_succ_apply']
    exact removeFile_ring ih

/-- They remove the oldest entries of the journal. -/
theorem iterate_journal (hs : Shape h s.index) (k : Nat) :
    journal (removeStep^[k] (s, h)).2 (removeStep^[k] (s, h)).1.index
      = Journal.remove^[k] (journal h s.index) := by
  induction k with
  | zero => rfl
  | succ k ih =>
    rw [Function.iterate_succ_apply', Function.iterate_succ_apply', ← ih]
    exact removeFile_journal (iterate_shape hs k)

theorem iterate_remove (j : Journal) (k : Nat) :
    Journal.remove^[k] j = { j with closed := j.closed.drop k } := by
  induction k with
  | zero => rfl
  | succ k ih =>
    rw [Function.iterate_succ_apply', ih]
    show Journal.mk (j.closed.drop k).tail j.current = Journal.mk (j.closed.drop (k + 1)) j.current
    rw [List.tail_drop]

/-- A limit pass refreshes the current log's size, drops the `k` oldest closed
logs and unlinks their files. -/
theorem limitSize_journal (hs : Shaped s.index) (a : LimitArgs) :
    ∃ k, k ≤ (indexJournal s.index).closed.length ∧
      ∃ r, logdataLimitSize logdataCount a s = some r ∧
        r = limitResult a (removeStep^[k] (refreshed s)) ∧
        Shaped r.store.index ∧
        indexJournal r.store.index
          = { (indexJournal s.index).refresh (fileSize s.disk) with
              closed := (indexJournal s.index).closed.drop k } ∧
        r.store.disk
          = (s.unlinkAll (((indexJournal s.index).closed.take k).map Entry.name)).disk ∧
        (a.reserveRequest = 0 → (refreshed s).2.totalSize / mb < a.limitedSizeMb → k = 0) := by
  obtain ⟨r, k, m, hout, hr⟩ := limitOutcome hs.usable a
  have hrefreshed : Shape (refreshed s).2 (refreshed s).1.index := refresh_shape hs
  have hshape := iterate_shape hrefreshed (k + m)
  have hjournal := iterate_journal hrefreshed (k + m)
  rw [show journal (refreshed s).2 (refreshed s).1.index = _ from refresh_journal hs,
    iterate_remove] at hjournal
  refine ⟨k + m, hout.le_closed, r, hout.returns, hr, ?_, ?_, hout.disk, ?_⟩
  · rw [hr]
    exact hshape.writeHeader_shaped
  · rw [hr]
    exact (indexJournal_writeHeader hshape).trans hjournal
  · intro hreq hlow
    have hm := hout.reservePhase
    rcases Nat.eq_zero_or_pos k with hk | hk
    · omega
    · exact absurd (hout.limitNeeded 0 hk) (Nat.not_le_of_lt hlow)

/-- The total after the refresh. -/
theorem refreshed_total (hw : WellFormed s.index)
    (hfit : slotSum s.index + fileSize s.disk (slotAt s.index (hdr s.index).indexHead).name
      < ulongMod) :
    (refreshed s).2.totalSize = ((indexJournal s.index).refresh (fileSize s.disk)).total := by
  have htotal := journal_total (refresh_ring hw hfit)
  rw [refresh_journal hw.shaped] at htotal
  exact htotal.symm

/-- A limit pass leaves the index well formed. -/
theorem limitResult_wellFormed {k : Nat} (hw : WellFormed s.index)
    (hfit : slotSum s.index + fileSize s.disk (slotAt s.index (hdr s.index).indexHead).name
      < ulongMod) :
    WellFormed (limitResult a (removeStep^[k] (refreshed s))).store.index :=
  (iterate_ring (refresh_ring hw hfit) k).writeHeader_wellFormed

end Removals

/-! ## Runs -/

/-- One removal, as the limit pass makes it: on the header read from the file,
which is written back. -/
def logdataRemoveOne (s : Store) : Store :=
  match readHeader s.index with
  | none => s
  | some h =>
    let r := logdataRemoveFile s h
    { r.store with index := writeHeader r.store.index r.hdr }

/-- An operation on the index. -/
inductive Op where
  /-- `open`; the index file is found with these bytes -/
  | open (found : Bytes) (e : OpenEnv)
  | add (n : LogPath)
  | limit (a : LimitArgs)
  | remove
  /-- the files of the directory change -/
  | env (d : Disk)

/-- What it does. -/
def execOp (s : Store) : Op → Store
  | .open found e => logdataOpen e { s with index := found }
  | .add n => s.added n
  | .limit a =>
    match logdataLimitSize logdataCount a s with
    | some r => r.store
    | none => s
  | .remove => logdataRemoveOne s
  | .env d => { s with disk := d }

/-- `open` finds the index as it was left, or one that it rejects; the sizes in
the slots and the one a call adds to them sum to less than `2 ^ 64`. -/
def SizesFit (s : Store) : Op → Prop
  | .open found e =>
    if logdataAccepts found then found = s.index else e.scanTotal s.disk < ulongMod
  | .add n => slotSum s.index + fileSize s.disk n.bytes < ulongMod
  | .limit _ =>
    slotSum s.index + fileSize s.disk (slotAt s.index (hdr s.index).indexHead).name < ulongMod
  | .remove => True
  | .env _ => True

/-- The next removal subtracts exactly the size of the slot it clears. -/
def ExactRemoval (p : Store × LogdataHeader) : Prop :=
  p.2.indexHead ≠ p.2.indexTail →
    (removeStep p).2.totalSize + (slotAt p.1.index p.2.indexTail).size = p.2.totalSize

/-- Every removal a call makes is exact, those of the limit pass one by one. -/
def ExactRemovals (s : Store) : Op → Prop
  | .limit _ => ∀ k, ExactRemoval (removeStep^[k] (refreshed s))
  | .remove => ExactRemoval (s, hdr s.index)
  | _ => True

section Runs

variable {s : Store} {op : Op} {ops : List Op}

theorem exactRemoval_of_ring {p : Store × LogdataHeader} (hr : Ring p.2 p.1.index) :
    ExactRemoval p :=
  fun hne => removeFile_total hr hne

/-- An index that is made anew is well formed. -/
theorem open_rejected_wellFormed {e : OpenEnv} (hrej : logdataAccepts s.index = false)
    (hfit : e.scanTotal s.disk < ulongMod) : WellFormed (logdataOpen e s).index := by
  unfold logdataOpen
  rw [hrej]
  exact rebuild_wellFormed hfit

/-- One step: whatever the operation and wherever the cursors stand. -/
theorem execOp_step (hw : WellFormed s.index) (hfit : SizesFit s op) :
    WellFormed (execOp s op).index ∧ ExactRemovals s op := by
  cases op with
  | «open» found e =>
    refine ⟨?_, trivial⟩
    show WellFormed (logdataOpen e { s with index := found }).index
    have hcases : if logdataAccepts found then found = s.index
      else e.scanTotal s.disk < ulongMod := hfit
    cases hacc : logdataAccepts found with
    | true =>
      rw [hacc, if_pos rfl] at hcases
      rw [open_shaped (s := { s with index := found }) (hcases ▸ hw.shaped)]
      exact hcases ▸ hw
    | false =>
      rw [hacc, if_neg (by decide)] at hcases
      exact open_rejected_wellFormed (s := { s with index := found }) hacc hcases
  | add n => exact ⟨addFile_wellFormed hw hfit, trivial⟩
  | limit a =>
    obtain ⟨k, _, r, hcall, hr, _⟩ := limitSize_journal hw.shaped a
    refine ⟨?_, fun k => exactRemoval_of_ring (iterate_ring (refresh_ring hw hfit) k)⟩
    show WellFormed (Store.index (match logdataLimitSize logdataCount a s with
      | some r => r.store
      | none => s))
    rw [hcall, hr]
    exact limitResult_wellFormed hw hfit
  | remove =>
    refine ⟨?_, exactRemoval_of_ring hw⟩
    show WellFormed (logdataRemoveOne s).index
    unfold logdataRemoveOne
    rw [readHeader_eq hw.length]
    exact (removeFile_ring hw).writeHeader_wellFormed
  | env d => exact ⟨hw, trivial⟩

/-- Every call of every run leaves a ring with an exact total, and no removal
saturates. A run starts from a ring, or by opening an index that is rejected. -/
theorem wellFormed_run
    (hstart : WellFormed s.index ∨
      ∃ found e rest, ops = .open found e :: rest ∧ logdataAccepts found = false)
    (hfit : AllSteps execOp SizesFit s ops) :
    AllSteps execOp (fun s op => WellFormed (execOp s op).index ∧ ExactRemovals s op) s ops := by
  have hrun : ∀ {ops : List Op} {s : Store}, WellFormed s.index → AllSteps execOp SizesFit s ops →
      AllSteps execOp (fun s op => WellFormed (execOp s op).index ∧ ExactRemovals s op) s ops :=
    AllSteps.imp (I := fun s : Store => WellFormed s.index)
      fun s op hw hfit => ⟨(execOp_step hw hfit).1, execOp_step hw hfit⟩
  rcases hstart with hw | ⟨found, e, rest, rfl, hrej⟩
  · exact hrun hw hfit
  · -- the first call rebuilds
    have hsum : e.scanTotal s.disk < ulongMod := by
      have hopen : if logdataAccepts found then found = s.index
        else e.scanTotal s.disk < ulongMod := hfit.1
      rwa [hrej, if_neg (by decide)] at hopen
    have hw : WellFormed (execOp s (.open found e)).index :=
      open_rejected_wellFormed (s := { s with index := found }) hrej hsum
    exact ⟨⟨hw, trivial⟩, hrun hw hfit.2⟩

/-- The size condition of a limit pass, read off the queue. -/
theorem sizesFit_limit {c : Entry} {a : LimitArgs} (hw : WellFormed s.index)
    (hc : (indexJournal s.index).current = some c) :
    SizesFit s (.limit a) ↔ (indexJournal s.index).total + fileSize s.disk c.name < ulongMod := by
  have hname : (slotAt s.index (hdr s.index).indexHead).name = c.name :=
    congrArg Entry.name (current_eq_some.mp hc).2
  unfold SizesFit
  rw [slotSum_index hw.shaped, hname]

/-- A missing index is rebuilt, the log added, and the limit enforced. -/
theorem wellFormed_run_liveLog :
    AllSteps execOp (fun s op => WellFormed (execOp s op).index ∧ ExactRemovals s op) liveLogDir
      [.open [] liveLogScan, .add livePath, .limit ⟨0, 0, 0, false, 0⟩] := by
  obtain ⟨hw, hj, hdisk⟩ := rebuilt_liveLog_spec
  obtain ⟨hw', hj', hdisk'⟩ := doubled_spec
  have hrej : logdataAccepts [] = false := rfl
  have hopen : execOp liveLogDir (.open [] liveLogScan) = logdataRebuild liveLogScan liveLogDir := by
    show logdataOpen liveLogScan { liveLogDir with index := [] } = _
    unfold logdataOpen
    rw [hrej]
    rfl
  have hadd : execOp (logdataRebuild liveLogScan liveLogDir) (.add livePath) = doubled := by
    rw [doubled, execOp]
  refine wellFormed_run (Or.inr ⟨[], liveLogScan, _, rfl, hrej⟩) ⟨?_, ?_, ?_, trivial⟩
  · show if logdataAccepts [] then [] = liveLogDir.index
      else liveLogScan.scanTotal liveLogDir.disk < ulongMod
    rw [hrej, if_neg (by decide), scanTotal_liveLog]
    decide
  · rw [hopen]
    show slotSum _ + fileSize _ _ < ulongMod
    rw [slotSum_index hw.shaped, hj, hdisk]
    decide
  · rw [hopen, hadd]
    have hcurrent : (indexJournal doubled.index).current = some ⟨liveLog.bytes, 0⟩ := by rw [hj']
    rw [sizesFit_limit hw' hcurrent, hj', hdisk']
    decide

end Runs

end AndroidLearn.LoggerCommon
