import AndroidLearn.LoggerCommon.LiveLog

/-!
# The recorded sizes and the disk

What `logger_common_logdata_limit_size` of `logctl.c` counts against the limit are the
sizes recorded in the index. A limit pass refreshes the size of the head slot only, and
`logger_common_logdata_add_file` does not look at the slot it leaves behind. What a log
grew by after the last limit pass before its rotation is therefore never recorded.

The runs are those of `NewFile`: new logs and limit passes in any order, each with the
index file as it finds it, while the logs grow in between. `Accounted` says that the
closed logs are recorded at their size on disk; `CurrentFinal`, that the log a call closes
was recorded at its final size.

Theorem: `accurate_run`. A call that creates a log keeps the accounting exactly when the
log it closes was recorded at its final size, and the limit passes of such runs report
what is on disk.
-/

namespace AndroidLearn.LoggerCommon

open Cyclic Run

/-- Every closed log is recorded at its size on disk. -/
structure Accounted (s : Store) : Prop where
  wellFormed : WellFormed s.index
  nodup : (indexJournal s.index).names.Nodup
  closed : ∀ x ∈ (indexJournal s.index).closed, x.size = fileSize s.disk x.name

/-- So is the current one. -/
def CurrentFinal (s : Store) : Prop :=
  ∀ c, (indexJournal s.index).current = some c → c.size = fileSize s.disk c.name

/-- The index is found as it was left, or rebuilt from files that are stored
under distinct names, in full, and all stay on disk. -/
structure OpensAccounted (found : Bytes) (e : OpenEnv) (s : Store) : Prop
    extends OpensDistinct found e s where
  full : logdataAccepts found = false → ∀ n ∈ e.kept, scannedName n = n.bytes
  stays : logdataAccepts found = false → ∀ n ∈ e.kept, n.bytes ∉ e.dropped.map FileName.bytes
  sizes : logdataAccepts found = false → e.scanTotal s.disk < ulongMod

/-- The store a call works on once it has opened the index. -/
def LogOp.opened (s : Store) : LogOp → Store
  | .generate found a w e =>
    match a.created w with
    | some n => logdataOpen (a.scan e) ((s.withIndex found).create n.bytes)
    | none => s.withIndex found
  | .limit found e _ => logdataOpen e (s.withIndex found)
  | .env _ => s

/-- Only the current log grows; a call finds or rebuilds an accounted index; a
created log is new to it and has no slash in its name, and the log it closes is
recorded at its final size. -/
def ClosesFinal (s : Store) (op : LogOp) : Prop :=
  match op with
  | .generate found a w e => (logdataAccepts found = true → found = s.index) ∧
    ∀ n, a.created w = some n → w.indexOpens = true → slash ∉ n.bytes ∧
      OpensAccounted found (a.scan e) s ∧ NewToIndex found (a.scan e) n ∧
      (logdataAccepts found = true → CurrentFinal s) ∧
      SizesFit (op.opened s) (.add n)
  | .limit found e a => OpensAccounted found e s ∧ SizesFit (op.opened s) (.limit a)
  | .env d => logdataAccepts s.index = true →
    ∀ x ∈ (indexJournal s.index).closed, fileSize d x.name = fileSize s.disk x.name

/-- A log that is entered in the index is the file its slot names; and after a limit
pass the recorded total is the sum of the sizes of the indexed files, as `file_size`
reports them. -/
def Accurate (s : Store) (op : LogOp) : Prop :=
  match op with
  | .generate _ a w _ => ∀ n, a.created w = some n → w.indexOpens = true →
    (indexJournal (execLog s op).index).current.map Entry.name = some n.bytes
  | .limit _ _ _ => (hdr (execLog s op).index).totalSize
      = ((indexJournal (execLog s op).index).names.map (fileSize (execLog s op).disk)).sum
  | .env _ => True

section Step

variable {s t : Store} {found : Bytes} {e : OpenEnv} {a : NewFileArgs} {n : LogPath}

/-- A queue whose entries are all at their size on disk sums to the disk. -/
theorem total_eq_disk {j : Journal} {disk : Disk}
    (hall : ∀ x ∈ j.entries, x.size = fileSize disk x.name) :
    j.total = (j.names.map (fileSize disk)).sum := by
  unfold Journal.total Journal.names
  rw [List.map_map]
  exact congrArg List.sum (List.map_congr_left hall)

/-- A file that was not removed has its size. -/
theorem unlinkAll_fileSize {ns : List Name} {m : Name} (hm : m ∉ ns) :
    fileSize (s.unlinkAll ns).disk m = fileSize s.disk m := by
  unfold fileSize
  rw [unlinkAll_disk, if_neg hm]

/-- The entries of a rebuilt index are at their size on disk. -/
theorem rebuilt_entries (hopen : OpensAccounted found e s)
    (hrej : logdataAccepts found = false) :
    ∀ x ∈ (indexJournal (logdataRebuild e t).index).entries,
      x.size = fileSize (logdataRebuild e t).disk x.name := by
  obtain ⟨_, hj, hd, _⟩ := rebuild_spec e t
  intro x hx
  rw [hj, refill_entries] at hx
  obtain ⟨n, hn, rfl⟩ := List.mem_map.mp hx
  have hname : (scannedEntry t.disk n).name = n.bytes := hopen.full hrej n hn
  rw [hname, hd, unlinkAll_fileSize (hopen.stays hrej n hn)]
  rfl

/-- Opening gives an accounted index; a rebuilt one is final throughout. -/
theorem open_accounted (hleft : logdataAccepts s.index = true → Accounted s)
    (hopen : OpensAccounted found e s) (ht : t.index = found)
    (hdisk : ∀ m, fileSize t.disk m = fileSize s.disk m) :
    Accounted (logdataOpen e t) ∧
      ((logdataAccepts found = true → CurrentFinal s) → CurrentFinal (logdataOpen e t)) := by
  cases hacc : logdataAccepts found with
  | true =>
    have hfound := hopen.left hacc
    have hs := hleft (by rw [← hfound]; exact hacc)
    have hindex : t.index = s.index := ht.trans hfound
    rw [open_accepted (by rw [ht]; exact hacc)]
    constructor
    · refine ⟨by rw [hindex]; exact hs.wellFormed, by rw [hindex]; exact hs.nodup, ?_⟩
      intro x hx
      rw [hindex] at hx
      rw [hdisk]
      exact hs.closed x hx
    · intro hfinal c hc
      rw [hindex] at hc
      rw [hdisk]
      exact hfinal rfl c hc
  | false =>
    have hall := rebuilt_entries (t := t) hopen hacc
    have hsum : e.scanTotal t.disk < ulongMod := by
      unfold OpenEnv.scanTotal
      simp only [hdisk]
      exact hopen.sizes hacc
    rw [open_rejected (by rw [ht]; exact hacc)]
    constructor
    · refine ⟨rebuild_wellFormed hsum, by rw [rebuilt_names]; exact hopen.lost hacc, ?_⟩
      exact fun x hx => hall x (List.mem_append_left _ hx)
    · intro _ c hc
      refine hall c (List.mem_append_right _ ?_)
      rw [hc]
      exact List.mem_singleton_self c

/-- A log is added behind one that is recorded at its final size. -/
theorem added_accounted (ha : Accounted t) (hfinal : CurrentFinal t)
    (hnew : slotName n ∉ (indexJournal t.index).names) (hfit : SizesFit t (.add n)) :
    Accounted (t.added n) := by
  have hshaped := ha.wellFormed.shaped
  obtain ⟨hd', _⟩ := added_distinct ⟨hshaped, ha.nodup⟩ hnew
  obtain ⟨_, _, hj, hdisk, _⟩ := addFile_spec hshaped n
  have hall : ∀ x ∈ (indexJournal t.index).entries, x.size = fileSize t.disk x.name := by
    intro x hx
    rcases List.mem_append.mp hx with hx | hx
    · exact ha.closed x hx
    · exact hfinal x (Option.mem_toList.mp hx)
  refine ⟨addFile_wellFormed ha.wellFormed hfit, hd'.nodup, ?_⟩
  intro x hx
  rw [hj] at hx
  rw [hdisk]
  have hclosed : x ∈ (if (indexJournal t.index).Full logdataCount then
      (indexJournal t.index).remove else indexJournal t.index).entries := hx
  unfold Store.evict Journal.evicted
  by_cases hfull : (indexJournal t.index).Full logdataCount
  · -- the evicted log has another name than the ones that stay
    rw [if_pos hfull] at hclosed ⊢
    have hnames := ha.nodup
    unfold Journal.names Journal.entries at hnames
    unfold Journal.entries Journal.remove at hclosed
    unfold Journal.entries at hall
    cases hcl : (indexJournal t.index).closed with
    | nil =>
      rw [hcl] at hclosed hall
      exact hall x hclosed
    | cons y ys =>
      rw [hcl] at hclosed hall hnames
      have hxy : x.name ≠ y.name := by
        rw [List.cons_append, List.map_cons] at hnames
        intro heq
        exact (List.nodup_cons.mp hnames).1 (heq ▸ List.mem_map_of_mem hclosed)
      have hsize := hall x (List.mem_cons_of_mem _ hclosed)
      show x.size = fileSize (t.unlink y.name).disk x.name
      rw [hsize, unlink_disk]
      unfold fileSize
      rw [Function.update_of_ne hxy]
  · rw [if_neg hfull] at hclosed ⊢
    exact hall x hclosed

/-- A limit pass leaves an index whose entries are all at their size on disk. -/
theorem limited_accounted (ha : Accounted t) (l : LimitArgs) (hfit : SizesFit t (.limit l)) :
    ∃ r, logdataLimitSize logdataCount l t = some r ∧ Accounted r.store ∧
      (hdr r.store.index).totalSize
        = ((indexJournal r.store.index).names.map (fileSize r.store.disk)).sum := by
  have hshaped := ha.wellFormed.shaped
  obtain ⟨k, _, r, hcall, hr, _, hj, hdisk, _⟩ := limitSize_journal hshaped l
  obtain ⟨r', hcall', hd', _⟩ := limited_distinct ⟨hshaped, ha.nodup⟩ l
  obtain rfl : r = r' := Option.some.inj (hcall.symm.trans hcall')
  have hw : WellFormed r.store.index := by
    rw [hr]
    exact limitResult_wellFormed ha.wellFormed hfit
  have hnames := ha.nodup
  unfold Journal.names Journal.entries at hnames
  rw [List.map_append, ← List.take_append_drop k (indexJournal t.index).closed,
    List.map_append] at hnames
  -- what is left keeps its file: the names that went are others
  have hstays : ∀ m, m ∈ ((indexJournal t.index).closed.drop k).map Entry.name ∨
      m ∈ (indexJournal t.index).current.toList.map Entry.name →
        fileSize r.store.disk m = fileSize t.disk m := by
    intro m hm
    rw [hdisk]
    refine unlinkAll_fileSize fun hgone => ?_
    rcases hm with hm | hm
    · exact (List.nodup_append'.mp (List.nodup_append'.mp hnames).1).2.2 hgone hm
    · exact (List.nodup_append'.mp hnames).2.2 (List.mem_append_left _ hgone) hm
  have hall : ∀ x ∈ (indexJournal r.store.index).entries,
      x.size = fileSize r.store.disk x.name := by
    intro x hx
    rw [hj] at hx
    rcases List.mem_append.mp hx with hx | hx
    · rw [hstays x.name (Or.inl (List.mem_map_of_mem hx))]
      exact ha.closed x (List.mem_of_mem_drop hx)
    · -- the current log, at its refreshed size
      obtain ⟨c, hc, rfl⟩ := Option.map_eq_some_iff.mp (Option.mem_toList.mp hx)
      have hmem : c.name ∈ (indexJournal t.index).current.toList.map Entry.name := by
        rw [hc]
        simp
      exact (hstays c.name (Or.inr hmem)).symm
  refine ⟨r, hcall, ⟨hw, hd'.nodup, fun x hx => hall x (List.mem_append_left _ hx)⟩, ?_⟩
  rw [← total_eq_disk hall]
  exact (journal_total hw).symm

/-- A step that closes files at their final size leaves the index accurate. -/
theorem closesFinal_step {op : LogOp} (hleft : logdataAccepts s.index = true → Accounted s)
    (hop : ClosesFinal s op) :
    (logdataAccepts (execLog s op).index = true → Accounted (execLog s op)) ∧ Accurate s op := by
  cases op with
  | generate found a w e =>
    obtain ⟨hfound, hnew⟩ := hop
    -- an index that is left alone
    have hkept : logdataAccepts found = true → Accounted (s.withIndex found) := by
      intro hacc
      have hf : found = s.index := hfound hacc
      obtain ⟨hw, hd, hcl⟩ := hleft (by rw [← hf]; exact hacc)
      subst hf
      exact ⟨hw, hd, hcl⟩
    cases hc : a.created w with
    | none =>
      have heq : execLog s (.generate found a w e) = s.withIndex found :=
        generateNewFile_eq_self hc
      rw [heq]
      refine ⟨hkept, fun n hn => ?_⟩
      rw [hc] at hn
      exact absurd hn (by simp)
    | some n =>
      have hindex : ((s.withIndex found).create n.bytes).index = found := create_index _ _
      have hsize : ∀ m, fileSize ((s.withIndex found).create n.bytes).disk m
          = fileSize s.disk m := fun m => create_fileSize _ _ m
      cases hopens : w.indexOpens with
      | false =>
        have heq : execLog s (.generate found a w e) = (s.withIndex found).create n.bytes := by
          show (generateNewFile a w e (s.withIndex found)).2 = _
          rw [generateNewFile_unopened hc hopens]
        rw [heq, hindex]
        refine ⟨fun hacc => ?_, fun m _ htrue => absurd (hopens.symm.trans htrue) (by simp)⟩
        obtain ⟨hw, hd, hcl⟩ := hkept hacc
        refine ⟨by rwa [create_index], by rwa [create_index], fun x hx => ?_⟩
        rw [create_index] at hx
        rw [create_fileSize]
        exact hcl x hx
      | true =>
        obtain ⟨hslash, hopen, hnew, hfinal, hfit⟩ := hnew n hc hopens
        obtain ⟨hacc', hcur⟩ := open_accounted hleft hopen hindex hsize
        have heq : execLog s (.generate found a w e)
            = (logdataOpen (a.scan e) ((s.withIndex found).create n.bytes)).added n := by
          show (generateNewFile a w e (s.withIndex found)).2 = _
          rw [generateNewFile_eq hc hopens]
        have hopened : LogOp.opened s (.generate found a w e)
            = logdataOpen (a.scan e) ((s.withIndex found).create n.bytes) := by
          unfold LogOp.opened
          dsimp only
          rw [hc]
        rw [hopened] at hfit
        unfold Accurate
        rw [heq]
        refine ⟨fun _ =>
          added_accounted hacc' (hcur hfinal) (open_newName hnew.slot hindex) hfit, ?_⟩
        intro m hm _
        rw [hc] at hm
        obtain rfl := Option.some.inj hm
        rw [(addFile_spec hacc'.wellFormed.shaped n).2.2.1, Journal.add,
          created_newEntry hc hslash]
        rfl
  | limit found e l =>
    obtain ⟨hopen, hfit⟩ := hop
    obtain ⟨hacc, _⟩ := open_accounted (t := s.withIndex found) hleft hopen rfl fun _ => rfl
    obtain ⟨r, hcall, hacc', htotal⟩ := limited_accounted hacc l hfit
    have heq : execLog s (.limit found e l) = r.store := by
      show openLimitSize found e l s = r.store
      unfold openLimitSize
      dsimp only
      rw [hcall]
    unfold Accurate
    dsimp only
    rw [heq]
    exact ⟨fun _ => hacc', htotal⟩
  | env d =>
    refine ⟨fun hacc => ?_, trivial⟩
    have hacc : logdataAccepts s.index = true := hacc
    obtain ⟨hw, hd, hcl⟩ := hleft hacc
    exact ⟨hw, hd, fun x hx => (hcl x hx).trans (hop hacc x hx).symm⟩

end Step

/-- In every run that closes its logs at their recorded size, the slots name the
logs that were created, and every limit pass reports what they take on disk. -/
theorem accurate_run {s : Store} {ops : List LogOp}
    (hstart : logdataAccepts s.index = true → Accounted s)
    (hops : AllSteps execLog ClosesFinal s ops) : AllSteps execLog Accurate s ops :=
  AllSteps.imp (I := fun s : Store => logdataAccepts s.index = true → Accounted s)
    (fun _ _ hleft hop => closesFinal_step hleft hop) hstart hops

/-! ## A rotation after growth -/

/-- The log that follows `bootLog`. -/
def nextArgs : NewFileArgs := { bootArgs with serialno := 2, serialno_le := by decide }

def nextLog : LogPath := nextArgs.logPath bootPrefix

theorem created_nextLog : nextArgs.created .ok = some nextLog := by decide

/-- One block written to `bootLog`. -/
def grownDisk : Disk := fun m => if m = bootLog.bytes then some 512 else none

/-- A limit of 1 MB. -/
def limitOneMb : LimitArgs := ⟨1, 0, 0, false, 0⟩

section Left

variable {t : Store} {a : NewFileArgs} {e : OpenEnv} {n : LogPath}

/-- A call that finds the index as it was left. -/
theorem execLog_generate_left (hs : Shaped t.index) (hc : a.created .ok = some n) :
    execLog t (.generate t.index a .ok e) = (t.create n.bytes).added n := by
  show (generateNewFile a .ok e (t.withIndex t.index)).2 = _
  rw [withIndex_self, generateNewFile_eq hc rfl, open_shaped (by rw [create_index]; exact hs)]

/-- A limit pass leaves what the pass on the index does. -/
theorem execLog_limit_left {l : LimitArgs} {r : LimitResult} (hs : Shaped t.index)
    (hcall : logdataLimitSize logdataCount l t = some r) :
    execLog t (.limit t.index e l) = r.store := by
  show openLimitSize t.index e l t = r.store
  unfold openLimitSize
  rw [withIndex_self, open_shaped hs]
  dsimp only
  rw [hcall]

/-- An index that was left by the program is opened as it is. -/
theorem opensAccounted_left (hs : Shaped t.index) (e : OpenEnv) :
    OpensAccounted t.index e t := by
  have hacc := accepts_of_shaped hs
  have hvacuous : ¬ logdataAccepts t.index = false := by
    rw [hacc]
    decide
  exact
    { left := fun _ => rfl
      lost := fun hrej => absurd hrej hvacuous
      full := fun hrej => absurd hrej hvacuous
      stays := fun hrej => absurd hrej hvacuous
      sizes := fun hrej => absurd hrej hvacuous }

end Left

theorem emptyIndex_spec : WellFormed emptyIndex.index ∧
    indexJournal emptyIndex.index = ⟨[], none⟩ ∧ emptyIndex.disk = fun _ => none := by
  have hkept : OpenEnv.kept ⟨none, [], Logdata.zero, Logdata.zero_fits⟩ = [] := List.take_nil
  have hdropped : OpenEnv.dropped ⟨none, [], Logdata.zero, Logdata.zero_fits⟩ = [] :=
    List.drop_nil
  obtain ⟨_, hj, hdisk, _⟩ :=
    rebuild_spec ⟨none, [], Logdata.zero, Logdata.zero_fits⟩ emptyDir
  rw [hkept] at hj
  rw [hdropped] at hdisk
  rw [emptyIndex]
  refine ⟨rebuild_wellFormed ?_, ?_, hdisk⟩
  · unfold OpenEnv.scanTotal
    rw [hkept]
    decide
  · rw [hj]
    unfold Journal.refill
    rw [if_pos (by exact logdataCount_pos)]
    rfl

/-- The first log is created, and then grows. -/
def grown : Store :=
  (execLog emptyIndex (.generate emptyIndex.index bootArgs .ok bootScan)).withDisk grownDisk

theorem grown_spec : WellFormed grown.index ∧
    indexJournal grown.index = ⟨[], some ⟨bootLog.bytes, 0⟩⟩ := by
  obtain ⟨hw, hj, hdisk⟩ := emptyIndex_spec
  have hsize : ∀ m, fileSize (emptyIndex.create bootLog.bytes).disk m = 0 := by
    intro m
    rw [create_fileSize, hdisk]
    rfl
  have hw' : WellFormed (emptyIndex.create bootLog.bytes).index := by rwa [create_index]
  have hj' : indexJournal (emptyIndex.create bootLog.bytes).index = ⟨[], none⟩ := by
    rwa [create_index]
  have hfit : slotSum (emptyIndex.create bootLog.bytes).index
      + fileSize (emptyIndex.create bootLog.bytes).disk bootLog.bytes < ulongMod := by
    rw [slotSum_index hw'.shaped, hj', hsize]
    decide
  obtain ⟨hj'', _, _⟩ := addFile_vacant hw'.shaped bootLog (by rw [hj'])
  rw [grown, withDisk_index, execLog_generate_left hw.shaped created_bootLog]
  refine ⟨addFile_wellFormed hw' hfit, ?_⟩
  rw [hj'', hj', created_newEntry created_bootLog (by decide), hsize]

/-- The rotation that follows closes it at the size it had when it was created. -/
def rotated : Store := execLog grown (.generate grown.index nextArgs .ok bootScan)

theorem rotated_spec : WellFormed rotated.index ∧
    indexJournal rotated.index = ⟨[⟨bootLog.bytes, 0⟩], some ⟨nextLog.bytes, 0⟩⟩ ∧
    ∀ m, fileSize rotated.disk m = fileSize grownDisk m := by
  obtain ⟨hw, hj⟩ := grown_spec
  have hsize : ∀ m, fileSize (grown.create nextLog.bytes).disk m = fileSize grownDisk m := by
    intro m
    rw [create_fileSize, grown, withDisk_disk]
  have hw' : WellFormed (grown.create nextLog.bytes).index := by rwa [create_index]
  have hj' : indexJournal (grown.create nextLog.bytes).index
      = ⟨[], some ⟨bootLog.bytes, 0⟩⟩ := by rwa [create_index]
  have hroom : ¬ (indexJournal (grown.create nextLog.bytes).index).Full logdataCount := by
    rw [hj', logdataCount_eq]
    decide
  have hnext : fileSize grownDisk nextLog.bytes = 0 := by decide
  have hfit : slotSum (grown.create nextLog.bytes).index
      + fileSize (grown.create nextLog.bytes).disk nextLog.bytes < ulongMod := by
    rw [slotSum_index hw'.shaped, hj', hsize, hnext]
    decide
  obtain ⟨_, _, hj'', hdisk, _⟩ := addFile_spec hw'.shaped nextLog
  rw [evict_of_not_full hroom] at hj'' hdisk
  rw [rotated, execLog_generate_left hw.shaped created_nextLog]
  refine ⟨addFile_wellFormed hw' hfit, ?_, fun m => by rw [hdisk, hsize]⟩
  rw [hj'', created_newEntry created_nextLog (by decide), hsize, hnext]
  unfold Journal.add
  rw [if_neg hroom, hj']
  rfl

theorem sizesFit_limit_grown : SizesFit grown (.limit limitOneMb) := by
  obtain ⟨hw, hj⟩ := grown_spec
  have hcurrent : (indexJournal grown.index).current = some ⟨bootLog.bytes, 0⟩ := by rw [hj]
  rw [sizesFit_limit hw hcurrent, hj, grown, withDisk_disk]
  decide

theorem accurate_run_grown : AllSteps execLog Accurate grown
    [.limit grown.index bootScan limitOneMb] := by
  obtain ⟨hw, hj⟩ := grown_spec
  refine accurate_run (fun _ => ⟨hw, ?_, ?_⟩) ⟨⟨opensAccounted_left hw.shaped _, ?_⟩, trivial⟩
  · rw [hj]
    decide
  · rw [hj]
    simp
  · rw [LogOp.opened, withIndex_self, open_shaped hw.shaped]
    exact sizesFit_limit_grown

/-- The block written before the rotation is missing from the total. -/
theorem accurate_fails_rotated :
    (logdataAccepts grown.index = true → Accounted grown) ∧
      ¬ AllSteps execLog Accurate grown
        [.generate grown.index nextArgs .ok bootScan, .limit rotated.index bootScan limitOneMb] := by
  obtain ⟨hw, hj⟩ := grown_spec
  refine ⟨fun _ => ⟨hw, by rw [hj]; decide, by rw [hj]; simp⟩, ?_⟩
  rintro ⟨-, haccurate, -⟩
  have hrotated : execLog grown (.generate grown.index nextArgs .ok bootScan) = rotated := by
    rw [rotated]
  obtain ⟨hw₂, hj₂, hdisk₂⟩ := rotated_spec
  have hboot : fileSize grownDisk bootLog.bytes = 512 := by decide
  have hnext : fileSize grownDisk nextLog.bytes = 0 := by decide
  have hrefresh : (indexJournal rotated.index).refresh (fileSize rotated.disk)
      = ⟨[⟨bootLog.bytes, 0⟩], some ⟨nextLog.bytes, 0⟩⟩ := by
    rw [hj₂]
    unfold Journal.refresh
    rw [Option.map_some, hdisk₂, hnext]
  have hcurrent : (indexJournal rotated.index).current = some ⟨nextLog.bytes, 0⟩ := by rw [hj₂]
  have hfit : SizesFit rotated (.limit limitOneMb) := by
    rw [sizesFit_limit hw₂ hcurrent, hj₂, hdisk₂, hnext]
    decide
  -- the total stays below the limit, so that nothing is removed
  have hlow : (refreshed rotated).2.totalSize / mb < limitOneMb.limitedSizeMb := by
    rw [refreshed_total hw₂ hfit, hrefresh]
    decide
  obtain ⟨k, _, r, hcall, hr, _, hj, hdisk, hzero⟩ := limitSize_journal hw₂.shaped limitOneMb
  have hk : k = 0 := hzero rfl hlow
  subst hk
  have hw' : WellFormed r.store.index := by
    rw [hr]
    exact limitResult_wellFormed hw₂ hfit
  have htotal : (hdr r.store.index).totalSize = (indexJournal r.store.index).total :=
    (journal_total hw').symm
  rw [hrefresh, hj₂] at hj
  have hsame : fileSize r.store.disk = fileSize grownDisk := by
    funext m
    rw [hdisk, List.take_zero, List.map_nil, unlinkAll_fileSize (List.not_mem_nil), hdisk₂]
  rw [hrotated] at haccurate
  unfold Accurate at haccurate
  dsimp only at haccurate
  rw [execLog_limit_left hw₂.shaped hcall, htotal, hj, hsame] at haccurate
  revert haccurate
  decide

end AndroidLearn.LoggerCommon
