import AndroidLearn.LoggerCommon.NewFile

/-!
# No file named twice, no live log deleted

`logger_common_generate_new_file` of `logctl.c` creates the new log before it opens the
index. When the index is lost, the rebuild lists the directory, meets the new log and
gives it a slot; the add that follows gives it another. From then on a limit pass may
unlink the log being written (`limitContract_fails_doubled`).

`LiveLogSafe` says of one call that no name is twice in the index and that the log just
created is on disk. `FindsIndex` is the condition on a call: one that creates a log and
opens the index finds it as it was left, and the names are new to the index, both that of
the file and the one its slot gets. The index may be lost as often as one likes before a
limit pass, and a call that cannot open it changes nothing in it.

Theorem: `namedOnce_run`, over every run of such calls. `execLog_step` is the step, with a
case for each of the two calls and for each answer of `open`.
-/

namespace AndroidLearn.LoggerCommon

open Cyclic Run

/-! ## Names and slots -/

section Slots

variable {f : Bytes} {i j : Nat}

/-- The queue's names are those of the slots from the tail on. -/
theorem names_eq_slotNames (f : Bytes) :
    (indexJournal f).names = slotNames f (hdr f).indexTail (closedCount (hdr f)) ++
      (if (slotAt f (hdr f).indexHead).Occupied then [(slotAt f (hdr f).indexHead).name]
        else []) := by
  unfold Journal.names Journal.entries indexJournal journal slotNames closedCount
  dsimp only
  rw [List.map_append, List.map_map]
  congr 1
  split <;> rfl

/-- An occupied slot is one of the queue's. -/
theorem dist_le_of_occupied (hs : Shaped f) (hi : i < logdataCount)
    (hocc : (slotAt f i).Occupied) :
    dist logdataCount (hdr f).indexTail i ≤ closedCount (hdr f) := by
  by_contra hlt
  exact hocc (hs.outside i hi (Nat.lt_of_not_le hlt)).1

/-- The name of a slot, in the order of the journal. -/
theorem names_getElem (hs : Shaped f) (hi : i < logdataCount) (hocc : (slotAt f i).Occupied) :
    (indexJournal f).names[dist logdataCount (hdr f).indexTail i]? = some (slotAt f i).name := by
  have hle := dist_le_of_occupied hs hi hocc
  rw [names_eq_slotNames]
  by_cases hlt : dist logdataCount (hdr f).indexTail i < closedCount (hdr f)
  · rw [List.getElem?_append_left (by simpa [slotNames] using hlt)]
    unfold slotNames
    rw [List.getElem?_map, List.getElem?_range hlt, Option.map_some, nth_dist hs.tail_lt hi]
  · -- the head slot
    have hhead : i = (hdr f).indexHead := by
      unfold closedCount at hle hlt
      exact dist_inj hs.tail_lt hi hs.head_lt (by omega)
    have hlen : (slotNames f (hdr f).indexTail (closedCount (hdr f))).length
        = dist logdataCount (hdr f).indexTail i := by
      rw [hhead]
      simp [slotNames, closedCount]
    rw [List.getElem?_append_right (by omega), hlen, Nat.sub_self, ← hhead, if_pos hocc]
    rfl

/-- Distinct names sit in distinct slots. -/
theorem Distinct.slot_inj (hd : Distinct f) (hi : i < logdataCount) (hj : j < logdataCount)
    (hocci : (slotAt f i).Occupied) (hoccj : (slotAt f j).Occupied)
    (hname : (slotAt f i).name = (slotAt f j).name) : i = j := by
  have hi' := names_getElem hd.shaped hi hocci
  have hj' := names_getElem hd.shaped hj hoccj
  rw [← hname, ← hi'] at hj'
  have hlt : dist logdataCount (hdr f).indexTail i < (indexJournal f).names.length := by
    by_contra hge
    rw [List.getElem?_eq_none (Nat.le_of_not_lt hge)] at hi'
    exact absurd hi' (by simp)
  exact dist_inj hd.shaped.tail_lt hi hj ((List.getElem?_inj hlt hd.nodup).mp hj'.symm)

end Slots

/-! ## What a run must not do -/

/-- Every log file on disk is named by at most one occupied slot of the index. -/
def NamedOnce (s : Store) : Prop :=
  logdataAccepts s.index = true → ∀ i < logdataCount, ∀ j < logdataCount,
    (slotAt s.index i).Occupied → (slotAt s.index j).Occupied →
      (slotAt s.index i).name = (slotAt s.index j).name →
        (s.disk (slotAt s.index i).name).isSome → i = j

/-- After a call: no file is named twice, a created log is there, and a limit
pass left the file of the head slot alone. -/
def LiveLogSafe (s : Store) (op : LogOp) : Prop :=
  NamedOnce (execLog s op) ∧
    match op with
    | .generate _ a w _ => ∀ n, a.created w = some n → ((execLog s op).disk n.bytes).isSome
    | .limit found e _ => ∀ c,
      (indexJournal (logdataOpen e (s.withIndex found)).index).current = some c →
        (execLog s op).disk c.name = (logdataOpen e (s.withIndex found)).disk c.name
    | .env _ => True

/-- The name does not come up: not in the index found, nor in the scan that
replaces it. -/
def NewName (found : Bytes) (e : OpenEnv) (m : Name) : Prop :=
  if logdataAccepts found then m ∉ (indexJournal found).names
  else m ∉ e.selected.map scannedName

/-- Neither does that of a created log, nor what its slot will hold of it. -/
structure NewToIndex (found : Bytes) (e : OpenEnv) (n : LogPath) : Prop where
  path : NewName found e n.bytes
  slot : NewName found e (slotName n)

/-- Opening finds or makes an index of distinct names, and a created log is new
to it. -/
def FindsIndex (s : Store) : LogOp → Prop
  | .generate found a w e => (logdataAccepts found = true → found = s.index) ∧
    ∀ n, a.created w = some n → w.indexOpens = true →
      OpensDistinct found (a.scan e) s ∧ NewToIndex found (a.scan e) n
  | .limit found e _ => OpensDistinct found e s
  | .env _ => True

/-! ## One call -/

section Step

variable {s t : Store} {found : Bytes} {e : OpenEnv} {a : NewFileArgs} {n : LogPath} {m : Name}

theorem Distinct.namedOnce (hd : Distinct s.index) : NamedOnce s :=
  fun _ _ hi _ hj hocci hoccj hname _ => hd.slot_inj hi hj hocci hoccj hname

/-- An oldest closed log that is also the current one is named twice. -/
theorem not_namedOnce {x c : Entry} {xs : List Entry} (hs : Shaped t.index)
    (hj : indexJournal t.index = ⟨x :: xs, some c⟩) (hname : x.name = c.name)
    (hdisk : (t.disk c.name).isSome) : ¬ NamedOnce t := by
  intro honce
  have hclosed : (journal (hdr t.index) t.index).closed = x :: xs := congrArg Journal.closed hj
  have hcurrent : (journal (hdr t.index) t.index).current = some c := congrArg Journal.current hj
  have hne : (hdr t.index).indexHead ≠ (hdr t.index).indexTail := by
    intro heq
    rw [(closed_eq_nil hs).mpr heq] at hclosed
    exact absurd hclosed (by simp)
  obtain ⟨hocc, hhead⟩ := current_eq_some.mp hcurrent
  rw [closed_eq_cons hs hne] at hclosed
  injection hclosed with htail _
  have htailName : (slotAt t.index (hdr t.index).indexTail).name = x.name :=
    congrArg Entry.name htail
  have hheadName : (slotAt t.index (hdr t.index).indexHead).name = c.name :=
    congrArg Entry.name hhead
  exact hne (honce (accepts_of_shaped hs) _ hs.head_lt _ hs.tail_lt hocc (hs.named_tail hne)
    (by rw [hheadName, htailName, hname]) (by rw [hheadName]; exact hdisk))

/-- A new name is not in the opened index. -/
theorem open_newName (hnew : NewName found e m) (ht : t.index = found) :
    m ∉ (indexJournal (logdataOpen e t).index).names := by
  unfold NewName at hnew
  cases hacc : logdataAccepts found with
  | true =>
    rw [hacc, if_pos rfl] at hnew
    rw [open_accepted (by rw [ht]; exact hacc), ht]
    exact hnew
  | false =>
    rw [hacc, if_neg (by decide)] at hnew
    rw [open_rejected (by rw [ht]; exact hacc), rebuilt_names]
    intro hmem
    obtain ⟨k, hk, hname⟩ := List.mem_map.mp hmem
    exact hnew (List.mem_map.mpr ⟨k, List.mem_of_mem_take hk, hname⟩)

/-- Nor is a file of a new name unlinked by opening it. -/
theorem open_newName_disk (hnew : NewName found e m) (hlen : m.length ≤ logdataFileBuflen - 1)
    (ht : t.index = found) : (logdataOpen e t).disk m = t.disk m := by
  unfold NewName at hnew
  cases hacc : logdataAccepts found with
  | true => rw [open_accepted (by rw [ht]; exact hacc)]
  | false =>
    rw [hacc, if_neg (by decide)] at hnew
    rw [open_rejected (by rw [ht]; exact hacc), (rebuild_spec e t).2.2.1, unlinkAll_disk, if_neg]
    intro hmem
    obtain ⟨k, hk, hname⟩ := List.mem_map.mp hmem
    refine hnew (List.mem_map.mpr ⟨k, List.mem_of_mem_drop hk, ?_⟩)
    unfold scannedName
    rw [hname, List.take_of_length_le hlen]

theorem remove_names_sublist (j : Journal) : j.remove.names.Sublist j.names := by
  unfold Journal.names Journal.entries Journal.remove
  exact ((List.tail_sublist _).append_right _).map _

/-- Adding a new name keeps the names distinct, and every file that the index does
not name. -/
theorem added_distinct (hd : Distinct t.index) (hnew : slotName n ∉ (indexJournal t.index).names) :
    Distinct (t.added n).index ∧
      ∀ m, m ∉ (indexJournal t.index).names → (t.added n).disk m = t.disk m := by
  obtain ⟨_, hshaped, hj, hdisk, _⟩ := addFile_spec hd.shaped n
  have hname : (newEntry t.evict.disk n).name = slotName n := rfl
  refine ⟨⟨hshaped, ?_⟩, ?_⟩
  · have hkept : (if (indexJournal t.index).Full logdataCount then (indexJournal t.index).remove
        else indexJournal t.index).names.Sublist (indexJournal t.index).names := by
      split
      next => exact remove_names_sublist _
      next => exact List.Sublist.refl _
    rw [hj]
    unfold Journal.names at hkept ⊢
    rw [Journal.entries_add, List.map_append, List.map_singleton, hname]
    refine List.nodup_append'.mpr ⟨hkept.nodup hd.nodup, List.nodup_singleton _, ?_⟩
    intro x hx hxn
    rw [List.mem_singleton] at hxn
    exact hnew (hxn ▸ hkept.subset hx)
  · intro m hm
    rw [hdisk]
    refine evict_disk_of_not_mem fun hmem => hm ?_
    unfold Journal.names Journal.entries
    rw [List.map_append]
    exact List.mem_append_left _ hmem

/-- A limit pass keeps the names distinct and spares the current log. -/
theorem limited_distinct (hd : Distinct t.index) (a : LimitArgs) :
    ∃ r, logdataLimitSize logdataCount a t = some r ∧ Distinct r.store.index ∧
      ∀ c, (indexJournal t.index).current = some c → r.store.disk c.name = t.disk c.name := by
  obtain ⟨k, _, r, hcall, _, hshaped, hj, hdisk, _⟩ := limitSize_journal hd.shaped a
  have hnames := hd.nodup
  unfold Journal.names Journal.entries at hnames
  rw [List.map_append] at hnames
  refine ⟨r, hcall, ⟨hshaped, ?_⟩, ?_⟩
  · rw [hj]
    unfold Journal.names Journal.entries Journal.refresh
    have hcur : ∀ c : Option Entry, (c.map fun c => { c with size := fileSize t.disk c.name
        }).toList.map Entry.name = c.toList.map Entry.name := by
      intro c
      cases c <;> rfl
    rw [List.map_append, hcur]
    exact (((List.drop_sublist _ _).map _).append_right _).nodup hnames
  · intro c hc
    rw [hdisk, unlinkAll_disk, if_neg]
    intro hmem
    obtain ⟨e, he, hname⟩ := List.mem_map.mp hmem
    rw [hc] at hnames
    have hclosed : c.name ∈ (indexJournal t.index).closed.map Entry.name := by
      rw [← hname]
      exact List.mem_map_of_mem (List.mem_of_mem_take he)
    exact (List.nodup_append'.mp hnames).2.2 hclosed (by simp)

/-- One step of a run whose calls find an index. -/
theorem execLog_step {op : LogOp} (hleft : logdataAccepts s.index = true → Distinct s.index)
    (hop : FindsIndex s op) :
    (logdataAccepts (execLog s op).index = true → Distinct (execLog s op).index) ∧
      LiveLogSafe s op := by
  cases op with
  | generate found a w e =>
    obtain ⟨hfound, hnew⟩ := hop
    show (logdataAccepts (generateNewFile a w e (s.withIndex found)).2.index = true → _) ∧ _
    -- an index that is left alone
    have hd : logdataAccepts found = true → Distinct found := by
      intro hacc
      have hf := hfound hacc
      rw [hf]
      exact hleft (by rw [← hf]; exact hacc)
    cases hc : a.created w with
    | none =>
      -- the call returns at once
      have heq : execLog s (.generate found a w e) = s.withIndex found :=
        generateNewFile_eq_self hc
      unfold LiveLogSafe
      rw [generateNewFile_eq_self hc, heq]
      refine ⟨hd, fun hacc => (hd hacc |>.namedOnce (s := s.withIndex found)) hacc, ?_⟩
      intro n hn
      rw [hc] at hn
      exact absurd hn (by simp)
    | some n =>
      have hindex : ((s.withIndex found).create n.bytes).index = found :=
        create_index _ _
      cases hopens : w.indexOpens with
      | false =>
        -- the log is created, and that is all
        have heq : execLog s (.generate found a w e) = (s.withIndex found).create n.bytes := by
          show (generateNewFile a w e (s.withIndex found)).2 = _
          rw [generateNewFile_unopened hc hopens]
        have hd' : logdataAccepts ((s.withIndex found).create n.bytes).index = true →
            Distinct ((s.withIndex found).create n.bytes).index := by
          rw [hindex]
          exact hd
        unfold LiveLogSafe
        rw [generateNewFile_unopened hc hopens, heq]
        refine ⟨hd', fun hacc => (hd' hacc).namedOnce hacc, ?_⟩
        intro m hm
        rw [hc] at hm
        rw [← Option.some.inj hm]
        exact create_isSome _ _
      | true =>
        obtain ⟨hopen, hnew⟩ := hnew n hc hopens
        have hd := open_distinct hleft hopen hindex
        obtain ⟨hd', hdisk'⟩ := added_distinct hd (open_newName hnew.slot hindex)
        have heq : execLog s (.generate found a w e)
            = (logdataOpen (a.scan e) ((s.withIndex found).create n.bytes)).added n := by
          show (generateNewFile a w e (s.withIndex found)).2 = _
          rw [generateNewFile_eq hc hopens]
        unfold LiveLogSafe
        rw [generateNewFile_eq hc hopens, heq]
        refine ⟨fun _ => hd', hd'.namedOnce, ?_⟩
        intro m hm
        rw [hc] at hm
        rw [← Option.some.inj hm, hdisk' _ (open_newName hnew.path hindex),
          open_newName_disk hnew.path (created_length_le hc) hindex]
        exact create_isSome _ _
  | limit found e a =>
    have hd := open_distinct (t := s.withIndex found) hleft hop rfl
    obtain ⟨r, hcall, hd', hspare⟩ := limited_distinct hd a
    have heq : execLog s (.limit found e a) = r.store := by
      show openLimitSize found e a s = r.store
      unfold openLimitSize
      dsimp only
      rw [hcall]
    unfold LiveLogSafe
    rw [heq]
    exact ⟨fun _ => hd', hd'.namedOnce, hspare⟩
  | env d => exact ⟨hleft, fun hacc => (hleft hacc).namedOnce (s := s.withDisk d) hacc, trivial⟩

end Step

/-! ## Runs -/

/-- In a run that starts from a sound index or none, and whose every call finds
or rebuilds a sound index to which a created log is new, no file is ever named
twice and no live log is deleted. -/
theorem namedOnce_run {s : Store} {ops : List LogOp}
    (hstart : logdataAccepts s.index = true → Distinct s.index)
    (hops : AllSteps execLog FindsIndex s ops) : AllSteps execLog LiveLogSafe s ops :=
  AllSteps.imp (I := fun s : Store => logdataAccepts s.index = true → Distinct s.index)
    (fun _ _ hleft hop => execLog_step hleft hop) hstart hops

/-- `l_` -/
def bootPrefix : CString := ⟨[108, 95], by decide⟩

/-- `l_p0001_0001_000000000000000_d_p_r.txt` -/
def bootArgs : NewFileArgs where
  filePrefix := some bootPrefix
  hasBuffer := true
  storageCode := 112
  sn := 1
  serialno := 1
  timestamp := ⟨⟨List.replicate 15 48, by decide⟩, by decide⟩
  devinfo := ⟨⟨[100], by decide⟩, by decide⟩
  prdinfo := ⟨⟨[112], by decide⟩, by decide⟩
  rominfo := ⟨⟨[114], by decide⟩, by decide⟩
  code_ok := by decide
  sn_le := by decide
  serialno_le := by decide

/-- The first log of a boot. -/
def bootLog : LogPath := bootArgs.logPath bootPrefix

/-- What `readdir` gives for it. -/
def bootEntry : FileName := ⟨bootLog.bytes, by decide, by decide⟩

/-- The directory once the log has been created. -/
def bootScan : OpenEnv where
  filePrefix := none
  entries := [bootEntry]
  stack := Logdata.zero
  stack_fits := Logdata.zero_fits

/-- No log and no index. -/
def emptyDir : Store := ⟨[], fun _ => none, []⟩

/-- No log and an empty index. -/
def emptyIndex : Store :=
  logdataRebuild ⟨none, [], Logdata.zero, Logdata.zero_fits⟩ emptyDir

theorem created_bootLog : bootArgs.created .ok = some bootLog := by decide

theorem slotName_bootLog : slotName bootLog = bootLog.bytes := by decide

theorem scannedName_bootEntry : scannedName bootEntry = slotName bootLog := by decide

theorem emptyIndex_distinct : Distinct emptyIndex.index ∧
    (indexJournal emptyIndex.index).names = [] := by
  have hnames : (indexJournal emptyIndex.index).names = [] := by
    rw [emptyIndex, rebuilt_names]
    unfold OpenEnv.kept
    rw [show OpenEnv.selected ⟨none, [], Logdata.zero, Logdata.zero_fits⟩ = [] from rfl]
    simp
  refine ⟨⟨?_, by rw [hnames]; exact List.nodup_nil⟩, hnames⟩
  rw [emptyIndex]
  exact (rebuild_spec _ _).1

theorem namedOnce_run_bootLog : AllSteps execLog LiveLogSafe emptyIndex
    [.generate emptyIndex.index bootArgs .ok bootScan] := by
  obtain ⟨hd, hnames⟩ := emptyIndex_distinct
  have hacc := accepts_of_shaped hd.shaped
  refine namedOnce_run (fun _ => hd) ⟨⟨fun _ => rfl, ?_⟩, trivial⟩
  have hnew : ∀ m, NewName emptyIndex.index (bootArgs.scan bootScan) m := by
    intro m
    unfold NewName
    rw [if_pos hacc, hnames]
    exact List.not_mem_nil
  intro n _ _
  refine ⟨⟨fun _ => rfl, fun hrej => ?_⟩, hnew _, hnew _⟩
  rw [hacc] at hrej
  exact absurd hrej (by decide)

/-- With the index lost, the first log is entered twice at once. -/
theorem liveLogSafe_fails_bootLog :
    (logdataAccepts emptyDir.index = true → Distinct emptyDir.index) ∧
      ¬ AllSteps execLog LiveLogSafe emptyDir [.generate [] bootArgs .ok bootScan] := by
  have hrej : logdataAccepts [] = false := rfl
  refine ⟨fun hacc => absurd (hrej.symm.trans hacc) (by decide), ?_⟩
  rintro ⟨⟨honce, -⟩, -⟩
  have hsel : (bootArgs.scan bootScan).selected = [bootEntry] := by decide
  have hroom : (bootArgs.scan bootScan).selected.length < logdataCount := by
    rw [hsel, logdataCount_eq]
    decide
  have hindex : ((emptyDir.withIndex []).create bootLog.bytes).index = [] := create_index _ _
  have heq : execLog emptyDir (.generate [] bootArgs .ok bootScan)
      = (logdataRebuild (bootArgs.scan bootScan)
          ((emptyDir.withIndex []).create bootLog.bytes)).added bootLog := by
    rw [execLog, generateNewFile_eq created_bootLog rfl, open_rejected (by rw [hindex]; exact hrej)]
  obtain ⟨hj, hdisk⟩ := rebuild_added (bootArgs.scan bootScan)
    ((emptyDir.withIndex []).create bootLog.bytes) bootLog hroom
  have hshaped := (addFile_spec (rebuild_spec (bootArgs.scan bootScan)
    ((emptyDir.withIndex []).create bootLog.bytes)).1 bootLog).2.1
  rw [hsel] at hj
  rw [heq] at honce
  refine not_namedOnce hshaped hj scannedName_bootEntry ?_ honce
  show (Store.disk _ (slotName bootLog)).isSome
  rw [hdisk, slotName_bootLog]
  exact create_isSome _ _

end AndroidLearn.LoggerCommon
