import AndroidLearn.LoggerCommon.Ring

/-!
# What the index stands for

Seen from outside, an index of `logctl.c` is a queue: the closed logs, oldest first, and
the log being written, if the head slot holds one. `Journal` is that queue, with the four
operations as one would specify them, and `journal h f` reads it off a ring. It is this
module's own statement of what the index is for; nothing of it is in the source.

The refinement lemmas say that every operation on the cyclic buffer is its queue
operation, wherever the cursors stand:

- `logdataRemoveFile` drops the oldest closed log (`journal_removed`);
- the refresh changes the size of the current log (`journal_refresh`);
- `logdataAddFile` closes the current log and makes the new file current, first dropping
  the oldest closed log of a full queue (`addFile_spec`, in `AddFile`).

An entry is a name and a size. A slot gets what is behind the last slash of a new log's
path (`slotName`), and of a file that a rebuild finds all that fits (`scannedName`).
-/

namespace AndroidLearn.LoggerCommon

open Cyclic

/-- A file name with a recorded size. -/
structure Entry where
  name : Name
  size : Nat
  deriving DecidableEq, Repr

/-- The closed logs, oldest first, and the log being written. -/
structure Journal where
  closed : List Entry
  current : Option Entry
  deriving DecidableEq, Repr

namespace Journal

/-- All entries, oldest first. -/
def entries (j : Journal) : List Entry := j.closed ++ j.current.toList

/-- The names, the oldest first. -/
def names (j : Journal) : List Name := j.entries.map Entry.name

/-- The sizes together. -/
def total (j : Journal) : Nat := (j.entries.map Entry.size).sum

/-- Drop the oldest closed log. -/
def remove (j : Journal) : Journal := { j with closed := j.closed.tail }

/-- Record a new size for the current log. -/
def refresh (sizeOf : Name → Nat) (j : Journal) : Journal :=
  { j with current := j.current.map fun c => { c with size := sizeOf c.name } }

/-- Close the current log. -/
def close (j : Journal) : Journal := ⟨j.entries, none⟩

/-- A journal of `cap` entries with a current log has no room for another. -/
def Full (cap : Nat) (j : Journal) : Prop := j.current ≠ none ∧ j.closed.length + 1 = cap

instance (cap : Nat) (j : Journal) : Decidable (j.Full cap) :=
  inferInstanceAs (Decidable (_ ∧ _))

/-- The entry a full journal gives up for a new one. -/
def evicted (cap : Nat) (j : Journal) : Option Entry :=
  if j.Full cap then j.closed.head? else none

/-- Make `e` the current log. -/
def add (cap : Nat) (e : Entry) (j : Journal) : Journal :=
  { (if j.Full cap then j.remove else j).close with current := some e }

section Laws

variable {cap : Nat} {j : Journal} {e : Entry}

theorem entries_add : (j.add cap e).entries
    = (if j.Full cap then j.remove else j).entries ++ [e] := rfl

/-- What is evicted is one of the closed files. -/
theorem evicted_le_closed :
    (j.evicted cap).elim 0 Entry.size ≤ (j.closed.map Entry.size).sum := by
  unfold evicted
  split
  next hfull =>
    cases hc : j.closed with
    | nil => simp
    | cons a as => simp
  next hfull => exact Nat.zero_le _

theorem closed_le_total : (j.closed.map Entry.size).sum ≤ j.total := by
  unfold total entries
  rw [List.map_append, List.sum_append]
  exact Nat.le_add_right _ _

theorem evicted_le_total : (j.evicted cap).elim 0 Entry.size ≤ j.total :=
  Nat.le_trans evicted_le_closed closed_le_total

/-- What is dropped and what is added account for the new total. -/
theorem total_add : (j.add cap e).total + ((j.evicted cap).elim 0 Entry.size)
    = j.total + e.size := by
  unfold total evicted
  rw [entries_add, List.map_append, List.sum_append]
  split
  next hfull =>
    unfold remove entries
    cases hc : j.closed with
    | nil => simp
    | cons a as =>
      simp only [List.tail_cons, List.map_append, List.sum_append, List.map_cons, List.sum_cons,
        List.head?_cons, Option.elim_some, List.map_nil, List.sum_nil, List.cons_append]
      omega
  next hfull => simp

end Laws

end Journal

/-- What a slot says. -/
def entryOf (d : Logdata) : Entry := ⟨d.name, d.size⟩

/-- The queue held by a ring: the slots of `[tail, head)` and the head slot. -/
def journal (h : LogdataHeader) (f : Bytes) : Journal where
  closed := (List.range (dist logdataCount h.indexTail h.indexHead)).map
    fun k => entryOf (slotAt f (nth logdataCount h.indexTail k))
  current := if (slotAt f h.indexHead).Occupied then some (entryOf (slotAt f h.indexHead)) else none

/-- The queue of a whole index file. -/
def indexJournal (f : Bytes) : Journal := journal (hdr f) f

section Refinement

variable {h : LogdataHeader} {f g : Bytes} {d : Logdata}

/-- The journal reads the slots only. -/
theorem journal_congr (hs : Shape h f)
    (hslot : ∀ i < logdataCount, slotAt g i = slotAt f i) : journal h g = journal h f := by
  have hlt := dist_lt hs.tail_lt hs.head_lt
  unfold journal
  rw [hslot _ hs.head_lt]
  refine congrArg (Journal.mk · _) (List.map_congr_left ?_)
  intro k hk
  have hk := List.mem_range.mp hk
  rw [hslot _ (nth_lt hs.tail_lt (by omega))]

/-- A new header may point elsewhere. -/
theorem indexJournal_writeHeader (hs : Shape h f) :
    indexJournal (writeHeader f h) = journal h f := by
  unfold indexJournal
  rw [hdr_writeHeader hs.length hs.fits]
  exact journal_congr hs fun i hi => slotAt_writeHeader hs.length hs.fits hi

theorem closed_length (h : LogdataHeader) (f : Bytes) :
    (journal h f).closed.length = dist logdataCount h.indexTail h.indexHead := by
  simp [journal]

/-- There is no current file when the slot of the head is empty. -/
theorem current_eq_none : (journal h f).current = none ↔ (slotAt f h.indexHead).name = [] := by
  unfold journal
  dsimp only
  split
  next hocc => exact iff_of_false (by simp) hocc
  next hocc => exact iff_of_true rfl (Logdata.not_occupied_iff.mp hocc)

/-- The current file is what the slot of the head says. -/
theorem current_eq_some {c : Entry} :
    (journal h f).current = some c ↔
      (slotAt f h.indexHead).Occupied ∧ entryOf (slotAt f h.indexHead) = c := by
  unfold journal
  dsimp only
  split
  next hocc => simp [hocc]
  next hocc => simp [hocc]

/-- The journal has no closed log exactly when the cursors meet. -/
theorem closed_eq_nil (hs : Shape h f) :
    (journal h f).closed = [] ↔ h.indexHead = h.indexTail := by
  rw [← List.length_eq_zero_iff, closed_length, dist_eq_zero hs.tail_lt]

/-- The oldest closed log is the tail slot. -/
theorem closed_eq_cons (hs : Shape h f) (hne : h.indexHead ≠ h.indexTail) :
    (journal h f).closed
      = entryOf (slotAt f h.indexTail) :: (journal h f).remove.closed := by
  have hpos : dist logdataCount h.indexTail h.indexHead ≠ 0 :=
    fun h0 => hne ((dist_eq_zero hs.tail_lt).mp h0)
  obtain ⟨m, hm⟩ := Nat.exists_eq_succ_of_ne_zero hpos
  simp only [journal, Journal.remove, hm, List.range_succ_eq_map, List.map_cons, List.tail_cons,
    nth_zero hs.tail_lt]

/-- The tail goes on by a slot. -/
theorem journal_removed (hs : Shape h f) (hne : h.indexHead ≠ h.indexTail) (t : Nat) :
    journal { h with totalSize := t, indexTail := next logdataCount h.indexTail }
      (writeSlot f (slotOffset h.indexTail) (slotAt f h.indexTail).clear)
      = (journal h f).remove := by
  have hfit := Logdata.clear_fits (slotAt_fits hs.length hs.tail_lt)
  have hslot : ∀ j < logdataCount, j ≠ h.indexTail →
      slotAt (writeSlot f (slotOffset h.indexTail) (slotAt f h.indexTail).clear) j
        = slotAt f j :=
    fun j hj hjt => slotAt_writeSlot_ne hs.length hs.tail_lt hj hfit hjt
  have hdh := dist_next_left hs.tail_lt hs.head_lt hne
  have hlt := dist_lt hs.tail_lt hs.head_lt
  unfold journal Journal.remove
  dsimp only
  rw [hslot _ hs.head_lt hne, ← hdh, List.range_succ_eq_map, List.map_cons, List.tail_cons,
    List.map_map]
  refine congrArg (Journal.mk · _) (List.map_congr_left ?_)
  intro k hk
  have hk := List.mem_range.mp hk
  have hnth := nth_next hs.tail_lt (k := k) (by omega)
  have hne' : nth logdataCount h.indexTail (k + 1) ≠ h.indexTail := by
    intro he
    have hd := dist_nth hs.tail_lt (k := k + 1) (by omega)
    rw [he, dist_self] at hd
    omega
  rw [hnth, Function.comp_apply, hslot _ (nth_lt hs.tail_lt (by omega)) hne']

/-- Overwriting the head slot makes `d` the current log. -/
theorem journal_filled (hs : Shape h f) (hd : d.Fits) (hocc : d.Occupied) (t : Nat) :
    journal { h with totalSize := t } (writeSlot f (slotOffset h.indexHead) d)
      = { journal h f with current := some (entryOf d) } := by
  have hlt := dist_lt hs.tail_lt hs.head_lt
  unfold journal
  dsimp only
  rw [slotAt_writeSlot_same hs.length hs.head_lt hd, if_pos hocc]
  refine congrArg (Journal.mk · _) (List.map_congr_left ?_)
  intro k hk
  have hk := List.mem_range.mp hk
  have hne : nth logdataCount h.indexTail k ≠ h.indexHead := by
    intro he
    have hdn := dist_nth hs.tail_lt (k := k) (by omega)
    rw [he] at hdn
    omega
  rw [slotAt_writeSlot_ne hs.length hs.head_lt (nth_lt hs.tail_lt (by omega)) hd hne]

/-- Stepping the head onto an empty slot closes the current log. -/
theorem journal_stepped (hs : Shape h f) (hocc : (slotAt f h.indexHead).Occupied)
    (hfull : next logdataCount h.indexHead ≠ h.indexTail) :
    journal { h with indexHead := next logdataCount h.indexHead } f = (journal h f).close := by
  have hempty := (hs.stepped hocc hfull).2.1
  have hdn := dist_next hs.tail_lt hs.head_lt hfull
  have hnocc : ¬ (slotAt f (next logdataCount h.indexHead)).Occupied :=
    Logdata.not_occupied_iff.mpr hempty
  unfold journal Journal.close Journal.entries
  dsimp only
  rw [if_neg hnocc, if_pos hocc, hdn, List.range_succ, List.map_append, List.map_singleton,
    nth_dist hs.tail_lt hs.head_lt]
  rfl

/-- A full ring: the head's successor is the tail. -/
theorem journal_full (hs : Shape h f) : (journal h f).Full logdataCount ↔
    (slotAt f h.indexHead).Occupied ∧ next logdataCount h.indexHead = h.indexTail := by
  unfold Journal.Full
  rw [ne_eq, current_eq_none, closed_length, next_eq_iff hs.tail_lt hs.head_lt]
  rfl

/-- The sizes in the slots are those of the queue. -/
theorem slotSum_eq_total (hs : Shape h f) : slotSum f = (journal h f).total := by
  have hlt := dist_lt hs.tail_lt hs.head_lt
  have hhead := nth_dist hs.tail_lt hs.head_lt
  rw [slotSum, ← sum_nth (fun i => (slotAt f i).size) hs.tail_lt,
    sum_range_eq_list _ (m := dist logdataCount h.indexTail h.indexHead + 1) hlt]
  · rw [List.range_succ, List.map_append, List.sum_append, List.map_singleton, hhead]
    unfold journal Journal.total Journal.entries
    dsimp only
    rw [List.map_append, List.sum_append, List.map_map]
    congr 1
    split
    next => rfl
    next hocc =>
      have hzero := hs.head_empty (Logdata.not_occupied_iff.mp hocc)
      simp [hzero]
  · intro k hk hkn
    have hdn := dist_nth hs.tail_lt hkn
    exact (hs.outside _ (nth_lt hs.tail_lt hkn) (by omega)).2

theorem slotSum_index (hs : Shaped f) : slotSum f = (indexJournal f).total :=
  slotSum_eq_total hs

/-- The recorded total of a ring is the total of its queue. -/
theorem journal_total (hr : Ring h f) : (journal h f).total = h.totalSize := by
  rw [hr.total, slotSum_eq_total hr.toShape]

end Refinement

/-! ## `logdataRemoveFile` and the refresh on the queue -/

section Ops

variable {s : Store} {h : LogdataHeader} {n : LogPath}

/-- `logdata_remove_file` removes the oldest entry of the journal. -/
theorem removeFile_journal (hs : Shape h s.index) :
    journal (logdataRemoveFile s h).hdr (logdataRemoveFile s h).store.index
      = (journal h s.index).remove := by
  by_cases heq : h.indexHead = h.indexTail
  · rw [removeFile_eq_zero heq]
    have hnil := (closed_eq_nil hs).mpr heq
    unfold Journal.remove
    rw [hnil, List.tail_nil, ← hnil]
  · rw [removeFile_eq_one hs.usable heq]
    exact journal_removed hs heq _

/-- `logdata_refresh` reads the size of the current file anew. -/
theorem refresh_journal (hs : Shape h s.index) :
    journal
      (logdataRefresh s h (slotOffset h.indexHead) (slotAt s.index h.indexHead)).2
      (logdataRefresh s h (slotOffset h.indexHead) (slotAt s.index h.indexHead)).1.index
      = (journal h s.index).refresh (fileSize s.disk) := by
  unfold logdataRefresh
  split
  next hocc =>
    have hsz := slotAt_fits hs.length hs.head_lt
    have hd : Logdata.Fits
        { slotAt s.index h.indexHead with
          size := fileSize s.disk (slotAt s.index h.indexHead).name } :=
      ⟨hsz.file, UInt64.toNat_lt _⟩
    dsimp only
    rw [journal_filled hs hd hocc]
    unfold journal Journal.refresh
    rw [if_pos hocc]
    rfl
  next hocc =>
    have hnone := current_eq_none.mpr (Logdata.not_occupied_iff.mp hocc)
    dsimp only
    unfold Journal.refresh
    rw [hnone, Option.map_none, ← hnone]

/-! ## `logdataAddFile` -/

/-- What is behind the last slash is the end of the text. -/
theorem afterSlash_eq_some {s rest : Bytes} (h : afterSlash s = some rest) :
    ∃ front, s = front ++ slash :: rest := by
  induction s with
  | nil => exact absurd h (by simp [afterSlash])
  | cons c s ih =>
    rw [afterSlash] at h
    cases hs : afterSlash s with
    | some rest' =>
      rw [hs] at h
      obtain rfl := Option.some.inj h
      obtain ⟨front, hfront⟩ := ih hs
      exact ⟨c :: front, by rw [hfront, List.cons_append]⟩
    | none =>
      rw [hs] at h
      dsimp only at h
      split at h
      next hc =>
        obtain rfl := Option.some.inj h
        exact ⟨[], by rw [hc, List.nil_append]⟩
      next => exact absurd h (by simp)

/-- A name has no null byte. -/
theorem LogPath.base_no_nul (n : LogPath) : 0 ∉ n.base := by
  unfold LogPath.base
  cases hafter : afterSlash n.bytes with
  | none => exact n.no_nul
  | some rest =>
    obtain ⟨front, hfront⟩ := afterSlash_eq_some hafter
    intro hmem
    refine n.no_nul ?_
    rw [hfront]
    exact List.mem_append_right _ (List.mem_cons_of_mem _ hmem)

/-- The name a slot keeps for a log: cut to the slot's buffer. -/
def slotName (n : LogPath) : Name := n.base.take (logdataFileBuflen - 1)

/-- The entry a new log is recorded under. -/
def newEntry (disk : Disk) (n : LogPath) : Entry := ⟨slotName n, fileSize disk n.bytes⟩

/-- The name a slot gets for a file that a rebuild finds in the directory. -/
def scannedName (n : FileName) : Name := n.bytes.take (logdataFileBuflen - 1)

/-- The entry the scan makes of a file. -/
def scannedEntry (disk : Disk) (n : FileName) : Entry := ⟨scannedName n, fileSize disk n.bytes⟩

/-- Filling an empty head slot with the new file. -/
theorem finish_spec {offset : Nat} {data : Logdata} (hs : Shape h s.index)
    (hoff : offset = slotOffset h.indexHead) (hd : data.Fits) :
    let p := AddPlan.finish s offset data h n
    Shape p.hdr p.slotWritten.index ∧
      journal p.hdr p.slotWritten.index
        = { journal h s.index with current := some (newEntry s.disk n) } := by
  have hsized : Logdata.Fits { data with size := fileSize s.disk n.bytes } :=
    ⟨hd.file, UInt64.toNat_lt _⟩
  have hd' := Logdata.setFile_fits hsized n.base
  have hocc := Logdata.setFile_occupied { data with size := fileSize s.disk n.bytes }
    n.base_no_nul n.base_ne_nil
  have hname := Logdata.setFile_name { data with size := fileSize s.disk n.bytes } n.base_no_nul
  unfold AddPlan.finish AddPlan.slotWritten
  dsimp only
  rw [hoff]
  constructor
  · exact hs.filled hd' hocc (Nat.mod_lt _ (Nat.two_pow_pos 64))
  · rw [journal_filled hs hd' hocc]
    unfold entryOf newEntry
    rw [hname]
    rfl

end Ops

end AndroidLearn.LoggerCommon
