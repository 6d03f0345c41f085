import AndroidLearn.LoggerCommon.AddFile
import AndroidLearn.LoggerCommon.Rebuild

/-!
# `logger_common_logdata_limit_size`: two loops of removals

The function of `logctl.c` refreshes the size of the head slot, and removes logs while the
total is over the limit and then while a reserve is asked for and not reached. Both loops
call `logdataRemoveFile` until they are satisfied or the cursors meet, so what they
compute is an iterate of `removeStep`, and the number of iterations is all there is to say
(`limitLoop_spec`, `reserveLoop_spec`).

`Removed` follows the iterate: after `k` removals the tail stands `k` slots further, the
slots ahead of it are as they were and the files unlinked are those of the first `k`
slots. It needs usable cursors only, not the exact total, and therefore no bound on the
file sizes. The fuel of the loops is bounded by the number of slots.

`LimitContract` is what the call owes its caller. One part of it can fail on a well-formed
index: a closed slot may name the file of the head slot a second time, and then the loop
unlinks the file being written.

Theorem: `limitContract_iff_headOnce`, for every well-formed index and request.
-/

namespace AndroidLearn.LoggerCommon

open Cyclic

/-- The store and the header after one more removal. -/
def removeStep (p : Store × LogdataHeader) : Store × LogdataHeader :=
  ((logdataRemoveFile p.1 p.2).store, (logdataRemoveFile p.1 p.2).hdr)

/-- How many slots lie between the cursors. -/
def closedCount (h : LogdataHeader) : Nat := dist logdataCount h.indexTail h.indexHead

/-- The names in the `k` slots from `t` on. -/
def slotNames (f : Bytes) (t k : Nat) : List Name :=
  (List.range k).map fun j => (slotAt f (nth logdataCount t j)).name

/-! ## Iterated removal -/

/-- The state `p` after `k` removals from `(s, h)`. -/
structure Removed (s : Store) (h : LogdataHeader) (k : Nat) (p : Store × LogdataHeader) : Prop where
  usable : Usable p.2 p.1.index
  head : p.2.indexHead = h.indexHead
  tail : p.2.indexTail = nth logdataCount h.indexTail k
  slots : ∀ j < logdataCount, k ≤ dist logdataCount h.indexTail j →
    slotAt p.1.index j = slotAt s.index j
  disk : p.1.disk = (s.unlinkAll (slotNames s.index h.indexTail k)).disk
  unlinked : p.1.unlinked = (s.unlinkAll (slotNames s.index h.indexTail k)).unlinked

section Iterate

variable {s : Store} {h : LogdataHeader} {k : Nat} {p : Store × LogdataHeader}

theorem closedCount_lt (hu : Usable h s.index) : closedCount h < logdataCount :=
  dist_lt hu.tail_lt hu.head_lt

/-- The names of one slot more. -/
theorem slotNames_succ (f : Bytes) (t k : Nat) :
    slotNames f t (k + 1) = slotNames f t k ++ [(slotAt f (nth logdataCount t k)).name] := by
  unfold slotNames
  rw [List.range_succ, List.map_append, List.map_singleton]

/-- A removal leaves an index usable. -/
theorem Usable.step (hu : Usable h s.index) (hne : h.indexHead ≠ h.indexTail) :
    Usable (removeStep (s, h)).2 (removeStep (s, h)).1.index := by
  have hclear := Logdata.clear_fits (slotAt_fits hu.length hu.tail_lt)
  have htail : next logdataCount h.indexTail < logdataCount := next_lt logdataCount_pos
  unfold removeStep
  rw [removeFile_eq_one hu hne]
  exact
    { length := length_writeSlot hu.length hu.tail_lt hclear
      fits :=
        { hu.fits with
          indexTail := Nat.lt_trans htail logdataCount_lt_ulongMod
          totalSize := Nat.lt_of_le_of_lt (Nat.sub_le ..) hu.fits.totalSize }
      magic := hu.magic
      entryCount := hu.entryCount
      entrySize := hu.entrySize
      headerSize := hu.headerSize
      head_lt := hu.head_lt
      tail_lt := htail }

/-- No removal. -/
theorem Removed.zero (hu : Usable h s.index) : Removed s h 0 (s, h) where
  usable := hu
  head := rfl
  tail := (nth_zero hu.tail_lt).symm
  slots := fun _ _ _ => rfl
  disk := rfl
  unlinked := rfl

/-- One more removal, while the cursors have not met. -/
theorem Removed.succ (hu : Usable h s.index) (hk : k < closedCount h) (hr : Removed s h k p) :
    Removed s h (k + 1) (removeStep p) := by
  obtain ⟨s', h'⟩ := p
  have hcount := closedCount_lt hu
  have htail : h'.indexTail = nth logdataCount h.indexTail k := hr.tail
  have hdist := dist_nth hu.tail_lt (k := k) (by omega)
  have hne : h'.indexHead ≠ h'.indexTail := by
    intro heq
    rw [htail, show h'.indexHead = h.indexHead from hr.head] at heq
    rw [← heq] at hdist
    unfold closedCount at hk
    omega
  have hname : slotAt s'.index h'.indexTail = slotAt s.index (nth logdataCount h.indexTail k) := by
    rw [htail]
    exact hr.slots _ (nth_lt hu.tail_lt (by omega)) (by omega)
  have hclear := Logdata.clear_fits (slotAt_fits hr.usable.length hr.usable.tail_lt)
  have hstep : removeStep (s', h') = _ := congrArg (fun r => (r.store, r.hdr))
    (removeFile_eq_one hr.usable hne)
  refine ⟨hr.usable.step hne, ?_, ?_, ?_, ?_, ?_⟩
  · rw [hstep]
    exact hr.head
  · rw [hstep]
    show next logdataCount h'.indexTail = _
    rw [htail, next_nth hu.tail_lt (by omega)]
  · intro j hj hkj
    rw [hstep]
    show slotAt (writeSlot s'.index _ _) j = _
    rw [slotAt_writeSlot_ne hr.usable.length hr.usable.tail_lt hj hclear, hr.slots j hj (by omega)]
    rintro rfl
    rw [htail] at hkj
    omega
  · rw [hstep, slotNames_succ, unlinkAll_append]
    show (s'.unlink _).disk = Store.disk (Store.unlink _ _)
    rw [unlink_disk, unlink_disk, hname, show s'.disk = _ from hr.disk]
  · rw [hstep, slotNames_succ, unlinkAll_append]
    show (s'.unlink _).unlinked = Store.unlinked (Store.unlink _ _)
    rw [unlink_unlinked, unlink_unlinked, hname, show s'.disk = _ from hr.disk,
      show s'.unlinked = _ from hr.unlinked]

theorem removed_iterate (hu : Usable h s.index) :
    ∀ k, k ≤ closedCount h → Removed s h k (removeStep^[k] (s, h)) := by
  intro k
  induction k with
  | zero => exact fun _ => Removed.zero hu
  | succ k ih =>
    intro hk
    rw [Function.iterate_succ_apply']
    exact (ih (by omega)).succ hu (by omega)

/-- The cursors meet after `closedCount` removals, not earlier. -/
theorem Removed.cursors_meet (hu : Usable h s.index) (hk : k ≤ closedCount h)
    (hr : Removed s h k p) : p.2.indexHead = p.2.indexTail ↔ k = closedCount h := by
  have hcount := closedCount_lt hu
  rw [hr.head, hr.tail]
  constructor
  · intro heq
    have hdist := dist_nth hu.tail_lt (k := k) (by omega)
    rw [← heq] at hdist
    exact hdist.symm
  · intro heq
    rw [heq, closedCount, nth_dist hu.tail_lt hu.head_lt]

/-- What is left behind them. -/
theorem Removed.count_left (hu : Usable h s.index) (hk : k ≤ closedCount h)
    (hr : Removed s h k p) : closedCount p.2 + k = closedCount h := by
  have hcount := closedCount_lt hu
  have hhead := hu.head_lt
  have htail := hu.tail_lt
  unfold closedCount at hk hcount ⊢
  rw [hr.head, hr.tail]
  unfold Cyclic.dist nth at *
  split_ifs at * <;> omega

end Iterate

/-! ## The two loops -/

section Loops

variable {s : Store} {h : LogdataHeader}

/-- The limit loop removes until the recorded total is below the limit or the
cursors meet, and stops there. -/
theorem limitLoop_spec (limitedSizeMb : Nat) : ∀ {fuel : Nat} {s : Store} {h : LogdataHeader},
    Usable h s.index → closedCount h ≤ fuel →
    ∃ k ≤ closedCount h,
      logdataLimitLoop limitedSizeMb fuel s h = some (removeStep^[k] (s, h)) ∧
      ((removeStep^[k] (s, h)).2.totalSize / mb < limitedSizeMb ∨ k = closedCount h) ∧
      ∀ j < k, limitedSizeMb ≤ (removeStep^[j] (s, h)).2.totalSize / mb := by
  intro fuel
  induction fuel with
  | zero =>
    intro s h hu hfuel
    have heq : h.indexHead = h.indexTail := (dist_eq_zero hu.tail_lt).mp (by
      unfold closedCount at hfuel
      omega)
    refine ⟨0, Nat.zero_le _, ?_, Or.inr (by omega), fun j hj => absurd hj (Nat.not_lt_zero j)⟩
    unfold logdataLimitLoop
    rw [removeFile_eq_zero heq]
    split
    next => rfl
    next => rfl
  | succ fuel ih =>
    intro s h hu hfuel
    by_cases hlim : h.totalSize / mb < limitedSizeMb
    · refine ⟨0, Nat.zero_le _, ?_, Or.inl hlim, fun j hj => absurd hj (Nat.not_lt_zero j)⟩
      unfold logdataLimitLoop
      rw [if_pos hlim]
      rfl
    by_cases heq : h.indexHead = h.indexTail
    · refine ⟨0, Nat.zero_le _, ?_, Or.inr ?_, fun j hj => absurd hj (Nat.not_lt_zero j)⟩
      · unfold logdataLimitLoop
        rw [if_neg hlim, removeFile_eq_zero heq]
        rfl
      · exact ((dist_eq_zero hu.tail_lt).mpr heq).symm
    -- one removal, then the rest of the loop on one slot less
    have hpos : 0 < closedCount h :=
      Nat.pos_of_ne_zero fun h0 => heq ((dist_eq_zero hu.tail_lt).mp h0)
    have hstep := (Removed.zero hu).succ hu hpos
    have hcount := hstep.count_left hu hpos
    obtain ⟨k, hk, hloop, hstop, hbefore⟩ := ih (hu.step heq) (by omega)
    refine ⟨k + 1, by omega, ?_, ?_, ?_⟩
    · have hret : (logdataRemoveFile s h).ret = 1 := by rw [removeFile_eq_one hu heq]
      unfold logdataLimitLoop
      dsimp only
      rw [if_neg hlim, hret]
      exact hloop
    · rcases hstop with hlt | hend
      · exact Or.inl hlt
      · exact Or.inr (by omega)
    · intro j hj
      cases j with
      | zero => exact Nat.le_of_not_lt hlim
      | succ j => exact hbefore j (by omega)

/-- The reserve loop removes as many as it is asked to, as far as they go. -/
theorem reserveLoop_spec : ∀ {count : Nat} {s : Store} {h : LogdataHeader}, Usable h s.index →
    logdataReserveLoop count s h = removeStep^[min count (closedCount h)] (s, h) := by
  intro count
  induction count with
  | zero =>
    intro s h _
    rw [Nat.zero_min]
    rfl
  | succ count ih =>
    intro s h hu
    unfold logdataReserveLoop
    by_cases heq : h.indexHead = h.indexTail
    · have hzero : closedCount h = 0 := (dist_eq_zero hu.tail_lt).mpr heq
      rw [removeFile_eq_zero heq, hzero, Nat.min_zero]
      rfl
    · have hpos : 0 < closedCount h :=
        Nat.pos_of_ne_zero fun h0 => heq ((dist_eq_zero hu.tail_lt).mp h0)
      have hstep := (Removed.zero hu).succ hu hpos
      have hcount := hstep.count_left hu hpos
      have hrest := ih (hu.step heq)
      have hmin : min (count + 1) (closedCount h)
          = min count (closedCount (removeStep (s, h)).2) + 1 := by omega
      have hret : (logdataRemoveFile s h).ret = 1 := by rw [removeFile_eq_one hu heq]
      rw [hmin, Function.iterate_succ_apply, ← hrest]
      dsimp only
      rw [hret]
      rfl

end Loops

/-! ## The whole call -/

/-- Store and header after the refresh of the head slot. -/
def refreshed (s : Store) : Store × LogdataHeader :=
  logdataRefresh s (hdr s.index) (slotOffset (hdr s.index).indexHead)
    (slotAt s.index (hdr s.index).indexHead)

/-- What the call returns and leaves once its loops have ended in `p`. -/
def limitResult (a : LimitArgs) (p : Store × LogdataHeader) : LimitResult where
  ret := 0
  store := { p.1 with index := writeHeader p.1.index p.2 }
  totalSize := some p.2.totalSize
  requestAll := a.lowSpace
  requested := a.requested && !(a.lowSpace || a.requested)

section Whole

variable {s : Store} {a : LimitArgs}

theorem refreshed_disk (s : Store) : (refreshed s).1.disk = s.disk := by
  unfold refreshed logdataRefresh
  split <;> rfl

theorem refreshed_unlinked (s : Store) : (refreshed s).1.unlinked = s.unlinked := by
  unfold refreshed logdataRefresh
  split <;> rfl

theorem refreshed_head (s : Store) : (refreshed s).2.indexHead = (hdr s.index).indexHead := by
  unfold refreshed logdataRefresh
  split <;> rfl

theorem refreshed_tail (s : Store) : (refreshed s).2.indexTail = (hdr s.index).indexTail := by
  unfold refreshed logdataRefresh
  split <;> rfl

/-- Reading the size of the current file anew closes none. -/
theorem refreshed_closedCount (s : Store) :
    closedCount (refreshed s).2 = closedCount (hdr s.index) := by
  unfold closedCount
  rw [refreshed_head, refreshed_tail]

/-- It leaves an index usable. -/
theorem refreshed_usable (hu : Usable (hdr s.index) s.index) :
    Usable (refreshed s).2 (refreshed s).1.index := by
  have hsized : Logdata.Fits { slotAt s.index (hdr s.index).indexHead with
      size := fileSize s.disk (slotAt s.index (hdr s.index).indexHead).name } :=
    ⟨(slotAt_fits hu.length hu.head_lt).file, UInt64.toNat_lt _⟩
  unfold refreshed logdataRefresh
  split
  next hocc =>
    exact
      { hu with
        length := length_writeSlot hu.length hu.head_lt hsized
        fits := { hu.fits with totalSize := Nat.mod_lt _ (Nat.two_pow_pos 64) } }
  next hocc => exact hu

/-- The refresh changes a size, never a name. -/
theorem refreshed_name (hu : Usable (hdr s.index) s.index) {i : Nat} (hi : i < logdataCount) :
    (slotAt (refreshed s).1.index i).name = (slotAt s.index i).name := by
  have hsized : Logdata.Fits { slotAt s.index (hdr s.index).indexHead with
      size := fileSize s.disk (slotAt s.index (hdr s.index).indexHead).name } :=
    ⟨(slotAt_fits hu.length hu.head_lt).file, UInt64.toNat_lt _⟩
  unfold refreshed logdataRefresh
  split
  next hocc =>
    dsimp only
    rw [slotAt_writeSlot hu.length hu.head_lt hi hsized]
    split
    next heq =>
      rw [heq]
      rfl
    next => rfl
  next hocc => rfl

/-- The call refreshes, removes `k` files for the limit and `m` for the reserve
request, and writes the header back. -/
theorem limitSize_spec (hu : Usable (hdr s.index) s.index) (a : LimitArgs) :
    ∃ k m, k ≤ closedCount (hdr s.index) ∧
      m = min a.reserveRequest (closedCount (hdr s.index) - k) ∧
      logdataLimitLoop a.limitedSizeMb logdataCount (refreshed s).1 (refreshed s).2
        = some (removeStep^[k] (refreshed s)) ∧
      ((removeStep^[k] (refreshed s)).2.totalSize / mb < a.limitedSizeMb ∨
        k = closedCount (hdr s.index)) ∧
      (∀ j < k, a.limitedSizeMb ≤ (removeStep^[j] (refreshed s)).2.totalSize / mb) ∧
      logdataLimitSize logdataCount a s
        = some (limitResult a (removeStep^[k + m] (refreshed s))) := by
  have hru := refreshed_usable hu
  have hcount := closedCount_lt hru
  obtain ⟨k, hk, hloop, hstop, hneeded⟩ := limitLoop_spec a.limitedSizeMb hru (Nat.le_of_lt hcount)
  have hrem := removed_iterate hru k hk
  have hleft : closedCount (removeStep^[k] (refreshed s)).2 + k = closedCount (refreshed s).2 :=
    hrem.count_left hru hk
  have hres := @reserveLoop_spec a.reserveRequest _ _ hrem.usable
  rw [refreshed_closedCount] at hk hstop hleft
  refine ⟨k, min a.reserveRequest (closedCount (hdr s.index) - k), hk, rfl, hloop, hstop,
    hneeded, ?_⟩
  have hmin : closedCount (removeStep^[k] (refreshed s)).2
      = closedCount (hdr s.index) - k := by omega
  rw [hmin] at hres
  unfold logdataLimitSize
  rw [readHeader_eq hu.length]
  dsimp only
  rw [if_neg (not_not.mpr hu.magic), hu.readSlot_head, slotOffset_lt_ulongMod hu.head_lt]
  have hpair : logdataRefresh s (hdr s.index) (slotOffset (hdr s.index).indexHead)
      (slotAt s.index (hdr s.index).indexHead) = ((refreshed s).1, (refreshed s).2) := rfl
  have hmid : removeStep^[k] ((refreshed s).1, (refreshed s).2)
      = ((removeStep^[k] (refreshed s)).1, (removeStep^[k] (refreshed s)).2) := rfl
  dsimp only
  rw [hpair]
  dsimp only
  rw [hloop, hmid]
  dsimp only
  rw [hres, Nat.add_comm k, Function.iterate_add_apply]
  rfl

end Whole

/-! ## The contract -/

/-- The call removed `k` files for the limit and then `m` for the reserve
request. -/
structure LimitOutcome (a : LimitArgs) (s : Store) (r : LimitResult) (k m : Nat) : Prop where
  /-- it ends, after at most `entry_count` removals -/
  returns : logdataLimitSize logdataCount a s = some r
  ret : r.ret = 0
  /-- the files that went are the oldest `k + m` ones, in order -/
  le_closed : k + m ≤ (indexJournal s.index).closed.length
  disk : r.store.disk
    = (s.unlinkAll (((indexJournal s.index).closed.take (k + m)).map Entry.name)).disk
  unlinked : r.store.unlinked
    = (s.unlinkAll (((indexJournal s.index).closed.take (k + m)).map Entry.name)).unlinked
  tail : (hdr r.store.index).indexTail = nth logdataCount (hdr s.index).indexTail (k + m)
  head : (hdr r.store.index).indexHead = (hdr s.index).indexHead
  /-- after the limit phase the cursors have met or the total is below the limit -/
  limitPhase : ∃ s₁ h₁,
    logdataLimitLoop a.limitedSizeMb logdataCount (refreshed s).1 (refreshed s).2 = some (s₁, h₁) ∧
    h₁.indexTail = nth logdataCount (hdr s.index).indexTail k ∧
    (h₁.indexTail = h₁.indexHead ∨ h₁.totalSize / mb < a.limitedSizeMb)
  /-- and before each of its removals it was not -/
  limitNeeded : ∀ j < k, a.limitedSizeMb ≤ (removeStep^[j] (refreshed s)).2.totalSize / mb
  reservePhase : m ≤ a.reserveRequest

/-- What `logdataLimitSize` owes its caller: an outcome that spares the file
being written. -/
def LimitContract (a : LimitArgs) (s : Store) : Prop :=
  ∃ r k m, LimitOutcome a s r k m ∧
    ∀ c, (indexJournal s.index).current = some c → r.store.disk c.name = s.disk c.name

/-- No closed log is the file of the head slot, if that is on disk. -/
def HeadOnce (s : Store) : Prop :=
  ∀ c, (indexJournal s.index).current = some c → (s.disk c.name).isSome →
    ∀ e ∈ (indexJournal s.index).closed, e.name ≠ c.name

section Contract

variable {s : Store}

/-- The files that are removed are gone, and no other. -/
theorem unlinkAll_disk (s : Store) (ns : List Name) (n : Name) :
    (s.unlinkAll ns).disk n = if n ∈ ns then none else s.disk n := by
  unfold Store.unlinkAll
  induction ns generalizing s with
  | nil => simp
  | cons m ms ih =>
    rw [List.foldl_cons, ih, unlink_disk]
    by_cases hm : n ∈ ms
    · rw [if_pos hm, if_pos (List.mem_cons_of_mem _ hm)]
    · by_cases hnm : n = m
      · rw [if_neg hm, hnm, Function.update_self, if_pos (List.mem_cons_self ..)]
      · rw [if_neg hm, Function.update_of_ne hnm, if_neg (by simp [hnm, hm])]

/-- The names of the oldest closed logs, read off the slots. -/
theorem closed_take_names (f : Bytes) {k : Nat} (hk : k ≤ closedCount (hdr f)) :
    ((indexJournal f).closed.take k).map Entry.name = slotNames f (hdr f).indexTail k := by
  unfold indexJournal journal slotNames
  dsimp only
  rw [← List.map_take, List.take_range, List.map_map,
    show min k (dist logdataCount (hdr f).indexTail (hdr f).indexHead) = k from Nat.min_eq_left hk]
  rfl

theorem closed_length_eq (f : Bytes) : (indexJournal f).closed.length = closedCount (hdr f) :=
  closed_length _ _

/-- Everything but the sparing of the head's file holds on any usable index. -/
theorem limitOutcome (hu : Usable (hdr s.index) s.index) (a : LimitArgs) :
    ∃ r k m, LimitOutcome a s r k m ∧
      r = limitResult a (removeStep^[k + m] (refreshed s)) := by
  obtain ⟨k, m, hk, hm, hloop, hstop, hneeded, hcall⟩ := limitSize_spec hu a
  have hru := refreshed_usable hu
  have hcount := refreshed_closedCount s
  have hkm : k + m ≤ closedCount (refreshed s).2 := by omega
  have hrem := removed_iterate hru (k + m) hkm
  have hremk := removed_iterate hru k (by omega)
  -- the names met on the way are those of the index before the refresh
  have hnames : slotNames (refreshed s).1.index (refreshed s).2.indexTail (k + m)
      = ((indexJournal s.index).closed.take (k + m)).map Entry.name := by
    rw [closed_take_names s.index (by omega), refreshed_tail]
    unfold slotNames
    refine List.map_congr_left ?_
    intro j hj
    have hj := List.mem_range.mp hj
    have hlt := closedCount_lt hru
    exact refreshed_name hu (nth_lt hu.tail_lt (by omega))
  have hdisk : ∀ ns, ((refreshed s).1.unlinkAll ns).disk = (s.unlinkAll ns).disk := by
    intro ns
    funext n
    rw [unlinkAll_disk, unlinkAll_disk, refreshed_disk]
  have hunlinked : ∀ ns, ((refreshed s).1.unlinkAll ns).unlinked = (s.unlinkAll ns).unlinked := by
    intro ns
    induction ns using List.reverseRecOn with
    | nil => exact refreshed_unlinked s
    | append_singleton ns n ih =>
      rw [unlinkAll_append, unlinkAll_append]
      show (Store.unlink _ n).unlinked = (Store.unlink _ n).unlinked
      rw [unlink_unlinked, unlink_unlinked, ih, hdisk]
  have hhdr : hdr (limitResult a (removeStep^[k + m] (refreshed s))).store.index
      = (removeStep^[k + m] (refreshed s)).2 :=
    hdr_writeHeader hrem.usable.length hrem.usable.fits
  refine ⟨_, k, m,
    { returns := hcall
      ret := rfl
      le_closed := by rw [closed_length_eq]; omega
      disk := ?_
      unlinked := ?_
      tail := by rw [hhdr, hrem.tail, refreshed_tail]
      head := by rw [hhdr, hrem.head, refreshed_head]
      limitPhase := ?_
      limitNeeded := hneeded
      reservePhase := by omega }, rfl⟩
  · rw [← hnames, ← hdisk]
    exact hrem.disk
  · rw [← hnames, ← hunlinked]
    exact hrem.unlinked
  · refine ⟨_, _, hloop, by rw [hremk.tail, refreshed_tail], ?_⟩
    rcases hstop with hlt | hend
    · exact Or.inr hlt
    · have hmeet := (hremk.cursors_meet hru (by omega)).mpr (by omega)
      exact Or.inl hmeet.symm

/-- A limit of 0 MB removes every closed log, so a contract kept for every limit
leaves no second entry for the head's file. -/
theorem headOnce_of_limitContract (hs : Shaped s.index) (hall : ∀ a, LimitContract a s) :
    HeadOnce s := by
  intro c hc hsome e he hname
  obtain ⟨r, k, m, hout, hspare⟩ := hall ⟨0, 0, 0, false, 0⟩
  obtain ⟨s₁, h₁, hloop, htail, hstop⟩ := hout.limitPhase
  have hu := hs.usable
  obtain ⟨k', m', hk', hm', hloop', hstop', _, hcall⟩ := limitSize_spec hu ⟨0, 0, 0, false, 0⟩
  have hru := refreshed_usable hu
  have hcount := refreshed_closedCount s
  have hlt := closedCount_lt hru
  have hremk := removed_iterate hru k' (by omega)
  have hle := hout.le_closed
  rw [closed_length_eq] at hle
  -- the outcome's limit phase is the one computed
  have hpair : removeStep^[k'] (refreshed s) = (s₁, h₁) :=
    Option.some.inj (hloop'.symm.trans hloop)
  have htails : nth logdataCount (hdr s.index).indexTail k'
      = nth logdataCount (hdr s.index).indexTail k := by
    rw [← htail, ← refreshed_tail, ← hremk.tail, hpair]
  have hkk : k' = k := by
    have hd := congrArg (dist logdataCount (hdr s.index).indexTail) htails
    rwa [dist_nth hu.tail_lt (by omega), dist_nth hu.tail_lt (by omega)] at hd
  have hall_closed : k + m = closedCount (hdr s.index) := by
    rcases hstop' with hlt0 | hend
    · exact absurd hlt0 (Nat.not_lt_zero _)
    · omega
  have hgone := hspare c hc
  rw [hout.disk, hall_closed, ← closed_length_eq, List.take_length, unlinkAll_disk,
    if_pos (by rw [← hname]; exact List.mem_map_of_mem he)] at hgone
  rw [← hgone] at hsome
  exact absurd hsome (by simp)

/-- Without a second entry for the head's file, no removal can reach that file. -/
theorem limitContract_of_headOnce (hs : Shaped s.index) (honce : HeadOnce s)
    (a : LimitArgs) : LimitContract a s := by
  obtain ⟨r, k, m, hout, _⟩ := limitOutcome hs.usable a
  refine ⟨r, k, m, hout, ?_⟩
  intro c hc
  rw [hout.disk, unlinkAll_disk]
  split
  next hmem =>
    obtain ⟨e, he, hname⟩ := List.mem_map.mp hmem
    by_contra hne
    have hsome : (s.disk c.name).isSome := by
      cases hd : s.disk c.name with
      | none => exact absurd hd.symm hne
      | some v => rfl
    exact honce c hc hsome e (List.mem_of_mem_take he) hname
  next => rfl

/-- The contract holds for every limit and reserve request exactly when no
closed slot names the head's file again. The exact total of a well-formed index
plays no part in it. -/
theorem limitContract_iff_headOnce (hs : Shaped s.index) :
    (∀ a, LimitContract a s) ↔ HeadOnce s :=
  ⟨headOnce_of_limitContract hs, limitContract_of_headOnce hs⟩

end Contract

/-! ## A file that is entered twice

`logger_common_generate_new_file` creates the new log before it opens the
index, so a rebuild in that call lists the file which is then added. -/

/-- `l_p1`: prefix `l_`, storage code `p`. -/
def liveLog : FileName := ⟨[108, 95, 112, 49], by decide, by decide⟩

/-- The same, as the call that creates it has it. -/
def livePath : LogPath := ⟨liveLog.bytes, by decide, by decide⟩

/-- A directory that holds this log only. -/
def liveLogDir : Store where
  index := []
  disk := fun n => if n = liveLog.bytes then some 0 else none
  unlinked := []

def liveLogScan : OpenEnv where
  filePrefix := some [108, 95]
  entries := [liveLog]
  stack := Logdata.zero
  stack_fits := Logdata.zero_fits

/-- The missing index is rebuilt and the log, which the scan listed, added. -/
def doubled : Store := (logdataRebuild liveLogScan liveLogDir).added livePath

theorem kept_liveLog : liveLogScan.kept = [liveLog] ∧ liveLogScan.dropped = [] := by
  have hroom : 1 ≤ logdataCount := logdataCount_pos
  have hsel : liveLogScan.selected = [liveLog] := by decide
  unfold OpenEnv.kept OpenEnv.dropped
  rw [hsel]
  exact ⟨List.take_of_length_le hroom, List.drop_of_length_le hroom⟩

theorem scanTotal_liveLog : liveLogScan.scanTotal liveLogDir.disk = 0 := by
  unfold OpenEnv.scanTotal
  rw [kept_liveLog.1]
  decide

theorem rebuilt_liveLog_spec : WellFormed (logdataRebuild liveLogScan liveLogDir).index ∧
    indexJournal (logdataRebuild liveLogScan liveLogDir).index = ⟨[⟨liveLog.bytes, 0⟩], none⟩ ∧
    (logdataRebuild liveLogScan liveLogDir).disk = liveLogDir.disk := by
  have hroom : 1 < logdataCount := by
    rw [logdataCount_eq]
    decide
  obtain ⟨hkept, hdropped⟩ := kept_liveLog
  have hrefill : Journal.refill logdataCount (liveLogScan.kept.map (scannedEntry liveLogDir.disk))
      = ⟨[⟨liveLog.bytes, 0⟩], none⟩ := by
    rw [hkept]
    unfold Journal.refill
    rw [if_pos (by exact hroom)]
    decide
  obtain ⟨_, hj, hdisk, _⟩ := rebuild_spec liveLogScan liveLogDir
  have hw : WellFormed (logdataRebuild liveLogScan liveLogDir).index :=
    rebuild_wellFormed (by rw [scanTotal_liveLog]; decide)
  rw [hrefill] at hj
  rw [hdropped] at hdisk
  exact ⟨hw, hj, hdisk⟩

theorem doubled_spec : WellFormed doubled.index ∧
    indexJournal doubled.index = ⟨[⟨liveLog.bytes, 0⟩], some ⟨liveLog.bytes, 0⟩⟩ ∧
    doubled.disk = liveLogDir.disk := by
  have hsel : liveLogScan.selected = [liveLog] := by decide
  have hroom : liveLogScan.selected.length < logdataCount := by
    rw [hsel, logdataCount_eq]
    decide
  obtain ⟨hj, hdisk⟩ := rebuild_added liveLogScan liveLogDir livePath hroom
  obtain ⟨hw, hj₀, hdisk₀⟩ := rebuilt_liveLog_spec
  have hfit : slotSum (logdataRebuild liveLogScan liveLogDir).index
      + fileSize (logdataRebuild liveLogScan liveLogDir).disk livePath.bytes < ulongMod := by
    rw [slotSum_index hw.shaped, hj₀, hdisk₀]
    decide
  have hw' := addFile_wellFormed hw hfit
  rw [hsel] at hj
  rw [doubled]
  exact ⟨hw', hj, hdisk⟩

theorem limitContract_iff_headOnce_doubled :
    (∀ a, LimitContract a doubled) ↔ HeadOnce doubled :=
  limitContract_iff_headOnce doubled_spec.1.shaped

/-- On this index a limit pass unlinks the log being written. -/
theorem limitContract_fails_doubled :
    WellFormed doubled.index ∧ ∃ a, ¬ LimitContract a doubled := by
  obtain ⟨hw, hj, hdisk⟩ := doubled_spec
  refine ⟨hw, ?_⟩
  by_contra hnone
  have honce := headOnce_of_limitContract hw.shaped fun a => by
    by_contra ha
    exact hnone ⟨a, ha⟩
  refine honce ⟨liveLog.bytes, 0⟩ (by rw [hj]) ?_ ⟨liveLog.bytes, 0⟩ (by rw [hj]; simp) rfl
  rw [hdisk]
  decide

end AndroidLearn.LoggerCommon

