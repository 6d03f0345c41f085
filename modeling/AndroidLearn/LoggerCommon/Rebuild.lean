import AndroidLearn.LoggerCommon.AddFile

/-!
# `logger_common_logdata_open`: accept or rebuild

An index that passes the header checks is left alone (`accepts_of_shaped`). Any other file
is truncated and refilled from a directory scan. The scan writes one slot for each
matching file, in `readdir` order, until the slots run out, and unlinks the files it has
no slot for.

`Scanned` is the loop invariant: the file written so far is a header image followed by
whole slots, those of the files met so far, and the total is the sum of their sizes. It is
kept by each entry of the directory, be it passed over, given a slot or unlinked.

`rebuild_spec` reads the result as a queue: the files kept, in `readdir` order, the last
of them the current one if all slots are taken. `rebuild_added` is what an add right
behind it leaves, which is where a log is named twice.
-/

namespace AndroidLearn.LoggerCommon

open Cyclic Finset

/-! ## A file of a header and whole slots -/

/-- A header image followed by slots. -/
def fileOf (h : LogdataHeader) (ds : List Logdata) : Bytes :=
  h.encode ++ (ds.map Logdata.encode).flatten

section FileOf

variable {h : LogdataHeader} {ds : List Logdata}

theorem length_slots : ∀ {ds : List Logdata}, (∀ d ∈ ds, d.Fits) →
    ((ds.map Logdata.encode).flatten).length = ds.length * sizeofLogdata
  | [], _ => by simp
  | d :: ds, hfit => by
    have hd := Logdata.length_encode (hfit d (List.mem_cons_self ..))
    have ih := @length_slots ds fun x hx => hfit x (List.mem_cons_of_mem _ hx)
    rw [List.map_cons, List.flatten_cons, List.length_append, hd, ih, List.length_cons]
    ring

/-- The size of an index that was made. -/
theorem length_fileOf (hh : h.Fits) (hds : ∀ d ∈ ds, d.Fits) :
    (fileOf h ds).length = slotOffset ds.length := by
  rw [fileOf, List.length_append, LogdataHeader.length_encode hh, length_slots hds, slotOffset]
  omega

/-- The `i`-th slot image of a list of slots. -/
theorem slots_drop_take : ∀ {ds : List Logdata} {i : Nat}, (∀ d ∈ ds, d.Fits) →
    (hi : i < ds.length) →
    (((ds.map Logdata.encode).flatten).drop (i * sizeofLogdata)).take sizeofLogdata
      = (ds[i]).encode
  | d :: ds, 0, hfit, _ => by
    have hd := Logdata.length_encode (hfit d (List.mem_cons_self ..))
    rw [Nat.zero_mul, List.drop_zero, List.map_cons, List.flatten_cons, List.getElem_cons_zero,
      ← hd, List.take_left]
  | d :: ds, i + 1, hfit, hi => by
    have hd := Logdata.length_encode (hfit d (List.mem_cons_self ..))
    have ih := @slots_drop_take ds i
      (fun x hx => hfit x (List.mem_cons_of_mem _ hx)) (by simpa using hi)
    have hoff : (i + 1) * sizeofLogdata = d.encode.length + i * sizeofLogdata := by
      rw [hd]
      ring
    rw [List.map_cons, List.flatten_cons, hoff, List.drop_length_add_append, ih,
      List.getElem_cons_succ]

theorem slotAt_fileOf {i : Nat} (hh : h.Fits) (hds : ∀ d ∈ ds, d.Fits) (hi : i < ds.length) :
    slotAt (fileOf h ds) i = ds[i] := by
  have hoff : slotOffset i = h.encode.length + i * sizeofLogdata := by
    rw [LogdataHeader.length_encode hh, slotOffset, Nat.add_comm]
  rw [slotAt, fileOf, hoff, List.drop_length_add_append, slots_drop_take hds hi,
    Logdata.decode_encode (hds _ (List.getElem_mem hi))]

theorem fileOf_append (h : LogdataHeader) (ds es : List Logdata) :
    fileOf h ds ++ (es.map Logdata.encode).flatten = fileOf h (ds ++ es) := by
  rw [fileOf, fileOf, List.map_append, List.flatten_append, List.append_assoc]

theorem slotSum_fileOf (hh : h.Fits) (hds : ∀ d ∈ ds, d.Fits)
    (hlen : ds.length = logdataCount) : slotSum (fileOf h ds) = (ds.map Logdata.size).sum := by
  rw [slotSum, sum_range_eq_list _ (le_refl _) (fun k hk hkn => by omega)]
  congr 1
  apply List.ext_getElem
  · rw [List.length_map, List.length_range, List.length_map, hlen]
  · intro i h₁ h₂
    rw [List.length_map, List.length_range, ← hlen] at h₁
    rw [List.getElem_map, List.getElem_range, List.getElem_map, slotAt_fileOf hh hds h₁]

end FileOf

/-! ## Accepting -/

/-- The checks of `logdataOpen`, read one by one. The tail is not among them. -/
theorem accepts_iff (f : Bytes) : logdataAccepts f = true ↔
    f.length = indexSize ∧ (hdr f).magic = logdataMagic ∧ (hdr f).entryCount = logdataCount ∧
      (hdr f).entrySize = sizeofLogdata ∧ (hdr f).headerSize = sizeofHeader ∧
      (hdr f).indexHead < logdataCount := by
  unfold logdataAccepts
  constructor
  · intro hacc
    cases hread : readHeader f with
    | none =>
      rw [hread] at hacc
      exact absurd hacc (by simp)
    | some h =>
      rw [hread, readHeader_eq_some hread] at hacc
      simp only [Bool.and_eq_true, beq_iff_eq, decide_eq_true_eq] at hacc
      obtain ⟨⟨⟨⟨⟨hmagic, hcount⟩, hentry⟩, hheader⟩, hhead⟩, hlen⟩ := hacc
      rw [hcount, hentry, hheader] at hlen
      rw [hcount] at hhead
      exact ⟨hlen, hmagic, hcount, hentry, hheader, hhead⟩
  · rintro ⟨hlen, hmagic, hcount, hentry, hheader, hhead⟩
    rw [readHeader_eq hlen]
    dsimp only
    rw [hmagic, hcount, hentry, hheader, hlen]
    simp [hhead, indexSize, slotOffset]

/-- An accepted file whose tail is a slot is usable, and conversely. -/
theorem usable_iff (f : Bytes) : Usable (hdr f) f ↔
    logdataAccepts f = true ∧ (hdr f).indexTail < logdataCount := by
  rw [accepts_iff]
  constructor
  · intro hu
    exact ⟨⟨hu.length, hu.magic, hu.entryCount, hu.entrySize, hu.headerSize, hu.head_lt⟩,
      hu.tail_lt⟩
  · rintro ⟨⟨hlen, hmagic, hcount, hentry, hheader, hhead⟩, htail⟩
    exact ⟨hlen, hdr_fits hlen, hmagic, hcount, hentry, hheader, hhead, htail⟩

theorem accepts_of_shaped {f : Bytes} (hs : Shaped f) : logdataAccepts f = true :=
  ((usable_iff f).mp hs.usable).1

theorem open_shaped {e : OpenEnv} {s : Store} (hw : Shaped s.index) :
    logdataOpen e s = s := by
  rw [logdataOpen, if_pos (accepts_of_shaped hw)]

/-! ## The directory scan -/

/-- The scan takes up this file. -/
def scanSelects (filePrefix : Name) (n : FileName) : Bool :=
  !isDotEntry n.bytes && matchesPrefix filePrefix n.bytes

/-- The files a scan takes up, in `readdir` order. -/
def OpenEnv.selected (e : OpenEnv) : List FileName :=
  match e.filePrefix with
  | none => []
  | some p => e.entries.filter (scanSelects p)

/-- The selected files there is a slot for. -/
def OpenEnv.kept (e : OpenEnv) : List FileName := e.selected.take logdataCount

/-- The selected files that are unlinked for want of a slot. -/
def OpenEnv.dropped (e : OpenEnv) : List FileName := e.selected.drop logdataCount

/-- Sum of the sizes a rebuild records. -/
def OpenEnv.scanTotal (e : OpenEnv) (disk : Disk) : Nat :=
  (e.kept.map fun n => fileSize disk n.bytes).sum

/-- `unlink` of each name in turn. -/
def Store.unlinkAll (s : Store) (ns : List Name) : Store := ns.foldl Store.unlink s

/-- The scan loop's invariant: having met the files `ns` of a directory, it has
written a slot for each of the first `logdataCount` and unlinked the others. -/
structure Scanned (s : Store) (h₀ : LogdataHeader) (ns : List FileName) (ds : List Logdata)
    (sc : Scan) : Prop where
  index : sc.store.index = fileOf h₀ ds
  hdr : sc.hdr = { h₀ with
    indexHead := ds.length
    totalSize := (ds.map Logdata.size).sum % ulongMod }
  data : sc.data.Fits
  slots_fit : ∀ d ∈ ds, d.Fits
  slots : ds.map entryOf = (ns.take logdataCount).map (scannedEntry s.disk)
  disk : sc.store.disk = (s.unlinkAll ((ns.drop logdataCount).map FileName.bytes)).disk
  unlinked : sc.store.unlinked = (s.unlinkAll ((ns.drop logdataCount).map FileName.bytes)).unlinked

section Scan

variable {s : Store} {h₀ : LogdataHeader} {ns : List FileName} {ds : List Logdata} {sc : Scan}

/-- One removal after another. -/
theorem unlinkAll_append (s : Store) (ns ms : List Name) :
    s.unlinkAll (ns ++ ms) = (s.unlinkAll ns).unlinkAll ms := by
  unfold Store.unlinkAll
  rw [List.foldl_append]

/-- A file that was there is removed. -/
theorem unlink_unlinked (s : Store) (n : Name) :
    (s.unlink n).unlinked = s.unlinked ++ (if (s.disk n).isSome then [n] else []) := by
  unfold Store.unlink
  split
  next hsome => rfl
  next hsome => simp

namespace Scanned

theorem length_slots (hsc : Scanned s h₀ ns ds sc) : ds.length = min logdataCount ns.length := by
  have hlen := congrArg List.length hsc.slots
  rw [List.length_map, List.length_map, List.length_take] at hlen
  exact hlen

/-- The sizes recorded so far. -/
theorem sum_slots (hsc : Scanned s h₀ ns ds sc) :
    (ds.map Logdata.size).sum
      = ((ns.take logdataCount).map fun n => fileSize s.disk n.bytes).sum := by
  have hsize : ds.map Logdata.size = (ds.map entryOf).map Entry.size := by
    rw [List.map_map]
    rfl
  rw [hsize, hsc.slots, List.map_map]
  rfl

/-- A file there is no slot for is unlinked. -/
theorem step_dropped (hsc : Scanned s h₀ ns ds sc) (n : FileName)
    (hfull : logdataCount ≤ ns.length) :
    Scanned s h₀ (ns ++ [n]) ds { sc with store := sc.store.unlink n.bytes } := by
  have hdrop : ((ns ++ [n]).drop logdataCount).map FileName.bytes
      = (ns.drop logdataCount).map FileName.bytes ++ [n.bytes] := by
    rw [List.drop_append_of_le_length hfull, List.map_append, List.map_singleton]
  refine
    { index := by rw [unlink_index]; exact hsc.index
      hdr := hsc.hdr
      data := hsc.data
      slots_fit := hsc.slots_fit
      slots := by rw [List.take_append_of_le_length hfull]; exact hsc.slots
      disk := ?_
      unlinked := ?_ }
  · rw [hdrop, unlinkAll_append, unlink_disk, hsc.disk]
    exact (unlink_disk _ _).symm
  · rw [hdrop, unlinkAll_append, unlink_unlinked, hsc.disk, hsc.unlinked]
    exact (unlink_unlinked _ _).symm

/-- A file there is a slot for gets the next one. -/
theorem step_kept (hsc : Scanned s h₀ ns ds sc) (n : FileName)
    (hroom : ns.length < logdataCount) :
    ∃ d, Scanned s h₀ (ns ++ [n]) (ds ++ [d])
      { store := { sc.store with index := sc.store.index ++ d.encode }
        hdr := { sc.hdr with
          totalSize := (sc.hdr.totalSize + d.size) % ulongMod
          indexHead := sc.hdr.indexHead + 1 }
        data := d } ∧
      d = { sc.data.setFile n.bytes with size := fileSize sc.store.disk n.bytes } := by
  -- nothing has been unlinked yet
  have hnone : (ns.drop logdataCount).map FileName.bytes = [] := by
    rw [List.drop_of_length_le (by omega), List.map_nil]
  have hnone' : ((ns ++ [n]).drop logdataCount).map FileName.bytes = [] := by
    rw [List.drop_of_length_le (by rw [List.length_append, List.length_singleton]; omega),
      List.map_nil]
  have hdisk : sc.store.disk = s.disk := by
    rw [hsc.disk, hnone]
    rfl
  have hfits : Logdata.Fits
      { sc.data.setFile n.bytes with size := fileSize sc.store.disk n.bytes } :=
    ⟨(Logdata.setFile_fits hsc.data n.bytes).file, UInt64.toNat_lt _⟩
  have hentry : entryOf { sc.data.setFile n.bytes with size := fileSize sc.store.disk n.bytes }
      = scannedEntry s.disk n := by
    have hname := Logdata.setFile_name sc.data n.no_nul
    unfold entryOf scannedEntry
    rw [hdisk]
    exact congrArg (Entry.mk · _) hname
  refine ⟨_, ?_, rfl⟩
  refine
    { index := ?_
      hdr := ?_
      data := hfits
      slots_fit := ?_
      slots := ?_
      disk := by rw [hnone', ← hnone]; exact hsc.disk
      unlinked := by rw [hnone', ← hnone]; exact hsc.unlinked }
  · have happ := fileOf_append h₀ ds
      [{ sc.data.setFile n.bytes with size := fileSize sc.store.disk n.bytes }]
    rw [List.map_singleton, List.flatten_singleton] at happ
    dsimp only
    rw [hsc.index, happ]
  · dsimp only
    rw [hsc.hdr, hdisk, Nat.mod_add_mod, List.map_append, List.sum_append,
      List.length_append, List.map_singleton, List.sum_singleton, List.length_singleton]
  · intro d hd
    rcases List.mem_append.mp hd with hd | hd
    · exact hsc.slots_fit d hd
    · rw [List.mem_singleton.mp hd]
      exact hfits
  · rw [List.map_append, hsc.slots, List.take_of_length_le (Nat.le_of_lt hroom),
      List.take_of_length_le (by rw [List.length_append, List.length_singleton]; omega),
      List.map_append, List.map_singleton, List.map_singleton, hentry]

/-- One round of the scan, at a file it takes up. -/
theorem step (hsc : Scanned s h₀ ns ds sc) (h₀count : h₀.entryCount = logdataCount)
    {p : Name} {n : FileName} (hdot : isDotEntry n.bytes = false)
    (hmatch : matchesPrefix p n.bytes = true) :
    ∃ ds', Scanned s h₀ (ns ++ [n]) ds' (scanEntry p sc n) := by
  have hlen := hsc.length_slots
  have hcount : sc.hdr.entryCount = logdataCount := by
    rw [hsc.hdr]
    exact h₀count
  have hhead : sc.hdr.indexHead = ds.length := by rw [hsc.hdr]
  unfold scanEntry
  rw [hdot, hmatch, hcount, hhead]
  simp only [Bool.not_true, Bool.or_self, Bool.false_eq_true, if_false]
  by_cases hfull : logdataCount ≤ ns.length
  · rw [if_pos (by omega)]
    exact ⟨ds, hsc.step_dropped n hfull⟩
  · rw [if_neg (by omega)]
    obtain ⟨d, hd, rfl⟩ := hsc.step_kept n (by omega)
    rw [hhead] at hd
    exact ⟨_, hd⟩

/-- The whole scan: the files it skips change nothing. -/
theorem foldl (h₀count : h₀.entryCount = logdataCount) (p : Name) :
    ∀ (es : List FileName) {ns : List FileName} {ds : List Logdata} {sc : Scan},
      Scanned s h₀ ns ds sc →
      ∃ ds', Scanned s h₀ (ns ++ es.filter (scanSelects p)) ds' (es.foldl (scanEntry p) sc)
  | [], ns, ds, sc, hsc => by
    rw [List.filter_nil, List.append_nil]
    exact ⟨ds, hsc⟩
  | n :: es, ns, ds, sc, hsc => by
    by_cases htake : scanSelects p n = true
    · have hcons : ns ++ (n :: es).filter (scanSelects p)
          = (ns ++ [n]) ++ es.filter (scanSelects p) := by
        rw [List.filter_cons_of_pos htake, List.append_assoc, List.singleton_append]
      rw [hcons]
      obtain ⟨hdot, hmatch⟩ := Bool.and_eq_true_iff.mp htake
      obtain ⟨ds', hsc'⟩ := hsc.step h₀count (by simpa using hdot) hmatch
      exact foldl h₀count p es hsc'
    · have hskip : scanEntry p sc n = sc := by
        unfold scanSelects at htake
        unfold scanEntry
        rw [if_pos]
        revert htake
        cases isDotEntry n.bytes <;> cases matchesPrefix p n.bytes <;> simp
      rw [List.filter_cons_of_neg htake]
      rw [List.foldl_cons, hskip]
      exact foldl h₀count p es hsc

end Scanned

end Scan

/-! ## The rebuilt index -/

/-- The queue a rebuild makes of the entries it scanned: the last of them is
current when they take up every slot. -/
def Journal.refill (cap : Nat) (es : List Entry) : Journal :=
  if es.length < cap then ⟨es, none⟩ else ⟨es.dropLast, es.getLast?⟩

section Rebuilt

variable {s : Store} {reserved : Bytes} {ns : List FileName} {ds : List Logdata} {sc : Scan}

/-- The header of an index that is made anew. -/
theorem fixdataHeader_fits (hres : reserved.length = 8) : (fixdataHeader reserved).Fits where
  magic := show logdataMagic < ulongMod by decide
  entryCount := logdataCount_lt_ulongMod
  entrySize := show sizeofLogdata < ulongMod by decide
  indexHead := show 0 < ulongMod by decide
  indexTail := show 0 < ulongMod by decide
  totalSize := show 0 < ulongMod by decide
  headerSize := show sizeofHeader < ulongMod by decide
  reserved := hres

theorem length_readReserved (f : Bytes) : (readReserved f).length = 8 := by
  unfold readReserved LogdataHeader.decode
  simp only [List.length_drop, List.length_append, List.length_take, List.length_replicate,
    sizeofHeader]
  omega

/-- The slots of the filled-up file: what was scanned, then empty ones. -/
theorem slots_filled (hsc : Scanned s (fixdataHeader reserved) ns ds sc) :
    (∀ d ∈ ds ++ List.replicate (logdataCount - ds.length) Logdata.zero, d.Fits) ∧
      (ds ++ List.replicate (logdataCount - ds.length) Logdata.zero).length = logdataCount := by
  have hlen := hsc.length_slots
  constructor
  · intro d hd
    rcases List.mem_append.mp hd with hd | hd
    · exact hsc.slots_fit d hd
    · rw [List.eq_of_mem_replicate hd]
      exact Logdata.zero_fits
  · rw [List.length_append, List.length_replicate]
    omega

/-- Every scanned slot names its file. -/
theorem Scanned.occupied (hsc : Scanned s (fixdataHeader reserved) ns ds sc) {d : Logdata}
    (hd : d ∈ ds) : d.Occupied := by
  have hmem : entryOf d ∈ (ns.take logdataCount).map (scannedEntry s.disk) := by
    rw [← hsc.slots]
    exact List.mem_map_of_mem hd
  obtain ⟨n, _, hn⟩ := List.mem_map.mp hmem
  have hname : d.name = n.bytes.take (logdataFileBuflen - 1) := (congrArg Entry.name hn).symm
  rw [Logdata.Occupied, hname]
  have hne := n.ne_nil
  cases hb : n.bytes with
  | nil => exact absurd hb hne
  | cons b bs => simp [logdataFileBuflen]

/-- An index that was made anew is as it should be. -/
theorem rebuilt_shape (hres : reserved.length = 8)
    (hsc : Scanned s (fixdataHeader reserved) ns ds sc) :
    Shape
      { fixdataHeader reserved with
        indexHead := min ds.length (logdataCount - 1)
        totalSize := (ds.map Logdata.size).sum % ulongMod }
      (fileOf (fixdataHeader reserved)
        (ds ++ List.replicate (logdataCount - ds.length) Logdata.zero)) := by
  obtain ⟨hfits, hlen⟩ := slots_filled hsc
  have hh := fixdataHeader_fits hres
  have hpos := logdataCount_pos
  have hk := hsc.length_slots
  have hdist : ∀ i, dist logdataCount 0 i = i := fun i => by simp [Cyclic.dist]
  have hslot : ∀ i, i < logdataCount →
      ∀ _ : i < (ds ++ List.replicate (logdataCount - ds.length) Logdata.zero).length,
      slotAt (fileOf (fixdataHeader reserved)
        (ds ++ List.replicate (logdataCount - ds.length) Logdata.zero)) i
          = (ds ++ List.replicate (logdataCount - ds.length) Logdata.zero)[i] :=
    fun i _ hlt => slotAt_fileOf hh hfits hlt
  have hzero : ∀ i (hi : i < logdataCount), ds.length ≤ i → slotAt (fileOf (fixdataHeader reserved)
      (ds ++ List.replicate (logdataCount - ds.length) Logdata.zero)) i = Logdata.zero := by
    intro i hi hge
    rw [hslot i hi (by omega), List.getElem_append_right hge, List.getElem_replicate]
  exact
    { length := by rw [length_fileOf hh hfits, hlen, indexSize]
      reserved := hres
      magic := rfl
      entryCount := rfl
      entrySize := rfl
      headerSize := rfl
      head_lt := by dsimp only; omega
      tail_lt := hpos
      named := by
        intro i hi hd
        dsimp only [fixdataHeader] at hd
        rw [hdist, hdist] at hd
        rw [hslot i hi (by omega), List.getElem_append_left (by omega)]
        exact hsc.occupied (List.getElem_mem _)
      outside := by
        intro i hi hd
        dsimp only [fixdataHeader] at hd
        rw [hdist, hdist] at hd
        rw [hzero i hi (by omega)]
        exact ⟨rfl, rfl⟩
      head_empty := by
        dsimp only
        intro hname
        rcases Nat.lt_or_ge (min ds.length (logdataCount - 1)) ds.length with hlt | hge
        · rw [hslot _ (by omega) (by omega), List.getElem_append_left hlt] at hname
          exact absurd hname (hsc.occupied (List.getElem_mem _))
        · rw [hzero _ (by omega) hge]
          rfl
      total_lt := Nat.mod_lt _ (Nat.two_pow_pos 64) }

theorem rebuilt_total (hres : reserved.length = 8)
    (hsc : Scanned s (fixdataHeader reserved) ns ds sc) :
    slotSum (fileOf (fixdataHeader reserved)
      (ds ++ List.replicate (logdataCount - ds.length) Logdata.zero))
      = (ds.map Logdata.size).sum := by
  obtain ⟨hfits, hlen⟩ := slots_filled hsc
  rw [slotSum_fileOf (fixdataHeader_fits hres) hfits hlen, List.map_append, List.sum_append]
  simp

theorem rebuilt_journal (hres : reserved.length = 8)
    (hsc : Scanned s (fixdataHeader reserved) ns ds sc) :
    journal
      { fixdataHeader reserved with
        indexHead := min ds.length (logdataCount - 1)
        totalSize := (ds.map Logdata.size).sum % ulongMod }
      (fileOf (fixdataHeader reserved)
        (ds ++ List.replicate (logdataCount - ds.length) Logdata.zero))
      = Journal.refill logdataCount (ds.map entryOf) := by
  obtain ⟨hfits, hlen⟩ := slots_filled hsc
  have hh := fixdataHeader_fits hres
  have hpos := logdataCount_pos
  have hk := hsc.length_slots
  have hscanned : ∀ i (hi : i < ds.length), slotAt (fileOf (fixdataHeader reserved)
      (ds ++ List.replicate (logdataCount - ds.length) Logdata.zero)) i = ds[i] := by
    intro i hi
    rw [slotAt_fileOf hh hfits (by omega), List.getElem_append_left hi]
  have hempty : ds.length < logdataCount → ¬ (slotAt (fileOf (fixdataHeader reserved)
      (ds ++ List.replicate (logdataCount - ds.length) Logdata.zero)) ds.length).Occupied := by
    intro hroom
    rw [slotAt_fileOf hh hfits (by omega), List.getElem_append_right (le_refl _),
      List.getElem_replicate]
    exact Logdata.not_occupied_iff.mpr rfl
  generalize fileOf (fixdataHeader reserved)
    (ds ++ List.replicate (logdataCount - ds.length) Logdata.zero) = f at hscanned hempty ⊢
  have hclosed : ∀ m, m ≤ ds.length →
      (List.range m).map (fun k => entryOf (slotAt f (nth logdataCount 0 k)))
        = (ds.map entryOf).take m := by
    intro m hm
    apply List.ext_getElem
    · rw [List.length_map, List.length_range, List.length_take, List.length_map]
      omega
    · intro i h₁ h₂
      rw [List.length_map, List.length_range] at h₁
      have hnth : nth logdataCount 0 i = i := by
        unfold nth
        rw [Nat.zero_add, if_pos (by omega)]
      rw [List.getElem_map, List.getElem_range, List.getElem_take, List.getElem_map, hnth,
        hscanned i (by omega)]
  have hdist : dist logdataCount 0 (min ds.length (logdataCount - 1))
      = min ds.length (logdataCount - 1) := by simp [Cyclic.dist]
  unfold journal Journal.refill
  dsimp only [fixdataHeader]
  rw [hdist, hclosed _ (by omega), List.length_map]
  by_cases hroom : ds.length < logdataCount
  · -- room left: the head slot is the first empty one
    have hmin : min ds.length (logdataCount - 1) = ds.length := by omega
    rw [if_pos hroom, hmin, if_neg (hempty hroom), List.take_of_length_le (by rw [List.length_map])]
  · -- every slot is taken: the head is stepped back onto the last one
    have hmin : min ds.length (logdataCount - 1) = ds.length - 1 := by omega
    have hbehind : ds.length - 1 < ds.length := by omega
    have hlast : (ds.map entryOf).getLast? = some (entryOf ds[ds.length - 1]) := by
      rw [List.getLast?_eq_getElem?, List.length_map, List.getElem?_map,
        List.getElem?_eq_getElem (by omega), Option.map_some]
    have hoccupied := hsc.occupied (List.getElem_mem (l := ds) (n := ds.length - 1) (by omega))
    rw [if_neg hroom, hmin, hscanned _ (by omega), if_pos hoccupied, hlast,
      List.dropLast_eq_take, List.length_map]

end Rebuilt

/-- The rebuilt file: a shape made of what the scan left. -/
theorem rebuild_scanned (e : OpenEnv) (s : Store) :
    ∃ ds sc, Scanned s (fixdataHeader (readReserved s.index)) e.selected ds sc ∧
      logdataRebuild e s = { sc.store with
        index := writeHeader
          (fileOf (fixdataHeader (readReserved s.index))
            (ds ++ List.replicate (logdataCount - ds.length) Logdata.zero))
          { fixdataHeader (readReserved s.index) with
            indexHead := min ds.length (logdataCount - 1)
            totalSize := (ds.map Logdata.size).sum % ulongMod } } := by
  have hstart : Scanned s (fixdataHeader (readReserved s.index)) [] []
      ⟨{ s with index := (fixdataHeader (readReserved s.index)).encode },
        fixdataHeader (readReserved s.index), e.stack⟩ :=
    { index := by simp [fileOf]
      hdr := rfl
      data := e.stack_fits
      slots_fit := by simp
      slots := by simp
      disk := by simp [Store.unlinkAll]
      unlinked := by simp [Store.unlinkAll] }
  have hscan : ∃ ds, Scanned s (fixdataHeader (readReserved s.index)) e.selected ds
      (scanDirectory e ⟨{ s with index := (fixdataHeader (readReserved s.index)).encode },
        fixdataHeader (readReserved s.index), e.stack⟩) := by
    unfold scanDirectory OpenEnv.selected
    cases e.filePrefix with
    | none => exact ⟨[], hstart⟩
    | some p =>
      have hfold := Scanned.foldl rfl p e.entries hstart
      rw [List.nil_append] at hfold
      exact hfold
  obtain ⟨ds, hsc⟩ := hscan
  have hk := hsc.length_slots
  unfold logdataRebuild
  dsimp only
  generalize scanDirectory e ⟨{ s with index := (fixdataHeader (readReserved s.index)).encode },
    fixdataHeader (readReserved s.index), e.stack⟩ = sc at hsc ⊢
  refine ⟨ds, sc, hsc, ?_⟩
  have hcount : sc.hdr.entryCount = logdataCount := by rw [hsc.hdr]; rfl
  have hhead : sc.hdr.indexHead = ds.length := by rw [hsc.hdr]
  have hempties : (List.replicate (logdataCount - ds.length) Logdata.zero.encode).flatten
      = ((List.replicate (logdataCount - ds.length) Logdata.zero).map Logdata.encode).flatten := by
    rw [List.map_replicate]
  have hheader : (if sc.hdr.entryCount ≤ sc.hdr.indexHead
        then { sc.hdr with indexHead := sc.hdr.entryCount - 1 } else sc.hdr)
      = { fixdataHeader (readReserved s.index) with
          indexHead := min ds.length (logdataCount - 1)
          totalSize := (ds.map Logdata.size).sum % ulongMod } := by
    rw [hcount, hhead, hsc.hdr]
    split
    next hge =>
      have hmin : min ds.length (logdataCount - 1) = logdataCount - 1 := by omega
      rw [hmin]
    next hlt =>
      have hmin : min ds.length (logdataCount - 1) = ds.length := by omega
      rw [hmin]
  dsimp only at hheader
  rw [hheader, hcount, hhead, hempties, hsc.index, fileOf_append]

/-- A rebuild leaves a shaped index whose queue is what the scan met, and unlinks
the files there was no slot for. -/
theorem rebuild_spec (e : OpenEnv) (s : Store) :
    Shaped (logdataRebuild e s).index ∧
      indexJournal (logdataRebuild e s).index
        = Journal.refill logdataCount (e.kept.map (scannedEntry s.disk)) ∧
      (logdataRebuild e s).disk = (s.unlinkAll (e.dropped.map FileName.bytes)).disk ∧
      (logdataRebuild e s).unlinked = (s.unlinkAll (e.dropped.map FileName.bytes)).unlinked := by
  obtain ⟨ds, sc, hsc, heq⟩ := rebuild_scanned e s
  have hres := length_readReserved s.index
  have hshape := rebuilt_shape hres hsc
  rw [heq]
  refine ⟨hshape.writeHeader_shaped, ?_, hsc.disk, hsc.unlinked⟩
  rw [indexJournal_writeHeader hshape, rebuilt_journal hres hsc, hsc.slots]
  rfl

/-- And its total is exact when the sizes it met sum to less than `2 ^ 64`. -/
theorem rebuild_wellFormed {e : OpenEnv} {s : Store} (hfit : e.scanTotal s.disk < ulongMod) :
    WellFormed (logdataRebuild e s).index := by
  obtain ⟨ds, sc, hsc, heq⟩ := rebuild_scanned e s
  have hres := length_readReserved s.index
  have hsum : (ds.map Logdata.size).sum < ulongMod := by
    rw [hsc.sum_slots]
    exact hfit
  have hring : Ring { fixdataHeader (readReserved s.index) with
      indexHead := min ds.length (logdataCount - 1)
      totalSize := (ds.map Logdata.size).sum % ulongMod } _ :=
    { rebuilt_shape hres hsc with
      total := by
        rw [rebuilt_total hres hsc]
        exact Nat.mod_eq_of_lt hsum }
  rw [heq]
  exact hring.writeHeader_wellFormed

/-- Adding a file to a rebuilt index with room left. If the scan listed the file
already, it now has two entries. -/
theorem rebuild_added (e : OpenEnv) (s : Store) (n : LogPath)
    (hroom : e.selected.length < logdataCount) :
    indexJournal ((logdataRebuild e s).added n).index
        = ⟨e.selected.map (scannedEntry s.disk), some (newEntry s.disk n)⟩ ∧
      ((logdataRebuild e s).added n).disk = s.disk := by
  obtain ⟨hshaped, hj, hdisk, _⟩ := rebuild_spec e s
  have hkept : e.kept = e.selected := List.take_of_length_le (Nat.le_of_lt hroom)
  have hdropped : e.dropped = [] := List.drop_of_length_le (Nat.le_of_lt hroom)
  have hrefill : Journal.refill logdataCount (e.kept.map (scannedEntry s.disk))
      = ⟨e.selected.map (scannedEntry s.disk), none⟩ := by
    unfold Journal.refill
    rw [hkept, if_pos (by rwa [List.length_map])]
  rw [hrefill] at hj
  rw [hdropped, List.map_nil] at hdisk
  obtain ⟨hj', hdisk', _⟩ := addFile_vacant hshaped n (by rw [hj])
  rw [hj, hdisk] at hj'
  rw [hdisk] at hdisk'
  exact ⟨hj', hdisk'⟩

end AndroidLearn.LoggerCommon
