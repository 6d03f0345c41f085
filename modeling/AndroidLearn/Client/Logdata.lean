import AndroidLearn.LoggerCommon.RingRun

/-!
# The client's dump of an index file

`dump_logdata` of `client/logdata.c` is a second reader of the index files that the daemon
writes. It knows nothing of the daemon's checks: it reads the header as it is, and walks
from the tail to the head, going back to slot 0 behind the last one.

What it prints is modelled by lines with the numbers in them (`Line`); the addresses and
the messages for developers are left out. `lseek` goes to any position and `read` returns
what the file has from there on. The loop of the source has no bound of its own, so
`dumpLoop` runs for an amount of fuel and is `none` where that is used up.

Theorems:
- `dumpLogdata_run`: of an index as any run of the daemon leaves it, the dump shows the
  queue that the index stands for. The sizes are taken to fit what is printed
  (`SizesFit`).
- `dumpLogdata_ends_iff`: of any other file that holds all its slots, with a tail among
  them and sizes in its header, the dump ends if and only if the head is one of the slots
  too. `dumpLoop_ends` is the one half, and `dumpLoop_hangs` the other: the walk goes
  round.
-/

namespace AndroidLearn.Client.Logdata

open Bytes Cyclic LoggerCommon Run

/-! ## The command -/

/-- What is printed. -/
inductive Line
  | invalidArguments
  | openFailed
  | invalidHeaderSize (count : Nat)
  | header (hdr : LogdataHeader)
  /-- `(fix header size to 40 bytes)` -/
  | fixed
  | invalidDataSize (index : Nat) (count : Nat)
  | entry (index : Nat) (data : Logdata)
  deriving DecidableEq, Repr

/-- The position after `lseek`, which refuses an offset that is negative as an `off_t`;
the result is not looked at. -/
def seek (pos offset : Nat) : Nat := if offset < 2 ^ 63 then offset else pos

/-- `if (++ index >= hdr.entry_count) index = 0;` -/
def nextIndex (hdr : LogdataHeader) (index : Nat) : Nat :=
  if (index + 1) % ulongMod ≥ hdr.entryCount then 0 else (index + 1) % ulongMod

/-- The loop, at position `pos` of the file; `none` if it needs more rounds. -/
def dumpLoop (f : Bytes) (hdr : LogdataHeader) : Nat → Nat → Nat → Option (List Line × Int)
  | 0, _, _ => none
  | fuel + 1, pos, index =>
    let pos := seek pos ((hdr.headerSize + index * sizeofLogdata) % ulongMod)
    match readAt f pos sizeofLogdata with
    | none => some ([.invalidDataSize index (f.length - pos)], -1)
    | some bytes =>
      let line := .entry index (Logdata.decode bytes)
      if index = hdr.indexHead then some ([line], 0)
      else
        (dumpLoop f hdr fuel (pos + sizeofLogdata) (nextIndex hdr index)).map fun rest =>
          (line :: rest.1, rest.2)

/-- An old file has no header size. -/
def fix (hdr : LogdataHeader) : LogdataHeader :=
  if hdr.headerSize = 0 then { hdr with headerSize := 40 } else hdr

/-- The lines about the header, and the one that says it was put right. -/
def headerLines (hdr : LogdataHeader) : List Line :=
  .header hdr :: if hdr.headerSize = 0 then [.fixed] else []

/-- `dump_logdata` on a file that was opened. -/
def dumpFile (fuel : Nat) (f : Bytes) : Option (List Line × Int) :=
  match readAt f 0 sizeofHeader with
  | none => some ([.invalidHeaderSize f.length], -1)
  | some bytes =>
    let hdr := LogdataHeader.decode bytes
    let lines := headerLines hdr
    let hdr := fix hdr
    if hdr.entrySize ≠ 0 then
      (dumpLoop f hdr fuel sizeofHeader hdr.indexTail).map fun rest =>
        (lines ++ rest.1, rest.2)
    else some (lines, 0)

/-- `file` is what `open` finds. -/
def dumpLogdata (fuel : Nat) (argc : Nat) (file : Option Bytes) : Option (List Line × Int) :=
  if argc ≠ 3 then some ([.invalidArguments], -1)
  else
    match file with
    | none => some ([.openFailed], -1)
    | some f => dumpFile fuel f

/-! ## An index of the daemon -/

section Shape

variable {h : LogdataHeader} {f : Bytes}

/-- Slot `k` after the tail is read where the daemon wrote it. -/
theorem read_nth (hs : Shape h f) {k : Nat} (hk : k < logdataCount) (pos : Nat) :
    readAt f (seek pos ((h.headerSize + nth logdataCount h.indexTail k * sizeofLogdata) % ulongMod))
      sizeofLogdata = some ((f.drop (slotOffset (nth logdataCount h.indexTail k))).take
        sizeofLogdata) := by
  have hlt := nth_lt hs.tail_lt hk
  have hoffset : h.headerSize + nth logdataCount h.indexTail k * sizeofLogdata =
      slotOffset (nth logdataCount h.indexTail k) := by
    rw [hs.headerSize, slotOffset, Nat.add_comm]
  have hin := slot_in_file hs.length hlt
  have hsmall : slotOffset (nth logdataCount h.indexTail k) < 2 ^ 63 := by
    have hcount := logdataCount_eq
    simp only [slotOffset, sizeofLogdata, sizeofHeader]
    omega
  rw [hoffset, slotOffset_lt_ulongMod hlt, seek, if_pos hsmall, readAt_of_le hin]

/-- The next index of the source is that of the ring. -/
theorem nextIndex_eq (hs : Shape h f) {i : Nat} (hi : i < logdataCount) :
    nextIndex h i = next logdataCount i := by
  have hmod : (i + 1) % ulongMod = i + 1 := by
    apply Nat.mod_eq_of_lt
    have := logdataCount_lt_ulongMod
    omega
  rw [nextIndex, next, hmod, hs.entryCount]

/-- What is printed of slot `k` after the tail. -/
def slotLine (h : LogdataHeader) (f : Bytes) (k : Nat) : Line :=
  .entry (nth logdataCount h.indexTail k) (slotAt f (nth logdataCount h.indexTail k))

/-- The walk from slot `k` after the tail to the head, `m` slots further on. -/
theorem dumpLoop_shape (hs : Shape h f) {m k fuel : Nat}
    (hm : k + m = dist logdataCount h.indexTail h.indexHead) (hfuel : m < fuel) (pos : Nat) :
    dumpLoop f h fuel pos (nth logdataCount h.indexTail k) =
      some ((List.range' k (m + 1)).map (slotLine h f), 0) := by
  have hdist := dist_lt hs.tail_lt hs.head_lt
  induction m generalizing k fuel pos with
  | zero =>
    obtain ⟨fuel, rfl⟩ : ∃ n, fuel = n + 1 := ⟨fuel - 1, by omega⟩
    have hhead : nth logdataCount h.indexTail k = h.indexHead := by
      rw [show k = dist logdataCount h.indexTail h.indexHead from hm,
        nth_dist hs.tail_lt hs.head_lt]
    rw [dumpLoop, read_nth hs (by omega)]
    dsimp only
    rw [if_pos hhead]
    rfl
  | succ m ih =>
    obtain ⟨fuel, rfl⟩ : ∃ n, fuel = n + 1 := ⟨fuel - 1, by omega⟩
    have hlt := nth_lt hs.tail_lt (k := k) (by omega)
    have hnot : nth logdataCount h.indexTail k ≠ h.indexHead := by
      intro heq
      have hk := dist_nth hs.tail_lt (k := k) (by omega)
      rw [heq] at hk
      omega
    have hnext : nextIndex h (nth logdataCount h.indexTail k) =
        nth logdataCount h.indexTail (k + 1) := by
      rw [nextIndex_eq hs hlt, next_nth hs.tail_lt (by omega)]
    rw [dumpLoop, read_nth hs (by omega)]
    dsimp only
    rw [if_neg hnot, hnext, ih (by omega) (by omega)]
    rfl

end Shape

/-- The queue as the dump shows it: the head slot is shown even if it is empty. -/
def shown (j : Journal) : List Entry := j.closed ++ [j.current.getD ⟨[], 0⟩]

/-- The entry a line is about. -/
def Line.entry? : Line → Option Entry
  | .entry _ data => some (entryOf data)
  | _ => none

/-- The entries of the lines are the journal, as it is shown. -/
theorem shown_eq {f : Bytes} (hs : Shaped f) :
    ((List.range' 0 (dist logdataCount (hdr f).indexTail (hdr f).indexHead + 1)).map
      (slotLine (hdr f) f)).filterMap Line.entry? = shown (indexJournal f) := by
  have hhead : entryOf (slotAt f (hdr f).indexHead) =
      (indexJournal f).current.getD ⟨[], 0⟩ := by
    show _ = (if (slotAt f (hdr f).indexHead).Occupied then _ else none).getD _
    split
    · rfl
    · next hempty =>
      have hname := Logdata.not_occupied_iff.mp hempty
      show Entry.mk (slotAt f (hdr f).indexHead).name (slotAt f (hdr f).indexHead).size = ⟨[], 0⟩
      rw [hname, hs.head_empty hname]
  have hlast : entryOf (slotAt f (nth logdataCount (hdr f).indexTail
      (dist logdataCount (hdr f).indexTail (hdr f).indexHead))) =
      entryOf (slotAt f (hdr f).indexHead) := by
    rw [nth_dist hs.tail_lt hs.head_lt]
  have hclosed (n : Nat) : ((List.range n).map (slotLine (hdr f) f)).filterMap Line.entry? =
      (List.range n).map fun k => entryOf (slotAt f (nth logdataCount (hdr f).indexTail k)) := by
    rw [List.filterMap_map, ← List.filterMap_eq_map]
    rfl
  rw [← List.range_eq_range', hclosed, List.range_succ, List.map_append, List.map_singleton, hlast,
    hhead]
  rfl

/-- The dump of a file that has a header, with the loop on its own. -/
theorem dumpFile_eq {f : Bytes} (hf : 0 + sizeofHeader ≤ f.length) (fuel : Nat) :
    dumpFile fuel f =
      if (fix (hdr f)).entrySize ≠ 0 then
        (dumpLoop f (fix (hdr f)) fuel sizeofHeader (fix (hdr f)).indexTail).map fun rest =>
          (headerLines (hdr f) ++ rest.1, rest.2)
      else some (headerLines (hdr f), 0) := by
  rw [dumpFile, readAt_of_le hf, List.drop_zero, hdr]

/-- The dump of a sound index: the header, and a line for each slot from the tail to the head. -/
theorem dumpFile_shaped {f : Bytes} (hs : Shaped f) {fuel : Nat} (hfuel : logdataCount ≤ fuel) :
    dumpFile fuel f = some (.header (hdr f) ::
      (List.range' 0 (dist logdataCount (hdr f).indexTail (hdr f).indexHead + 1)).map
        (slotLine (hdr f) f), 0) := by
  have hdist := dist_lt hs.tail_lt hs.head_lt
  have hloop := dumpLoop_shape hs (Nat.zero_add _) (show _ < fuel by omega) sizeofHeader
  rw [nth_zero hs.tail_lt] at hloop
  have hread := readAt_of_le (header_in_file hs.length)
  have hheader : (hdr f).headerSize ≠ 0 := by
    rw [hs.headerSize]
    decide
  have hentry : (hdr f).entrySize ≠ 0 := by
    rw [hs.entrySize]
    decide
  have hfix : fix (hdr f) = hdr f := if_neg hheader
  have hlines : headerLines (hdr f) = [.header (hdr f)] := by rw [headerLines, if_neg hheader]
  rw [dumpFile_eq (header_in_file hs.length), hfix, hlines, if_pos hentry, hloop]
  rfl

/-- After every run of the daemon on an index, the dump of the index succeeds, and shows
the header and then the queue that the index stands for, the oldest log first. -/
theorem dumpLogdata_run {s : Store} (hw : WellFormed s.index) (ops : List Op)
    (hfit : AllSteps execOp SizesFit s ops) (fuel : Nat) (hfuel : logdataCount ≤ fuel) :
    let f := (ops.foldl execOp s).index
    ∃ lines, dumpLogdata fuel 3 (some f) = some (.header (hdr f) :: lines, 0) ∧
      lines.filterMap Line.entry? = shown (indexJournal f) ∧
      ∀ line ∈ lines, ∃ i < logdataCount, line = .entry i (slotAt f i) := by
  intro f
  have hf : WellFormed f := AllSteps.invariant (I := fun s : Store => WellFormed s.index)
    (fun _ _ hw hfit => (execOp_step hw hfit).1) hw hfit
  have hs := hf.shaped
  refine ⟨_, dumpFile_shaped hs hfuel, shown_eq hs, fun line hline => ?_⟩
  obtain ⟨k, hk, rfl⟩ := List.mem_map.mp hline
  have hlt := (List.mem_range'_1.mp hk).2
  have hdist := dist_lt hs.tail_lt hs.head_lt
  exact ⟨_, nth_lt hs.tail_lt (by omega), rfl⟩

/-- Of an index with two entries the older one is removed. -/
theorem dumpLogdata_run_removed :
    let f := ([Op.remove].foldl execOp doubled).index
    ∃ lines, dumpLogdata logdataCount 3 (some f) = some (.header (hdr f) :: lines, 0) ∧
      lines.filterMap Line.entry? = shown (indexJournal f) ∧
      ∀ line ∈ lines, ∃ i < logdataCount, line = .entry i (slotAt f i) :=
  dumpLogdata_run doubled_spec.1 [.remove] ⟨trivial, trivial⟩ _ (Nat.le_refl _)

/-! ## Any other file -/

/-- The rounds from `index` to the head, at most. -/
def rounds (h : LogdataHeader) (index : Nat) : Nat :=
  if index ≤ h.indexHead then h.indexHead - index + 1
  else max (h.entryCount - index) 1 + h.indexHead + 1

/-- A round brings the index nearer to the head. -/
theorem rounds_next {h : LogdataHeader} (hhead : h.indexHead < h.entryCount)
    (hfits : h.indexHead < ulongMod) {index : Nat} (hne : index ≠ h.indexHead)
    (hlt : index < ulongMod) : rounds h (nextIndex h index) < rounds h index := by
  unfold nextIndex rounds
  rcases Nat.lt_or_ge (index + 1) ulongMod with hmod | hmod
  · rw [Nat.mod_eq_of_lt hmod]
    split <;> split <;> split <;> omega
  · have hzero : (index + 1) % ulongMod = 0 := by
      rw [show index + 1 = ulongMod by omega, Nat.mod_self]
    rw [hzero]
    split <;> split <;> split <;> omega

theorem nextIndex_lt (h : LogdataHeader) (index : Nat) : nextIndex h index < ulongMod := by
  unfold nextIndex
  split
  · decide
  · exact Nat.mod_lt _ (by decide)

/-- With its head inside the table the loop ends. -/
theorem dumpLoop_ends {f : Bytes} {h : LogdataHeader} (hhead : h.indexHead < h.entryCount)
    (hfits : h.indexHead < ulongMod) :
    ∀ {fuel pos index : Nat}, index < ulongMod → rounds h index ≤ fuel →
      (dumpLoop f h fuel pos index).isSome
  | 0, _, index, _, hfuel => by
    have hpos : 0 < rounds h index := by
      unfold rounds
      split <;> omega
    omega
  | fuel + 1, pos, index, hlt, hfuel => by
    rw [dumpLoop]
    dsimp only
    split
    · rfl
    · split
      · rfl
      · next hne =>
        have hnext := rounds_next hhead hfits hne hlt
        rw [Option.isSome_map]
        exact dumpLoop_ends hhead hfits (nextIndex_lt h index) (by omega)

/-- With all slots in the file and a head that is none of them, the walk goes round. -/
theorem dumpLoop_hangs {f : Bytes} {h : LogdataHeader} (hhead : h.entryCount ≤ h.indexHead)
    (hslots : h.headerSize + h.entryCount * sizeofLogdata ≤ f.length) (hmax : f.length < 2 ^ 63) :
    ∀ {fuel pos index : Nat}, index < h.entryCount → dumpLoop f h fuel pos index = none
  | 0, _, _, _ => rfl
  | fuel + 1, pos, index, hindex => by
    have hread : readAt f (seek pos ((h.headerSize + index * sizeofLogdata) % ulongMod))
        sizeofLogdata = some ((f.drop (h.headerSize + index * sizeofLogdata)).take
          sizeofLogdata) := by
      have hmod : (h.headerSize + index * sizeofLogdata) % ulongMod =
          h.headerSize + index * sizeofLogdata := by
        apply Nat.mod_eq_of_lt
        simp only [sizeofLogdata, ulongMod] at *
        omega
      have hsmall : h.headerSize + index * sizeofLogdata < 2 ^ 63 := by
        simp only [sizeofLogdata] at *
        omega
      rw [hmod, seek, if_pos hsmall]
      refine readAt_of_le ?_
      simp only [sizeofLogdata] at *
      omega
    have hnext : nextIndex h index < h.entryCount := by
      unfold nextIndex
      split <;> omega
    rw [dumpLoop, hread]
    dsimp only
    rw [if_neg (by omega), dumpLoop_hangs hhead hslots hmax hnext]
    rfl

/-- Of a file that holds all slots its header speaks of, and whose tail is one of them, the
dump ends if and only if the head is one of them too. -/
theorem dumpLogdata_ends_iff {f : Bytes} (hheader : sizeofHeader ≤ f.length)
    (hsize : (hdr f).entrySize ≠ 0) (htail : (hdr f).indexTail < (hdr f).entryCount)
    (hslots : (fix (hdr f)).headerSize + (hdr f).entryCount * sizeofLogdata ≤ f.length)
    (hmax : f.length < 2 ^ 63) :
    (∃ fuel, (dumpLogdata fuel 3 (some f)).isSome) ↔ (hdr f).indexHead < (hdr f).entryCount := by
  have hfix : (fix (hdr f)).entryCount = (hdr f).entryCount ∧
      (fix (hdr f)).entrySize = (hdr f).entrySize ∧
      (fix (hdr f)).indexHead = (hdr f).indexHead ∧
      (fix (hdr f)).indexTail = (hdr f).indexTail := by
    unfold fix
    split <;> exact ⟨rfl, rfl, rfl, rfl⟩
  obtain ⟨hcount, hentry, hhead, hfixtail⟩ := hfix
  have hdump (fuel : Nat) : dumpLogdata fuel 3 (some f) =
      (dumpLoop f (fix (hdr f)) fuel sizeofHeader (hdr f).indexTail).map fun rest =>
        (headerLines (hdr f) ++ rest.1, rest.2) := by
    show dumpFile fuel f = _
    rw [dumpFile_eq (by omega), if_pos (by rw [hentry]; exact hsize), hfixtail]
  constructor
  · rintro ⟨fuel, hsome⟩
    by_contra hge
    have hnone : dumpLoop f (fix (hdr f)) fuel sizeofHeader (hdr f).indexTail = none :=
      dumpLoop_hangs (by omega) (by rw [hcount]; exact hslots) hmax (by omega)
    rw [hdump, hnone] at hsome
    exact absurd hsome (by simp)
  · intro hlt
    refine ⟨rounds (fix (hdr f)) (hdr f).indexTail, ?_⟩
    rw [hdump, Option.isSome_map]
    have hfits : (hdr f).indexHead < ulongMod := LogdataHeader.word_lt _ _
    exact dumpLoop_ends (by omega) (by omega) (LogdataHeader.word_lt _ _) (Nat.le_refl _)

/-- A file of one slot whose head is the slot behind it. -/
def strayHeader : LogdataHeader where
  magic := logdataMagic
  entryCount := 1
  entrySize := sizeofLogdata
  indexHead := 1
  indexTail := 0
  totalSize := 0
  headerSize := sizeofHeader
  reserved := List.replicate 8 0

/-- An index whose head lies outside its table. -/
def strayHead : Bytes := strayHeader.encode ++ List.replicate sizeofLogdata 0

theorem strayHeader_fits : strayHeader.Fits := by
  constructor <;> decide

theorem hdr_strayHead : hdr strayHead = strayHeader := by
  rw [hdr, strayHead, List.take_left' (LogdataHeader.length_encode strayHeader_fits),
    LogdataHeader.decode_encode strayHeader_fits]

theorem length_strayHead : strayHead.length = sizeofHeader + sizeofLogdata := by
  rw [strayHead, List.length_append, LogdataHeader.length_encode strayHeader_fits,
    List.length_replicate]

theorem dumpLogdata_ends_iff_strayHead : (∃ fuel, (dumpLogdata fuel 3 (some strayHead)).isSome) ↔
    (hdr strayHead).indexHead < (hdr strayHead).entryCount :=
  dumpLogdata_ends_iff (by rw [length_strayHead]; decide) (by rw [hdr_strayHead]; decide)
    (by rw [hdr_strayHead]; decide) (by rw [hdr_strayHead, length_strayHead]; decide)
    (by rw [length_strayHead]; decide)

end AndroidLearn.Client.Logdata
