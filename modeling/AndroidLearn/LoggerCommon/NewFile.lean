import AndroidLearn.LoggerCommon.RingRun

/-!
# `logger_common_generate_new_file`

`logger_common_generate_new_file` of `logctl.c` names the new log, creates it,
opens the index and adds the log. The name is built from the file prefix, the
storage code of the directory, the session and serial numbers, the time stamp and
three device strings, all of bounded length, so that it always fits a slot
(`nameBytes_length_le`). The prefix and the strings may have slashes; the slot
then gets what is behind the last one, as `strrchr` in
`logger_common_logdata_add_file` finds it.

`OpenAnswers` are the answers to the two calls of `open_nointr`. A log that
cannot be created ends the call with its errno and nothing else happens, and an
index that cannot be opened leaves a log that no slot names.

The loggers run it and `logdataLimitSize` in any order. `LogOp` is such a call
with the index file as it finds it; `Opened` says what either of them finds
once the index is open: a queue of distinct names.
-/

namespace AndroidLearn.LoggerCommon

open Cyclic Run

/-! ## The name -/

/-- A C string. -/
structure CString where
  bytes : Bytes
  no_nul : 0 ∉ bytes
  deriving DecidableEq

/-- A C string in a buffer of `len + 1` bytes. -/
structure ShortString (len : Nat) extends CString where
  length_le : bytes.length ≤ len
  deriving DecidableEq

/-- `%04u` of a number below 10000. -/
def decimal4 (n : Nat) : Bytes :=
  [n / 1000 % 10, n / 100 % 10, n / 10 % 10, n % 10].map fun d => UInt8.ofNat (48 + d)

/-- The arguments, and what the call reads for the name: the storage code of the
directory, `session_get_current_sn`, the increased serial number of the logger,
the time and the session strings. -/
structure NewFileArgs where
  filePrefix : Option CString
  /-- `buffer != NULL` -/
  hasBuffer : Bool
  storageCode : UInt8
  sn : Nat
  serialno : Nat
  timestamp : ShortString 15
  devinfo : ShortString 15
  prdinfo : ShortString 15
  rominfo : ShortString 15
  code_ok : isStorageCode storageCode = true
  sn_le : sn ≤ 9999
  serialno_le : serialno ≤ 9999

/-- `"%s%c%04u_%04u_%s_%s_%s_%s.txt"`, without the directory. -/
def NewFileArgs.nameBytes (a : NewFileArgs) (p : CString) : Bytes :=
  p.bytes ++ a.storageCode :: (decimal4 a.sn ++ 95 :: (decimal4 a.serialno ++
    95 :: (a.timestamp.bytes ++ 95 :: (a.devinfo.bytes ++ 95 :: (a.prdinfo.bytes ++
      95 :: (a.rominfo.bytes ++ [46, 116, 120, 116]))))))

/-- A byte that is no digit is not in a number of four digits. -/
theorem notMem_decimal4 {b : UInt8} (hb : ∀ d, d < 10 → b ≠ UInt8.ofNat (48 + d)) (n : Nat) :
    b ∉ decimal4 n := by
  intro hmem
  obtain ⟨d, hd, heq⟩ := List.mem_map.mp hmem
  have hlt : d < 10 := by
    simp only [List.mem_cons, List.not_mem_nil, or_false] at hd
    omega
  exact hb d hlt heq.symm

theorem decimal4_no_nul (n : Nat) : (0 : UInt8) ∉ decimal4 n := notMem_decimal4 (by decide) n

theorem storageCode_ne_zero {c : UInt8} (hc : isStorageCode c = true) : (0 : UInt8) ≠ c := by
  rintro rfl
  exact absurd hc (by decide)

/-- A name that is made up has no null byte. -/
theorem nameBytes_no_nul (a : NewFileArgs) (p : CString) : 0 ∉ a.nameBytes p := by
  have hcode := storageCode_ne_zero a.code_ok
  have hsn := decimal4_no_nul a.sn
  have hserial := decimal4_no_nul a.serialno
  simp only [NewFileArgs.nameBytes, List.mem_append, List.mem_cons, not_or]
  exact ⟨p.no_nul, hcode, hsn, by decide, hserial, by decide, a.timestamp.no_nul, by decide,
    a.devinfo.no_nul, by decide, a.prdinfo.no_nul, by decide, a.rominfo.no_nul, by decide⟩

/-- A text that ends in another byte than a slash has something behind the last one. -/
theorem base_ne_nil_of_last {front : Bytes} {c : UInt8} (hc : c ≠ slash) :
    (afterSlash (front ++ [c])).getD (front ++ [c]) ≠ [] := by
  cases hafter : afterSlash (front ++ [c]) with
  | none => simp
  | some rest =>
    obtain ⟨front', hfront⟩ := afterSlash_eq_some hafter
    rintro rfl
    obtain ⟨-, hlast⟩ := List.append_inj' hfront rfl
    exact hc (List.cons.inj hlast).1

/-- The path of the new log, behind the directory. -/
def NewFileArgs.logPath (a : NewFileArgs) (p : CString) : LogPath where
  bytes := a.nameBytes p
  no_nul := nameBytes_no_nul a p
  base_ne_nil := by
    obtain ⟨front, hfront⟩ : ∃ front, a.nameBytes p = front ++ [116] :=
      ⟨p.bytes ++ a.storageCode :: (decimal4 a.sn ++ 95 :: (decimal4 a.serialno ++
        95 :: (a.timestamp.bytes ++ 95 :: (a.devinfo.bytes ++ 95 :: (a.prdinfo.bytes ++
          95 :: (a.rominfo.bytes ++ [46, 116, 120])))))), by simp [NewFileArgs.nameBytes]⟩
    rw [hfront]
    exact base_ne_nil_of_last (by decide)

/-- The buffer lengths are chosen so that a generated name fits a slot. -/
theorem nameBytes_length_le (a : NewFileArgs) {p : CString}
    (hp : p.bytes.length < logdataPrefixBuflen) :
    (a.nameBytes p).length ≤ logdataFileBuflen - 1 := by
  have h₁ := a.timestamp.length_le
  have h₂ := a.devinfo.length_le
  have h₃ := a.prdinfo.length_le
  have h₄ := a.rominfo.length_le
  simp only [logdataPrefixBuflen, logdataFileBuflen] at hp ⊢
  simp only [NewFileArgs.nameBytes, decimal4, List.length_append,
    List.length_cons, List.length_map, List.length_nil]
  omega

/-! ## The call -/

/-- `EINVAL` -/
def einval : Int := 22
/-- `EOVERFLOW` -/
def eoverflow : Int := 75

/-- `open (name, O_RDWR | O_CREAT)` and `close`: an existing file is kept. -/
def Store.create (s : Store) (n : Name) : Store :=
  if (s.disk n).isSome then s else { s with disk := Function.update s.disk n (some 0) }

/-- How the calls of `open_nointr` end: with an errno for the new log, with or without a
descriptor for the index. -/
structure OpenAnswers where
  logErrno : Option Int
  indexOpens : Bool

/-- Both succeed. -/
def OpenAnswers.ok : OpenAnswers := ⟨none, true⟩

/-- `generate_new_file`: a name is made up, the file is created, and put into the index if that
can be opened. -/
def generateNewFile (a : NewFileArgs) (w : OpenAnswers) (e : OpenEnv) (s : Store) : Int × Store :=
  match a.filePrefix with
  | none => (einval, s)
  | some p =>
    if a.hasBuffer = false then (einval, s)
    else if logdataPrefixBuflen ≤ p.bytes.length then (eoverflow, s)
    else
      match w.logErrno with
      | some errno => (errno, s)
      | none =>
        let s := s.create (a.logPath p).bytes
        if w.indexOpens then
          let s := logdataOpen { e with filePrefix := some p.bytes } s
          (0, s.added (a.logPath p))
        else (0, s) -- open logdata failed! try going on ...

/-- The log the call creates, unless it returns at once. -/
def NewFileArgs.created (a : NewFileArgs) (w : OpenAnswers) : Option LogPath :=
  match a.filePrefix with
  | none => none
  | some p =>
    if a.hasBuffer = false ∨ logdataPrefixBuflen ≤ p.bytes.length ∨ w.logErrno ≠ none then none
    else some (a.logPath p)

/-- The directory as the call's own `logdataOpen` scans it. -/
def NewFileArgs.scan (a : NewFileArgs) (e : OpenEnv) : OpenEnv :=
  { e with filePrefix := a.filePrefix.map CString.bytes }

section Generate

variable {a : NewFileArgs} {w : OpenAnswers} {e : OpenEnv} {s : Store} {n : LogPath}

/-- What a call needs to create a log. -/
theorem created_eq_some (hsome : a.created w = some n) : ∃ p, a.filePrefix = some p ∧
    a.hasBuffer ≠ false ∧ p.bytes.length < logdataPrefixBuflen ∧ w.logErrno = none ∧
      n = a.logPath p := by
  unfold NewFileArgs.created at hsome
  cases hp : a.filePrefix with
  | none =>
    rw [hp] at hsome
    exact absurd hsome (by simp)
  | some p =>
    rw [hp] at hsome
    dsimp only at hsome
    split at hsome
    next => exact absurd hsome (by simp)
    next hok =>
      rw [not_or, not_or, not_not, Nat.not_le] at hok
      exact ⟨p, rfl, hok.1, hok.2.1, hok.2.2, (Option.some.inj hsome).symm⟩

/-- Where no file is created nothing changes. -/
theorem generateNewFile_eq_self (hnone : a.created w = none) :
    (generateNewFile a w e s).2 = s := by
  unfold NewFileArgs.created at hnone
  unfold generateNewFile
  cases hp : a.filePrefix with
  | none => rfl
  | some p =>
    rw [hp] at hnone
    dsimp only at hnone ⊢
    split
    next => rfl
    next hbuf =>
      split
      next => rfl
      next hlen =>
        cases herr : w.logErrno with
        | some errno => rfl
        | none =>
          rw [if_neg (by simp [hbuf, hlen, herr])] at hnone
          exact absurd hnone (by simp)

/-- Where one is it goes into the index. -/
theorem generateNewFile_eq (hsome : a.created w = some n) (hopens : w.indexOpens = true) :
    generateNewFile a w e s = (0, (logdataOpen (a.scan e) (s.create n.bytes)).added n) := by
  obtain ⟨p, hp, hbuf, hlen, herr, rfl⟩ := created_eq_some hsome
  unfold generateNewFile NewFileArgs.scan
  rw [hp]
  dsimp only
  rw [if_neg hbuf, if_neg (Nat.not_le.mpr hlen), herr]
  dsimp only
  rw [if_pos hopens]
  rfl

/-- Without the index the log is created all the same. -/
theorem generateNewFile_unopened (hsome : a.created w = some n) (hopens : w.indexOpens = false) :
    generateNewFile a w e s = (0, s.create n.bytes) := by
  obtain ⟨p, hp, hbuf, hlen, herr, rfl⟩ := created_eq_some hsome
  unfold generateNewFile
  rw [hp]
  dsimp only
  rw [if_neg hbuf, if_neg (Nat.not_le.mpr hlen), herr]
  dsimp only
  rw [hopens]
  rfl

/-- What is behind the last slash of a created name is stored in full. -/
theorem created_slotName (hsome : a.created w = some n) : slotName n = n.base := by
  obtain ⟨p, -, -, hlen, -, rfl⟩ := created_eq_some hsome
  have hname := nameBytes_length_le a hlen
  refine List.take_of_length_le ?_
  unfold LogPath.base
  cases hafter : afterSlash (a.logPath p).bytes with
  | none => exact hname
  | some rest =>
    obtain ⟨front, hfront⟩ := afterSlash_eq_some hafter
    have hbytes : a.nameBytes p = front ++ slash :: rest := hfront
    rw [hbytes, List.length_append, List.length_cons] at hname
    show rest.length ≤ _
    omega

/-- A name without a slash is kept whole. -/
theorem base_of_no_slash (hslash : slash ∉ n.bytes) : n.base = n.bytes := by
  unfold LogPath.base
  cases hafter : afterSlash n.bytes with
  | none => rfl
  | some rest =>
    obtain ⟨front, hfront⟩ := afterSlash_eq_some hafter
    exact absurd (by rw [hfront]; simp) hslash

/-- A created log without a slash is recorded under its name. -/
theorem created_newEntry (hsome : a.created w = some n) (hslash : slash ∉ n.bytes) (disk : Disk) :
    newEntry disk n = ⟨n.bytes, fileSize disk n.bytes⟩ := by
  rw [newEntry, created_slotName hsome, base_of_no_slash hslash]

/-- A name that is made up has room in an entry. -/
theorem created_length_le (hsome : a.created w = some n) :
    n.bytes.length ≤ logdataFileBuflen - 1 := by
  obtain ⟨p, -, -, hlen, -, rfl⟩ := created_eq_some hsome
  exact nameBytes_length_le a hlen

/-- The file is there. -/
theorem create_isSome (s : Store) (n : Name) : ((s.create n).disk n).isSome := by
  unfold Store.create
  split
  next hsome => exact hsome
  next =>
    dsimp only
    rw [Function.update_self]
    rfl

@[simp] theorem create_index (s : Store) (n : Name) : (s.create n).index = s.index := by
  unfold Store.create
  split <;> rfl

/-- It is empty, and the others have their sizes. -/
theorem create_fileSize (s : Store) (n m : Name) :
    fileSize (s.create n).disk m = fileSize s.disk m := by
  unfold Store.create fileSize
  split
  next => rfl
  next hnone =>
    dsimp only
    by_cases hmn : m = n
    · have hd : s.disk n = none := by simpa using hnone
      rw [hmn, Function.update_self, hd]
      rfl
    · rw [Function.update_of_ne hmn]

end Generate

/-! ## Calls on the index -/

/-- A call of a logger, with the bytes it finds in the index file, or a change
to the files of the directory. -/
inductive LogOp where
  | generate (found : Bytes) (a : NewFileArgs) (w : OpenAnswers) (e : OpenEnv)
  /-- `logdataOpen` and `logdataLimitSize`, as every caller does -/
  | limit (found : Bytes) (e : OpenEnv) (a : LimitArgs)
  | env (d : Disk)

/-- The store with these bytes in the index file. -/
def Store.withIndex (s : Store) (f : Bytes) : Store := { s with index := f }

@[simp] theorem withIndex_self (s : Store) : s.withIndex s.index = s := rfl

/-- The store with these files in the directory. -/
def Store.withDisk (s : Store) (d : Disk) : Store := { s with disk := d }

@[simp] theorem withDisk_index (s : Store) (d : Disk) : (s.withDisk d).index = s.index := rfl

@[simp] theorem withDisk_disk (s : Store) (d : Disk) : (s.withDisk d).disk = d := rfl

/-- A limit pass of `logctl`, on the index as it is found. -/
def openLimitSize (found : Bytes) (e : OpenEnv) (a : LimitArgs) (s : Store) : Store :=
  let s := logdataOpen e (s.withIndex found)
  match logdataLimitSize logdataCount a s with
  | some r => r.store
  | none => s

/-- What an operation does to the index and to the files. -/
def execLog (s : Store) : LogOp → Store
  | .generate found a w e => (generateNewFile a w e (s.withIndex found)).2
  | .limit found e a => openLimitSize found e a s
  | .env d => s.withDisk d

/-- A shaped index that names no file twice. -/
structure Distinct (f : Bytes) : Prop where
  shaped : Shaped f
  nodup : (indexJournal f).names.Nodup

/-- The index is found as it was left, or is rebuilt from a scan that stores
distinct names. -/
structure OpensDistinct (found : Bytes) (e : OpenEnv) (s : Store) : Prop where
  left : logdataAccepts found = true → found = s.index
  lost : logdataAccepts found = false → (e.kept.map scannedName).Nodup

section Opened

variable {found : Bytes} {e : OpenEnv} {s t : Store}

theorem open_accepted (hacc : logdataAccepts t.index = true) : logdataOpen e t = t := by
  unfold logdataOpen
  rw [if_pos hacc]

/-- An index that is not accepted is made anew. -/
theorem open_rejected (hrej : logdataAccepts t.index = false) :
    logdataOpen e t = logdataRebuild e t := by
  unfold logdataOpen
  rw [hrej]
  rfl

/-- A journal that was filled has these entries. -/
theorem refill_entries (cap : Nat) (es : List Entry) : (Journal.refill cap es).entries = es := by
  unfold Journal.refill Journal.entries
  split
  next => simp
  next =>
    cases es using List.reverseRecOn with
    | nil => rfl
    | append_singleton es e _ => simp

/-- The names behind a scan. -/
theorem rebuilt_names (e : OpenEnv) (s : Store) :
    (indexJournal (logdataRebuild e s).index).names = e.kept.map scannedName := by
  unfold Journal.names
  rw [(rebuild_spec e s).2.1, refill_entries, List.map_map]
  rfl

/-- Opening gives an index of distinct names, whatever happened to the file. -/
theorem open_distinct (hleft : logdataAccepts s.index = true → Distinct s.index)
    (hopen : OpensDistinct found e s) (ht : t.index = found) :
    Distinct (logdataOpen e t).index := by
  cases hacc : logdataAccepts found with
  | true =>
    have hfound := hopen.left hacc
    rw [open_accepted (by rw [ht]; exact hacc), ht, hfound]
    exact hleft (by rw [← hfound]; exact hacc)
  | false =>
    rw [open_rejected (by rw [ht]; exact hacc)]
    refine ⟨(rebuild_spec e t).1, ?_⟩
    rw [rebuilt_names]
    exact hopen.lost hacc

end Opened

end AndroidLearn.LoggerCommon
