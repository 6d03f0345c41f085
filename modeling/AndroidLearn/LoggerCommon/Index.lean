import AndroidLearn.Lib.Cyclic
import AndroidLearn.LoggerCommon.Layout

/-!
# `logger_common_logdata_*`: the operations on the index

`logctl.c` keeps, for every logger and log directory, an index of the log files
it wrote: a cyclic buffer of slots with a cursor pair in the header. This file
embeds the four operations statement by statement:

- `logdataOpen`: accept the index file, or rebuild it from a directory scan;
- `logdataAddFile`: name a new log file at the head, evicting when full;
- `logdataRemoveFile`: unlink and clear the slot at the tail;
- `logdataLimitSize`: refresh the head's size, then remove from the tail while
  the size limit or a reserve request asks for it.

Mirroring notes:
- The directory `path_with_slash` is fixed and ends with a slash, so a path
  `path_with_slash ++ name` is represented by `name`; it is taken to fit the
  buffers of `PATH_MAX` bytes. The name of a new log may have slashes of its own
  (`LogPath`), and then lies below the directory; its slot keeps what is behind
  the last one (`LogPath.base`).
- `Disk` gives `file_size` (`st_blocks * 512`) of the files there; the index
  file itself is `Store.index`.
- `Store.unlinked` is a ghost log of the `unlink` calls.
- Reads and writes transfer in full when they lie inside the file, and fail
  otherwise; a failed `lseek` or read takes the source's `goto end`.
- The limit loop carries fuel; `none` means that it has not ended yet.
-/

namespace AndroidLearn.LoggerCommon

open Cyclic

/-- A megabyte. -/
def mb : Nat := 1024 * 1024

/-- A file name as the kernel hands it out: non-empty and without NUL. -/
structure FileName where
  bytes : Name
  ne_nil : bytes ≠ []
  no_nul : 0 ∉ bytes
  deriving DecidableEq

/-- `'/'` -/
def slash : UInt8 := 47

/-- `strrchr (s, '/') + 1`, if there is a slash. -/
def afterSlash : Bytes → Option Bytes
  | [] => none
  | c :: s =>
    match afterSlash s with
    | some rest => some rest
    | none => if c = slash then some s else none

/-- The path of a log file, from behind the directory's slash on. -/
structure LogPath where
  bytes : Name
  no_nul : 0 ∉ bytes
  base_ne_nil : (afterSlash bytes).getD bytes ≠ []
  deriving DecidableEq

/-- `strrchr (log_filename, '/') + 1`; if the path has no slash, it is the directory's. -/
def LogPath.base (n : LogPath) : Name := (afterSlash n.bytes).getD n.bytes

/-- The files of the log directory, with what `file_size` reports for each. -/
abbrev Disk := Name → Option UInt64

/-- `file_size`: a file that cannot be `stat`ed counts 0. -/
def fileSize (d : Disk) (n : Name) : Nat := ((d n).getD 0).toNat

/-- The index file, the log files, and those that were removed. -/
structure Store where
  index : Bytes
  disk : Disk
  unlinked : List Name

/-- `if (access (logfile, F_OK) == 0) unlink (logfile);` -/
def Store.unlink (s : Store) (n : Name) : Store :=
  if (s.disk n).isSome then
    { s with disk := Function.update s.disk n none, unlinked := s.unlinked ++ [n] }
  else s

/-- `if (total > size) total -= size; else total = 0;` -/
def guardedSub (total size : Nat) : Nat := if size < total then total - size else 0

/-! ## `logger_common_logdata_remove_file` -/

/-- What a removal comes to. -/
structure RemoveResult where
  ret : Int
  store : Store
  hdr : LogdataHeader

/-- `logdata_remove_file`: the oldest entry goes, with its file. -/
def logdataRemoveFile (s : Store) (phdr : LogdataHeader) : RemoveResult :=
  if phdr.indexHead = phdr.indexTail then ⟨0, s, phdr⟩
  else
    let offset := slotOffset phdr.indexTail % ulongMod
    match readSlot s.index offset with
    | none => ⟨-1, s, phdr⟩
    | some data =>
      let s := s.unlink data.name
      ⟨1, { s with index := writeSlot s.index offset data.clear },
        { phdr with
          totalSize := guardedSub phdr.totalSize data.size
          indexTail := next phdr.entryCount phdr.indexTail }⟩

/-! ## `logger_common_logdata_limit_size` -/

/-- The arguments, and what the call reads from the storage and logger tables. -/
structure LimitArgs where
  limitedSizeMb : Nat
  reservedSizeMb : Nat
  /-- `storage_get_free_size_mb (path_with_slash)` -/
  freeSizeMb : Nat
  /-- `pl->state & LOGGER_STATE_MASK_REQUEST_REMOVE_OLDLOG` -/
  requested : Bool
  /-- `(int) ((float) 10.0 * pl->weight)` -/
  weightCount : Int

/-- What a limit pass comes to. -/
structure LimitResult where
  ret : Int
  store : Store
  /-- `*total_size`, when it is set -/
  totalSize : Option Nat
  /-- `loggers_request_remove_old_logs_nolock` was called -/
  requestAll : Bool
  /-- the request bit afterwards -/
  requested : Bool

/-- Update the recorded size of the file being written. -/
def logdataRefresh (s : Store) (h : LogdataHeader) (offset : Nat) (data : Logdata) :
    Store × LogdataHeader :=
  if data.Occupied then
    let size := fileSize s.disk data.name
    ({ s with index := writeSlot s.index offset { data with size := size } },
      { h with totalSize := (guardedSub h.totalSize data.size + size) % ulongMod })
  else (s, h)

/-- `while (cur_size_mb >= limited_size_mb)`, at most `fuel` removals. -/
def logdataLimitLoop (limitedSizeMb : Nat) : Nat → Store → LogdataHeader →
    Option (Store × LogdataHeader)
  | fuel, s, h =>
    if h.totalSize / mb < limitedSizeMb then some (s, h)
    else
      let r := logdataRemoveFile s h
      if r.ret ≤ 0 then some (r.store, r.hdr)
      else
        match fuel with
        | 0 => none
        | fuel + 1 => logdataLimitLoop limitedSizeMb fuel r.store r.hdr

/-- `for (; count > 0; count --)` of the reserve request. -/
def logdataReserveLoop : Nat → Store → LogdataHeader → Store × LogdataHeader
  | 0, s, h => (s, h)
  | count + 1, s, h =>
    let r := logdataRemoveFile s h
    if r.ret ≤ 0 then (r.store, r.hdr) else logdataReserveLoop count r.store r.hdr

namespace LimitArgs

/-- The files a reserve request removes: by logger weight, at least one. -/
def removeCount (a : LimitArgs) : Nat := if a.weightCount ≤ 0 then 1 else a.weightCount.toNat

/-- `cur_size_mb < reserved_size_mb` -/
def lowSpace (a : LimitArgs) : Bool := a.freeSizeMb < a.reservedSizeMb

/-- How many files the reserve phase is asked to remove. -/
def reserveRequest (a : LimitArgs) : Nat :=
  if a.lowSpace || a.requested then a.removeCount else 0

end LimitArgs

/-- `logdata_limit_size`, whose loop has `fuel` turns. -/
def logdataLimitSize (fuel : Nat) (a : LimitArgs) (s : Store) : Option LimitResult :=
  match readHeader s.index with
  | none => some ⟨-1, s, none, false, a.requested⟩
  | some h =>
    if h.magic ≠ logdataMagic then some ⟨-1, s, none, false, a.requested⟩
    else
      let offset := slotOffset h.indexHead % ulongMod
      match readSlot s.index offset with
      | none => some ⟨-1, s, none, false, a.requested⟩
      | some data =>
        let (s, h) := logdataRefresh s h offset data
        match logdataLimitLoop a.limitedSizeMb fuel s h with
        | none => none
        | some (s, h) =>
          let (s, h) := logdataReserveLoop a.reserveRequest s h
          some ⟨0, { s with index := writeHeader s.index h }, some h.totalSize, a.lowSpace,
            a.requested && !(a.lowSpace || a.requested)⟩

/-! ## `logger_common_logdata_add_file` -/

/-- Everything the call computes before its two writes. -/
structure AddPlan where
  /-- the store after the eviction's `unlink` -/
  store : Store
  offset : Nat
  data : Logdata
  hdr : LogdataHeader

/-- `data.size = file_size (log_filename); SAFE_SPRINTF (data.file, ..);
hdr.total_size += data.size;` -/
def AddPlan.finish (s : Store) (offset : Nat) (data : Logdata) (h : LogdataHeader)
    (logFilename : LogPath) : AddPlan :=
  let size := fileSize s.disk logFilename.bytes
  { store := s
    offset := offset
    data := { data with size := size }.setFile logFilename.base
    hdr := { h with totalSize := (h.totalSize + size) % ulongMod } }

/-- The cursors after `index_head ++` with the tail pushed ahead of the head. -/
def advanceHead (h : LogdataHeader) : LogdataHeader :=
  let head := next h.entryCount h.indexHead
  let tail := if head = h.indexTail then h.indexTail + 1 else h.indexTail
  { h with indexHead := head, indexTail := if h.entryCount ≤ tail then 0 else tail }

/-- `logdata_add_file` up to the writes: what it is going to write. -/
def logdataAddFilePlan (s : Store) (logFilename : LogPath) : Option AddPlan :=
  match readHeader s.index with
  | none => none
  | some h =>
    if h.magic ≠ logdataMagic then none
    else
      let offset := slotOffset h.indexHead % ulongMod
      match readSlot s.index offset with
      | none => none
      | some data =>
        if data.Occupied then
          let h := advanceHead h
          let offset := slotOffset h.indexHead % ulongMod
          match readSlot s.index offset with
          | none => none
          | some data =>
            if data.Occupied then
              some (.finish (s.unlink data.name) offset data
                { h with totalSize := guardedSub h.totalSize data.size } logFilename)
            else some (.finish s offset data h logFilename)
        else some (.finish s offset data h logFilename)

/-- After the data slot is written, before the header is. -/
def AddPlan.slotWritten (p : AddPlan) : Store :=
  { p.store with index := writeSlot p.store.index p.offset p.data }

/-- After the header is written too. -/
def AddPlan.headerWritten (p : AddPlan) : Store :=
  { p.slotWritten with index := writeHeader p.slotWritten.index p.hdr }

/-- Return value and store. -/
def logdataAddFile (s : Store) (logFilename : LogPath) : Int × Store :=
  match logdataAddFilePlan s logFilename with
  | none => (-1, s)
  | some p => (0, p.headerWritten)

/-- What the call leaves. -/
def Store.added (s : Store) (n : LogPath) : Store := (logdataAddFile s n).2

/-! ## `logger_common_logdata_open` -/

/-- `IS_STORAGE_CODE`: one of `u e p i x`. -/
def isStorageCode (c : UInt8) : Bool := c == 117 || c == 101 || c == 112 || c == 105 || c == 120

/-- `strncmp (file_prefix, d_name, len) == 0` and a storage code behind it. -/
def matchesPrefix (filePrefix n : Name) : Bool :=
  filePrefix.isPrefixOf n &&
    match n[filePrefix.length]? with
    | some c => isStorageCode c
    | none => false

/-- What `logdataOpen` meets: its prefix, the directory as `readdir` lists it,
and the bytes its uninitialised `LOGDATA data` holds. -/
structure OpenEnv where
  filePrefix : Option Name
  entries : List FileName
  stack : Logdata
  stack_fits : stack.Fits

/-- The header checks, in order; `lseek (fd, 0, SEEK_END)` is the file's length. -/
def logdataAccepts (f : Bytes) : Bool :=
  match readHeader f with
  | none => false
  | some h =>
    h.magic == logdataMagic && h.entryCount == logdataCount && h.entrySize == sizeofLogdata &&
      h.headerSize == sizeofHeader && h.indexHead < h.entryCount &&
      f.length == h.entryCount * h.entrySize + h.headerSize

/-- The header a rebuild starts from. What the failed read left in `reserved`
is kept. -/
def fixdataHeader (reserved : Bytes) : LogdataHeader where
  magic := logdataMagic
  entryCount := logdataCount
  entrySize := sizeofLogdata
  indexHead := 0
  indexTail := 0
  totalSize := 0
  headerSize := sizeofHeader
  reserved := reserved

/-- `memset (& hdr, 0, ..)` and the read on top of it, which may be short. -/
def readReserved (f : Bytes) : Bytes :=
  (LogdataHeader.decode (f.take sizeofHeader ++
    List.replicate (sizeofHeader - f.length) 0)).reserved

/-- The state of the directory scan. -/
structure Scan where
  store : Store
  hdr : LogdataHeader
  data : Logdata

/-- `.` and `..`, which the scan passes over. -/
def isDotEntry (n : Name) : Bool := n == [46] || n == [46, 46]

/-- The turn of a directory entry in the scan. -/
def scanEntry (filePrefix : Name) (sc : Scan) (entry : FileName) : Scan :=
  if isDotEntry entry.bytes || !matchesPrefix filePrefix entry.bytes then sc
  else if sc.hdr.entryCount ≤ sc.hdr.indexHead then
    -- reach maximum count, ignore all rest files
    { sc with store := sc.store.unlink entry.bytes }
  else
    let data := { sc.data.setFile entry.bytes with size := fileSize sc.store.disk entry.bytes }
    { store := { sc.store with index := sc.store.index ++ data.encode }
      hdr := { sc.hdr with
        totalSize := (sc.hdr.totalSize + data.size) % ulongMod
        indexHead := sc.hdr.indexHead + 1 }
      data := data }

/-- The directory scan of a rebuild; without a prefix it is skipped. -/
def scanDirectory (e : OpenEnv) (sc : Scan) : Scan :=
  match e.filePrefix with
  | none => sc
  | some p => e.entries.foldl (scanEntry p) sc

/-- `fixdata:` truncate, write the header, scan, fill up with empty slots and
write the header again. -/
def logdataRebuild (e : OpenEnv) (s : Store) : Store :=
  let h := fixdataHeader (readReserved s.index)
  let sc := scanDirectory e ⟨{ s with index := h.encode }, h, e.stack⟩
  let empty := (List.replicate (sc.hdr.entryCount - sc.hdr.indexHead) Logdata.zero.encode).flatten
  let h := if sc.hdr.entryCount ≤ sc.hdr.indexHead then
    { sc.hdr with indexHead := sc.hdr.entryCount - 1 } else sc.hdr
  { sc.store with index := writeHeader (sc.store.index ++ empty) h }

/-- `logdata_open`: the index is kept if it is accepted, and made anew otherwise. -/
def logdataOpen (e : OpenEnv) (s : Store) : Store :=
  if logdataAccepts s.index then s else logdataRebuild e s

end AndroidLearn.LoggerCommon
