import AndroidLearn.Conf.Conf

/-!
# The storages of `logctl`

`STORAGE storages []` of `logctl.c` and the functions on it: what is mounted, which
storage a name or a path belongs to, which one is selected for logging; and
`dir_select_log_path` of `dir.c`, for the four storages of the table.

What the kernel answers (mount points, mount entries, `statfs`, write tests) is in
`Mounts`, and does not change during a call. The sizes are `unsigned long long` of
megabytes, so that they wrap around. A path is the list of its characters, and one that
the source cuts to a buffer is shorter than it here: mount points and the log folder's
name fit.

The table of a running `logctl` is `storageInit` of the entries of the source, or what
`storage_update` has made of it.
-/

namespace AndroidLearn.Logctl

open Conf

/-! ## The table -/

/-- The storages of the table. -/
inductive StorageKey
  | usb
  | external
  | phone
  | internal
  deriving DecidableEq, Repr

/-- `STORAGE_KEY_*` -/
def StorageKey.text : StorageKey → CString
  | .usb => "usb".toList
  | .external => "external".toList
  | .phone => "phone".toList
  | .internal => "internal".toList

/-- `STORAGE_KEY_AUTO` -/
def storageKeyAuto : CString := "auto".toList

/-- The bits `STORAGE_EXCLUDED_MASK_*`. -/
structure Excluded where
  userSetting : Bool
  unmount : Bool
  readonly : Bool
  noFreeSpace : Bool
  deriving DecidableEq, Repr

/-- `excluded != 0` -/
def Excluded.any (x : Excluded) : Bool :=
  x.userSetting || x.unmount || x.readonly || x.noFreeSpace

/-- `excluded == STORAGE_EXCLUDED_MASK_NO_FREE_SPACE` -/
def Excluded.onlyNoFreeSpace (x : Excluded) : Bool :=
  x.noFreeSpace && !x.userSetting && !x.unmount && !x.readonly

/-- `STORAGE` -/
structure Storage where
  name : StorageKey
  mountpoint : Option CString
  priority : Int32
  excluded : Excluded
  realLimitedSizeMb : Nat
  realReservedSizeMb : Nat
  limitedSizeMb : Nat
  reservedSizeMb : Nat
  freeSizeMb : Nat
  totalSizeMb : Nat
  deriving DecidableEq

/-- `STORAGE_ENTRY` -/
def storageEntry (name : StorageKey) (mountpoint : Option CString) (priority : Int32) : Storage :=
  ⟨name, mountpoint, priority, ⟨false, false, false, false⟩, 0, 0, 0, 0, 0, 0⟩

/-- The table as the program starts. -/
def storages : List Storage :=
  [storageEntry .usb none 4, storageEntry .external none 3, storageEntry .phone none 2,
    storageEntry .internal (some "/data".toList) 1]

/-! ## What is mounted -/

/-- The part of a line of `/proc/mounts` that is used. -/
structure MountEntry where
  options : Option CString
  deriving DecidableEq, Repr

/-- The three fields of `struct statfs` that are read. -/
structure Statfs where
  bsize : Nat
  blocks : Nat
  bfree : Nat
  deriving DecidableEq, Repr

/-- What the device says about the storages. -/
structure Mounts where
  /-- `getmountpoint` of the entry, `NULL` if there is none -/
  getmountpoint : StorageKey → Option CString
  /-- `dir_get_mount_entry` -/
  mountEntry : CString → Option MountEntry
  /-- `statfs_nointr` -/
  statfs : CString → Option Statfs
  /-- `dir_create_recursive` and `dir_write_test` succeed -/
  writable : CString → Bool

/-- One more than the greatest `unsigned long long`. -/
def ulonglongMod : Nat := 2 ^ 64

/-- A megabyte. -/
def mb : Nat := 1024 * 1024

/-- `LOG_DEFAULT_SIZE_LIMIT` -/
def logDefaultSizeLimit : Nat := 2048

/-- The limit on the logs when none is set: a half of a small storage, a quarter of a large one. -/
def storageAutoLimitedSizeMb (totalSizeMb : Nat) : Nat :=
  if totalSizeMb = 0 then 0
  else if totalSizeMb ≤ logDefaultSizeLimit then totalSizeMb / 2
  else totalSizeMb / 4

/-- `LOG_DEFAULT_SIZE_RESERVED` -/
def logDefaultSizeReserved : Nat := 300

/-- The space that is kept free when nothing is set. -/
def storageAutoReservedSizeMb (totalSizeMb : Nat) : Nat :=
  if totalSizeMb = 0 then 0
  else if totalSizeMb ≤ 1024 then 100
  else logDefaultSizeReserved

/-- `storage_update_nolock` -/
def storageUpdate (e : Mounts) (ps : Storage) : Storage :=
  let ps := { ps with excluded := ⟨ps.excluded.userSetting, false, false, false⟩ }
  -- only the entry of the internal storage has no `getmountpoint`
  let ps := if ps.name = .internal then ps else { ps with mountpoint := e.getmountpoint ps.name }
  let notMount := { ps with excluded := { ps.excluded with unmount := true } }
  match ps.mountpoint with
  | none => notMount
  | some mountpoint =>
    match e.mountEntry mountpoint with
    | none => notMount
    | some me =>
      if (me.options.any fun options => "ro,".toList.isPrefixOf options) = true then
        { ps with excluded := { ps.excluded with readonly := true } }
      else
        match e.statfs mountpoint with
        | none => notMount
        | some st =>
          if st.blocks = 0 then notMount
          else
            let total := st.bsize * st.blocks % ulonglongMod / mb
            let free := st.bsize * st.bfree % ulonglongMod / mb
            let reserved :=
              if ps.reservedSizeMb = 0 then storageAutoReservedSizeMb total
              else ps.reservedSizeMb
            { ps with
              totalSizeMb := total
              freeSizeMb := free
              realReservedSizeMb := reserved
              realLimitedSizeMb :=
                if ps.limitedSizeMb = 0 then storageAutoLimitedSizeMb total else ps.limitedSizeMb
              excluded := { ps.excluded with noFreeSpace := decide (free < reserved) } }

theorem storageUpdate_name (e : Mounts) (ps : Storage) : (storageUpdate e ps).name = ps.name := by
  unfold storageUpdate
  dsimp only
  split <;> (repeat' split) <;> rfl

/-- `storage_init`: every entry starts without settings. -/
def storageInit (e : Mounts) (t : List Storage) : List Storage :=
  t.map fun ps => storageUpdate e
    { ps with
      excluded := ⟨false, false, false, false⟩
      realLimitedSizeMb := 0
      realReservedSizeMb := 0
      limitedSizeMb := 0
      reservedSizeMb := 0
      freeSizeMb := 0 }

/-! ## Names and paths -/

/-- Does `storage_get_by_name_or_path_nolock` take the entry for `name`? A name
is also tried as a path, by its first characters. -/
def Storage.matches (ps : Storage) (name : CString) : Bool :=
  (name.head? != some '/' && ps.name.text == name) ||
    ps.mountpoint.any fun mountpoint => mountpoint.isPrefixOf name

/-- The first storage that this name or path stands for. -/
def storageGetByNameOrPath (t : List Storage) (name : CString) : Option Storage :=
  t.find? fun ps => ps.matches name

/-- `LOG_FOLDER_NAME` -/
def logFolderName : CString := "zfllog/".toList

/-- `LOG_DIR` -/
def logDir : CString := "/data/zfllog/".toList

/-- `dir_select_log_path` of a storage name, as all its callers here have it: the
result and the buffer it leaves. -/
def dirSelectLogPath (e : Mounts) (name : StorageKey) : Int × CString :=
  if name = .internal then
    (if e.writable logDir then 0 else -1, logDir)
  else
    let mountpoint := e.getmountpoint name
    -- `"%s/" LOG_FOLDER_NAME`; a null pointer prints as `(null)`
    let buffer := mountpoint.getD "(null)".toList ++ '/' :: logFolderName
    let mounted := mountpoint.any fun path => (e.mountEntry path).isSome
    (if mounted && e.writable buffer then 0 else -1, buffer)

/-! ## Selection -/

/-- `STORAGE_SELECT_LOGGING_PATH_ERROR_*` -/
inductive SelectError
  | noAvailableStorage
  | cannotGetLogPath
  deriving DecidableEq, Repr

/-- The entry with the highest priority that is not excluded: later entries win
only if their priority is higher. -/
def storageSelectBest (t : List Storage) (excludedName : Option StorageKey) :
    Option StorageKey × Int32 :=
  t.foldl (fun best ps =>
    if excludedName = some ps.name then best
    else if ps.excluded.any then best
    else if best.2 < ps.priority then (some ps.name, ps.priority)
    else best) (none, 0)

/-- What the selection returns, the buffer and the table it leaves. -/
structure Selected where
  error : Option SelectError
  buffer : CString
  storages : List Storage
  deriving DecidableEq

/-- The path on a storage, or the error that none can be had. -/
def selectLogPath (e : Mounts) (name : StorageKey) (t : List Storage) : Selected :=
  let (ret, buffer) := dirSelectLogPath e name
  ⟨if ret < 0 then some .cannotGetLogPath else none, buffer, t⟩

/-- `storage_select_logging_path`: by priority if the path is `auto` or empty, else as asked for. -/
def storageSelectLoggingPath (e : Mounts) (t : List Storage) (buffer : CString)
    (excludedName : Option StorageKey) : Selected :=
  if buffer = storageKeyAuto ∨ buffer = [] then
    let t := t.map (storageUpdate e)
    match (storageSelectBest t excludedName).1 with
    | some name => selectLogPath e name t
    | none => ⟨some .noAvailableStorage, buffer, t⟩
  else
    match storageGetByNameOrPath t buffer with
    | some ps =>
      let t := t.map fun qs => if qs.name = ps.name then storageUpdate e qs else qs
      if (storageUpdate e ps).excluded.any || decide (excludedName = some ps.name) then
        ⟨some .noAvailableStorage, buffer, t⟩
      else selectLogPath e ps.name t
    | none => ⟨some .noAvailableStorage, buffer, t⟩

/-! ## Priorities -/

/-- Compares the priorities of two storages, by name. -/
def storageComparePriority (t : List Storage) (name₁ name₂ : Option StorageKey) : Int32 :=
  match name₁, name₂ with
  | some n₁, some n₂ =>
    let (w₁, w₂) := t.foldl (fun (w : Int32 × Int32) ps =>
      if n₁ = ps.name then (ps.priority, w.2)
      else if n₂ = ps.name then (w.1, ps.priority)
      else w) (0, 0)
    w₁ - w₂
  | _, _ => 0

end AndroidLearn.Logctl
