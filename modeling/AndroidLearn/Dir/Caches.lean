import AndroidLearn.Dir.Mounts

/-!
# What the storage queries remember

The queries of `dir.c` for the storages: `dir_get_external_storage`,
`dir_get_phone_storage`, `dir_get_usb_storage`, `dir_get_known_storage`, `dir_fuse_state`,
`dir_storage_state`, `dir_get_larger_storage` and `dir_get_storage_code`. Those for the
external and for the phone storage look, once, for the storage that is served by FUSE and
for its mount point, and keep both. From then on the mount entry of this storage is that
of the mount point, and `dir_fuse_state`, which never looks for the mount point itself,
asks for it.

The static variables of the file are `Caches`. The links, the mounts and the environment
are a `World` that does not change while the queries are made, and in which no link leads
back to itself (`World.NoCircle`): `dir_get_storage` would not return otherwise, as
`Dir.Links` says.

`Reached` lists the caches that a sequence of queries can leave; each query has a lemma on
what it does to them (`Reached.usb`, `Reached.afterExternal`, and so on), and
`Reached.run` puts these together.

Theorem: `historyIndependent_iff` says for which files and mounts the state queries answer
as if nothing had been asked before.
-/

namespace AndroidLearn.Dir

open Conf Follow

/-! ## The caches, and what is behind them -/

/-- The static variables. -/
structure Caches where
  activeFuseStorage : Option CString
  fuseMountpoint : Option CString
  pathUsb : CString
  pathExternal : CString
  pathPhone : CString

/-- The static variables as the program starts. -/
def Caches.initial : Caches := ⟨none, none, [], [], []⟩

/-- The files, the mount table (unless it cannot be opened), the environment, and the free
space in MB that `statfs` gives. -/
structure World where
  fs : FileSystem
  proc : Option (List Char)
  getenv : CString → Option CString
  freeSize : CString → Option Nat

/-- The storages a multi-user device may have, in the order in which they are tried. -/
def htcFuseStorages : List CString := ["/storage/emulated/0".toList, "/storage/emulated/legacy".toList]

/-- The mount points of the fuse file system, in the order in which they are tried. -/
def fuseMountpointPaths : List CString := ["/mnt/shell/emulated".toList, "/storage/emulated".toList]

/-- `DAT_DIR` -/
def dataDir : CString := "/data/".toList

/-! ## The queries -/

/-- `correct_path` -/
def correctPath (path : CString) : CString :=
  path.takeWhile fun c => c.isAlphanum || c = '/' || c = '-' || c = '_' || c = ' '

/-- The value of a variable, read again if it is empty. -/
def envPath (w : World) (env default : CString) : CString :=
  match w.getenv env with
  | none => default
  | some [] => (w.getenv env).getD default
  | some ext => ext

section Queries

variable (w : World) (fuel : Nat)

/-- `detect_multi_user_fuse_storage`: the first storage that can be accessed, kept once found. -/
def detectMultiUserFuseStorage (c : Caches) : Caches :=
  match c.activeFuseStorage with
  | some _ => c
  | none => { c with activeFuseStorage := htcFuseStorages.find? w.fs.accessible }

/-- `dir_set_fuse_mountpoint`: the first mount point that can be accessed, kept once found. -/
def dirSetFuseMountpoint (c : Caches) : Caches :=
  match c.fuseMountpoint with
  | some _ => c
  | none => { c with fuseMountpoint := fuseMountpointPaths.find? w.fs.accessible }

/-- `dir_get_usb_storage`, which looks only while nothing is cached. -/
def dirGetUsbStorage (c : Caches) : Option (CString × Caches) :=
  if c.pathUsb ≠ [] then some (c.pathUsb, c)
  else do
    let (ret, path) ← dirGetStorage w.fs c.activeFuseStorage fuel htcUsbStorages
    let path := if ret < 0 then cut (envPath w "USB_STORAGE".toList "/mnt/usb".toList) else path
    let path := correctPath path
    some (path, { c with pathUsb := path })

/-- `dir_get_external_storage`, which looks each time. -/
def dirGetExternalStorage (c : Caches) : Option (CString × Caches) := do
  let c := detectMultiUserFuseStorage w c
  let (ret, path) ← dirGetStorage w.fs c.activeFuseStorage fuel htcExternalStorages
  let path := if ret < 0 then cut (envPath w "EXTERNAL_STORAGE".toList "/sdcard".toList) else path
  let path := correctPath path
  some (path, { c with pathExternal := path })

/-- `dir_get_phone_storage`, which has the external storage looked for first. -/
def dirGetPhoneStorage (c : Caches) : Option (CString × Caches) := do
  let c := detectMultiUserFuseStorage w (dirSetFuseMountpoint w c)
  let (extpath, c) ← dirGetExternalStorage w fuel c
  let (ret, path) ← dirGetStorage w.fs c.activeFuseStorage fuel htcPhoneStorages
  let path :=
    if ret < 0 ∨ path = extpath then cut (envPath w "PHONE_STORAGE".toList "/emmc".toList) else path
  let path := correctPath path
  some (path, { c with pathPhone := path })

/-- `dir_get_known_storage`: a name, or a null pointer for a name it does not know. -/
def dirGetKnownStorage (storageName : Option CString) (c : Caches) :
    Option (Option CString × Caches) :=
  let known (query : Option (CString × Caches)) := query.map fun (path, c) => (some path, c)
  if storageName = some "usb".toList then known (dirGetUsbStorage w fuel c)
  else if storageName = some "external".toList then known (dirGetExternalStorage w fuel c)
  else if storageName = some "phone".toList then known (dirGetPhoneStorage w fuel c)
  else if storageName = some "internal".toList then some (some "/data".toList, c)
  else some (none, c)

/-- The path that a query fills in, unless it is there. -/
def cached (path : CString) (query : Option (CString × Caches)) (c : Caches) : Option Caches :=
  if path = [] then query.map Prod.snd else some c

/-- `dir_get_storage_code`: the letter of the storage a path is on. -/
def dirGetStorageCode (path : Option CString) (c : Caches) : Option (Char × Caches) :=
  match path with
  | none => some ('x', c)
  | some path => do
    let c ← cached c.pathUsb (dirGetUsbStorage w fuel c) c
    let c ← cached c.pathExternal (dirGetExternalStorage w fuel c) c
    let c ← cached c.pathPhone (dirGetPhoneStorage w fuel c) c
    let code :=
      if c.pathUsb ≠ [] ∧ c.pathUsb.isPrefixOf path then 'u'
      else if c.pathExternal ≠ [] ∧ c.pathExternal.isPrefixOf path then 'e'
      else if c.pathPhone ≠ [] ∧ c.pathPhone.isPrefixOf path then 'p'
      else if dataDir.isPrefixOf path then 'i'
      else 'x'
    some (code, c)

/-- The mount entry of a path, with the caches as they are. -/
def entryOf (c : Caches) (mountpoint : Option CString) : Option StorageMountEntry :=
  dirGetMountEntry c.activeFuseStorage c.fuseMountpoint w.proc mountpoint

/-- `dir_storage_state`: is the storage mounted? -/
def dirStorageState (c : Caches) (storagePath : Option CString) : Bool :=
  (entryOf w c storagePath).isSome

/-- `dir_fuse_state`: is the fuse file system mounted? -/
def dirFuseState (c : Caches) : Bool := (entryOf w c c.fuseMountpoint).isSome

/-- `dir_get_larger_storage`: of the external and the phone storage the mounted one, or the one
with more room. -/
def dirGetLargerStorage (c : Caches) : Option (Option CString × Caches) := do
  let (_, c) ← dirGetExternalStorage w fuel c
  let (_, c) ← dirGetPhoneStorage w fuel c
  let extPath := c.pathExternal
  let phonePath := c.pathPhone
  let larger :=
    match dirStorageState w c (some extPath), dirStorageState w c (some phonePath) with
    | true, true =>
      match w.freeSize extPath, w.freeSize phonePath with
      | none, _ => some phonePath
      | some _, none => some extPath
      | some extSize, some phoneSize => if extSize > phoneSize then some extPath else some phonePath
    | true, false => some extPath
    | false, true => some phonePath
    | false, false => none
  some (larger, c)

end Queries

/-- A call of one of the queries. -/
inductive Query where
  | usb
  | external
  | phone
  | known (storageName : Option CString)
  | storageCode (path : Option CString)
  | larger
  | mountEntry (mountpoint : Option CString)
  | storageState (storagePath : Option CString)
  | fuseState

/-- The caches behind it, if it returns. The queries for a mount leave them as they are. -/
def exec (w : World) (fuel : Nat) (c : Caches) : Query → Option Caches
  | .usb => (dirGetUsbStorage w fuel c).map Prod.snd
  | .external => (dirGetExternalStorage w fuel c).map Prod.snd
  | .phone => (dirGetPhoneStorage w fuel c).map Prod.snd
  | .known storageName => (dirGetKnownStorage w fuel storageName c).map Prod.snd
  | .storageCode path => (dirGetStorageCode w fuel path c).map Prod.snd
  | .larger => (dirGetLargerStorage w fuel c).map Prod.snd
  | .mountEntry _ => some c
  | .storageState _ => some c
  | .fuseState => some c

/-- Whatever was asked before, a state query answers as the first one would. -/
def HistoryIndependent (w : World) : Prop :=
  ∀ fuel (queries : List Query) c, queries.foldlM (exec w fuel) Caches.initial = some c →
    (∀ path, dirStorageState w c path = dirStorageState w Caches.initial path) ∧
      dirFuseState w c = dirFuseState w Caches.initial

/-! ## What can be remembered -/

/-- The storage that is detected. -/
def World.active (w : World) : Option CString := htcFuseStorages.find? w.fs.accessible

/-- The mount point that is set. -/
def World.mountpoint (w : World) : Option CString := fuseMountpointPaths.find? w.fs.accessible

/-- The links that are followed with the detected storage are no circle. -/
def World.NoCircle (w : World) (storages : List CString) : Prop :=
  ∀ target, Leads w.fs storages target → Once (nextLink w.fs w.active) target

/-- A line of the table mentions the mount point. -/
def World.mentioned (w : World) (mountpoint : CString) : Bool :=
  w.proc.any fun file => (mountLoop (mountPattern mountpoint) [] file).isSome

/-- The mount point of the detected storage is not mentioned, and the storage itself like
what stands for it once it is detected. -/
structure Independent (w : World) : Prop where
  external : w.NoCircle htcExternalStorages → ∀ active, w.active = some active →
    w.mentioned (printed none) = w.mentioned active
  phone : w.NoCircle htcExternalStorages → w.NoCircle htcPhoneStorages →
    (∀ mountpoint, w.mountpoint = some mountpoint → w.mentioned mountpoint = false) ∧
      ∀ active, w.active = some active → w.mentioned (printed w.mountpoint) = w.mentioned active

/-- The caches after any queries. -/
inductive Reached (w : World) (c : Caches) : Prop where
  | initial (hactive : c.activeFuseStorage = none) (hmountpoint : c.fuseMountpoint = none)
  | external (hactive : c.activeFuseStorage = w.active) (hmountpoint : c.fuseMountpoint = none)
      (hexternal : w.NoCircle htcExternalStorages)
  | phone (hactive : c.activeFuseStorage = w.active) (hmountpoint : c.fuseMountpoint = w.mountpoint)
      (hexternal : w.NoCircle htcExternalStorages) (hphone : w.NoCircle htcPhoneStorages)

section History

variable {w : World} {fuel : Nat} {c c' : Caches} {path : CString}

/-! ### What a query leaves in the caches -/

/-- The storage that is found is the active one, cached or not. -/
theorem detect_eq (h : c.activeFuseStorage = none ∨ c.activeFuseStorage = w.active) :
    detectMultiUserFuseStorage w c = { c with activeFuseStorage := w.active } := by
  unfold detectMultiUserFuseStorage
  cases hactive : c.activeFuseStorage with
  | none => rfl
  | some storage =>
    rw [hactive] at h
    show c = { c with activeFuseStorage := w.active }
    rw [← h.resolve_left (Option.some_ne_none storage), ← hactive]

/-- The mount point that is found is the one there is, cached or not. -/
theorem set_eq (h : c.fuseMountpoint = none ∨ c.fuseMountpoint = w.mountpoint) :
    dirSetFuseMountpoint w c = { c with fuseMountpoint := w.mountpoint } := by
  unfold dirSetFuseMountpoint
  cases hmountpoint : c.fuseMountpoint with
  | none => rfl
  | some mountpoint =>
    rw [hmountpoint] at h
    show c = { c with fuseMountpoint := w.mountpoint }
    rw [← h.resolve_left (Option.some_ne_none mountpoint), ← hmountpoint]

theorem Reached.active (h : Reached w c) :
    c.activeFuseStorage = none ∨ c.activeFuseStorage = w.active := by
  cases h with
  | initial hactive => exact .inl hactive
  | external hactive => exact .inr hactive
  | phone hactive => exact .inr hactive

theorem Reached.mountpoint (h : Reached w c) :
    c.fuseMountpoint = none ∨ c.fuseMountpoint = w.mountpoint := by
  cases h with
  | initial _ hmountpoint => exact .inl hmountpoint
  | external _ hmountpoint => exact .inl hmountpoint
  | phone _ hmountpoint => exact .inr hmountpoint

theorem Reached.detect_set_eq (h : Reached w c) :
    detectMultiUserFuseStorage w (dirSetFuseMountpoint w c) =
      { c with activeFuseStorage := w.active, fuseMountpoint := w.mountpoint } := by
  rw [set_eq h.mountpoint]
  exact detect_eq h.active

/-- The paths do not count. -/
theorem Reached.congr (h : Reached w c) (hactive : c'.activeFuseStorage = c.activeFuseStorage)
    (hmountpoint : c'.fuseMountpoint = c.fuseMountpoint) : Reached w c' := by
  cases h with
  | initial ha hm => exact .initial (hactive.trans ha) (hmountpoint.trans hm)
  | external ha hm hexternal => exact .external (hactive.trans ha) (hmountpoint.trans hm) hexternal
  | phone ha hm hexternal hphone =>
    exact .phone (hactive.trans ha) (hmountpoint.trans hm) hexternal hphone

/-- The query for the usb storage leaves the two caches alone. -/
theorem dirGetUsbStorage_spec (h : dirGetUsbStorage w fuel c = some (path, c')) :
    c'.activeFuseStorage = c.activeFuseStorage ∧ c'.fuseMountpoint = c.fuseMountpoint := by
  unfold dirGetUsbStorage at h
  split at h
  · obtain ⟨-, rfl⟩ := Prod.mk.inj (Option.some.inj h)
    exact ⟨rfl, rfl⟩
  · obtain ⟨result, -, hsome⟩ := Option.bind_eq_some_iff.mp h
    obtain ⟨-, rfl⟩ := Prod.mk.inj (Option.some.inj hsome)
    exact ⟨rfl, rfl⟩

/-- The query for the external storage fills one cache, and returns if its links make no circle. -/
theorem dirGetExternalStorage_spec
    (hactive : c.activeFuseStorage = none ∨ c.activeFuseStorage = w.active)
    (h : dirGetExternalStorage w fuel c = some (path, c')) :
    c'.activeFuseStorage = w.active ∧ c'.fuseMountpoint = c.fuseMountpoint ∧
      w.NoCircle htcExternalStorages := by
  unfold dirGetExternalStorage at h
  rw [detect_eq hactive] at h
  obtain ⟨result, hcall, hsome⟩ := Option.bind_eq_some_iff.mp h
  obtain ⟨-, rfl⟩ := Prod.mk.inj (Option.some.inj hsome)
  exact ⟨rfl, rfl, fun target => once_of_returns hcall⟩

/-- The query for the phone storage fills both. -/
theorem dirGetPhoneStorage_spec (hc : Reached w c)
    (h : dirGetPhoneStorage w fuel c = some (path, c')) :
    c'.activeFuseStorage = w.active ∧ c'.fuseMountpoint = w.mountpoint ∧
      w.NoCircle htcExternalStorages ∧ w.NoCircle htcPhoneStorages := by
  unfold dirGetPhoneStorage at h
  rw [hc.detect_set_eq] at h
  obtain ⟨⟨extpath, c₁⟩, hext, hrest⟩ := Option.bind_eq_some_iff.mp h
  obtain ⟨hactive, hmountpoint, hexternal⟩ := dirGetExternalStorage_spec (.inr rfl) hext
  obtain ⟨result, hcall, hsome⟩ := Option.bind_eq_some_iff.mp hrest
  obtain ⟨-, rfl⟩ := Prod.mk.inj (Option.some.inj hsome)
  rw [hactive] at hcall
  exact ⟨hactive, hmountpoint, hexternal, fun target => once_of_returns hcall⟩

theorem Reached.usb (hc : Reached w c) (h : dirGetUsbStorage w fuel c = some (path, c')) :
    Reached w c' :=
  hc.congr (dirGetUsbStorage_spec h).1 (dirGetUsbStorage_spec h).2

/-- The query for the external storage keeps the caches sound. -/
theorem Reached.afterExternal (hc : Reached w c)
    (h : dirGetExternalStorage w fuel c = some (path, c')) : Reached w c' := by
  obtain ⟨hactive, hmountpoint, hexternal⟩ := dirGetExternalStorage_spec hc.active h
  cases hc with
  | initial _ hm => exact .external hactive (hmountpoint.trans hm) hexternal
  | external _ hm => exact .external hactive (hmountpoint.trans hm) hexternal
  | phone _ hm _ hphone => exact .phone hactive (hmountpoint.trans hm) hexternal hphone

theorem Reached.afterPhone (hc : Reached w c)
    (h : dirGetPhoneStorage w fuel c = some (path, c')) : Reached w c' := by
  obtain ⟨hactive, hmountpoint, hexternal, hphone⟩ := dirGetPhoneStorage_spec hc h
  exact .phone hactive hmountpoint hexternal hphone

theorem Reached.afterCached {query : Option (CString × Caches)} (hc : Reached w c)
    (hquery : ∀ path c', query = some (path, c') → Reached w c')
    (h : cached path query c = some c') : Reached w c' := by
  unfold cached at h
  split at h
  · obtain ⟨⟨found, c₁⟩, hcall, rfl⟩ := Option.map_eq_some_iff.mp h
    exact hquery found c₁ hcall
  · obtain rfl := Option.some.inj h
    exact hc

theorem Reached.afterKnown {storageName result : Option CString} (hc : Reached w c)
    (h : dirGetKnownStorage w fuel storageName c = some (result, c')) : Reached w c' := by
  have hknown (query : Option (CString × Caches))
      (hquery : ∀ path c', query = some (path, c') → Reached w c')
      (h : query.map (fun (path, c) => (some path, c)) = some (result, c')) : Reached w c' := by
    obtain ⟨⟨path, c₁⟩, hcall, heq⟩ := Option.map_eq_some_iff.mp h
    obtain ⟨-, rfl⟩ := Prod.mk.inj heq
    exact hquery path c₁ hcall
  unfold dirGetKnownStorage at h
  dsimp only at h
  split at h
  · exact hknown _ (fun _ _ => hc.usb) h
  · split at h
    · exact hknown _ (fun _ _ => hc.afterExternal) h
    · split at h
      · exact hknown _ (fun _ _ => hc.afterPhone) h
      · split at h
        · obtain ⟨-, rfl⟩ := Prod.mk.inj (Option.some.inj h)
          exact hc
        · obtain ⟨-, rfl⟩ := Prod.mk.inj (Option.some.inj h)
          exact hc

/-- No query leads anywhere else. -/
theorem Reached.exec (hc : Reached w c) {query : Query} (h : exec w fuel c query = some c') :
    Reached w c' := by
  cases query with
  | usb =>
    obtain ⟨⟨path, c₁⟩, hcall, rfl⟩ := Option.map_eq_some_iff.mp h
    exact hc.usb hcall
  | external =>
    obtain ⟨⟨path, c₁⟩, hcall, rfl⟩ := Option.map_eq_some_iff.mp h
    exact hc.afterExternal hcall
  | phone =>
    obtain ⟨⟨path, c₁⟩, hcall, rfl⟩ := Option.map_eq_some_iff.mp h
    exact hc.afterPhone hcall
  | known storageName =>
    obtain ⟨⟨path, c₁⟩, hcall, rfl⟩ := Option.map_eq_some_iff.mp h
    exact hc.afterKnown hcall
  | storageCode path =>
    obtain ⟨⟨code, c₁⟩, hcall, rfl⟩ := Option.map_eq_some_iff.mp h
    cases path with
    | none =>
      obtain ⟨-, rfl⟩ := Prod.mk.inj (Option.some.inj hcall)
      exact hc
    | some path =>
      obtain ⟨c₂, husb, hcall⟩ := Option.bind_eq_some_iff.mp hcall
      obtain ⟨c₃, hexternal, hcall⟩ := Option.bind_eq_some_iff.mp hcall
      obtain ⟨c₄, hphone, hcall⟩ := Option.bind_eq_some_iff.mp hcall
      obtain ⟨-, rfl⟩ := Prod.mk.inj (Option.some.inj hcall)
      have h₂ := hc.afterCached (fun _ _ => hc.usb) husb
      have h₃ := h₂.afterCached (fun _ _ => h₂.afterExternal) hexternal
      exact h₃.afterCached (fun _ _ => h₃.afterPhone) hphone
  | larger =>
    obtain ⟨⟨path, c₁⟩, hcall, rfl⟩ := Option.map_eq_some_iff.mp h
    obtain ⟨⟨extpath, c₂⟩, hexternal, hcall⟩ := Option.bind_eq_some_iff.mp hcall
    obtain ⟨⟨phonepath, c₃⟩, hphone, hcall⟩ := Option.bind_eq_some_iff.mp hcall
    obtain ⟨-, rfl⟩ := Prod.mk.inj (Option.some.inj hcall)
    exact (hc.afterExternal hexternal).afterPhone hphone
  | mountEntry mountpoint =>
    obtain rfl := Option.some.inj h
    exact hc
  | storageState storagePath =>
    obtain rfl := Option.some.inj h
    exact hc
  | fuseState =>
    obtain rfl := Option.some.inj h
    exact hc

/-- Every run of queries keeps the caches sound. -/
theorem Reached.run {queries : List Query} (hc : Reached w c)
    (h : queries.foldlM (Dir.exec w fuel) c = some c') : Reached w c' := by
  induction queries generalizing c with
  | nil =>
    obtain rfl := Option.some.inj h
    exact hc
  | cons query queries ih =>
    rw [List.foldlM_cons] at h
    obtain ⟨c₁, hstep, hrest⟩ := Option.bind_eq_some_iff.mp h
    exact ih (hc.exec hstep) hrest

/-! ### What is reached -/

/-- The query for the external storage returns, where its links make no circle. -/
theorem external_returns (h : w.NoCircle htcExternalStorages) (c : Caches)
    (hactive : c.activeFuseStorage = none ∨ c.activeFuseStorage = w.active) :
    ∃ path c', dirGetExternalStorage w (w.fs.targets.length + 1) c = some (path, c') := by
  obtain ⟨result, hcall⟩ := returns_of_once h
  unfold dirGetExternalStorage
  rw [detect_eq hactive]
  simp only [hcall _ (Nat.lt_succ_self _), Option.bind_eq_bind, Option.bind_some]
  exact ⟨_, _, rfl⟩

theorem phone_returns (hexternal : w.NoCircle htcExternalStorages)
    (hphone : w.NoCircle htcPhoneStorages) :
    ∃ path c', dirGetPhoneStorage w (w.fs.targets.length + 1) Caches.initial = some (path, c') := by
  obtain ⟨result, hcall⟩ := returns_of_once hphone
  unfold dirGetPhoneStorage
  rw [(Reached.initial rfl rfl : Reached w Caches.initial).detect_set_eq]
  obtain ⟨extpath, c', hext⟩ := external_returns hexternal
    ⟨w.active, w.mountpoint, [], [], []⟩ (.inr rfl)
  obtain ⟨hactive, -, -⟩ := dirGetExternalStorage_spec (.inr rfl) hext
  simp only [Caches.initial, hext, hactive, hcall _ (Nat.lt_succ_self _), Option.bind_eq_bind,
    Option.bind_some]
  exact ⟨_, _, rfl⟩

/-! ### What is answered -/

/-- A mount point is looked for under its own name, the active storage under its mount
point's. -/
theorem dirStorageState_eq (w : World) (c : Caches) (mountpoint : CString) :
    dirStorageState w c (some mountpoint) = w.mentioned
      (if c.activeFuseStorage = some mountpoint then printed c.fuseMountpoint else mountpoint) := by
  unfold dirStorageState entryOf dirGetMountEntry World.mentioned
  cases w.proc with
  | none => rfl
  | some file =>
    simp only [Option.bind_eq_bind, Option.bind_some, Option.any_some]
    cases mountLoop (mountPattern (if c.activeFuseStorage = some mountpoint then
      printed c.fuseMountpoint else mountpoint)) [] file <;> rfl

theorem dirStorageState_initial (w : World) (mountpoint : CString) :
    dirStorageState w Caches.initial (some mountpoint) = w.mentioned mountpoint :=
  dirStorageState_eq w Caches.initial mountpoint

/-- The active storage is no mount point of the fuse file system. -/
theorem active_ne_mountpoint {active mountpoint : CString} (hactive : w.active = some active)
    (hmountpoint : w.mountpoint = some mountpoint) : active ≠ mountpoint := by
  have ha := List.mem_of_find?_eq_some hactive
  have hm := List.mem_of_find?_eq_some hmountpoint
  have hdisjoint : ∀ a ∈ htcFuseStorages, ∀ m ∈ fuseMountpointPaths, a ≠ m := by decide
  exact hdisjoint active ha mountpoint hm

/-- Only the active storage is looked for under another name than its own. -/
theorem dirStorageState_other {mountpoint : CString} (h : c.activeFuseStorage ≠ some mountpoint) :
    dirStorageState w c (some mountpoint) = dirStorageState w Caches.initial (some mountpoint) := by
  rw [dirStorageState_eq, dirStorageState_initial, if_neg h]

theorem dirStorageState_active {active : CString} (h : c.activeFuseStorage = some active) :
    dirStorageState w c (some active) = w.mentioned (printed c.fuseMountpoint) := by
  rw [dirStorageState_eq, if_pos h]

/-- Both answers are the first ones if the active storage has it, and the mount point is not
mentioned. -/
theorem answers_eq
    (hstorage : ∀ active, c.activeFuseStorage = some active →
      w.mentioned (printed c.fuseMountpoint) = w.mentioned active)
    (hfuse : ∀ mountpoint, c.fuseMountpoint = some mountpoint →
      dirStorageState w c (some mountpoint) = false) :
    (∀ path, dirStorageState w c path = dirStorageState w Caches.initial path) ∧
      dirFuseState w c = dirFuseState w Caches.initial := by
  refine ⟨fun path => ?_, ?_⟩
  · cases path with
    | none => rfl
    | some mountpoint =>
      by_cases hactive : c.activeFuseStorage = some mountpoint
      · rw [dirStorageState_active hactive, dirStorageState_initial]
        exact hstorage mountpoint hactive
      · exact dirStorageState_other hactive
  · show dirStorageState w c c.fuseMountpoint = false
    cases hm : c.fuseMountpoint with
    | none => rfl
    | some mountpoint => exact hfuse mountpoint hm

/-- A run of one query. -/
theorem run_one {query : Query} (h : exec w fuel c query = some c') :
    [query].foldlM (exec w fuel) c = some c' := by
  rw [List.foldlM_cons, h]
  rfl

/-- One query for the external storage, and one for the phone storage, show what the table
mentions. -/
theorem independent_of_history (h : HistoryIndependent w) : Independent w := by
  constructor
  · intro hexternal active hactive
    obtain ⟨path, c, hcall⟩ := external_returns hexternal Caches.initial (.inl rfl)
    obtain ⟨hc, hmountpoint, -⟩ := dirGetExternalStorage_spec (.inl rfl) hcall
    have hexec : exec w (w.fs.targets.length + 1) Caches.initial .external = some c :=
      Option.map_eq_some_iff.mpr ⟨_, hcall, rfl⟩
    have hstate := (h _ _ c (run_one hexec)).1 (some active)
    rw [dirStorageState_active (hc.trans hactive), dirStorageState_initial, hmountpoint] at hstate
    exact hstate
  · intro hexternal hphone
    obtain ⟨path, c, hcall⟩ := phone_returns hexternal hphone
    obtain ⟨hc, hmountpoint, -⟩ := dirGetPhoneStorage_spec (Reached.initial rfl rfl) hcall
    have hexec : exec w (w.fs.targets.length + 1) Caches.initial .phone = some c :=
      Option.map_eq_some_iff.mpr ⟨_, hcall, rfl⟩
    obtain ⟨hstorage, hfuse⟩ := h _ _ c (run_one hexec)
    constructor
    · intro mountpoint hm
      have hstate : dirStorageState w c (some mountpoint) = false := by
        rw [← hm, ← hmountpoint]
        exact hfuse
      rw [dirStorageState_other, dirStorageState_initial] at hstate
      · exact hstate
      · rw [hc]
        exact fun hactive => active_ne_mountpoint hactive hm rfl
    · intro active hactive
      have hstate := hstorage (some active)
      rw [dirStorageState_active (hc.trans hactive), dirStorageState_initial, hmountpoint] at hstate
      exact hstate

/-- One case for each state of the caches. -/
theorem answers_of_reached (h : Independent w) (hc : Reached w c) :
    (∀ path, dirStorageState w c path = dirStorageState w Caches.initial path) ∧
      dirFuseState w c = dirFuseState w Caches.initial := by
  cases hc with
  | initial hactive hmountpoint =>
    apply answers_eq
    · intro active ha
      rw [hactive] at ha
      cases ha
    · intro mountpoint hm
      rw [hmountpoint] at hm
      cases hm
  | external hactive hmountpoint hexternal =>
    apply answers_eq
    · rw [hactive, hmountpoint]
      exact h.external hexternal
    · intro mountpoint hm
      rw [hmountpoint] at hm
      cases hm
  | phone hactive hmountpoint hexternal hphone =>
    obtain ⟨hfuse, hstorage⟩ := h.phone hexternal hphone
    apply answers_eq
    · rw [hactive, hmountpoint]
      exact hstorage
    · intro mountpoint hm
      rw [hmountpoint] at hm
      rw [dirStorageState_other, dirStorageState_initial]
      · exact hfuse mountpoint hm
      · rw [hactive]
        exact fun ha => active_ne_mountpoint ha hm rfl

end History

/-- The state queries answer as if nothing had been asked before exactly if what the
detection changes is not seen in the mount table. -/
theorem historyIndependent_iff (w : World) : HistoryIndependent w ↔ Independent w := by
  refine ⟨independent_of_history, fun h fuel queries c hrun => ?_⟩
  exact answers_of_reached h (Reached.run (.initial rfl rfl) hrun)

/-- The FUSE storage is mounted, and nothing is a link. -/
def fuseMounted : World where
  fs :=
    { readlink := fun _ => none
      accessible := fun path => path = "/mnt/shell/emulated".toList
      targets := []
      mem_targets := fun _ _ h => by cases h
      target_fits := List.forall_mem_nil _ }
  proc := some "/dev/fuse /mnt/shell/emulated fuse rw 0 0\n".toList
  getenv _ := none
  freeSize _ := none

/-- It is not, until the phone storage is asked for. -/
theorem historyIndependent_fails_fuse : ¬ ∀ w, HistoryIndependent w := by
  intro h
  obtain ⟨path, c, hcall⟩ : ∃ path c, dirGetPhoneStorage fuseMounted 1 Caches.initial = some (path, c) :=
    ⟨_, _, rfl⟩
  have hexec : exec fuseMounted 1 Caches.initial .phone = some c :=
    Option.map_eq_some_iff.mpr ⟨_, hcall, rfl⟩
  obtain ⟨-, hmountpoint, -⟩ := dirGetPhoneStorage_spec (Reached.initial rfl rfl) hcall
  have hfuse : dirStorageState fuseMounted c c.fuseMountpoint = false := (h fuseMounted 1 _ c (run_one hexec)).2
  obtain ⟨hactive, -⟩ := dirGetPhoneStorage_spec (Reached.initial rfl rfl) hcall
  rw [hmountpoint, show fuseMounted.mountpoint = some "/mnt/shell/emulated".toList from rfl,
    dirStorageState_eq, hactive] at hfuse
  have hactive : fuseMounted.active = none := rfl
  have hmentioned : fuseMounted.mentioned "/mnt/shell/emulated".toList = true := by decide +kernel
  rw [hactive, if_neg (Option.some_ne_none _).symm, hmentioned] at hfuse
  cases hfuse

end AndroidLearn.Dir
