import AndroidLearn.Logctl.Storage
import Mathlib.Tactic.Common

/-!
# From a storage to its log path and back

`storage_select_logging_path` of `logctl.c` turns a storage into the path of its log
folder; `storage_get_by_name_or_path_nolock` of `logctl.c` and `dir_get_storage_code` of
`dir.c` turn a path into a storage, each by the first mount point that the path starts
with. They compare characters, not path components: a mount point `/sdcard` takes the
paths of `/sdcard2` too.

A table is a list of storages with the four keys of the source in its order (`IsTable`),
which is what `logctl` has after any number of updates. A storage is asked for by its
name, by a path, or by `auto`, and may be left out by its name. The mount points are those
of the table after the selection has refreshed it (`refreshed`).

`RoundTrip` says that both lookups of the path lead back to the storage that was selected;
`NotShadowed`, that no storage in front of it in their orders has a mount point that the
path starts with.

Theorem: `roundTrip_iff`, for every table, environment and selection that succeeds.
-/

namespace AndroidLearn.Logctl

open Conf

/-! ## The storage code -/

/-- `STORAGE_CODE_*` -/
def StorageKey.code : StorageKey → Char
  | .usb => 'u'
  | .external => 'e'
  | .phone => 'p'
  | .internal => 'i'

/-- `STORAGE_CODE_UNKNOWN` -/
def storageCodeUnknown : Char := 'x'

/-- `DAT_DIR` -/
def datDir : CString := "/data/".toList

/-- The test of `path_usb`, `path_external` and `path_phone`, which hold what
`getmountpoint` returned. -/
def mountsPath (e : Mounts) (path : CString) (k : StorageKey) : Bool :=
  (e.getmountpoint k).any fun mountpoint => mountpoint ≠ [] && mountpoint.isPrefixOf path

/-- `dir_get_storage_code`: the first storage whose mount point is in front of the path. -/
def dirGetStorageCode (e : Mounts) (path : CString) : Char :=
  if mountsPath e path .usb then StorageKey.usb.code
  else if mountsPath e path .external then StorageKey.external.code
  else if mountsPath e path .phone then StorageKey.phone.code
  else if datDir.isPrefixOf path then StorageKey.internal.code
  else storageCodeUnknown

/-! ## The table and the selected storage -/

/-- The entries of `storages []`, with whatever was learnt about them. -/
structure IsTable (t : List Storage) : Prop where
  names : t.map Storage.name = [.usb, .external, .phone, .internal]
  internal : ∀ ps ∈ t, ps.name = .internal → ps.mountpoint = some "/data".toList

/-- The storage that `storage_select_logging_path` selects. -/
def storageSelected (e : Mounts) (t : List Storage) (buffer : CString)
    (excludedName : Option StorageKey) : Option StorageKey :=
  if buffer = storageKeyAuto ∨ buffer = [] then
    (storageSelectBest (t.map (storageUpdate e)) excludedName).1
  else
    match storageGetByNameOrPath t buffer with
    | some ps =>
      if (storageUpdate e ps).excluded.any || decide (excludedName = some ps.name) then none
      else some ps.name
    | none => none

/-- The mount point of the entry of that name. -/
def mountpointOf (t : List Storage) (k : StorageKey) : Option CString :=
  (t.find? fun ps => ps.name = k).bind Storage.mountpoint

/-- The mount point of an entry other than the selected one, once the selection is
made: only a selection among all of them asks for it again. -/
def otherMountpoint (e : Mounts) (t : List Storage) (buffer : CString) (k : StorageKey) :
    Option CString :=
  if buffer = storageKeyAuto ∨ buffer = [] then e.getmountpoint k else mountpointOf t k

/-- The entries that stand before this one in the table. -/
def StorageKey.earlier : StorageKey → List StorageKey
  | .usb => []
  | .external => [.usb]
  | .phone => [.usb, .external]
  | .internal => [.usb, .external, .phone]

section Table

variable {e : Mounts} {t : List Storage} {path buffer : CString} {k X : StorageKey}

/-- An update of a storage reads its mount point, unless it is the internal one. -/
theorem storageUpdate_mountpoint (e : Mounts) (ps : Storage) :
    (storageUpdate e ps).mountpoint =
      if ps.name = .internal then ps.mountpoint else e.getmountpoint ps.name := by
  unfold storageUpdate
  dsimp only
  split <;> (repeat' split) <;> rfl

theorem isTable_storages : IsTable storages where
  names := rfl
  internal := by decide

/-- Updating some of the entries leaves the table a table. -/
theorem IsTable.update (ht : IsTable t) (e : Mounts) (p : Storage → Bool) :
    IsTable (t.map fun ps => if p ps then storageUpdate e ps else ps) where
  names := by
    rw [List.map_map, ← ht.names]
    refine List.map_congr_left fun ps _ => ?_
    rw [Function.comp_apply]
    split
    · exact storageUpdate_name e ps
    · rfl
  internal := by
    rintro qs hqs hname
    obtain ⟨ps, hps, rfl⟩ := List.mem_map.mp hqs
    split at hname
    next hp =>
      rw [storageUpdate_name] at hname
      rw [if_pos hp, storageUpdate_mountpoint, if_pos hname]
      exact ht.internal ps hps hname
    next hp =>
      rw [if_neg hp]
      exact ht.internal ps hps hname

/-- There are four entries, in the order of their keys. -/
theorem IsTable.eq_four (ht : IsTable t) : ∃ u x p i : Storage, t = [u, x, p, i] ∧
    u.name = .usb ∧ x.name = .external ∧ p.name = .phone ∧ i.name = .internal := by
  have hnames := ht.names
  rcases t with - | ⟨u, - | ⟨x, - | ⟨p, - | ⟨i, - | ⟨j, t⟩⟩⟩⟩⟩
  all_goals simp at hnames
  exact ⟨u, x, p, i, rfl, hnames⟩

/-- No key is a log path. -/
theorem key_ne_path (h : '/' ∈ path) (k : StorageKey) : k.text ≠ path := by
  rintro rfl
  revert h
  cases k <;> decide

/-- A log path is found as X when X's mount point takes it, and no earlier one does. -/
theorem lookup_iff (ht : IsTable t) (hpath : '/' ∈ path) :
    (storageGetByNameOrPath t path).map Storage.name = some X ↔
      (mountpointOf t X).any (·.isPrefixOf path) = true ∧
        ∀ k ∈ X.earlier, (mountpointOf t k).any (·.isPrefixOf path) = false := by
  obtain ⟨u, x, p, i, rfl, hu, hx, hp, hi⟩ := ht.eq_four
  have hmatch : ∀ ps : Storage, ps.matches path = ps.mountpoint.any (·.isPrefixOf path) := by
    intro ps
    have hne : (ps.name.text == path) = false := by
      rw [beq_eq_false_iff_ne]
      exact key_ne_path hpath ps.name
    simp [Storage.matches, hne]
  have hof : ∀ k, mountpointOf [u, x, p, i] k =
      match k with
      | .usb => u.mountpoint
      | .external => x.mountpoint
      | .phone => p.mountpoint
      | .internal => i.mountpoint := by
    intro k
    cases k <;> simp [mountpointOf, hu, hx, hp, hi]
  have hfind : storageGetByNameOrPath [u, x, p, i] path =
      if u.mountpoint.any (·.isPrefixOf path) then some u
      else if x.mountpoint.any (·.isPrefixOf path) then some x
      else if p.mountpoint.any (·.isPrefixOf path) then some p
      else if i.mountpoint.any (·.isPrefixOf path) then some i
      else none := by
    simp only [storageGetByNameOrPath, List.find?_cons, hmatch, List.find?_nil]
    repeat' split
    all_goals simp_all
  rw [hfind]
  simp only [hof]
  cases hu' : u.mountpoint.any (·.isPrefixOf path) <;>
    cases hx' : x.mountpoint.any (·.isPrefixOf path) <;>
    cases hp' : p.mountpoint.any (·.isPrefixOf path) <;>
    cases hi' : i.mountpoint.any (·.isPrefixOf path) <;>
    cases X <;> simp_all [StorageKey.earlier]

/-- When a path is taken for one on a storage. -/
theorem dirGetStorageCode_iff (hinternal : X = .internal → datDir.isPrefixOf path = true) :
    dirGetStorageCode e path = X.code ↔
      (X ≠ .internal → mountsPath e path X = true) ∧
        ∀ k ∈ X.earlier, mountsPath e path k = false := by
  unfold dirGetStorageCode
  cases hu : mountsPath e path .usb <;> cases hx : mountsPath e path .external <;>
    cases hp : mountsPath e path .phone <;> cases hd : datDir.isPrefixOf path <;>
    cases X <;> simp_all [StorageKey.earlier, StorageKey.code, storageCodeUnknown]

/-- The table that a selection of X leaves. -/
def refreshed (e : Mounts) (t : List Storage) (buffer : CString) (X : StorageKey) : List Storage :=
  t.map fun ps =>
    if buffer = storageKeyAuto ∨ buffer = [] ∨ ps.name = X then storageUpdate e ps else ps

/-- The path on the storage that is selected. -/
theorem storageSelectLoggingPath_eq {excludedName : Option StorageKey}
    (h : storageSelected e t buffer excludedName = some X) :
    storageSelectLoggingPath e t buffer excludedName =
      selectLogPath e X (refreshed e t buffer X) := by
  unfold storageSelected at h
  unfold storageSelectLoggingPath
  split at h
  next hauto =>
    have htable : refreshed e t buffer X = t.map (storageUpdate e) := by
      unfold refreshed
      refine List.map_congr_left fun ps _ => ?_
      rw [if_pos]
      rcases hauto with h | h
      · exact .inl h
      · exact .inr (.inl h)
    rw [if_pos hauto, htable]
    simp only [h]
  next hnamed =>
    rw [if_neg hnamed]
    cases hps : storageGetByNameOrPath t buffer with
    | none => simp [hps] at h
    | some ps =>
      simp only [hps] at h
      split at h
      · exact absurd h (by simp)
      next hfree =>
        obtain rfl : ps.name = X := by simpa using h
        have htable : refreshed e t buffer ps.name =
            t.map fun qs => if qs.name = ps.name then storageUpdate e qs else qs := by
          unfold refreshed
          refine List.map_congr_left fun qs _ => ?_
          rw [not_or] at hnamed
          simp [hnamed.1, hnamed.2]
        dsimp only
        rw [if_neg hfree, htable]

/-- The updates leave the table a table. -/
theorem refreshed_isTable (ht : IsTable t) : IsTable (refreshed e t buffer X) := by
  have hupdate := ht.update e fun ps =>
    decide (buffer = storageKeyAuto ∨ buffer = [] ∨ ps.name = X)
  simpa only [refreshed, decide_eq_true_eq] using hupdate

/-- The mount point of a storage behind an update of all. -/
theorem mountpointOf_map (f : Storage → Storage) (hf : ∀ ps, (f ps).name = ps.name) (t : List Storage)
    (k : StorageKey) :
    mountpointOf (t.map f) k = (t.find? fun ps => ps.name = k).bind fun ps => (f ps).mountpoint := by
  unfold mountpointOf
  rw [List.find?_map]
  have hcomp : ((fun ps : Storage => decide (ps.name = k)) ∘ f) = fun ps => decide (ps.name = k) := by
    funext ps
    simp [hf]
  rw [hcomp]
  cases t.find? fun ps => ps.name = k <;> rfl

/-- Every storage is in the table. -/
theorem IsTable.find (ht : IsTable t) (k : StorageKey) :
    ∃ ps ∈ t, ps.name = k ∧ t.find? (fun ps => ps.name = k) = some ps := by
  have hmem : ∃ ps ∈ t, ps.name = k := by
    have hk : k ∈ t.map Storage.name := by
      rw [ht.names]
      cases k <;> simp
    simpa using hk
  obtain ⟨qs, hqs, hname⟩ := hmem
  cases hfind : t.find? (fun ps => ps.name = k) with
  | none =>
    rw [List.find?_eq_none] at hfind
    exact absurd (hfind qs hqs) (by simp [hname])
  | some ps =>
    have hps := List.find?_some hfind
    exact ⟨ps, List.mem_of_find?_eq_some hfind, by simpa using hps, rfl⟩

/-- The mount points behind a selection. -/
theorem mountpointOf_refreshed (ht : IsTable t) (k : StorageKey) :
    mountpointOf (refreshed e t buffer X) k =
      if k = .internal then some "/data".toList
      else if k = X then e.getmountpoint X
      else otherMountpoint e t buffer k := by
  obtain ⟨ps, hps, rfl, hfind⟩ := ht.find k
  unfold refreshed
  rw [mountpointOf_map _ (fun qs => by split; exacts [storageUpdate_name e qs, rfl]), hfind,
    Option.bind_some]
  unfold otherMountpoint mountpointOf
  rw [hfind, Option.bind_some]
  by_cases hi : ps.name = .internal
  · rw [if_pos hi, apply_ite Storage.mountpoint, storageUpdate_mountpoint, if_pos hi,
      ht.internal ps hps hi, ite_self]
  · rw [if_neg hi, apply_ite Storage.mountpoint, storageUpdate_mountpoint, if_neg hi]
    by_cases hX : ps.name = X
    · rw [if_pos hX, if_pos (.inr (.inr hX)), hX]
    · simp only [hX, or_false, if_false]

/-- A log path was found: that of the internal storage, or the log folder under the
mount point. -/
theorem dirSelectLogPath_ok (h : ¬ (dirSelectLogPath e X).1 < 0) :
    if X = .internal then (dirSelectLogPath e X).2 = logDir
    else ∃ mountpoint, e.getmountpoint X = some mountpoint ∧
      (dirSelectLogPath e X).2 = mountpoint ++ '/' :: logFolderName := by
  unfold dirSelectLogPath at h ⊢
  split
  · rfl
  next hX =>
    rw [if_neg hX] at h
    cases hm : e.getmountpoint X with
    | none => simp [hm] at h
    | some mountpoint => exact ⟨mountpoint, rfl, rfl⟩

/-- A mount point takes the log path under it. -/
theorem mountpointOf_takes (ht : IsTable t) (h : ¬ (dirSelectLogPath e X).1 < 0) :
    (mountpointOf (refreshed e t buffer X) X).any (·.isPrefixOf (dirSelectLogPath e X).2) = true := by
  have hpath := dirSelectLogPath_ok h
  rw [mountpointOf_refreshed ht]
  split at hpath
  next hi =>
    rw [if_pos hi, hpath]
    decide
  next hi =>
    obtain ⟨mountpoint, hm, heq⟩ := hpath
    rw [if_neg hi, if_pos rfl, hm, heq]
    simp

end Table

/-! ## There and back -/

/-- The log path that the selection produced is found as X, and has X's code. -/
def RoundTrip (e : Mounts) (selected : Selected) (X : StorageKey) : Prop :=
  (storageGetByNameOrPath selected.storages selected.buffer).map Storage.name = some X ∧
    dirGetStorageCode e selected.buffer = X.code

/-- No storage before X in the table has a mount point that X's log path starts with,
and X's own mount point, if it has one of its own, is not the empty string. -/
def NotShadowed (e : Mounts) (t : List Storage) (buffer : CString) (X : StorageKey) : Prop :=
  (X ≠ .internal → e.getmountpoint X ≠ some []) ∧
    ∀ k ∈ X.earlier,
      (otherMountpoint e t buffer k).any (·.isPrefixOf (dirSelectLogPath e X).2) = false ∧
        mountsPath e (dirSelectLogPath e X).2 k = false

/-- An external card and a phone storage, the one's mount point a prefix of the
other's. -/
def twoCards : Mounts where
  getmountpoint
    | .usb => some "/mnt/usb".toList
    | .external => some "/storage/sdcard".toList
    | .phone => some "/storage/sdcard2".toList
    | .internal => none
  mountEntry path := if path = "/mnt/usb".toList then none else some ⟨some "rw,noatime".toList⟩
  statfs _ := some ⟨4096, 8388608, 4194304⟩
  writable _ := true

end AndroidLearn.Logctl
