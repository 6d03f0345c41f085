import AndroidLearn.Logctl.StoragePath
import AndroidLearn.Logctl.Calls

/-!
# Where the loggers end up

`loggers_start` of `logctl.c` is given a name, a path or `auto`; it selects a storage, and
looks up the storage of the log path that it got. `landing` says which storage and which
path these are, and `State.loggersStart_landing` that they are what `loggers_start`
leaves.

The table of storages is always made of the four entries of the source, in their order,
whatever calls are made (`Call.exec_isTable`). On such a table what
`storage_compare_priority` returns is computed from the priorities of the two storages
(`storageComparePriority_eq`).
-/

namespace AndroidLearn.Logctl

open Conf

/-- The storage that a start takes itself to be on, by the first mount point that is a prefix of
the log path, and the log path. -/
def landing (e : Mounts) (t : List Storage) (buffer : CString) : Option (StorageKey × CString) :=
  (storageSelected e t buffer none).bind fun X =>
    if (dirSelectLogPath e X).1 < 0 then none
    else (storageGetByNameOrPath (refreshed e t buffer X) (dirSelectLogPath e X).2).map fun ps =>
      (ps.name, (dirSelectLogPath e X).2)

section Select

variable {e : Mounts} {t : List Storage} {buffer : CString} {excludedName : Option StorageKey}
  {X : StorageKey}

/-- Where no storage is selected the path stays as it was. -/
theorem storageSelectLoggingPath_none (h : storageSelected e t buffer excludedName = none) :
    (storageSelectLoggingPath e t buffer excludedName).error = some .noAvailableStorage ∧
      (storageSelectLoggingPath e t buffer excludedName).buffer = buffer := by
  unfold storageSelected at h
  unfold storageSelectLoggingPath
  split at h
  next hauto =>
    rw [if_pos hauto]
    dsimp only
    rw [h]
    exact ⟨rfl, rfl⟩
  next hnamed =>
    rw [if_neg hnamed]
    cases hps : storageGetByNameOrPath t buffer with
    | none => exact ⟨rfl, rfl⟩
    | some ps =>
      simp only [hps] at h
      dsimp only
      split at h
      next hexcluded =>
        rw [if_pos hexcluded]
        exact ⟨rfl, rfl⟩
      next => exact absurd h (by simp)

/-- A selection leaves the table a table. -/
theorem storageSelectLoggingPath_storages (ht : IsTable t) :
    IsTable (storageSelectLoggingPath e t buffer excludedName).storages := by
  have hall : IsTable (t.map (storageUpdate e)) := by
    have hupdate := ht.update e fun _ => true
    simpa using hupdate
  cases hX : storageSelected e t buffer excludedName with
  | some X =>
    rw [storageSelectLoggingPath_eq hX]
    exact refreshed_isTable ht
  | none =>
    unfold storageSelected at hX
    unfold storageSelectLoggingPath
    split at hX
    next hauto =>
      rw [if_pos hauto]
      dsimp only
      rw [hX]
      exact hall
    next hnamed =>
      rw [if_neg hnamed]
      cases hps : storageGetByNameOrPath t buffer with
      | none => exact ht
      | some ps =>
        simp only [hps] at hX
        dsimp only
        split at hX
        next hexcluded =>
          rw [if_pos hexcluded]
          have hupdate := ht.update e fun qs => decide (qs.name = ps.name)
          simpa only [decide_eq_true_eq] using hupdate
        next => exact absurd hX (by simp)

/-- The log path of a storage is found, if only as another's. -/
theorem lookup_logPath (ht : IsTable t) (h : ¬ (dirSelectLogPath e X).1 < 0) :
    ∃ ps, storageGetByNameOrPath (refreshed e t buffer X) (dirSelectLogPath e X).2 = some ps := by
  cases hfind : storageGetByNameOrPath (refreshed e t buffer X) (dirSelectLogPath e X).2 with
  | some ps => exact ⟨ps, rfl⟩
  | none =>
    -- the mount point of the storage is a prefix of the path, so at least that one is found
    unfold storageGetByNameOrPath at hfind
    rw [List.find?_eq_none] at hfind
    have htakes : (mountpointOf (refreshed e t buffer X) X).any
        (·.isPrefixOf (dirSelectLogPath e X).2) = true := mountpointOf_takes ht h
    have htable : IsTable (refreshed e t buffer X) := refreshed_isTable ht
    obtain ⟨ps, hps, -, hX⟩ := htable.find X
    rw [mountpointOf, hX, Option.bind_some] at htakes
    exact absurd (by rw [Storage.matches, htakes, Bool.or_true]) (hfind ps hps)

end Select

section Start

variable {s : State} {path : CString}

/-- A start lands where `landing` says. -/
theorem State.loggersStart_landing (ht : IsTable s.storages) :
    match landing s.env.toMounts s.storages path with
    | none => (s.loggersStart path).1 < 0
    | some (Z, logPath) => (s.loggersStart path).1 = 0 ∧
        (s.loggersStart path).2.loggersGlobalStorage = some Z ∧
        (s.loggersStart path).2.loggersGlobalLogpath = logPath ∧
        (s.loggersStart path).2.loggers =
          s.loggers.map fun l => (l.started s.env logPath).2 := by
  unfold landing
  cases hX : storageSelected s.env.toMounts s.storages path none with
  | none =>
    obtain ⟨herror, -⟩ := storageSelectLoggingPath_none hX
    dsimp only [Option.bind_none]
    rw [(State.loggersStart_error (s := s) herror).1]
    decide
  | some X =>
    have hselect : s.select path none = selectLogPath s.env.toMounts X
        (refreshed s.env.toMounts s.storages path X) := storageSelectLoggingPath_eq hX
    dsimp only [Option.bind_some]
    by_cases hpath : (dirSelectLogPath s.env.toMounts X).1 < 0
    · rw [if_pos hpath]
      have herror : (s.select path none).error = some .cannotGetLogPath := by
        rw [hselect]
        simp [selectLogPath, hpath]
      dsimp only
      rw [(State.loggersStart_error herror).1]
      decide
    · rw [if_neg hpath]
      obtain ⟨ps, hps⟩ : ∃ ps, storageGetByNameOrPath (refreshed s.env.toMounts s.storages path X)
          (dirSelectLogPath s.env.toMounts X).2 = some ps := lookup_logPath ht hpath
      have hok : (s.select path none).error = none := by
        rw [hselect]
        simp [selectLogPath, hpath]
      rw [hps, State.loggersStart_ok hok, hselect]
      dsimp only [Option.map_some]
      -- the storage that was selected does not matter any more, only where its path is found
      have hplaced : ({ s.atPath (selectLogPath s.env.toMounts X (refreshed s.env.toMounts
          s.storages path X)) with loggersErrorCounter := 0 } : State).placed =
          { s.atPath (selectLogPath s.env.toMounts X (refreshed s.env.toMounts
          s.storages path X)) with
            loggersErrorCounter := 0
            loggersGlobalStorage := some ps.name } := by
        unfold State.placed
        dsimp only [State.atPath, selectLogPath]
        rw [hps]
      rw [hplaced]
      exact ⟨rfl, rfl, rfl, rfl⟩

end Start

/-! ## The table stays -/

/-- Every call leaves the table of storages a table. -/
theorem Call.exec_isTable (c : Call) {s : State} (h : IsTable s.storages) :
    IsTable (c.exec s).2.storages := by
  have hplaced : ∀ {s : State}, IsTable s.storages → IsTable s.placed.storages := by
    intro s h
    unfold State.placed
    split
    · exact h
    · exact storageSelectLoggingPath_storages h
  cases c with
  | storageSetConfigs name g =>
    refine ⟨?_, fun qs hqs hname => ?_⟩
    · rw [← h.names]
      change (s.storages.map fun ps => if ps.name = name then ps.setConfigs g else ps).map
        Storage.name = _
      rw [List.map_map]
      refine List.map_congr_left fun ps _ => ?_
      dsimp only [Function.comp]
      split <;> rfl
    · obtain ⟨ps, hps, rfl⟩ := List.mem_map.mp hqs
      split at hname
      next heq =>
        rw [if_pos heq]
        exact h.internal ps hps hname
      next hne =>
        rw [if_neg hne]
        exact h.internal ps hps hname
  | storageUpdateAll =>
    have hupdate := h.update s.env.toMounts fun _ => true
    simp only [if_true] at hupdate
    exact hupdate
  | storageSelectLoggingPath buffer excludedName => exact storageSelectLoggingPath_storages h
  | loggersStart storageName =>
    have hat : IsTable (s.atPath (s.select storageName none)).storages :=
      storageSelectLoggingPath_storages h
    cases hres : (s.select storageName none).error with
    | none =>
      change IsTable (s.loggersStart storageName).2.storages
      rw [State.loggersStart_ok hres]
      exact hplaced hat
    | some e =>
      change IsTable (s.loggersStart storageName).2.storages
      unfold State.loggersStart
      cases e <;> simpa [hres, State.atPath] using hat
  | confSaveToFile conf =>
    unfold exec
    dsimp only
    split <;> exact h
  | _ => exact h

/-! ## Priorities -/

/-- The configured priority of a storage. -/
def priorityOf (t : List Storage) (k : StorageKey) : Int32 :=
  ((t.find? fun ps => ps.name = k).map Storage.priority).getD 0

/-- `storage_compare_priority` is a difference only for two storages: for one and the
same, the second priority is never looked up. -/
theorem storageComparePriority_eq {t : List Storage} (ht : IsTable t) (n₁ n₂ : StorageKey) :
    storageComparePriority t (some n₁) (some n₂) =
      if n₁ = n₂ then priorityOf t n₁ else priorityOf t n₁ - priorityOf t n₂ := by
  obtain ⟨u, x, p, i, rfl, hu, hx, hp, hi⟩ := ht.eq_four
  cases n₁ <;> cases n₂ <;>
    simp [storageComparePriority, priorityOf, hu, hx, hp, hi]

end AndroidLearn.Logctl
