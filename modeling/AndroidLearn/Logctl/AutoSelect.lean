import AndroidLearn.Lib.RunningMax
import AndroidLearn.Logctl.Storage

/-!
# The automatic selection of a storage

`storage_select_logging_path` of `logctl.c` with the path `auto`. It takes the storage
with the highest priority among those that are available and not left out. The priorities
come from the configuration and may be any `int`; the loop keeps a running maximum that
begins at 0, so a storage whose priority is not positive is never taken.

A candidate is a storage of the table that is mounted, has no excluded state and is not
the one to leave out; the test of writing that the selection makes on it is the
environment's. The loop is an instance of `Lib.RunningMax` (`storageSelectBest_eq`). That
the storage to leave out is compared by its text in the source is the same as comparing
the keys (`storageSelectBestText_eq`).

`SelectsMax` says that the storage selected is a candidate that no other one exceeds, the
first of its priority, and that the call fails only without a candidate.

Theorem: `selectsMax_iff` says when the selection is right, for every table, environment,
priority and exclusion: some candidate has a positive priority, or there is no candidate
at all.
-/

namespace AndroidLearn.Logctl

open Conf RunningMax

/-! ## The candidates -/

/-- Available, and not the storage that is left out. -/
def candidate (excludedName : Option StorageKey) (ps : Storage) : Bool :=
  decide (excludedName ≠ some ps.name) && !ps.excluded.any

/-- What storages are compared by. -/
def Storage.rank (ps : Storage) : Int := ps.priority.toInt

/-- The loop of the selection is the running maximum of the priorities from 0 on. -/
theorem storageSelectBest_eq (t : List Storage) (excludedName : Option StorageKey) :
    (storageSelectBest t excludedName).1 =
      (best (candidate excludedName) Storage.rank 0 t).1.map Storage.name ∧
    (storageSelectBest t excludedName).2.toInt =
      (best (candidate excludedName) Storage.rank 0 t).2 := by
  induction t using List.reverseRecOn with
  | nil => exact ⟨rfl, rfl⟩
  | append_singleton t ps ih =>
    obtain ⟨hname, hpriority⟩ := ih
    rw [best_append]
    unfold storageSelectBest at hname hpriority ⊢
    rw [List.foldl_append, List.foldl_cons, List.foldl_nil, step]
    by_cases hexcluded : excludedName = some ps.name
    · rw [if_pos hexcluded, if_neg (by simp [candidate, hexcluded])]
      exact ⟨hname, hpriority⟩
    by_cases hany : ps.excluded.any = true
    · rw [if_neg hexcluded, if_pos hany, if_neg (by simp [candidate, hany])]
      exact ⟨hname, hpriority⟩
    have hcandidate : candidate excludedName ps = true := by simp [candidate, hexcluded, hany]
    rw [if_neg hexcluded, if_neg hany]
    by_cases hlarger : (best (candidate excludedName) Storage.rank 0 t).2 < ps.rank
    · rw [if_pos (Int32.lt_iff_toInt_lt.mpr (hpriority ▸ hlarger)), if_pos ⟨hcandidate, hlarger⟩]
      exact ⟨rfl, rfl⟩
    · rw [if_neg fun h => hlarger (hpriority ▸ Int32.lt_iff_toInt_lt.mp h),
        if_neg fun h => hlarger h.2]
      exact ⟨hname, hpriority⟩

/-! ## The name that is left out

The code compares texts; on the names of storages this is the same as to compare keys. -/

/-- The loop of the selection, with `excluded_name` as a text. -/
def storageSelectBestText (t : List Storage) (excludedName : Option CString) :
    Option StorageKey × Int32 :=
  t.foldl (fun best ps =>
    if excludedName = some ps.name.text then best
    else if ps.excluded.any then best
    else if best.2 < ps.priority then (some ps.name, ps.priority)
    else best) (none, 0)

/-- The storage with that name, if there is one. -/
def keyOf (name : CString) : Option StorageKey :=
  [StorageKey.usb, .external, .phone, .internal].find? fun k => k.text = name

/-- A name stands for one storage. -/
theorem keyOf_eq_iff {name : CString} {k : StorageKey} : keyOf name = some k ↔ k.text = name := by
  constructor
  · intro h
    exact of_decide_eq_true (List.find?_some (p := fun k : StorageKey => k.text = name) h)
  · intro h
    subst h
    cases k <;> rfl

/-- The selection by text is that by name. -/
theorem storageSelectBestText_eq (t : List Storage) (excludedName : Option CString) :
    storageSelectBestText t excludedName = storageSelectBest t (excludedName.bind keyOf) := by
  have hkey : ∀ k : StorageKey, excludedName = some k.text ↔ excludedName.bind keyOf = some k := by
    intro k
    cases excludedName with
    | none => simp
    | some name => rw [Option.bind_some, keyOf_eq_iff, Option.some.injEq, eq_comm]
  unfold storageSelectBestText storageSelectBest
  simp only [hkey]

/-! ## The selection -/

/-- The selection in auto mode is right: it reports that there is no storage if and only if
there is no candidate, and otherwise takes the first one of the highest priority. -/
structure SelectsMax (e : Mounts) (t : List Storage) (buffer : CString)
    (excludedName : Option StorageKey) : Prop where
  none_iff : (storageSelectLoggingPath e t buffer excludedName).error = some .noAvailableStorage ↔
    ∀ ps ∈ t.map (storageUpdate e), candidate excludedName ps = false
  takes : (∃ ps ∈ t.map (storageUpdate e), candidate excludedName ps = true) →
    ∃ ps, IsFirstMax (candidate excludedName) Storage.rank (t.map (storageUpdate e)) ps ∧
      storageSelectLoggingPath e t buffer excludedName =
        selectLogPath e ps.name (t.map (storageUpdate e))

/-- A candidate has a priority above the bound of the loop, if there is a candidate. -/
def Ranked (e : Mounts) (t : List Storage) (excludedName : Option StorageKey) : Prop :=
  (∃ ps ∈ t.map (storageUpdate e), candidate excludedName ps = true) →
    ∃ ps ∈ t.map (storageUpdate e), candidate excludedName ps = true ∧ 0 < ps.rank

section Auto

variable {e : Mounts} {t : List Storage} {buffer : CString} {excludedName : Option StorageKey}

/-- A storage that was selected is available. -/
theorem selectLogPath_error (name : StorageKey) :
    (selectLogPath e name t).error ≠ some .noAvailableStorage := by
  unfold selectLogPath
  dsimp only
  split <;> simp

/-- The selection by priority, as the first greatest. -/
theorem storageSelectLoggingPath_auto (hauto : buffer = storageKeyAuto ∨ buffer = []) :
    storageSelectLoggingPath e t buffer excludedName =
      match (best (candidate excludedName) Storage.rank 0 (t.map (storageUpdate e))).1 with
      | some ps => selectLogPath e ps.name (t.map (storageUpdate e))
      | none => ⟨some .noAvailableStorage, buffer, t.map (storageUpdate e)⟩ := by
  unfold storageSelectLoggingPath
  rw [if_pos hauto]
  dsimp only
  rw [(storageSelectBest_eq _ _).1]
  cases (best (candidate excludedName) Storage.rank 0 (t.map (storageUpdate e))).1 <;> rfl

/-- Only where the ranks allow it the best is selected. -/
theorem ranked_of_selectsMax (hauto : buffer = storageKeyAuto ∨ buffer = [])
    (h : SelectsMax e t buffer excludedName) : Ranked e t excludedName := by
  intro hsome
  obtain ⟨ps, hps, hselect⟩ := h.takes hsome
  rw [storageSelectLoggingPath_auto hauto] at hselect
  cases hbest : (best (candidate excludedName) Storage.rank 0 (t.map (storageUpdate e))).1 with
  | none =>
    rw [hbest] at hselect
    exact absurd (congrArg Selected.error hselect).symm (selectLogPath_error _)
  | some qs =>
    obtain ⟨hpositive, hmax⟩ := best_eq_some hbest
    exact ⟨qs, hmax.mem, hmax.candidate, hpositive⟩

theorem Ranked.selectsMax (h : Ranked e t excludedName)
    (hauto : buffer = storageKeyAuto ∨ buffer = []) : SelectsMax e t buffer excludedName := by
  cases hbest : (best (candidate excludedName) Storage.rank 0 (t.map (storageUpdate e))).1 with
  | none =>
    have hall := (best_eq_none_iff _).mp hbest
    have hno : ∀ ps ∈ t.map (storageUpdate e), candidate excludedName ps = false := by
      intro ps hps
      by_contra hcandidate
      rw [Bool.not_eq_false] at hcandidate
      obtain ⟨qs, hqs, hqc, hpositive⟩ := h ⟨ps, hps, hcandidate⟩
      exact absurd (hall qs hqs hqc) (not_le.mpr hpositive)
    constructor
    · rw [storageSelectLoggingPath_auto hauto, hbest]
      exact iff_of_true rfl hno
    · intro hsome
      obtain ⟨ps, hps, hcandidate⟩ := hsome
      exact absurd hcandidate (by simp [hno ps hps])
  | some ps =>
    obtain ⟨-, hmax⟩ := best_eq_some hbest
    have hselect : storageSelectLoggingPath e t buffer excludedName =
        selectLogPath e ps.name (t.map (storageUpdate e)) := by
      rw [storageSelectLoggingPath_auto hauto, hbest]
    refine ⟨?_, fun _ => ⟨ps, hmax, hselect⟩⟩
    rw [hselect]
    refine iff_of_false (selectLogPath_error _) fun hno => ?_
    exact absurd hmax.candidate (by simp [hno ps hmax.mem])

end Auto

/-- The exact condition. -/
theorem selectsMax_iff (e : Mounts) (t : List Storage) (buffer : CString)
    (excludedName : Option StorageKey) (hauto : buffer = storageKeyAuto ∨ buffer = []) :
    SelectsMax e t buffer excludedName ↔ Ranked e t excludedName :=
  ⟨ranked_of_selectsMax hauto, fun h => h.selectsMax hauto⟩

/-- The external storage and the internal one are mounted. -/
def twoMounted : Mounts where
  getmountpoint name := if name = .external then some "/sdcard".toList else none
  mountEntry _ := some ⟨some "rw,noatime".toList⟩
  statfs _ := some ⟨4096, 1048576, 524288⟩
  writable _ := true

/-- The entries of the table, with these priorities in the configuration. -/
def configured (usb external phone internal : Int32) : List Storage :=
  [storageEntry .usb none usb, storageEntry .external none external,
    storageEntry .phone none phone, storageEntry .internal (some "/data".toList) internal]

/-- The two that are mounted have no positive priority: they are available, and not found. -/
theorem selectsMax_fails_zero :
    ¬ SelectsMax twoMounted (configured 4 0 2 (-1)) storageKeyAuto none := by
  intro h
  have hcandidate : ∃ ps ∈ (configured 4 0 2 (-1)).map (storageUpdate twoMounted),
      candidate none ps = true :=
    ⟨storageUpdate twoMounted (storageEntry .external none 0),
      List.mem_map_of_mem (by simp [configured]), by decide +kernel⟩
  obtain ⟨ps, hps, hfound, hpositive⟩ := ranked_of_selectsMax (.inl rfl) h hcandidate
  have hall : ∀ ps ∈ (configured 4 0 2 (-1)).map (storageUpdate twoMounted),
      candidate none ps = true → ps.rank ≤ 0 := by
    decide +kernel
  exact absurd hpositive (not_lt.mpr (hall ps hps hfound))

/-- With the priorities of the source the external storage is taken. -/
theorem selectsMax_external : SelectsMax twoMounted storages storageKeyAuto none := by
  refine (selectsMax_iff twoMounted storages storageKeyAuto none (.inl rfl)).mpr ?_
  intro _
  exact ⟨storageUpdate twoMounted (storageEntry .external none 3),
    List.mem_map_of_mem (by simp [storages]), by decide +kernel, by decide +kernel⟩

end AndroidLearn.Logctl
