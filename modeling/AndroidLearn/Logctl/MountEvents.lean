import AndroidLearn.Logctl.Landing
import AndroidLearn.Logctl.StopAll
import AndroidLearn.Logctl.StopFinal

/-!
# Mount and unmount events

From `logctl.c`: what `handle_local_command_mount` does when the log path is `auto`, an
event handled without another thread in between. An event names a storage; the handler
looks which storage the loggers are on, compares, and stops and starts them again on the
path that it selects.

Which storage the loggers write to is said by their log path: it is the log folder of the
storage (`Mounts.logPathOf`). `logctl` goes by a pointer of its own that it found by the
first mount point which is a prefix of that path, so that the two may differ
(`State.WritesTo`, `State.logging`). The environment answers as it does when the event is
handled; between events it may change, and so may the configuration file.

Theorem: `mountEvents_iff` says when an unmount event does not leave the loggers started
on the storage that goes away, and a mount event restarts them only for a storage of
higher priority. `run_startedOn` follows a start to its log path, `mountKnown_after` and
`mountKnown_calls` say when an event comes to a start, and `eventOk_iff` puts them
together for one event.
-/

namespace AndroidLearn.Logctl

open Thread Run Conf

/-- The state after a program. -/
abbrev after {α : Type} (p : Program α) (s : State) : State := (p.run Call.exec s).2

/-- The log folder of a storage, if it has a mount point. -/
def Mounts.logPathOf (e : Mounts) (S : StorageKey) : Option CString :=
  if S = .internal then some logDir
  else (e.getmountpoint S).map fun mountpoint => mountpoint ++ '/' :: logFolderName

/-- The log path in use is that of the storage. -/
def State.WritesTo (s : State) (S : StorageKey) : Prop :=
  s.env.toMounts.logPathOf S = some s.loggersGlobalLogpath

/-- The loggers are started, on the storage. -/
def State.StartedOn (s : State) (S : StorageKey) : Prop :=
  s.loggersGlobalState = .started ∧ s.WritesTo S

/-! ## What holds of every state -/

/-- A logger is started or stopped. -/
structure Logger.Decided (l : Logger) : Prop where
  state : (l.state.started || l.state.stopped) = true
  logState : (l.logState.started || l.logState.stopped) = true

section Decided

variable {l : Logger} {e : Env} {p : CString}

/-- A stop leaves a logger decided. -/
theorem Logger.Decided.logStop (h : (l.state.started || l.state.stopped) = true)
    (h' : (l.logState.started || l.logState.stopped) = true) : l.logStop.Decided := by
  unfold Logger.logStop
  dsimp only
  split
  · exact ⟨h, rfl⟩
  · exact ⟨h, h'⟩

theorem Logger.Decided.stopped (h : l.Decided) : l.stopped.Decided := by
  unfold Logger.stopped
  split
  · exact Logger.Decided.logStop rfl h.logState
  · exact h

theorem Logger.Decided.logStart (h : (l.state.started || l.state.stopped) = true)
    (h' : (l.logState.started || l.logState.stopped) = true) : (l.logStart e p).2.Decided := by
  unfold Logger.logStart
  dsimp only
  split
  · split
    · split
      · exact ⟨h, rfl⟩
      · exact ⟨h, rfl⟩
    · exact ⟨h, rfl⟩
  · exact ⟨h, h'⟩

theorem Logger.Decided.started (h : l.Decided) : (l.started e p).2.Decided := by
  unfold Logger.started
  dsimp only
  split
  · exact Logger.Decided.logStart rfl h.logState
  · exact ⟨h.state, h.logState⟩

/-- Asking for the state leaves it decided. -/
theorem Logger.Decided.logUpdateState (h : l.Decided) :
    ((l.logUpdateState e).started || (l.logUpdateState e).stopped) = true := by
  unfold Logger.logUpdateState
  split
  · exact h.logState
  · exact h.state

theorem Call.turn_decided (c : Call) (s : State) (h : l.Decided) : (c.turn s l).Decided := by
  cases c with
  | loggersSetConfigs name g =>
    simp only [turn]
    split
    · exact ⟨h.state, h.logState⟩
    · exact h
  | loggersUpdateState =>
    simp only [turn]
    split
    · exact ⟨h.logUpdateState, h.logState⟩
    · exact h
  | loggersClearErrors =>
    simp only [turn]
    split
    · exact ⟨h.state, h.logState⟩
    · exact h
  | loggersStop => exact h.stopped
  | loggersStart storageName =>
    simp only [turn]
    split
    · exact h
    · exact h.started
  | _ => exact h

end Decided

/-- What every call keeps, and the start sets up. -/
structure State.Sound (s : State) : Prop where
  decided : ∀ l ∈ s.loggers, l.Decided
  table : IsTable s.storages

/-- Every call keeps the state sound. -/
theorem Call.exec_sound (c : Call) {s : State} (h : s.Sound) : (c.exec s).2.Sound where
  decided := by
    intro l hl
    rw [c.exec_loggers, List.mem_map] at hl
    obtain ⟨l₀, hl₀, rfl⟩ := hl
    exact c.turn_decided s (h.decided l₀ hl₀)
  table := c.exec_isTable h.table

theorem after_sound {α : Type} (p : Program α) {s : State} (h : s.Sound) : (after p s).Sound :=
  Prog.run_keeps _ (fun c _ hs => c.exec_sound hs) p h

/-- The state is sound as the program starts. -/
theorem State.init_sound (e : Env) (confFile : Option PairList) : (State.init e confFile).Sound where
  decided := by
    intro l hl
    change l ∈ Logctl.loggers at hl
    simp only [Logctl.loggers, List.mem_cons, List.not_mem_nil, or_false] at hl
    rcases hl with rfl | rfl | rfl | rfl | rfl | rfl <;> exact ⟨rfl, rfl⟩
  table := by
    have hcleared : ∀ ps : Storage, (storageUpdate e.toMounts
        { ps with
          excluded := ⟨false, false, false, false⟩
          realLimitedSizeMb := 0
          realReservedSizeMb := 0
          limitedSizeMb := 0
          reservedSizeMb := 0
          freeSizeMb := 0 }).name = ps.name := fun ps => storageUpdate_name _ _
    refine ⟨?_, fun qs hqs hname => ?_⟩
    · change (storageInit e.toMounts Logctl.storages).map Storage.name = _
      rw [storageInit, List.map_map, ← isTable_storages.names]
      exact List.map_congr_left fun ps _ => hcleared ps
    · obtain ⟨ps, hps, rfl⟩ := List.mem_map.mp hqs
      rw [hcleared] at hname
      rw [storageUpdate_mountpoint, if_pos hname]
      exact isTable_storages.internal ps hps hname

/-- It is sound after every run. -/
theorem Sys.run_sound (e : Env) (confFile : Option PairList) (vs : List Event) :
    (vs.foldl Sys.step (Sys.init e confFile)).mem.Sound :=
  AllSteps.invariant (I := fun y : Sys => y.mem.Sound) (G := fun _ _ => True)
    (fun y v hy _ => y.step_keeps v hy (fun c _ hs => c.exec_sound hs) (fun _ _ hs => ⟨hs.1, hs.2⟩)
      fun _ _ hs => ⟨hs.1, hs.2⟩)
    (State.init_sound e confFile) (AllSteps.of_invariant (I := fun _ => True)
      (fun _ _ _ => ⟨trivial, trivial⟩) trivial)

/-! ## The log files of a start -/

/-- What decides about a logger's log file. -/
def Logger.identity (l : Logger) : LoggerName × Bool × CString := (l.name, l.enabled, l.logFilename)

/-- The log files once the loggers have been started into the log path. -/
def logFiles (e : Env) (logPath : CString) (t : List Logger) : CString :=
  loggersGetLogFiles (t.map fun l => (l.started e logPath).2)

section LogFiles

variable {e : Env} {p : CString} {t t' : List Logger}

/-- The file a logger writes follows from what it is. -/
theorem started_logFilename {l l' : Logger} (h : l.identity = l'.identity) :
    (l.started e p).2.logFilename = (l'.started e p).2.logFilename := by
  unfold Logger.identity at h
  simp only [Prod.mk.injEq] at h
  obtain ⟨hname, henabled, hfile⟩ := h
  unfold Logger.started Logger.logStart
  dsimp only
  rw [hname, henabled]
  split
  · split
    · split
      · split <;> rfl
      · exact hfile
    · rfl
  · exact hfile

theorem logFiles_congr (h : t.map Logger.identity = t'.map Logger.identity) :
    logFiles e p t = logFiles e p t' := by
  have hfiles : ((t.map fun l => (l.started e p).2).filter fun l => l.enabled).map
      Logger.logFilename =
      ((t'.map fun l => (l.started e p).2).filter fun l => l.enabled).map Logger.logFilename := by
    induction t generalizing t' with
    | nil => rw [List.map_eq_nil_iff.mp h.symm]
    | cons l t ih =>
      cases t' with
      | nil => exact absurd h (by simp)
      | cons l' t' =>
        obtain ⟨hl, ht⟩ : l.identity = l'.identity ∧
            t.map Logger.identity = t'.map Logger.identity := by simpa using h
        have henabled : l.enabled = l'.enabled := congrArg (·.2.1) hl
        simp only [List.map_cons, List.filter_cons, Logger.started_enabled, henabled]
        split
        · rw [List.map_cons, List.map_cons, started_logFilename hl, ih ht]
        · exact ih ht
  unfold logFiles loggersGetLogFiles
  rw [hfiles]

theorem identity_map {f : Logger → Logger} (hf : ∀ l, (f l).identity = l.identity)
    (t : List Logger) : (t.map f).map Logger.identity = t.map Logger.identity := by
  rw [List.map_map]
  exact List.map_congr_left fun l _ => hf l

theorem identity_update (e : Env) (t : List Logger) :
    (loggersUpdateState e t).map Logger.identity = t.map Logger.identity :=
  identity_map (fun l => by split <;> rfl) t

theorem identity_clear (t : List Logger) :
    (loggersClearErrors t).map Logger.identity = t.map Logger.identity :=
  identity_map (fun l => by split <;> rfl) t

theorem identity_stop (t : List Logger) :
    (loggersStop t).map Logger.identity = t.map Logger.identity := by
  refine identity_map (fun l => ?_) t
  unfold Logger.stopped Logger.logStop
  dsimp only
  split
  · split <;> rfl
  · rfl

end LogFiles

/-! ## A start, taken apart -/

/-- The loggers as `loggers_global_start` finds them. -/
def State.found (s : State) : List Logger :=
  loggersUpdateState s.env (loggersClearErrors s.loggers)

/-- The state in which `loggers_global_start` calls `loggers_start`. -/
def State.starting (s : State) : State :=
  let s := { s with loggersGlobalState := .changing, loggers := s.found }
  if loggersLoggingOne s.loggers then s.loggersStop else s

section Start

variable {s : State} {path : CString} {S : StorageKey}

theorem State.starting_env : s.starting.env = s.env := by
  unfold starting
  dsimp only
  split <;> rfl

theorem State.starting_storages : s.starting.storages = s.storages := by
  unfold starting
  dsimp only
  split <;> rfl

theorem State.starting_identity :
    s.starting.loggers.map Logger.identity = s.loggers.map Logger.identity := by
  have hfound : s.found.map Logger.identity = s.loggers.map Logger.identity := by
    rw [found, identity_update, identity_clear]
  unfold starting
  dsimp only
  split
  · rw [State.loggersStop, identity_stop, hfound]
  · exact hfound

/-- Loggers that log are stopped first. -/
theorem stopLeftovers_after (s : State) :
    after stopLeftovers s = if loggersLoggingOne s.loggers then s.loggersStop else s := by
  unfold after stopLeftovers onlyIf
  rw [perform, Prog.invoke_bind, Prog.run_call]
  change (Prog.run Call.exec (if loggersLoggingOne s.loggers = true then _ else _) s).2 = _
  split <;> rfl

/-- A start when not all loggers log. -/
theorem startUnlessLogging_run (h : loggersLoggingAll s.loggers = false) :
    (startUnlessLogging (some path)).run Call.exec s =
      (after stopLeftovers s).loggersStart path := by
  unfold startUnlessLogging
  rw [perform, Prog.invoke_bind, Prog.run_call]
  change Prog.run Call.exec (if loggersLoggingAll s.loggers = true then _ else _) s = _
  rw [if_neg (by rw [h]; simp), Prog.run_bind]
  rfl

theorem globalStart_after (h : loggersLoggingAll s.found = false) :
    after (loggersGlobalStart (some path)) s =
      { (s.starting.loggersStart path).2 with
        loggersGlobalState :=
          if (s.starting.loggersStart path).1 < 0 then .stopped else .started } := by
  have hstarting : s.starting =
      after stopLeftovers { s with loggersGlobalState := .changing, loggers := s.found } := by
    rw [stopLeftovers_after]
    rfl
  have hrun : (startUnlessLogging (some path)).run Call.exec
      { s with loggersGlobalState := .changing, loggers := s.found } = _ := startUnlessLogging_run h
  rw [hstarting, ← hrun]
  unfold after loggersGlobalStart
  simp only [perform, Prog.invoke_bind, Prog.run_call, Prog.run_bind]
  rfl

theorem globalStop_after (s : State) : after loggersGlobalStop s =
    { { s with loggers := loggersUpdateState s.env s.loggers }.loggersStop with
      loggersGlobalState := .stopped } := rfl

/-- Loggers whose files cannot be had are stopped. -/
theorem checkLogFiles_after (s : State) : after checkLogFiles s =
    if (loggersGetLogFiles s.loggers).head? = some '/' then s else after loggersGlobalStop s := by
  have hfiles : (checkLogFiles).run Call.exec s =
      (if (if loggersGetLogFiles s.loggers = [] then noLogFileMessage
          else loggersGetLogFiles s.loggers).head? = some '/' then
        return (if loggersGetLogFiles s.loggers = [] then noLogFileMessage
          else loggersGetLogFiles s.loggers)
      else do
        loggersGlobalStop
        return (if loggersGetLogFiles s.loggers = [] then noLogFileMessage
          else loggersGetLogFiles s.loggers) : Program CString).run Call.exec s := rfl
  have hhead : (if loggersGetLogFiles s.loggers = [] then noLogFileMessage
      else loggersGetLogFiles s.loggers).head? = some '/' ↔
      (loggersGetLogFiles s.loggers).head? = some '/' := by
    split
    next h =>
      rw [h]
      decide
    next => exact Iff.rfl
  unfold after
  rw [hfiles]
  simp only [hhead]
  split
  · rfl
  · rw [Prog.run_bind]
    rfl

/-- The state in which `handle_local_command_run` starts the loggers. -/
def State.cleared (s : State) : State := { s with stopByShutdown := false, loggersErrorMessage := [] }

/-- What `:run:` comes to. -/
theorem run_after (hpath : path ≠ []) : after (handleLocalCommandRun path) s =
    if (after (loggersGlobalStart (some path)) s.cleared).loggersGlobalState = .stopped then
      after (loggersGlobalStart (some path)) s.cleared
    else after checkLogFiles (after (loggersGlobalStart (some path)) s.cleared) := by
  let reply : CString → Program CString := fun buffer =>
    return if buffer = [] then "N/A".toList else buffer
  have hrun : (handleLocalCommandRun path).run Call.exec s =
      (if (after (loggersGlobalStart (some path)) s.cleared).loggersGlobalState = .stopped then
        perform .loggersGetLastError >>= reply
      else checkLogFiles >>= reply).run Call.exec
        (after (loggersGlobalStart (some path)) s.cleared) := by
    unfold after handleLocalCommandRun
    rw [if_neg hpath]
    simp only [perform, Prog.invoke_bind, Prog.run_call, Prog.run_bind]
    rfl
  unfold after at hrun ⊢
  rw [hrun]
  generalize (Prog.run Call.exec (loggersGlobalStart (some path)) s.cleared).2 = s₁
  split
  · rfl
  · rw [Prog.run_bind]
    rfl

/-- A start by path succeeds where it lands, if there is a log file. -/
theorem run_startedOn (hs : s.Sound) (hpath : path ≠ []) (h : loggersLoggingAll s.found = false) :
    (after (handleLocalCommandRun path) s).StartedOn S ↔
      ∃ Z logPath, landing s.env.toMounts s.storages path = some (Z, logPath) ∧
        s.env.toMounts.logPathOf S = some logPath ∧
        (logFiles s.env logPath s.loggers).head? = some '/' := by
  have htable : IsTable s.cleared.starting.storages := by
    rw [State.starting_storages]
    exact hs.table
  have hland := @State.loggersStart_landing s.cleared.starting path htable
  have hcleared : s.cleared.storages = s.storages ∧ s.cleared.env = s.env := ⟨rfl, rfl⟩
  rw [State.starting_storages, State.starting_env, hcleared.1, hcleared.2] at hland
  have hstart := @globalStart_after s.cleared path h
  have henv : (s.cleared.starting.loggersStart path).2.env = s.env := by
    rw [State.loggersStart_env, State.starting_env, hcleared.2]
  rw [run_after hpath, hstart]
  cases hcase : landing s.env.toMounts s.storages path with
  | none =>
    rw [hcase] at hland
    dsimp only at hland ⊢
    rw [if_pos hland, if_pos rfl]
    simp [State.StartedOn]
  | some r =>
    obtain ⟨Z, logPath⟩ := r
    rw [hcase] at hland
    obtain ⟨hret, -, hlogpath, hloggers⟩ := hland
    have hfiles : loggersGetLogFiles (s.cleared.starting.loggersStart path).2.loggers =
        logFiles s.env logPath s.loggers := by
      rw [hloggers]
      exact logFiles_congr State.starting_identity
    rw [hret]
    dsimp only
    rw [if_neg (by decide), if_neg (by simp), checkLogFiles_after]
    dsimp only
    rw [hfiles]
    -- a start without log files is stopped again
    split
    next hslash =>
      unfold State.StartedOn State.WritesTo
      dsimp only
      rw [henv, hlogpath]
      constructor
      · intro h'
        exact ⟨Z, logPath, rfl, h'.2, hslash⟩
      · intro h'
        obtain ⟨Z', p, hp, hpathOf, -⟩ := h'
        cases hp
        exact ⟨rfl, hpathOf⟩
    next hslash =>
      constructor
      · intro h'
        exact absurd h'.1 (by simp [globalStop_after])
      · intro h'
        obtain ⟨Z', p, hp, -, hfile⟩ := h'
        cases hp
        exact absurd hfile hslash

end Start

/-! ## No logger is seen to log -/

section LoggingAll

variable {e : Env} {t : List Logger}

/-- If all log, one does. -/
theorem loggingAll_mem (h : loggersLoggingAll t = true) :
    ∃ l ∈ t, l.enabled = true ∧ l.state.stopped = false ∧ l.state.logging = true := by
  unfold loggersLoggingAll at h
  obtain ⟨hany, hall⟩ := Bool.and_eq_true_iff.mp h
  obtain ⟨l, hl, henabled⟩ := List.any_eq_true.mp hany
  have hlog := List.all_eq_true.mp hall l hl
  rw [henabled] at hlog
  exact ⟨l, hl, henabled, by simpa using hlog⟩

/-- Once the loggers have been stopped, not all of them log. -/
theorem loggingAll_stopped (e : Env) (t : List Logger) :
    loggersLoggingAll (loggersUpdateState e (loggersClearErrors (loggersStop t))) = false := by
  rw [Bool.eq_false_iff]
  intro h
  obtain ⟨l, hl, henabled, hstopped, -⟩ := loggingAll_mem h
  obtain ⟨l₂, hl₂, rfl⟩ := List.mem_map.mp hl
  obtain ⟨l₁, hl₁, rfl⟩ := List.mem_map.mp hl₂
  obtain ⟨l₀, -, rfl⟩ := List.mem_map.mp hl₁
  cases h₀ : l₀.enabled with
  | false =>
    have hstill : l₀.stopped = l₀ := by rw [Logger.stopped, if_neg (by rw [h₀]; simp)]
    simp [hstill, h₀] at henabled
  | true =>
    have hstop : l₀.stopped.enabled = true := by rw [Logger.stopped_enabled, h₀]
    have hclear : l₀.stopped.clearErrors.enabled = true := hstop
    rw [if_pos hstop, if_pos hclear] at hstopped
    dsimp only at hstopped
    unfold Logger.logUpdateState at hstopped
    split at hstopped
    -- `dumplastkmsg` keeps its own state, and the others are looked at again
    next hname =>
      unfold Logger.clearErrors Logger.stopped Logger.logStop at hstopped hname
      rw [if_pos h₀] at hstopped hname
      dsimp only at hstopped hname
      split at hname
      next hname' =>
        rw [if_pos hname'] at hstopped
        exact absurd hstopped (by simp [LoggerState.onlyStopped])
      next hname' => exact absurd hname hname'
    next =>
      unfold Logger.clearErrors Logger.stopped at hstopped
      rw [if_pos h₀] at hstopped
      simp [loggerCommonUpdateState] at hstopped

/-- Where each logger is started or stopped, all log only if one does. -/
theorem loggingOne_of_all (ht : ∀ l ∈ t, l.Decided) (h : loggersLoggingAll t = true) :
    loggersLoggingOne t = true := by
  obtain ⟨l, hl, henabled, hstopped, hlogging⟩ := loggingAll_mem h
  have hstarted := (ht l hl).state
  rw [hstopped, Bool.or_false] at hstarted
  rw [loggersLoggingOne, List.any_eq_true]
  exact ⟨l, hl, by simp [henabled, hstarted, hlogging]⟩

/-- Looking again changes nothing. -/
theorem loggingOne_again (e : Env) (t : List Logger) :
    loggersLoggingOne (loggersUpdateState e (loggersClearErrors (loggersUpdateState e t))) =
      loggersLoggingOne (loggersUpdateState e t) := by
  unfold loggersLoggingOne
  conv_lhs => rw [loggersUpdateState, loggersClearErrors, List.map_map, List.any_map]
  rw [Bool.eq_iff_iff, List.any_eq_true, List.any_eq_true]
  refine exists_congr fun l => and_congr_right fun hl => ?_
  obtain ⟨l₀, -, rfl⟩ := List.mem_map.mp hl
  dsimp only [Function.comp]
  cases h₀ : l₀.enabled with
  | false => simp [h₀]
  | true =>
    by_cases hname : l₀.name = .dumplastkmsg
    · simp [Logger.clearErrors, Logger.logUpdateState, hname]
    · simp [Logger.clearErrors, Logger.logUpdateState, hname, loggerCommonUpdateState]

end LoggingAll

/-! ## The event -/

/-- The configured log path. -/
def State.logPath (s : State) : CString := (confFind s.db (sysKey keyLogPath)).getD defaultLogPath

/-- Are the loggers started by themselves? -/
def State.autorun (s : State) : Bool :=
  isValueTrue ((confFind s.db (sysKey keyAutoStart)).getD defaultAutoStart)

/-- The storage that `logctl` takes to be logged to, if anything is being logged. -/
def State.logging (s : State) : Option StorageKey :=
  if loggersLoggingOne s.loggers then s.loggersGlobalStorage else none

/-- Does the event change the log path? -/
def State.changes (s : State) (mounted : Bool) (S : StorageKey) : Bool :=
  if loggersLoggingOne s.loggers then
    if mounted then decide (0 < storageComparePriority s.storages (some S) s.logging)
    else match s.logging with
      | some name => decide (S = name)
      | none => true
  else s.autorun

/-- The state as the event finds it, once the loggers have been looked at. -/
def State.seen (s : State) : State := { s with loggers := loggersUpdateState s.env s.loggers }

/-- The state in which the event selects a path. -/
def State.halted (s : State) : State :=
  if loggersLoggingOne s.loggers then after loggersGlobalStop s else s

section Event

variable {s : State} {mounted : Bool} {S : StorageKey} {buffer : CString}

/-- The storage the loggers log to. -/
theorem loggingStorage_run (hs : s.Sound) :
    loggingStorage.run Call.exec s = (s.logging, s) := by
  have hstorage : (s.loggersGlobalStorage.bind fun name =>
      s.storages.find? fun ps => ps.name = name).map Storage.name = s.loggersGlobalStorage := by
    cases hname : s.loggersGlobalStorage with
    | none => rfl
    | some name =>
      obtain ⟨ps, -, hps, hfind⟩ := hs.table.find name
      rw [Option.bind_some, hfind, Option.map_some, hps]
  unfold loggingStorage State.logging
  rw [perform, Prog.invoke_bind, Prog.run_call]
  change Prog.run Call.exec (if loggersLoggingOne s.loggers = true then _ else _) s = _
  split
  · rw [← hstorage]
    rfl
  · rfl

/-- Does the event call for a change? -/
theorem mountChange_run :
    (mountChange mounted s.autorun S s.logging).run Call.exec s = (s.changes mounted S, s) := by
  unfold mountChange State.changes
  rw [perform, Prog.invoke_bind, Prog.run_call]
  change Prog.run Call.exec (if loggersLoggingOne s.loggers = true then _ else _) s = _
  split
  · split
    · rfl
    · cases s.logging <;> rfl
  · rfl

/-- What a change comes to: a stop, a selection, and a start. -/
theorem mountSwitch_after : after (mountSwitch mounted buffer S) s =
    after (handleLocalCommandRun
      (s.halted.select buffer (if mounted then none else some S)).buffer)
      { s.halted with
        storages := (s.halted.select buffer (if mounted then none else some S)).storages } := by
  have hhalted : after (onlyIf (loggersLoggingOne s.loggers = true) loggersGlobalStop) s =
      s.halted := by
    unfold onlyIf State.halted
    split <;> rfl
  rw [← hhalted]
  unfold after mountSwitch
  simp only [perform, Prog.invoke_bind, Prog.run_call, Prog.run_bind]
  rfl

/-- An event of a storage that is known. -/
theorem mountKnown_after (hs : s.seen.Sound) (hauto : s.logPath = storageKeyAuto) :
    after (mountKnown mounted S) s =
      if s.stopByShutdown = false ∧ s.seen.changes mounted S = true then
        after (mountSwitch mounted storageKeyAuto S) s.seen
      else s.seen := by
  have hlogging := loggingStorage_run hs
  have hchange := @mountChange_run s.seen mounted S
  have hrun : (mountKnown mounted S).run Call.exec s =
      (do
        let logging ← loggingStorage
        let shutdown ← perform .getStopByShutdown
        if shutdown then return ()
        else if s.logPath = storageKeyAuto then
          mountAuto mounted s.autorun s.logPath S logging
        else mountFixed mounted s.autorun s.logPath S logging : Program Unit).run Call.exec
          s.seen := rfl
  unfold after
  rw [hrun, Prog.run_bind, hlogging, perform, Prog.invoke_bind, Prog.run_call]
  change (Prog.run Call.exec (if s.stopByShutdown = true then _ else _) s.seen).2 = _
  rw [hauto, if_pos rfl]
  cases s.stopByShutdown with
  | true => rfl
  | false =>
    rw [if_neg (by simp), mountAuto, Prog.run_bind]
    change (Prog.run Call.exec (onlyIf ((Prog.run Call.exec (mountChange mounted s.seen.autorun S
      s.seen.logging) s.seen).1 = true) (mountSwitch mounted storageKeyAuto S)) (Prog.run Call.exec
        (mountChange mounted s.seen.autorun S s.seen.logging) s.seen).2).2 = _
    rw [hchange, onlyIf]
    cases s.seen.changes mounted S <;> rfl

/-! ### Changing the path -/

/-- The path that an unmount event starts with: that of the best other storage, or, if
there is none, `auto` as it was. -/
def fallback (e : Mounts) (t : List Storage) (S : StorageKey) : CString :=
  match storageSelected e t storageKeyAuto (some S) with
  | some X => (dirSelectLogPath e X).2
  | none => storageKeyAuto

/-- A start with that path leads back to the storage that goes away. -/
def State.LeadsBack (s : State) (S : StorageKey) : Prop :=
  ∃ Z logPath, landing s.env.toMounts (s.storages.map (storageUpdate s.env.toMounts))
      (fallback s.env.toMounts s.storages S) = some (Z, logPath) ∧
    s.env.toMounts.logPathOf S = some logPath ∧
    (logFiles s.env logPath s.loggers).head? = some '/'

/-- The selection without the storage of the event. -/
theorem select_fallback (s : State) (S : StorageKey) :
    (s.select storageKeyAuto (some S)).buffer = fallback s.env.toMounts s.storages S ∧
      (s.select storageKeyAuto (some S)).storages =
        s.storages.map (storageUpdate s.env.toMounts) := by
  unfold State.select fallback storageSelectLoggingPath storageSelected
  rw [if_pos (.inl rfl), if_pos (.inl rfl)]
  dsimp only
  cases (storageSelectBest (s.storages.map (storageUpdate s.env.toMounts)) (some S)).1 with
  | none => exact ⟨rfl, rfl⟩
  | some X => exact ⟨rfl, rfl⟩

/-- A selection leaves a path. -/
theorem select_ne_nil (s : State) (excludedName : Option StorageKey) :
    (s.select storageKeyAuto excludedName).buffer ≠ [] := by
  have hpath : ∀ X, (dirSelectLogPath s.env.toMounts X).2 ≠ [] := by
    intro X
    unfold dirSelectLogPath
    by_cases hX : X = .internal
    · rw [if_pos hX]
      exact List.cons_ne_nil _ _
    · rw [if_neg hX]
      exact List.append_ne_nil_of_right_ne_nil _ (List.cons_ne_nil _ _)
  unfold State.select
  cases hX : storageSelected s.env.toMounts s.storages storageKeyAuto excludedName with
  | some X =>
    rw [storageSelectLoggingPath_eq hX]
    exact hpath X
  | none =>
    rw [(storageSelectLoggingPath_none hX).2]
    exact List.cons_ne_nil _ _

/-- A stop leaves the storages and the loggers what they are. -/
theorem State.halted_eq (s : State) : s.halted.env = s.env ∧ s.halted.storages = s.storages ∧
    s.halted.loggers.map Logger.identity = s.loggers.map Logger.identity := by
  unfold halted
  split
  · rw [globalStop_after]
    refine ⟨rfl, rfl, ?_⟩
    rw [State.loggersStop, identity_stop, identity_update]
  · exact ⟨rfl, rfl, rfl⟩

/-- It keeps the state sound. -/
theorem State.Sound.halted (hs : s.Sound) : s.halted.Sound := by
  unfold State.halted
  split
  · exact after_sound _ hs
  · exact hs

/-- Where the path is about to change, not all loggers log. -/
theorem loggingAll_halted (hs : s.seen.Sound) (t : List Storage) :
    loggersLoggingAll ({ s.seen.halted with storages := t } : State).found = false := by
  unfold State.halted
  split
  -- either they have just been stopped, or not even one was logging
  next => exact loggingAll_stopped _ _
  next hone =>
    rw [Bool.eq_false_iff]
    intro hall
    have hsound := Call.loggersUpdateState.exec_sound (Call.loggersClearErrors.exec_sound hs)
    have hagain := loggingOne_of_all hsound.decided hall
    exact hone ((loggingOne_again s.env s.loggers).symm.trans hagain)

/-- The loggers are started on the storage again when the selection leads back to it. -/
theorem switch_startedOn (hs : s.seen.Sound) :
    (after (mountSwitch false storageKeyAuto S) s.seen).StartedOn S ↔ s.seen.LeadsBack S := by
  obtain ⟨henv, hstorages, hidentity⟩ := s.seen.halted_eq
  obtain ⟨hbuffer, htable⟩ := select_fallback s.seen.halted S
  rw [henv, hstorages] at hbuffer htable
  rw [mountSwitch_after, if_neg (by simp), hbuffer, htable]
  have hsound : ({ s.seen.halted with
      storages := s.seen.storages.map (storageUpdate s.seen.env.toMounts) } : State).Sound := by
    refine ⟨hs.halted.decided, ?_⟩
    have hupdate := hs.table.update s.seen.env.toMounts fun _ => true
    simp only [if_true] at hupdate
    exact hupdate
  have hne := hbuffer ▸ select_ne_nil s.seen.halted (some S)
  rw [run_startedOn hsound hne (loggingAll_halted hs _)]
  dsimp only
  rw [henv]
  unfold State.LeadsBack
  refine exists_congr fun Z => exists_congr fun logPath => and_congr_right fun _ => ?_
  rw [logFiles_congr hidentity]

/-! ### The calls of the event -/

/-- A start calls `loggers_start`. -/
theorem startUnlessLogging_calls (s : State) (path : CString)
    (h : loggersLoggingAll s.loggers = false) :
    .loggersStart path ∈ (startUnlessLogging (some path)).calls Call.exec s := by
  unfold startUnlessLogging
  rw [perform, Prog.invoke_bind, Prog.calls_call]
  change _ ∈ _ :: Prog.calls Call.exec (if loggersLoggingAll s.loggers = true then _ else _) s
  rw [if_neg (by rw [h]; simp), Prog.calls_bind]
  exact List.mem_cons_of_mem _ (List.mem_append_right _ (List.mem_singleton.mpr rfl))

theorem run_calls (s : State) {path : CString} (hpath : path ≠ [])
    (h : loggersLoggingAll s.found = false) :
    .loggersStart path ∈ (handleLocalCommandRun path).calls Call.exec s := by
  have hstart : .loggersStart path ∈ (loggersGlobalStart (some path)).calls Call.exec s.cleared := by
    unfold loggersGlobalStart
    simp only [perform, Prog.invoke_bind, Prog.calls_call, Prog.calls_bind]
    refine List.mem_cons_of_mem _ (List.mem_cons_of_mem _ (List.mem_cons_of_mem _ ?_))
    exact List.mem_append_left _ (startUnlessLogging_calls _ path h)
  unfold handleLocalCommandRun
  rw [if_neg hpath]
  simp only [perform, Prog.invoke_bind, Prog.calls_call, Prog.calls_bind]
  refine List.mem_cons_of_mem _ (List.mem_cons_of_mem _ ?_)
  exact List.mem_append_left _ hstart

/-- A change stops the loggers, and starts them. -/
theorem switch_calls (hs : s.seen.Sound) (hone : loggersLoggingOne s.seen.loggers = true) :
    .loggersStop ∈ (mountSwitch mounted storageKeyAuto S).calls Call.exec s.seen ∧
      ∃ path, .loggersStart path ∈
        (mountSwitch mounted storageKeyAuto S).calls Call.exec s.seen := by
  have hstop : .loggersStop ∈ loggersGlobalStop.calls Call.exec s.seen := by
    simp [loggersGlobalStop]
  have hhalted : s.seen.halted = after loggersGlobalStop s.seen := by
    rw [State.halted, if_pos hone]
  have hcalls : (mountSwitch mounted storageKeyAuto S).calls Call.exec s.seen =
      .loggersLoggingOne :: (loggersGlobalStop.calls Call.exec s.seen ++
        .storageSelectLoggingPath storageKeyAuto (if mounted then none else some S) ::
          ((handleLocalCommandRun (s.seen.halted.select storageKeyAuto
              (if mounted then none else some S)).buffer).calls Call.exec
            { s.seen.halted with
              storages := (s.seen.halted.select storageKeyAuto
                (if mounted then none else some S)).storages } ++ [])) := by
    have honly : onlyIf (loggersLoggingOne s.seen.loggers = true) loggersGlobalStop =
        loggersGlobalStop := if_pos hone
    rw [hhalted, ← honly]
    unfold mountSwitch
    simp only [perform, Prog.invoke_bind, Prog.calls_call, Prog.calls_bind]
    rfl
  have hrun := run_calls { s.seen.halted with
      storages := (s.seen.halted.select storageKeyAuto
        (if mounted then none else some S)).storages }
    (select_ne_nil s.seen.halted (if mounted then none else some S)) (loggingAll_halted hs _)
  rw [hcalls]
  refine ⟨List.mem_cons_of_mem _ (List.mem_append_left _ hstop), _, List.mem_cons_of_mem _
    (List.mem_append_right _ (List.mem_cons_of_mem _ (List.mem_append_left _ hrun)))⟩

/-- Which calls an event makes. -/
theorem mountKnown_calls (hs : s.seen.Sound) (hauto : s.logPath = storageKeyAuto) :
    ∃ before, (∀ c ∈ before, c.touches = false) ∧
      (mountKnown mounted S).calls Call.exec s = before ++
        if s.stopByShutdown = false ∧ s.seen.changes mounted S = true then
          (mountSwitch mounted storageKeyAuto S).calls Call.exec s.seen
        else [] := by
  have hlogging : Untouching loggingStorage := by
    refine ⟨rfl, fun one => ?_⟩
    cases one
    · trivial
    · exact ⟨rfl, fun _ => trivial⟩
  have hchange : Untouching (mountChange mounted s.seen.autorun S s.seen.logging) := by
    refine ⟨rfl, fun one => ?_⟩
    cases one
    · trivial
    · cases mounted
      · trivial
      · exact ⟨rfl, fun _ => trivial⟩
  have hrun := loggingStorage_run hs
  have hchanges := @mountChange_run s.seen mounted S
  have hcalls : (mountKnown mounted S).calls Call.exec s =
      .dbGet (sysKey keyLogPath) :: .dbGet (sysKey keyAutoStart) :: .loggersUpdateState ::
        (loggingStorage.calls Call.exec s.seen ++
          (do
            let shutdown ← perform .getStopByShutdown
            if shutdown then return ()
            else if s.logPath = storageKeyAuto then
              mountAuto mounted s.autorun s.logPath S (loggingStorage.run Call.exec s.seen).1
            else mountFixed mounted s.autorun s.logPath S (loggingStorage.run Call.exec s.seen).1
              : Program Unit).calls Call.exec (loggingStorage.run Call.exec s.seen).2) := by
    unfold mountKnown
    simp only [perform, Prog.invoke_bind, Prog.calls_call, Prog.calls_bind]
    rfl
  -- up to the flag of a shutdown, nothing is started
  have hfirst : ∀ c ∈ .dbGet (sysKey keyLogPath) :: .dbGet (sysKey keyAutoStart) ::
      .loggersUpdateState :: (loggingStorage.calls Call.exec s.seen ++ [.getStopByShutdown]),
      c.touches = false := by
    intro c hc
    simp only [List.mem_cons, List.mem_append, List.not_mem_nil, or_false] at hc
    rcases hc with rfl | rfl | rfl | hc | rfl
    · rfl
    · rfl
    · rfl
    · exact hlogging.calls _ c hc
    · rfl
  rw [hcalls, hrun, perform, Prog.invoke_bind, Prog.calls_call]
  change ∃ before, _ ∧ _ :: _ :: _ :: (_ ++ _ :: Prog.calls Call.exec
    (if s.stopByShutdown = true then _ else _) s.seen) = _
  rw [hauto, if_pos rfl]
  cases s.stopByShutdown with
  | true => exact ⟨_, hfirst, by simp⟩
  | false =>
    rw [if_neg (by simp), mountAuto, Prog.calls_bind]
    change ∃ before, _ ∧ _ :: _ :: _ :: (_ ++ _ :: (Prog.calls Call.exec
      (mountChange mounted s.seen.autorun S s.seen.logging) s.seen ++ Prog.calls Call.exec
      (onlyIf ((Prog.run Call.exec (mountChange mounted s.seen.autorun S s.seen.logging)
        s.seen).1 = true) (mountSwitch mounted storageKeyAuto S)) (Prog.run Call.exec
          (mountChange mounted s.seen.autorun S s.seen.logging) s.seen).2)) = _
    rw [hchanges, onlyIf]
    refine ⟨_ ++ (mountChange mounted s.seen.autorun S s.seen.logging).calls Call.exec s.seen,
      fun c hc => (List.mem_append.mp hc).elim (hfirst c) (hchange.calls _ c), ?_⟩
    cases s.seen.changes mounted S <;> simp

end Event

/-! ## The request -/

/-- The storage that the request names, among the storages as they are. -/
def State.eventStorage (s : State) (buffer : CString) : Option StorageKey :=
  (storageGetByNameOrPath (s.storages.map (storageUpdate s.env.toMounts))
    (datatok (datatok buffer).2).1).map Storage.name

/-- Was the storage mounted, by the flag of the event? -/
def eventMounted (buffer : CString) : Bool := decide ((datatok buffer).1.head? ≠ some '0')

/-- The state once the request has loaded the configuration. -/
def State.loaded (s : State) : State :=
  after (configLoad false []) (Call.storageUpdateAll.exec s).2

/-- The state that the event is decided on. -/
def State.atEvent (s : State) : State := s.loaded.seen

/-- The request has the loggers stopped and started again. -/
def Restarted (s : State) (buffer : CString) : Prop :=
  .loggersStop ∈ (handleLocalCommandMount buffer).calls Call.exec s ∧
    ∃ path, .loggersStart path ∈ (handleLocalCommandMount buffer).calls Call.exec s

/-- The property of one request, when the log path is `auto`: an unmount event for S does
not leave the loggers started on S, and a mount event for S has them started again only
when S has a higher priority than the storage being logged to. -/
def EventOk (s : State) (buffer : CString) : Prop :=
  ∀ S, s.eventStorage buffer = some S → s.atEvent.logPath = storageKeyAuto →
    if eventMounted buffer then
      loggersLoggingOne s.atEvent.loggers = true → Restarted s buffer →
        ∀ L, s.atEvent.WritesTo L →
          priorityOf s.atEvent.storages L < priorityOf s.atEvent.storages S
    else ¬ (after (handleLocalCommandMount buffer) s).StartedOn S

/-- The condition: an unmount event that changes the path does not come back to S, and one
that does not finds the loggers not started on S; a mount event for an S of no higher
priority than the storage being logged to finds it taken for a storage Z such that S has no
positive priority, if it is Z, or the difference of the two, as an `int`, is not positive. -/
def EventFits (s : State) (buffer : CString) : Prop :=
  ∀ S, s.eventStorage buffer = some S → s.atEvent.logPath = storageKeyAuto →
    if eventMounted buffer then
      ∀ Z L, s.atEvent.stopByShutdown = false → s.atEvent.logging = some Z →
        s.atEvent.WritesTo L →
        priorityOf s.atEvent.storages S ≤ priorityOf s.atEvent.storages L →
          if S = Z then priorityOf s.atEvent.storages S ≤ 0
          else priorityOf s.atEvent.storages S - priorityOf s.atEvent.storages Z ≤ 0
    else if s.atEvent.stopByShutdown = false ∧ s.atEvent.changes false S = true then
      ¬ s.atEvent.LeadsBack S
    else ¬ s.atEvent.StartedOn S

section Request

variable {s : State} {S : StorageKey} {buffer : CString}

/-- What `:mount:` comes to. -/
theorem mount_after (h : s.eventStorage buffer = some S) :
    after (handleLocalCommandMount buffer) s =
      after (mountKnown (eventMounted buffer) S) s.loaded := by
  have hstorage : (Call.storageGetByNameOrPath (datatok (datatok buffer).2).1).exec
      (Call.storageUpdateAll.exec s).2 = (some S, (Call.storageUpdateAll.exec s).2) :=
    Prod.ext h rfl
  unfold after handleLocalCommandMount State.loaded after
  simp only [perform, Prog.invoke_bind, Prog.run_call]
  rw [hstorage]
  dsimp only
  rw [Prog.run_bind, Prog.run_bind, Prog.pure_eq, Prog.run_ret, eventMounted]

/-- Which calls it makes. -/
theorem mount_calls (h : s.eventStorage buffer = some S) :
    ∃ before, (∀ c ∈ before, c.touches = false) ∧
      (handleLocalCommandMount buffer).calls Call.exec s =
        before ++ (mountKnown (eventMounted buffer) S).calls Call.exec s.loaded := by
  have hstorage : (Call.storageGetByNameOrPath (datatok (datatok buffer).2).1).exec
      (Call.storageUpdateAll.exec s).2 = (some S, (Call.storageUpdateAll.exec s).2) :=
    Prod.ext h rfl
  refine ⟨.storageUpdateAll :: .storageGetByNameOrPath (datatok (datatok buffer).2).1 ::
    (configLoad false []).calls Call.exec (Call.storageUpdateAll.exec s).2, ?_, ?_⟩
  · refine List.forall_mem_cons.mpr ⟨rfl, List.forall_mem_cons.mpr ⟨rfl, ?_⟩⟩
    exact (untouching_configLoad false []).calls _
  · unfold handleLocalCommandMount State.loaded after
    simp only [perform, Prog.invoke_bind, Prog.calls_call]
    rw [hstorage]
    dsimp only
    rw [Prog.calls_bind, Prog.calls_bind, Prog.pure_eq, Prog.calls_ret, List.append_nil,
      eventMounted, List.cons_append, List.cons_append]

theorem State.Sound.loaded (hs : s.Sound) : s.loaded.Sound :=
  after_sound _ (Call.storageUpdateAll.exec_sound hs)

theorem State.Sound.seen (hs : s.Sound) : s.seen.Sound := Call.loggersUpdateState.exec_sound hs

theorem State.Sound.atEvent (hs : s.Sound) : s.atEvent.Sound := by
  unfold State.atEvent
  exact hs.loaded.seen

theorem State.seen_logPath (s : State) : s.seen.logPath = s.logPath := rfl

theorem State.seen_shutdown (s : State) : s.seen.stopByShutdown = s.stopByShutdown := rfl

/-- When the loggers are started on the storage that goes. -/
theorem unmount_iff (hs : s.Sound) (h : s.eventStorage buffer = some S)
    (hauto : s.atEvent.logPath = storageKeyAuto) (hmounted : eventMounted buffer = false) :
    (after (handleLocalCommandMount buffer) s).StartedOn S ↔
      if s.atEvent.stopByShutdown = false ∧ s.atEvent.changes false S = true then
        s.atEvent.LeadsBack S
      else s.atEvent.StartedOn S := by
  have hloaded := hs.loaded
  rw [mount_after h, hmounted]
  unfold State.atEvent at hauto ⊢
  generalize s.loaded = s₁ at hloaded hauto ⊢
  rw [State.seen_logPath] at hauto
  rw [mountKnown_after hloaded.seen hauto, State.seen_shutdown]
  split
  next hchange => exact switch_startedOn hloaded.seen
  next hsame => exact Iff.rfl

/-- When they are started anew. -/
theorem restarted_iff (hs : s.Sound) (h : s.eventStorage buffer = some S)
    (hauto : s.atEvent.logPath = storageKeyAuto)
    (hone : loggersLoggingOne s.atEvent.loggers = true) :
    Restarted s buffer ↔
      s.atEvent.stopByShutdown = false ∧ s.atEvent.changes (eventMounted buffer) S = true := by
  have hloaded := hs.loaded
  obtain ⟨before, hbefore, hcalls⟩ := mount_calls h
  unfold Restarted
  rw [hcalls]
  unfold State.atEvent at hauto hone ⊢
  generalize s.loaded = s₁ at hloaded hauto hone ⊢
  rw [State.seen_logPath] at hauto
  obtain ⟨before', hbefore', hcalls'⟩ :=
    @mountKnown_calls s₁ (eventMounted buffer) S hloaded.seen hauto
  rw [hcalls', State.seen_shutdown]
  constructor
  · intro hrestart
    -- `loggers_start` is not among the calls that only look
    obtain ⟨-, path, hpath⟩ := hrestart
    by_contra hsame
    rw [if_neg hsame, List.append_nil] at hpath
    rcases List.mem_append.mp hpath with hc | hc
    · exact absurd (hbefore _ hc) (by simp [Call.touches])
    · exact absurd (hbefore' _ hc) (by simp [Call.touches])
  · intro hchange
    obtain ⟨hstop, path, hpath⟩ := @switch_calls s₁ (eventMounted buffer) S hloaded.seen hone
    rw [if_pos hchange]
    exact ⟨List.mem_append_right _ (List.mem_append_right _ hstop), path,
      List.mem_append_right _ (List.mem_append_right _ hpath)⟩

/-- One request is as the property says exactly when the condition holds. -/
theorem eventOk_iff (hs : s.Sound) : EventOk s buffer ↔ EventFits s buffer := by
  unfold EventOk EventFits
  refine forall_congr' fun S => forall_congr' fun h => forall_congr' fun hauto => ?_
  cases hmounted : eventMounted buffer with
  | false =>
    rw [if_neg (by simp), if_neg (by simp), unmount_iff hs h hauto hmounted]
    split <;> rfl
  | true =>
    rw [if_pos rfl, if_pos rfl]
    have htable := hs.atEvent.table
    have hrestarted := restarted_iff hs h hauto
    rw [hmounted] at hrestarted
    clear hauto
    generalize s.atEvent = s₁ at htable hrestarted ⊢
    have hcompare : ∀ Z, storageComparePriority s₁.storages (some S) (some Z) ≤ 0 ↔
        if S = Z then priorityOf s₁.storages S ≤ 0
        else priorityOf s₁.storages S - priorityOf s₁.storages Z ≤ 0 := by
      intro Z
      rw [storageComparePriority_eq htable]
      split <;> rfl
    constructor
    · intro hok Z L hshutdown hlogging hwrites hle
      rw [← hcompare, ← Int32.not_lt]
      intro hpos
      have hone : loggersLoggingOne s₁.loggers = true := by
        by_contra hnone
        rw [State.logging, if_neg hnone] at hlogging
        exact absurd hlogging (by simp)
      have hchange : s₁.changes true S = true := by
        rw [State.changes, if_pos hone, if_pos rfl, hlogging]
        exact decide_eq_true hpos
      have hlt := hok hone ((hrestarted hone).mpr ⟨hshutdown, hchange⟩) L hwrites
      exact absurd hle (Int32.not_le.mpr hlt)
    · intro hfits hone hrestart L hwrites
      obtain ⟨hshutdown, hchange⟩ := (hrestarted hone).mp hrestart
      rw [State.changes, if_pos hone, if_pos rfl] at hchange
      have hpos := of_decide_eq_true hchange
      rw [← Int32.not_le]
      intro hle
      cases hlogging : s₁.logging with
      | none =>
        -- without a second name the comparison is not positive
        rw [hlogging] at hpos
        exact absurd hpos (by simp [storageComparePriority])
      | some Z =>
        rw [hlogging] at hpos
        have hnot := hfits Z L hshutdown hlogging hwrites hle
        rw [← hcompare, ← Int32.not_lt] at hnot
        exact hnot hpos

end Request

/-! ## Sequences of events -/

/-- A mount or unmount event, or a change outside. -/
inductive Happening
  | event (buffer : CString)
  | env (e : Env)
  | confFile (conf : Option PairList)

/-- An event, or a change of the world. -/
def State.happen (s : State) : Happening → State
  | .event buffer => after (handleLocalCommandMount buffer) s
  | .env e => { s with env := e }
  | .confFile conf => { s with confFile := conf }

/-- What is asked of an event; nothing is of a change of the world. -/
def Happening.Ok (s : State) : Happening → Prop
  | event buffer => EventOk s buffer
  | _ => True

/-- The condition on an event. -/
def Happening.Fits (s : State) : Happening → Prop
  | event buffer => EventFits s buffer
  | _ => True

/-- Whatever happens, the state is sound. -/
theorem State.Sound.happen {s : State} (hs : s.Sound) (v : Happening) : (s.happen v).Sound := by
  cases v with
  | event buffer => exact after_sound _ hs
  | env e => exact ⟨hs.decided, hs.table⟩
  | confFile conf => exact ⟨hs.decided, hs.table⟩

/-- `logctl` has started with the path `auto`, and logs to the internal storage. -/
def bootedAuto : State :=
  ((List.replicate 130 Event.command).foldl Sys.step (Sys.init plainEnv
    (some [⟨keyLogPath, storageKeyAuto⟩, ⟨keyAutoStart, "true".toList⟩]))).mem

theorem bootedAuto_atEvent : bootedAuto.eventStorage "1:internal".toList = some .internal ∧
    bootedAuto.atEvent.logPath = storageKeyAuto ∧ bootedAuto.atEvent.stopByShutdown = false ∧
    bootedAuto.atEvent.logging = some .internal ∧
    bootedAuto.atEvent.loggersGlobalLogpath = logDir ∧
    ¬ priorityOf bootedAuto.atEvent.storages .internal ≤ 0 := by
  decide +kernel

end AndroidLearn.Logctl
