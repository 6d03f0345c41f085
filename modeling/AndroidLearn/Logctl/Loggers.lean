import AndroidLearn.Logctl.Storage

/-!
# The loggers of `logctl`

`LOGGER loggers []` of `logctl.c` and the functions on it that hold `lock_logger`
throughout: `loggers_start`, `loggers_stop`, `loggers_update_state`,
`loggers_clear_errors`, `loggers_touch_watchdog`, the tests of their states, and
`loggers_set_configs`.

A logger's own process or thread is behind `Env`: what it is seen to do by
`log_update_state`, and what its `log_start` returns. `dumplastkmsg` has no process; it
keeps a state of its own, which its `log_update_state` reports. The state word of the
source is taken by its named bits (`LoggerState`); the word itself is in `StateWord`. The
entries are those of the source in its order, but for the loggers that only another build
has, and an entry has the settings that are its own (`localExtraConfigs`).

Two fields record what happened: `running`, whether the last `log_start` came after the
last `log_stop`, and `starts`, the number of `log_start`. No function of the source reads
them.
-/

namespace AndroidLearn.Logctl

open Conf

/-! ## The table -/

/-- The loggers of the table. -/
inductive LoggerName
  | logdevice
  | logkmsg
  | logevents
  | logradio
  | logmeminfo
  | dumplastkmsg
  deriving DecidableEq, Repr

/-- The name as the source has it. -/
def LoggerName.text : LoggerName → CString
  | .logdevice => "logdevice".toList
  | .logkmsg => "logkmsg".toList
  | .logevents => "logevents".toList
  | .logradio => "logradio".toList
  | .logmeminfo => "logmeminfo".toList
  | .dumplastkmsg => "dumplastkmsg".toList

/-- The bits `LOGGER_STATE_MASK_*`. -/
structure LoggerState where
  started : Bool
  stopped : Bool
  logging : Bool
  errorOpen : Bool
  errorRead : Bool
  errorWrite : Bool
  errorPrstat : Bool
  errorZombie : Bool
  errorDefunct : Bool
  errorMissing : Bool
  requestRemoveOldlog : Bool
  compress : Bool
  deriving DecidableEq, Repr

/-- No bit is set. -/
def LoggerState.none : LoggerState :=
  ⟨false, false, false, false, false, false, false, false, false, false, false, false⟩

/-- The state that is only `LOGGER_STATE_MASK_STOPPED`. -/
def LoggerState.onlyStopped : LoggerState := { LoggerState.none with stopped := true }

/-- The state that is only `LOGGER_STATE_MASK_STARTED`. -/
def LoggerState.onlyStarted : LoggerState := { LoggerState.none with started := true }

/-- `LOGGER_STATE_MASK_ERROR_FATAL` -/
def LoggerState.errorFatal (x : LoggerState) : Bool := x.errorOpen || x.errorRead || x.errorWrite

/-- `LOGGER_STATE_MASK_ERROR_ALL` -/
def LoggerState.errorAll (x : LoggerState) : Bool :=
  x.errorFatal || x.errorPrstat || x.errorZombie || x.errorDefunct || x.errorMissing

/-- `LOGGER_EXTRA_CONFIG`, without the buffer of its value. -/
structure ExtraConfig where
  prompt : CString
  dataType : CString
  confKey : Option CString
  defaultValue : CString
  deriving DecidableEq, Repr

/-- `LOGGER` -/
structure Logger where
  name : LoggerName
  confExtras : List ExtraConfig
  enabled : Bool
  /-- the weight as `%.3f` prints it -/
  weight : CString
  overload : Int32
  serialno : Nat
  state : LoggerState
  limitedSizeMb : Nat
  rotateSizeMb : Nat
  /-- the static `log_filename` of the logger -/
  logFilename : CString
  /-- the static `log_state`, of `dumplastkmsg` alone -/
  logState : LoggerState
  running : Bool
  starts : Nat
  deriving DecidableEq

/-- `LOG_DEFAULT_ROTATE_SIZE` -/
def logDefaultRotateSize : Nat := 5

/-- `LOGGER_ENTRY`, after `loggers_init`; every weight is positive. -/
def loggerEntry (name : LoggerName) (weight : CString) (overload : Int32)
    (confExtras : List ExtraConfig) : Logger where
  name := name
  confExtras := confExtras
  enabled := true
  weight := weight
  overload := overload
  serialno := 0
  state := .onlyStopped
  limitedSizeMb := 0
  rotateSizeMb := logDefaultRotateSize
  logFilename := []
  logState := .onlyStopped
  running := false
  starts := 0

/-- An entry of `local_extra_configs` of `logmeminfo`. -/
def meminfoExtra (prompt dataType key defaultValue : String) : ExtraConfig :=
  ⟨prompt.toList, dataType.toList, some ("Logger.logmeminfo." ++ key).toList, defaultValue.toList⟩

/-- The settings of `logmeminfo` that no other logger has. -/
def localExtraConfigs : List ExtraConfig :=
  [meminfoExtra "Interval (sec.)" "integer" "Interval" "60",
    meminfoExtra "Include vmallocinfo" "boolean" "EnableVmallocinfo" "false",
    meminfoExtra "Include kmemleak" "boolean" "EnableKmemleak" "false",
    meminfoExtra "Include procrank (WARN: WOULD IMPACT SYSTEM PERFORMANCE)" "boolean"
      "EnableProcrank" "false",
    meminfoExtra "Include IONinfo [Log every 10 times of interval.]" "boolean" "EnableIONinfo"
      "false",
    meminfoExtra "Include dumpsys meminfo [Log every 10 times of interval.]" "boolean"
      "EnableDumpsysMeminfo" "false"]

/-- The table as the program starts. -/
def loggers : List Logger :=
  [loggerEntry .logdevice "0.550".toList 64 [],
    loggerEntry .logkmsg "0.190".toList 20 [],
    loggerEntry .logevents "0.040".toList 0 [],
    loggerEntry .logradio "0.200".toList 20 [],
    loggerEntry .logmeminfo "0.010".toList 0 localExtraConfigs,
    loggerEntry .dumplastkmsg "0.010".toList 0 []]

/-! ## What the loggers are seen to do -/

/-- What `log_update_state` finds out about a logger's process, thread and file. -/
structure Observation where
  /-- the pipe or the write error flag reports an error -/
  errorOpen : Bool
  errorRead : Bool
  errorWrite : Bool
  /-- there is a pid or a thread, and it cannot be found -/
  prstat : Bool
  zombie : Bool
  defunct : Bool
  /-- the log file or the pipe is missing -/
  missing : Bool
  deriving DecidableEq, Repr

/-- What `logctl` learns from outside: the mounts, the loggers, the rest. -/
structure Env extends Mounts where
  observe : LoggerName → Observation
  /-- `log_start` into a directory: its result and the `log_filename` it leaves -/
  logStart : LoggerName → CString → Int × CString
  /-- `find_lastk` -/
  findLastk : Bool
  /-- `log_watchdog` barks -/
  logWatchdog : LoggerName → Bool
  isExpired : Bool
  /-- `partition_is_autostart_bit_set` -/
  autostartBit : Bool
  /-- the configuration file can be opened for writing -/
  canSave : Bool
  /-- `%.3f` of `atof`, at most 1.0 -/
  weightText : CString → CString

/-- `logger_common_update_state`, after the error flags have been taken over -/
def loggerCommonUpdateState (o : Observation) (x : LoggerState) : LoggerState :=
  { x with
    logging := !o.prstat
    errorOpen := x.errorOpen || o.errorOpen
    errorRead := x.errorRead || o.errorRead
    errorWrite := x.errorWrite || o.errorWrite
    errorPrstat := o.prstat
    errorZombie := o.zombie
    errorDefunct := o.defunct
    errorMissing := o.missing }

/-- `log_update_state` of the entry. -/
def Logger.logUpdateState (e : Env) (l : Logger) : LoggerState :=
  if l.name = .dumplastkmsg then l.logState
  else loggerCommonUpdateState (e.observe l.name) l.state

/-- `log_start` of the entry. -/
def Logger.logStart (e : Env) (logpath : CString) (l : Logger) : Int × Logger :=
  let l := { l with running := true, starts := l.starts + 1 }
  if l.name = .dumplastkmsg then
    let l := { l with logState := .onlyStarted }
    if e.findLastk then
      let (ret, logFilename) := e.logStart l.name logpath
      let l := { l with logFilename }
      if ret ≠ 0 then (-1, l)
      else (0, { l with logState := { l.logState with logging := true } })
    else (0, l)
  else
    let (ret, logFilename) := e.logStart l.name logpath
    (ret, { l with logFilename })

/-- `log_stop` of the entry. -/
def Logger.logStop (l : Logger) : Logger :=
  let l := { l with running := false }
  if l.name = .dumplastkmsg then { l with logState := .onlyStopped } else l

/-! ## The functions on the table -/

/-- The settings of `loggers_set_configs`. -/
structure LoggerConfig where
  limitedSizeMb : Nat
  rotateSizeMb : Nat
  compress : Bool
  enabled : Bool
  weight : CString
  overload : Int32
  deriving DecidableEq

/-- A logger takes its settings over. -/
def Logger.setConfigs (l : Logger) (c : LoggerConfig) : Logger :=
  { l with
    limitedSizeMb := c.limitedSizeMb
    rotateSizeMb := c.rotateSizeMb
    state := { l.state with compress := c.compress }
    enabled := c.enabled
    weight := c.weight
    overload := c.overload }

/-- `loggers_set_configs`, by the entry's name -/
def loggersSetConfigs (name : LoggerName) (c : LoggerConfig) (t : List Logger) : List Logger :=
  t.map fun l => if l.name = name then l.setConfigs c else l

/-- `loggers_update_state`: the state of each enabled logger is asked for. -/
def loggersUpdateState (e : Env) (t : List Logger) : List Logger :=
  t.map fun l => if l.enabled then { l with state := l.logUpdateState e } else l

/-- `loggers_have_error_fatal`: an enabled logger has a fatal error. -/
def loggersHaveErrorFatal (t : List Logger) : Bool := t.any fun l => l.enabled && l.state.errorFatal

/-- `loggers_have_error`: an enabled logger has an error. -/
def loggersHaveError (t : List Logger) : Bool := t.any fun l => l.enabled && l.state.errorAll

/-- The error bits of a logger are cleared, the fatal ones too. -/
def Logger.clearErrors (l : Logger) : Logger :=
  { l with state := { l.state with
      errorOpen := false
      errorRead := false
      errorWrite := false
      errorPrstat := false
      errorZombie := false
      errorDefunct := false
      errorMissing := false } }

/-- `loggers_clear_errors`: so are those of every enabled logger. -/
def loggersClearErrors (t : List Logger) : List Logger :=
  t.map fun l => if l.enabled then l.clearErrors else l

/-- Only `logkmsg` has a `log_watchdog`. -/
def loggersTouchWatchdog (e : Env) (t : List Logger) : Bool :=
  t.any fun l => l.enabled && decide (l.name = .logkmsg) && e.logWatchdog l.name

/-- `loggers_logging_one`: an enabled logger logs. -/
def loggersLoggingOne (t : List Logger) : Bool :=
  t.any fun l => l.enabled && (l.state.started && l.state.logging)

/-- `loggers_logging_all`: a logger is enabled, and none that is enabled fails to log. -/
def loggersLoggingAll (t : List Logger) : Bool :=
  (t.any fun l => l.enabled) &&
    t.all fun l => !l.enabled || !(l.state.stopped || !l.state.logging)

/-- The entry's turn in the loop of `loggers_stop`. -/
def Logger.stopped (l : Logger) : Logger :=
  if l.enabled then
    Logger.logStop { l with state := { l.state with started := false, logging := false, stopped := true } }
  else l

/-- The loop of `loggers_stop`; it goes backwards, and no turn depends on another. -/
def loggersStop (t : List Logger) : List Logger := t.map Logger.stopped

/-- The entry's turn in the loop of `loggers_start`. -/
def Logger.started (e : Env) (logpath : CString) (l : Logger) : Int × Logger :=
  let l := { l with serialno := 0 }
  if l.enabled then
    Logger.logStart e logpath
      { l with state := { l.state with stopped := false, logging := false, started := true } }
  else (0, l)

/-- The loop of `loggers_start`: the table, and the last entry that failed. -/
def loggersStart (e : Env) (logpath : CString) (t : List Logger) :
    List Logger × Option LoggerName :=
  (t.map fun l => (l.started e logpath).2,
    ((t.filter fun l => decide ((l.started e logpath).1 < 0)).getLast?).map Logger.name)

/-- `loggers_get_log_files`: the files of the enabled loggers, one a line. -/
def loggersGetLogFiles (t : List Logger) : CString :=
  ['\n'].intercalate (((t.filter fun l => l.enabled).map Logger.logFilename).filter (· ≠ []))

/-! ## One lemma for each field a function leaves alone -/

section Fields

variable {e : Env} {p : CString} {l : Logger}

@[simp] theorem Logger.logStop_enabled : l.logStop.enabled = l.enabled := by
  unfold logStop
  dsimp only
  split <;> rfl

@[simp] theorem Logger.logStop_state : l.logStop.state = l.state := by
  unfold logStop
  dsimp only
  split <;> rfl

@[simp] theorem Logger.logStop_running : l.logStop.running = false := by
  unfold logStop
  dsimp only
  split <;> rfl

@[simp] theorem Logger.logStop_starts : l.logStop.starts = l.starts := by
  unfold logStop
  dsimp only
  split <;> rfl

@[simp] theorem Logger.logStart_enabled : (l.logStart e p).2.enabled = l.enabled := by
  unfold logStart
  dsimp only
  split
  · split
    · split <;> rfl
    · rfl
  · rfl

@[simp] theorem Logger.logStart_state : (l.logStart e p).2.state = l.state := by
  unfold logStart
  dsimp only
  split
  · split
    · split <;> rfl
    · rfl
  · rfl

@[simp] theorem Logger.stopped_enabled : l.stopped.enabled = l.enabled := by
  unfold stopped
  split
  · simp
  · rfl

@[simp] theorem Logger.started_enabled : (l.started e p).2.enabled = l.enabled := by
  unfold started
  dsimp only
  split
  · simp
  · rfl

end Fields

end AndroidLearn.Logctl
