import AndroidLearn.Logctl.Calls

/-!
# The programs of `logctl`'s threads

The command handlers of `logctl.c` (`handle_local_command_run`, `_stop`, `_mount`,
`_syncconf`, `_genconf`, `_getpath`, `_getlogfiles`), `config_load`, the start of
`logctl_main`, and one round of the loop of `thread_monitor_main`, as programs over the
calls. A program is what is left of a thread to do (`Lib.Thread`), so that the other
thread may take a step between any two calls.

What is only logged or sent to the user interface is left out, and so are the sleeps of
the monitor. It is cut where it has made up its mind: each piece starts with a call, and a
piece further down is reached by the answers of those above. Its local counters go from
piece to piece (`Counters`).

The texts of the answers, the keys of the settings and their defaults are those of the
source.
-/

namespace AndroidLearn.Logctl

open Thread Conf

/-! ## `config_load` -/

/-- `STORAGE_KEY_AUTO` as a setting's value. -/
def autoValue : CString := storageKeyAuto

/-- `pair_LogPath.value` -/
def defaultLogPath : CString := StorageKey.internal.text

/-- `pair_AutoStart.value` -/
def defaultAutoStart : CString := "false".toList

/-- `LOG_DEFAULT_COMPRESS` -/
def defaultCompress : CString := "false".toList

/-- `CONF_VERSION` -/
def confVersion : CString := "3".toList

def keyVersion : CString := "Version".toList
def keyAutoStart : CString := "AutoStart".toList
def keyLogPath : CString := "LogPath".toList
def keyLimitedTotalLogSizeMB : CString := "LimitedTotalLogSizeMB".toList
def keyReservedStorageSizeMB : CString := "ReservedStorageSizeMB".toList
def keyRotateSizeMB : CString := "RotateSizeMB".toList
def keyCompress : CString := "Compress".toList
def keyPriority : CString := "Priority".toList
def keyEnable : CString := "Enable".toList
def keyWeight : CString := "Weight".toList
def keyOverload : CString := "Overload".toList

/-- `keyword_pairs` -/
def keywordPairs : List (CString × CString) :=
  [(keyVersion, confVersion), (keyAutoStart, defaultAutoStart), (keyLogPath, defaultLogPath),
    (keyLimitedTotalLogSizeMB, autoValue), (keyReservedStorageSizeMB, autoValue),
    (keyRotateSizeMB, autoValue), (keyCompress, defaultCompress)]

/-- The name of a setting in the database. -/
def sysKey (key : CString) : CString := "systemloggers.".toList ++ key

def keyLoaded : CString := "loaded".toList

/-- `STORAGE_CONFIG_KEY` -/
def storageConfigKey (name : StorageKey) (key : CString) : CString :=
  "Storage.".toList ++ name.text ++ '.' :: key

/-- `LOGGER_CONFIG_KEY` -/
def loggerConfigKey (name : LoggerName) (key : CString) : CString :=
  "Logger.".toList ++ name.text ++ '.' :: key

/-- `SAFE_SPRINTF` into `tmp`, of 16 bytes. -/
def tmp16 (s : CString) : CString := s.take 15

/-- The pair of one piece of `overwrite_configs`, if it is a pair. -/
def overwritePair (s : CString) : Option (CString × CString) :=
  if s.contains '=' then some (s.takeWhile (· ≠ '='), (s.dropWhile (· ≠ '=')).tail) else none

/-- `overwrite_configs`: pieces between colons. -/
def overwritePairs (s : CString) : List (CString × CString) :=
  (s.splitOn ':').filterMap overwritePair

/-- An overwrite goes into the database and into the store that is being made up. -/
def configOverwrite (conf : PairList) (pair : CString × CString) : Program PairList := do
  perform (.dbSet (sysKey pair.1) pair.2)
  return confPut conf pair.1 pair.2

/-- One setting: `conf_get`, `conf_set` of the default where it is missing, and
the copy in the database. -/
def configSetting (conf : PairList) (key default : CString) : Program (CString × PairList) := do
  let value := (confFind conf key).getD default
  let conf := if confFind conf key = none then confPut conf key default else conf
  perform (.dbSet (sysKey key) value)
  return (value, conf)

/-- A setting of the program: what it is does not matter here, only that it is set. -/
def configGlobal (conf : PairList) (pair : CString × CString) : Program PairList := do
  let (_, conf) ← configSetting conf pair.1 pair.2
  return conf

/-- A size, where `auto` stands for `auto`'s value. -/
def sizeValue (value : CString) (auto : Nat) : Nat :=
  if value = autoValue then auto else atolUnsigned value

/-- `storages_set_configs` for one storage: its settings are read, and then handed to it. -/
def configStorage (conf : PairList) (name : StorageKey) : Program PairList := do
  let (limited, conf) ←
    configSetting conf (storageConfigKey name keyLimitedTotalLogSizeMB) autoValue
  let (reserved, conf) ←
    configSetting conf (storageConfigKey name keyReservedStorageSizeMB) autoValue
  let default ← perform (.storagePriority name)
  let (priority, conf) ←
    configSetting conf (storageConfigKey name keyPriority) (tmp16 (decimal default))
  let logPath ← perform (.dbGet (sysKey keyLogPath))
  let logPath := logPath.getD defaultLogPath
  perform (.storageSetConfigs name {
    limitedSizeMb := sizeValue limited 0
    reservedSizeMb := sizeValue reserved 0
    priority := atoi priority
    userExcluded := decide (logPath ≠ storageKeyAuto ∧ logPath ≠ name.text) })
  return conf

/-- One of the extra settings, with what describes it. -/
def configExtra (conf : PairList) (extra : ExtraConfig) : Program PairList :=
  match extra.confKey with
  | none => return conf
  | some key => do
    let (_, conf) ← configSetting conf key (tmp16 extra.defaultValue)
    let conf := confPut conf (key ++ ".Prompt".toList) extra.prompt
    let conf := confPut conf (key ++ ".Type".toList) extra.dataType
    return confPut conf (key ++ ".Default".toList) extra.defaultValue

/-- The default text of `Enable`. -/
def enableText (enabled : Bool) : CString := if enabled then "true".toList else "false".toList

/-- The settings of one logger. Its rotation size has that of the program for a default. -/
def configLogger (conf : PairList) (name : LoggerName) : Program PairList := do
  let (limited, conf) ←
    configSetting conf (loggerConfigKey name keyLimitedTotalLogSizeMB) autoValue
  let (rotate, conf) ← configSetting conf (loggerConfigKey name keyRotateSizeMB)
    ((confFind conf keyRotateSizeMB).getD autoValue)
  let (compress, conf) ← configSetting conf (loggerConfigKey name keyCompress)
    ((confFind conf keyCompress).getD defaultCompress)
  let entry ← perform (.loggerGet name)
  match entry with
  | none => return conf
  | some l =>
    let (enabled, conf) ←
      configSetting conf (loggerConfigKey name keyEnable) (tmp16 (enableText l.enabled))
    let (weight, conf) ← configSetting conf (loggerConfigKey name keyWeight) (tmp16 l.weight)
    let weight ← perform (.weightText weight)
    let (overload, conf) ←
      configSetting conf (loggerConfigKey name keyOverload) (tmp16 (decimal l.overload))
    perform (.loggersSetConfigs name {
      limitedSizeMb := sizeValue limited 0
      rotateSizeMb := sizeValue rotate logDefaultRotateSize
      compress := isValueTrue compress
      enabled := isValueTrue enabled
      weight := weight
      overload := max (atoi overload) 0 })
    l.confExtras.foldlM configExtra conf

/-- The store `config_load` makes up from the file, the overwrites and the
defaults. -/
def configMerge (overwriteConfigs : CString) : Program PairList := do
  let conf ← perform .confLoadFromFile
  let conf ← (overwritePairs overwriteConfigs).foldlM configOverwrite conf
  let conf ← keywordPairs.foldlM configGlobal conf
  let conf ← (storages.map Storage.name).foldlM configStorage conf
  let names ← perform .loggerNames
  let conf ← names.foldlM configLogger conf
  return confPut conf keyVersion confVersion

/-- `config_load`: the merge, the file if it is to be written, and the mark that all is loaded. -/
def configLoad (updateToFile : Bool) (overwriteConfigs : CString) : Program Unit := do
  let conf ← configMerge overwriteConfigs
  onlyIf updateToFile (perform (.confSaveToFile conf))
  perform (.dbSet (sysKey keyLoaded) ['1'])

/-! ## Starting and stopping -/

/-- `loggers_global_stop`: the state is CHANGING while the loggers are stopped. -/
def loggersGlobalStop : Program Unit := do
  perform (.loggersSetGlobalState .changing)
  perform .loggersUpdateState
  let _ ← perform .loggersLoggingOne
  perform .loggersStop
  perform (.loggersSetGlobalState .stopped)

/-- The path `loggers_start` is given: the argument, or the configured path. -/
def startPath (logpathOrStorageName : Option CString) : Program CString :=
  match logpathOrStorageName with
  | some path => return path
  | none => do
    let path ← perform (.dbGet (sysKey keyLogPath))
    return path.getD defaultLogPath

/-- Some loggers may still be logging: stop them before the start. -/
def stopLeftovers : Program Unit := do
  let one ← perform .loggersLoggingOne
  onlyIf one (perform .loggersStop)

/-- The start in `loggers_global_start`: nothing is done if all loggers log already, and those
that do are stopped first if only some do. -/
def startUnlessLogging (logpathOrStorageName : Option CString) : Program Int := do
  let all ← perform .loggersLoggingAll
  if all then return 0
  else
    stopLeftovers
    let path ← startPath logpathOrStorageName
    perform (.loggersStart path)

/-- `loggers_global_start`: the state is CHANGING until the start has come to its result. -/
def loggersGlobalStart (logpathOrStorageName : Option CString) : Program Unit := do
  perform (.loggersSetGlobalState .changing)
  perform .loggersClearErrors
  perform .loggersUpdateState
  let res ← startUnlessLogging logpathOrStorageName
  perform (.loggersSetGlobalState (if res < 0 then .stopped else .started))

/-! ## Command handlers

Each is given the request's data and returns the response. -/

/-- The answer of a command that has come through. -/
def okResponse : CString := ['0']

/-- The answer of one that has not. -/
def failedResponse : CString := ['-', '1']

/-- The answer when no logger is enabled. -/
def noLogFileMessage : CString :=
  ("Cannot find log files while there is no error occurred! " ++
    "Please make sure at least one logger is enabled.").toList

/-- `:getpath:`: the path in use, or the one in the database if nothing is logged. -/
def handleLocalCommandGetpath : Program CString := do
  perform .loggersUpdateState
  let one ← perform .loggersLoggingOne
  if one then perform .loggersGetGlobalLogpath
  else
    let path ← perform (.dbGet (sysKey keyLogPath))
    let r ← perform (.storageSelectLoggingPath (path.getD defaultLogPath) none)
    return r.2

/-- `:getlogfiles:` -/
def handleLocalCommandGetlogfiles : Program CString := do
  let files ← perform .loggersGetLogFiles
  return if files = [] then noLogFileMessage else files

/-- `:islogging:`, for which the states are read anew. -/
def handleLocalCommandIslogging : Program CString := do
  perform .loggersUpdateState
  let one ← perform .loggersLoggingOne
  return if one then ['1'] else ['0']

/-- `:stop:`; with `shutdown` it is noted who has stopped the loggers. -/
def handleLocalCommandStop (buffer : CString) : Program CString := do
  loggersGlobalStop
  onlyIf (buffer = "shutdown".toList) (perform (.setStopByShutdown true))
  return okResponse

/-- The log files are the response; without one the start has failed after all. -/
def checkLogFiles : Program CString := do
  let buffer ← handleLocalCommandGetlogfiles
  if buffer.head? = some '/' then return buffer
  else
    loggersGlobalStop
    return buffer

/-- `:run:` with a path, the name of a storage or nothing; the answer is an error, or that the
files are checked. -/
def handleLocalCommandRun (buffer : CString) : Program CString := do
  perform (.setStopByShutdown false)
  perform .loggersClearLastError
  loggersGlobalStart (if buffer = [] then none else some buffer)
  let state ← perform .loggersGetGlobalState
  let buffer ← if state = .stopped then perform .loggersGetLastError else checkLogFiles
  return if buffer = [] then "N/A".toList else buffer

/-- `datatok`: the characters before the first colon, and those after it. -/
def datatok (buffer : CString) : CString × CString :=
  (buffer.takeWhile (· ≠ ':'), (buffer.dropWhile (· ≠ ':')).tail)

/-- `logging_storage` of the mount handler: what is being logged to, if anything
is being logged. -/
def loggingStorage : Program (Option StorageKey) := do
  let one ← perform .loggersLoggingOne
  if one then
    let storage ← perform .loggersGetGlobalStorage
    return storage.map Storage.name
  else return none

/-- The event when the log path is set: `logPath` is in the buffer. -/
def mountFixed (mounted autorun : Bool) (logPath : CString) (storage : StorageKey)
    (logging : Option StorageKey) : Program Unit :=
  if mounted then
    onlyIf autorun do
      let one ← perform .loggersLoggingOne
      onlyIf (!one ∧ logPath = storage.text) do
        let _ ← handleLocalCommandRun logPath
        return ()
  else do
    let one ← perform .loggersLoggingOne
    onlyIf (one ∧ logging = some storage) loggersGlobalStop

/-- Does the event change the log path, when it is `auto`? -/
def mountChange (mounted autorun : Bool) (storage : StorageKey) (logging : Option StorageKey) :
    Program Bool := do
  let one ← perform .loggersLoggingOne
  if one then
    if mounted then
      let order ← perform (.storageComparePriority (some storage) logging)
      return decide (0 < order)
    else
      return match logging with
        | some name => decide (storage = name)
        | none => true
  else return autorun

/-- Stop if need be, select a path and start there. -/
def mountSwitch (mounted : Bool) (buffer : CString) (storage : StorageKey) : Program Unit := do
  let one ← perform .loggersLoggingOne
  onlyIf one loggersGlobalStop
  -- the storage may be not yet unmounted when the event arrives: exclude it
  let r ← perform (.storageSelectLoggingPath buffer (if mounted then none else some storage))
  let _ ← handleLocalCommandRun r.2
  return ()

/-- An event with the log path `auto`: the loggers may go over to another storage. -/
def mountAuto (mounted autorun : Bool) (buffer : CString) (storage : StorageKey)
    (logging : Option StorageKey) : Program Unit := do
  let change ← mountChange mounted autorun storage logging
  onlyIf change (mountSwitch mounted buffer storage)

/-- The event on a known storage, after `config_load`. -/
def mountKnown (mounted : Bool) (storage : StorageKey) : Program Unit := do
  let logPath ← perform (.dbGet (sysKey keyLogPath))
  let buffer := logPath.getD defaultLogPath
  let autoStart ← perform (.dbGet (sysKey keyAutoStart))
  let autorun := isValueTrue (autoStart.getD defaultAutoStart)
  perform .loggersUpdateState
  let logging ← loggingStorage
  let shutdown ← perform .getStopByShutdown
  if shutdown then return ()
  else if buffer = storageKeyAuto then mountAuto mounted autorun buffer storage logging
  else mountFixed mounted autorun buffer storage logging

/-- `:mount:` with a flag and a storage; the loggers are looked at only if the storage is known. -/
def handleLocalCommandMount (buffer : CString) : Program CString := do
  perform .storageUpdateAll
  let (flag, rest) := datatok buffer
  let mounted := flag.head? ≠ some '0'
  let storage ← perform (.storageGetByNameOrPath (datatok rest).1)
  match storage with
  | none => return okResponse
  | some storage =>
    configLoad false []
    mountKnown mounted storage
    return okResponse

/-- `:syncconf:`, which is refused while a logger logs. -/
def handleLocalCommandSyncconf : Program CString := do
  perform .loggersUpdateState
  let one ← perform .loggersLoggingOne
  if one then return failedResponse
  else
    configLoad false []
    return okResponse

/-- `:genconf:`: the configuration with these overwrites, also as a file. -/
def handleLocalCommandGenconf (buffer : CString) : Program CString := do
  configLoad true buffer
  return okResponse

/-- The requests that reach the shared state. -/
inductive Command
  | getpath
  | run (buffer : CString)
  | stop (buffer : CString)
  | islogging
  | mount (buffer : CString)
  | getlogfiles
  | syncconf
  | genconf (buffer : CString)
  deriving DecidableEq, Repr

/-- The handler of each command, up to its answer. -/
def Command.handle : Command → Program CString
  | getpath => handleLocalCommandGetpath
  | run buffer => handleLocalCommandRun buffer
  | stop buffer => handleLocalCommandStop buffer
  | islogging => handleLocalCommandIslogging
  | mount buffer => handleLocalCommandMount buffer
  | getlogfiles => handleLocalCommandGetlogfiles
  | syncconf => handleLocalCommandSyncconf
  | genconf buffer => handleLocalCommandGenconf buffer

/-- `logctl_main` up to the creation of the monitor. -/
def boot : Program CString := do
  configLoad false []
  let bit ← perform .partitionIsAutostartBitSet
  onlyIf bit (perform (.dbSet (sysKey keyAutoStart) "true".toList))
  let autoStart ← perform (.dbGet (sysKey keyAutoStart))
  if isValueTrue (autoStart.getD defaultAutoStart) then handleLocalCommandRun []
  else return []

/-! ## The monitor -/

/-- The counters of `thread_monitor_main`. -/
structure Counters where
  restart : Nat
  watchdog : Nat
  hello : Nat
  lowfreespace : Nat
  exp : Nat
  deriving DecidableEq, Repr

/-- The counters of the monitor as it starts. -/
def Counters.init : Counters := ⟨0, 0, 0, 0, 10000⟩

/-- `LOGGER_ERROR_TOLERANT_COUNT` -/
def loggerErrorTolerantCount : Nat := 3

/-- After a restart: try again in the next round if it failed. -/
def monitorRestarted (n : Counters) : Program Counters := do
  let state ← perform .loggersGetGlobalState
  return { n with restart := if state = .stopped then n.restart + 1 else 0 }

/-- The monitor stops the loggers and starts them again, then looks what has come of it. -/
def monitorRestart (n : Counters) : Program Counters := do
  loggersGlobalStop
  loggersGlobalStart none
  monitorRestarted n

/-- The storage in use is known: is it still good to log to? -/
def monitorStorage (n : Counters) (storage : Storage) : Program Counters :=
  let n := if storage.excluded.noFreeSpace then n else { n with lowfreespace := 0 }
  if storage.excluded.onlyNoFreeSpace then
    if n.lowfreespace + 1 < 3 then do
      perform .loggersProcessRotationAndLimitation
      return { n with lowfreespace := n.lowfreespace + 1 }
    else monitorRestart { n with lowfreespace := 0 }
  else if storage.excluded.any then monitorRestart { n with lowfreespace := 0 }
  else do
    perform .loggersProcessRotationAndLimitation
    return n

/-- Without a storage in use, or a mount point of it, there is nothing to look at. -/
def monitorGetStorage (n : Counters) : Program Counters := do
  let storage ← perform .loggersGetGlobalStorage
  match storage with
  | none => return n
  | some storage => if storage.mountpoint = none then return n else monitorStorage n storage

/-- Without a log path in use there is no storage to look at. -/
def monitorGetLogpath (n : Counters) : Program Counters := do
  let logpath ← perform .loggersGetGlobalLogpath
  if logpath = [] then return n else monitorGetStorage n

/-- Some logger logs: the storages are looked at again. -/
def monitorUpdateStorages (n : Counters) : Program Counters := do
  perform .storageUpdateAll
  monitorGetLogpath n

/-- No logger is logging: look at the state again. -/
def monitorRecheck (n : Counters) : Program Counters := do
  let state ← perform .loggersGetGlobalState
  if state = .started then monitorRestart n else return n

/-- Does any logger log? -/
def monitorLogging (n : Counters) : Program Counters := do
  let one ← perform .loggersLoggingOne
  if one then monitorUpdateStorages n else monitorRecheck n

/-- Every 120 rounds the watchdogs of the loggers are asked. -/
def monitorWatchdog (n : Counters) : Program Counters :=
  if 120 < n.watchdog + 1 then do
    let barking ← perform .loggersTouchWatchdog
    if barking then monitorRestart { n with watchdog := 0 }
    else monitorLogging { n with watchdog := 0 }
  else monitorLogging { n with watchdog := n.watchdog + 1 }

/-- An error that is not fatal restarts the loggers when it has been seen often enough. -/
def monitorErrors (n : Counters) : Program Counters := do
  let error ← perform .loggersHaveError
  if error then
    let count ← perform .errorCounterIncrease
    if loggerErrorTolerantCount ≤ count then
      perform .errorCounterReset
      monitorRestart n
    else monitorWatchdog n
  else
    perform .errorCounterReset
    monitorWatchdog n

/-- A fatal error restarts the loggers at once. -/
def monitorFatal (n : Counters) : Program Counters := do
  let fatal ← perform .loggersHaveErrorFatal
  if fatal then
    perform .errorCounterReset
    monitorRestart n
  else monitorErrors n

/-- The last of a failed restart's attempts. -/
def monitorRetried (n : Counters) : Program Counters := do
  let state ← perform .loggersGetGlobalState
  return { n with
    restart :=
      if state = .stopped then (if 3 ≤ n.restart + 1 then 0 else n.restart + 1) else 0 }

/-- A restart that failed is tried again. -/
def monitorRetry (n : Counters) : Program Counters := do
  loggersGlobalStart none
  monitorRetried n

/-- Stopped: no logger should be logging. -/
def monitorStopped (n : Counters) : Program Counters := do
  let one ← perform .loggersLoggingOne
  if one then
    loggersGlobalStop
    return n
  else return n

/-- The state read at the start of the round decides. -/
def monitorAct (n : Counters) (localState : GlobalState) : Program Counters :=
  if localState = .stopped then
    if n.restart ≠ 0 then monitorRetry n else monitorStopped n
  else monitorFatal { n with restart := 0 }

/-- The program ends. -/
def monitorExit (n : Counters) : Program Counters := do
  perform .exit
  return n

/-- `logctl` has come to its end, and stops the loggers if they log. -/
def monitorExpired (n : Counters) : Program Counters := do
  let one ← perform .loggersLoggingOne
  if one then
    loggersGlobalStop
    monitorExit n
  else monitorExit n

/-- Every 9000 rounds the monitor asks whether `logctl` has expired. -/
def monitorExpiry (n : Counters) (localState : GlobalState) : Program Counters :=
  if 9000 < n.exp + 1 then do
    let expired ← perform .isExpired
    if expired then monitorExpired n else monitorAct { n with exp := 0 } localState
  else monitorAct { n with exp := n.exp + 1 } localState

/-- Around once an hour the state is logged. -/
def monitorHello (n : Counters) (localState : GlobalState) : Program Counters :=
  if 360 < n.hello + 1 then do
    let _ ← perform .loggersLoggingOne
    let _ ← perform .loggersLoggingAll
    monitorExpiry { n with hello := 0 } localState
  else monitorExpiry { n with hello := n.hello + 1 } localState

/-- The loggers' states are read anew before anything is decided on them. -/
def monitorUpdate (n : Counters) (localState : GlobalState) : Program Counters := do
  perform .loggersUpdateState
  monitorHello n localState

/-- While a command changes the state, the round ends here. -/
def monitorRead (n : Counters) : Program Counters := do
  let localState ← perform .loggersGetGlobalState
  if localState = .changing then return n else monitorUpdate n localState

/-- One round of the loop of `thread_monitor_main`. -/
def monitorRound (n : Counters) : Program Counters := do
  let loaded ← perform (.dbGet (sysKey keyLoaded))
  if (loaded.bind List.head?) = some '1' then monitorRead n
  else
    configLoad false []
    monitorRead n

end AndroidLearn.Logctl
