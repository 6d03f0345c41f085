import AndroidLearn.Conf.File
import AndroidLearn.Logctl.Loggers
import AndroidLearn.Lib.Thread

/-!
# The calls of `logctl`'s threads

`State` is what the threads of `logctl.c` share: the table of loggers, the table of
storages, the configuration and the database, the global state, path and storage, and the
error counter. `Call` lists the helpers they reach it through, each of which takes its
lock once and so is one step of the thread; an access without a lock is a call of its own.
`Call.exec` is what the helper does, and `Call.Resp` the type of what it returns.

A call that goes to the outside is answered by the environment of the state (`Env` for the
loggers, `Mounts` for the storages), which may change between two calls.

`loggers_start` and `loggers_stop` are one call each: they hold the lock of the loggers
from their begin to their end. What they leave is said field by field at the end of the
module (`State.loggersStart_ok`, `State.loggersStart_error`), so that later proofs need
not open them.
-/

namespace AndroidLearn.Logctl

open Thread Conf

/-! ## Settings -/

/-- `conf_get` of a name that is not `NULL`. -/
def confFind (conf : PairList) (name : CString) : Option CString := confGet conf (some name) none

/-- `conf_set` of a name and a value; there is memory. -/
def confPut (conf : PairList) (name value : CString) : PairList :=
  (confSet .all conf (some name) (some value)).2

/-- `IS_VALUE_TRUE` -/
def isValueTrue (s : CString) : Bool :=
  s.head? == some '1' || s.map Char.toLower == "true".toList

/-- What `isspace` takes for a blank. -/
def isSpace (c : Char) : Bool := [' ', '\t', '\n', '\x0b', '\x0c', '\r'].contains c

/-- `atol`, with `strtol`'s limits -/
def atol (s : CString) : Int :=
  let s := s.dropWhile isSpace
  let negative := s.head? = some '-'
  let digits := (if s.head? = some '-' ∨ s.head? = some '+' then s.tail else s).takeWhile Char.isDigit
  let value : Nat := digits.foldl (fun n c => 10 * n + (c.toNat - '0'.toNat)) 0
  if negative then max (-(value : Int)) (-(2 ^ 63)) else min (value : Int) (2 ^ 63 - 1)

/-- `atoi`, which is `atol` cut to 32 bits. -/
def atoi (s : CString) : Int32 := (atol s).toInt32

/-- `(unsigned long) atol` -/
def atolUnsigned (s : CString) : Nat := (atol s % 2 ^ 64).toNat

/-- `%d` -/
def decimal (n : Int32) : CString := (toString n.toInt).toList

/-! ## The shared state -/

/-- `LOGGERS_GLOBAL_STATE_*` -/
inductive GlobalState
  | changing
  | stopped
  | started
  | restarting
  deriving DecidableEq, Repr

/-- The global variables of `logctl.c`, with the files behind them. -/
structure State where
  env : Env
  /-- `LOGGER_CONFIG_FILENAME` as it is read, if it can be read -/
  confFile : Option PairList
  /-- the database of `db_get` and `db_set` -/
  db : PairList
  storages : List Storage
  loggers : List Logger
  loggersGlobalStorage : Option StorageKey
  loggersGlobalLogpath : CString
  loggersErrorMessage : CString
  loggersErrorCounter : Nat
  loggersGlobalState : GlobalState
  stopByShutdown : Bool
  /-- the process has called `exit` -/
  exited : Bool

/-! ## `loggers_start` -/

/-- The message when no storage can be had. -/
def noStorageMessage : CString :=
  ("No valid storage is available! " ++
    "Please make sure at least one storage has enough space for logging.").toList

/-- The message when the path of a storage cannot be made. -/
def cannotAccessMessage (path : CString) (storage : Option StorageKey) : CString :=
  "Cannot access path [".toList ++ path ++ "] on storage [".toList ++
    (match storage with
      | some name => name.text
      | none => "unknown".toList) ++
    "]! Please try to change the Preferred Logging Storage setting.".toList

/-- The message when a logger does not start. -/
def failedToStartMessage (name : LoggerName) : CString :=
  "Failed to start logger [".toList ++ name.text ++ "]!".toList

/-- The path and the storage of `loggers_start`, once the selection succeeded. -/
def State.placed (s : State) : State :=
  match storageGetByNameOrPath s.storages s.loggersGlobalLogpath with
  | some ps => { s with loggersGlobalStorage := some ps.name }
  | none =>
    -- force selecting internal
    let r := storageSelectLoggingPath s.env.toMounts s.storages StorageKey.internal.text none
    { s with
      loggersGlobalLogpath := r.buffer
      storages := r.storages
      loggersGlobalStorage := (storageGetByNameOrPath r.storages r.buffer).map Storage.name }

/-- The loop of `loggers_start` over the loggers. -/
def State.launched (s : State) : State :=
  let (t, failed) := Logctl.loggersStart s.env s.loggersGlobalLogpath s.loggers
  { s with
    loggers := t
    loggersErrorMessage := (failed.map failedToStartMessage).getD s.loggersErrorMessage }

/-- The selection of `loggers_start` and of the mount handler. -/
def State.select (s : State) (buffer : CString) (excludedName : Option StorageKey) : Selected :=
  storageSelectLoggingPath s.env.toMounts s.storages buffer excludedName

/-- The state with the selected path, whatever it is. -/
def State.atPath (s : State) (r : Selected) : State :=
  { s with loggersGlobalLogpath := r.buffer, storages := r.storages }

/-- `loggers_start`: a path is selected, made, and the enabled loggers are started on it. -/
def State.loggersStart (s : State) (storageName : CString) : Int × State :=
  let r := s.select storageName none
  let s := s.atPath r
  match r.error with
  | some .noAvailableStorage => (-1, { s with loggersErrorMessage := noStorageMessage })
  | some .cannotGetLogPath =>
    let storage := (storageGetByNameOrPath s.storages s.loggersGlobalLogpath).map Storage.name
    (-1, { s with
      loggersGlobalStorage := storage
      loggersErrorMessage := cannotAccessMessage s.loggersGlobalLogpath storage })
  | none => (0, { s with loggersErrorCounter := 0 }.placed.launched)

/-- `loggers_stop`: the loggers are stopped, and no storage is in use. -/
def State.loggersStop (s : State) : State :=
  { s with
    loggers := Logctl.loggersStop s.loggers
    loggersGlobalStorage := none
    loggersGlobalLogpath := [] }

/-- The settings of `storage_set_configs`. -/
structure StorageConfig where
  limitedSizeMb : Nat
  reservedSizeMb : Nat
  priority : Int32
  userExcluded : Bool
  deriving DecidableEq

/-- A storage takes its settings over. -/
def Storage.setConfigs (ps : Storage) (c : StorageConfig) : Storage :=
  { ps with
    priority := c.priority
    excluded := { ps.excluded with userSetting := c.userExcluded }
    limitedSizeMb := c.limitedSizeMb
    reservedSizeMb := c.reservedSizeMb }

/-- `storage_set_configs`, by the entry's name -/
def storageSetConfigs (name : StorageKey) (c : StorageConfig) (t : List Storage) : List Storage :=
  t.map fun ps => if ps.name = name then ps.setConfigs c else ps

/-! ## Calls -/

/-- The calls of the programs below, on the files, the database and the tables. -/
inductive Call
  | dbGet (name : CString)
  | dbSet (name value : CString)
  | confLoadFromFile
  | confSaveToFile (conf : PairList)
  | storagePriority (name : StorageKey)
  | storageSetConfigs (name : StorageKey) (c : StorageConfig)
  | storageUpdateAll
  | storageGetByNameOrPath (name : CString)
  | storageComparePriority (name₁ name₂ : Option StorageKey)
  | storageSelectLoggingPath (buffer : CString) (excludedName : Option StorageKey)
  | loggerNames
  | loggerGet (name : LoggerName)
  | weightText (value : CString)
  | loggersSetConfigs (name : LoggerName) (c : LoggerConfig)
  | loggersUpdateState
  | loggersClearErrors
  | loggersHaveErrorFatal
  | loggersHaveError
  | loggersTouchWatchdog
  | loggersLoggingOne
  | loggersLoggingAll
  | loggersGetLogFiles
  | loggersProcessRotationAndLimitation
  | loggersStop
  | loggersStart (storageName : CString)
  | loggersClearLastError
  | loggersGetLastError
  | loggersGetGlobalState
  | loggersSetGlobalState (state : GlobalState)
  | loggersGetGlobalLogpath
  | loggersGetGlobalStorage
  | errorCounterReset
  | errorCounterIncrease
  | getStopByShutdown
  | setStopByShutdown (value : Bool)
  | partitionIsAutostartBitSet
  | isExpired
  | exit

/-- The type of a call's answer. -/
abbrev Call.Resp : Call → Type
  | dbGet _ => Option CString
  | confLoadFromFile => PairList
  | storagePriority _ => Int32
  | storageGetByNameOrPath _ => Option StorageKey
  | storageComparePriority _ _ => Int32
  | storageSelectLoggingPath _ _ => Option SelectError × CString
  | loggerNames => List LoggerName
  | loggerGet _ => Option Logger
  | weightText _ => CString
  | loggersHaveErrorFatal | loggersHaveError | loggersTouchWatchdog => Bool
  | loggersLoggingOne | loggersLoggingAll => Bool
  | loggersGetLogFiles | loggersGetLastError | loggersGetGlobalLogpath => CString
  | loggersStart _ => Int
  | loggersGetGlobalState => GlobalState
  | loggersGetGlobalStorage => Option Storage
  | errorCounterIncrease => Nat
  | getStopByShutdown | partitionIsAutostartBitSet | isExpired => Bool
  | _ => Unit

/-- What a call answers, and the state it leaves. -/
def Call.exec : (c : Call) → State → c.Resp × State
  | dbGet name, s => (confFind s.db name, s)
  | dbSet name value, s => ((), { s with db := confPut s.db name value })
  | confLoadFromFile, s => (s.confFile.getD [], s)
  | confSaveToFile conf, s =>
    ((), if s.env.canSave then
        { s with confFile := some (Conf.confLoadFromFile (Conf.confSaveToFile conf)) }
      else s)
  | storagePriority name, s =>
    (((s.storages.find? fun ps => ps.name = name).map Storage.priority).getD 0, s)
  | storageSetConfigs name c, s =>
    ((), { s with storages := Logctl.storageSetConfigs name c s.storages })
  | storageUpdateAll, s =>
    ((), { s with storages := s.storages.map (storageUpdate s.env.toMounts) })
  | storageGetByNameOrPath name, s =>
    ((Logctl.storageGetByNameOrPath s.storages name).map Storage.name, s)
  | storageComparePriority name₁ name₂, s =>
    (Logctl.storageComparePriority s.storages name₁ name₂, s)
  | storageSelectLoggingPath buffer excludedName, s =>
    let r := s.select buffer excludedName
    ((r.error, r.buffer), { s with storages := r.storages })
  | loggerNames, s => (s.loggers.map Logger.name, s)
  | loggerGet name, s => (s.loggers.find? fun l => l.name = name, s)
  | weightText value, s => (s.env.weightText value, s)
  | loggersSetConfigs name c, s =>
    ((), { s with loggers := Logctl.loggersSetConfigs name c s.loggers })
  | loggersUpdateState, s =>
    ((), { s with loggers := Logctl.loggersUpdateState s.env s.loggers })
  | loggersClearErrors, s => ((), { s with loggers := Logctl.loggersClearErrors s.loggers })
  | loggersHaveErrorFatal, s => (Logctl.loggersHaveErrorFatal s.loggers, s)
  | loggersHaveError, s => (Logctl.loggersHaveError s.loggers, s)
  | loggersTouchWatchdog, s => (Logctl.loggersTouchWatchdog s.env s.loggers, s)
  | loggersLoggingOne, s => (Logctl.loggersLoggingOne s.loggers, s)
  | loggersLoggingAll, s => (Logctl.loggersLoggingAll s.loggers, s)
  | loggersGetLogFiles, s => (Logctl.loggersGetLogFiles s.loggers, s)
  -- acts on the log files and their indexes alone
  | loggersProcessRotationAndLimitation, s => ((), s)
  | loggersStop, s => ((), s.loggersStop)
  | loggersStart storageName, s => s.loggersStart storageName
  | loggersClearLastError, s => ((), { s with loggersErrorMessage := [] })
  | loggersGetLastError, s => (s.loggersErrorMessage, s)
  | loggersGetGlobalState, s => (s.loggersGlobalState, s)
  | loggersSetGlobalState state, s => ((), { s with loggersGlobalState := state })
  | loggersGetGlobalLogpath, s => (s.loggersGlobalLogpath, s)
  | loggersGetGlobalStorage, s =>
    (s.loggersGlobalStorage.bind fun name => s.storages.find? fun ps => ps.name = name, s)
  | errorCounterReset, s => ((), { s with loggersErrorCounter := 0 })
  | errorCounterIncrease, s =>
    (s.loggersErrorCounter + 1, { s with loggersErrorCounter := s.loggersErrorCounter + 1 })
  | getStopByShutdown, s => (s.stopByShutdown, s)
  | setStopByShutdown value, s => ((), { s with stopByShutdown := value })
  | partitionIsAutostartBitSet, s => (s.env.autostartBit, s)
  | isExpired, s => (s.env.isExpired, s)
  | exit, s => ((), { s with exited := true })

/-! ## What a call does to one logger -/

/-- The turn of one logger in a call. -/
def Call.turn : Call → State → Logger → Logger
  | loggersSetConfigs name c, _, l => if l.name = name then l.setConfigs c else l
  | loggersUpdateState, s, l =>
    if l.enabled then { l with state := l.logUpdateState s.env } else l
  | loggersClearErrors, _, l => if l.enabled then l.clearErrors else l
  | loggersStop, _, l => l.stopped
  | loggersStart storageName, s, l =>
    if (s.loggersStart storageName).1 < 0 then l
    else (l.started s.env (s.loggersStart storageName).2.loggersGlobalLogpath).2
  | _, _, l => l

section Start

variable {s : State} {storageName : CString}

@[simp] theorem State.placed_loggers : s.placed.loggers = s.loggers := by
  unfold placed
  split <;> rfl

@[simp] theorem State.placed_env : s.placed.env = s.env := by
  unfold placed
  split <;> rfl

@[simp] theorem State.launched_loggers : s.launched.loggers =
    s.loggers.map fun l => (l.started s.env s.loggersGlobalLogpath).2 := rfl

@[simp] theorem State.launched_logpath :
    s.launched.loggersGlobalLogpath = s.loggersGlobalLogpath := rfl

/-- With a path the loggers are started on it. -/
theorem State.loggersStart_ok (h : (s.select storageName none).error = none) :
    s.loggersStart storageName =
      (0, { s.atPath (s.select storageName none) with loggersErrorCounter := 0 }.placed.launched) := by
  unfold loggersStart
  simp only [h]

/-- Without one they stay as they are. -/
theorem State.loggersStart_error {e : SelectError}
    (h : (s.select storageName none).error = some e) :
    (s.loggersStart storageName).1 = -1 ∧ (s.loggersStart storageName).2.loggers = s.loggers := by
  unfold loggersStart
  cases e <;> simp [h, atPath]

/-- What becomes of each logger. -/
theorem State.loggersStart_loggers (s : State) (storageName : CString) :
    (s.loggersStart storageName).2.loggers =
      s.loggers.map ((Call.loggersStart storageName).turn s) := by
  have hturn : (Call.loggersStart storageName).turn s = fun l =>
      if (s.loggersStart storageName).1 < 0 then l
      else (l.started s.env (s.loggersStart storageName).2.loggersGlobalLogpath).2 := rfl
  rw [hturn]
  cases hres : (s.select storageName none).error with
  | none =>
    rw [loggersStart_ok hres]
    simp [atPath]
  | some e =>
    obtain ⟨hret, hloggers⟩ := loggersStart_error hres
    simp [hret, hloggers]

theorem State.loggersStart_env (s : State) (storageName : CString) :
    (s.loggersStart storageName).2.env = s.env := by
  cases hres : (s.select storageName none).error with
  | none =>
    rw [loggersStart_ok hres]
    exact placed_env
  | some e =>
    unfold loggersStart
    cases e <;> simp [hres, atPath]

end Start

/-- A call is a turn of every logger. -/
theorem Call.exec_loggers (c : Call) (s : State) :
    (c.exec s).2.loggers = s.loggers.map (c.turn s) := by
  have hid : ∀ t : List Logger, t = t.map fun l => l := fun t => (List.map_id' t).symm
  cases c with
  | loggersStart storageName => exact s.loggersStart_loggers storageName
  | confSaveToFile conf =>
    unfold exec
    dsimp only
    split <;> exact hid _
  | _ => first | exact hid _ | rfl

/-- A program of one of `logctl`'s threads. -/
abbrev Program (α : Type) := Prog Call Call.Resp α

/-- One call. -/
abbrev perform (c : Call) : Program c.Resp := Prog.invoke c

/-- An `if` without an `else`. -/
def onlyIf (c : Prop) [Decidable c] (p : Program Unit) : Program Unit :=
  if c then p else return ()

end AndroidLearn.Logctl
