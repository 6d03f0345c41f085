import AndroidLearn.Dir.Links
import AndroidLearn.Logctl.StateWord
import AndroidLearn.Logctl.StoragePath

/-!
# Whether a logger is alive

`logger_common_update_state` of `logctl.c`, with `logger_common_pipe_validate`, and
`is_thread_alive` of `process.c`. It looks up the process and the thread that a logger has
recorded and writes what it finds into the state word. It has one variable for both: the
letter of the process is lost where a thread is recorded beside it, since the number of
the thread is then looked up as if it were a process.

`Processes` is what `/proc` and `lstat` say at the time of the call: for each number the
letter of a process, whether a thread is alive, and for a path its mode and whether it is
a FIFO. Nobody is born or dies during the call. The lines of `/proc` themselves are in
`Process.Stat`.

`updateState_eq` is the refresh of the word by an observation; the rest is about which
observation this is (`lastState_eq`, `prstat_iff`, `missing_iff`).

Theorem: `classified_iff` says when the observation is the right one, for every word, pair
of numbers and table of processes.
-/

namespace AndroidLearn.Logctl.Liveness

open Conf
open Dir (cut)

/-! ## The function -/

/-- What `lstat` says of a file. -/
structure FileStat where
  isFifo : Bool
  mode : BitVec 32

/-- The processes with their state, the threads of this one, and the files. -/
structure Processes where
  state : Int32 → Option Char
  /-- `pthread_kill (tid, 0) == 0` -/
  threadAlive : Int64 → Bool
  /-- `access (path, R_OK | W_OK) == 0` -/
  accessible : CString → Bool
  lstat : CString → Option FileStat

/-- `get_pid_stat`, and `PROCESS_STATE_UNKNOWN` -/
def getPidStat (t : Processes) (pid : Int32) : Char := (t.state pid).getD '?'

/-- `is_thread_alive` -/
def isThreadAlive (t : Processes) (tid : Int64) : Bool := tid ≠ -1 && t.threadAlive tid

/-- `logger_common_pipe_filename` -/
def pipeFilename (name : CString) : CString :=
  cut (datDir ++ ".".toList ++ name ++ ".pipe".toList)

/-- `logger_common_pipe_validate` -/
def pipeValidate (t : Processes) (pipefile : CString) : Int :=
  match t.lstat pipefile with
  | none => -1
  | some st => if ¬ st.isFifo ∨ st.mode &&& 0o777#32 ≠ 0o600#32 then -1 else 0

/-- `log_filename && log_filename [0] && (access (log_filename, R_OK | W_OK) != 0)` -/
def fileMissing (t : Processes) (logFilename : Option CString) : Bool :=
  logFilename.any fun path => path ≠ [] && ! t.accessible path

/-- The pipe is asked for, and it is not there. -/
def pipeMissing (t : Processes) (name : CString) (checkPipe : Bool) : Bool :=
  checkPipe && pipeValidate t (pipeFilename name) < 0

/-- `logger_common_update_state`; `tid` is a `long`, and an `int` where it is taken for a
process. -/
def loggerCommonUpdateState (t : Processes) (name : CString) (state : StateWord) (pid : Int32)
    (tid : Int64) (logFilename : Option CString) (checkPipe : Bool) : StateWord :=
  let s := 'S'
  let state := state &&& ~~~(maskLogging ||| maskErrorPrstat ||| maskErrorMissing)
  let (s, state) :=
    if pid > 0 then
      let s := getPidStat t pid
      (s, if s = '?' then state ||| maskErrorPrstat else state)
    else (s, state)
  let (s, state) :=
    if tid ≠ -1 then
      let s := getPidStat t tid.toInt32
      (s, if ! isThreadAlive t tid then state ||| maskErrorPrstat else state)
    else (s, state)
  let state := if state &&& maskErrorPrstat = 0#32 then state ||| maskLogging else state
  let state := setOrClear (s = 'Z') maskErrorZombie state
  let state := setOrClear (s = 'D') maskErrorDefunct state
  if fileMissing t logFilename then state ||| maskErrorMissing
  else if pipeMissing t name checkPipe then state ||| maskErrorMissing
  else state

/-! ## The classification -/

section Classified

variable (t : Processes) (name : CString) (w : StateWord) (pid : Int32) (tid : Int64)
  (logFilename : Option CString) (checkPipe : Bool)

/-- A process that is recorded is unknown, or a thread is not alive. -/
def Lost : Prop := (0 < pid ∧ getPidStat t pid = '?') ∨ (tid ≠ -1 ∧ t.threadAlive tid = false)

/-- The log file cannot be used, or the pipe that is to be checked is none. -/
def Missing : Prop :=
  (∃ path, logFilename = some path ∧ path ≠ [] ∧ t.accessible path = false) ∨
    (checkPipe = true ∧ pipeValidate t (pipeFilename name) < 0)

/-- The word behind a refresh says how the process, the thread, the file and the pipe are,
and everything else as before. -/
structure Classified (w' : StateWord) : Prop where
  prstat : w'.getLsbD 12 = true ↔ Lost t pid tid
  logging : w'.getLsbD 2 = true ↔ w'.getLsbD 12 = false
  zombie : 0 < pid → (w'.getLsbD 13 = true ↔ getPidStat t pid = 'Z')
  defunct : 0 < pid → (w'.getLsbD 14 = true ↔ getPidStat t pid = 'D')
  missing : w'.getLsbD 15 = true ↔ Missing t name logFilename checkPipe
  others : w' &&& ~~~maskCommon = w &&& ~~~maskCommon

/-- The letter that is left in `s`. -/
def lastState : Char :=
  if tid ≠ -1 then getPidStat t tid.toInt32 else if pid > 0 then getPidStat t pid else 'S'

/-- What is observed, apart from the errors of a pipe. -/
def observation : Observation where
  errorOpen := false
  errorRead := false
  errorWrite := false
  prstat := (pid > 0 && getPidStat t pid = '?') || (tid ≠ -1 && ! isThreadAlive t tid)
  zombie := lastState t pid tid = 'Z'
  defunct := lastState t pid tid = 'D'
  missing := fileMissing t logFilename || pipeMissing t name checkPipe

/-- The function is the refresh of the word by this observation. -/
theorem updateState_eq : loggerCommonUpdateState t name w pid tid logFilename checkPipe =
    commonUpdateWord (observation t name pid tid logFilename checkPipe) w := by
  have hmissing (x : StateWord) : (if fileMissing t logFilename then x ||| maskErrorMissing
      else if pipeMissing t name checkPipe then x ||| maskErrorMissing else x) =
      setIf (fileMissing t logFilename || pipeMissing t name checkPipe) maskErrorMissing x := by
    cases fileMissing t logFilename <;> cases pipeMissing t name checkPipe <;> rfl
  unfold loggerCommonUpdateState commonUpdateWord observation lastState
  simp only [hmissing]
  -- one lookup, both or none; each can fail
  by_cases hpid : pid > 0 <;> by_cases htid : tid = -1 <;>
    by_cases hunknown : getPidStat t pid = '?' <;> cases isThreadAlive t tid <;>
    simp [hpid, htid, hunknown, setIf, BitVec.or_assoc]

theorem prstat_iff : (observation t name pid tid logFilename checkPipe).prstat = true ↔ Lost t pid tid := by
  unfold observation Lost isThreadAlive
  by_cases htid : tid = -1 <;> simp [htid]

/-- What `LOGGER_STATE_MASK_ERROR_MISSING` says. -/
theorem missing_iff : (observation t name pid tid logFilename checkPipe).missing = true ↔
    Missing t name logFilename checkPipe := by
  unfold observation Missing fileMissing pipeMissing
  simp [Option.any_eq_true]

/-- What the letter that is left is. -/
theorem lastState_eq (hpid : 0 < pid) : lastState t pid tid =
    if tid ≠ -1 then getPidStat t tid.toInt32 else getPidStat t pid := by
  unfold lastState
  rw [if_pos hpid]

end Classified

/-- A refresh of the common bits says what was observed. -/
theorem getLsbD_common (o : Observation) (w : StateWord) :
    (commonUpdateWord o w).getLsbD 12 = o.prstat ∧ (commonUpdateWord o w).getLsbD 2 = ! o.prstat ∧
      (commonUpdateWord o w).getLsbD 13 = o.zombie ∧ (commonUpdateWord o w).getLsbD 14 = o.defunct ∧
      (commonUpdateWord o w).getLsbD 15 = o.missing := by
  simp only [getLsbD_commonUpdateWord, maskLogging, maskErrorPrstat, maskErrorZombie,
    maskErrorDefunct, maskErrorMissing]
  simp

/-- The classification is right, for every word, exactly if a thread beside a process does not
stand for another state of it. -/
theorem classified_iff (t : Processes) (name : CString) (w : StateWord) (pid : Int32) (tid : Int64)
    (logFilename : Option CString) (checkPipe : Bool) :
    Classified t name w pid tid logFilename checkPipe
        (loggerCommonUpdateState t name w pid tid logFilename checkPipe) ↔
      (0 < pid → tid ≠ -1 →
        (getPidStat t tid.toInt32 = 'Z' ↔ getPidStat t pid = 'Z') ∧
          (getPidStat t tid.toInt32 = 'D' ↔ getPidStat t pid = 'D')) := by
  obtain ⟨hprstat, hlogging, hzombie, hdefunct, hmissing⟩ :=
    getLsbD_common (observation t name pid tid logFilename checkPipe) w
  rw [updateState_eq]
  have hletter (hpid : 0 < pid) (c : Char) : lastState t pid tid = c ↔
      (if tid ≠ -1 then getPidStat t tid.toInt32 else getPidStat t pid) = c := by
    rw [lastState_eq t pid tid hpid]
  constructor
  · intro h hpid htid
    have hz := h.zombie hpid
    have hd := h.defunct hpid
    rw [hzombie] at hz
    rw [hdefunct] at hd
    simp only [observation, decide_eq_true_eq, hletter hpid, if_pos htid] at hz hd
    exact ⟨hz, hd⟩
  · intro h
    refine ⟨?_, ?_, fun hpid => ?_, fun hpid => ?_, ?_, commonUpdateWord_frame_common _ w⟩
    · rw [hprstat, prstat_iff]
    · rw [hlogging, hprstat]
      simp
    · rw [hzombie]
      simp only [observation, decide_eq_true_eq, hletter hpid]
      by_cases htid : tid = -1
      · rw [if_neg (not_not.mpr htid)]
      · rw [if_pos htid]
        exact (h hpid htid).1
    · rw [hdefunct]
      simp only [observation, decide_eq_true_eq, hletter hpid]
      by_cases htid : tid = -1
      · rw [if_neg (not_not.mpr htid)]
      · rw [if_pos htid]
        exact (h hpid htid).2
    · rw [hmissing, missing_iff]

/-- Process 7 is a zombie, and its logger has a thread that is alive. -/
def zombieBeside : Processes where
  state pid := if pid = 7 then some 'Z' else none
  threadAlive tid := tid = 9
  accessible _ := true
  lstat _ := none

/-- The zombie is not reported. -/
theorem classified_fails_thread : ¬ ∀ t name w pid tid logFilename checkPipe,
    Classified t name w pid tid logFilename checkPipe
      (loggerCommonUpdateState t name w pid tid logFilename checkPipe) := by
  intro h
  have hzombie := (h zombieBeside [] 0#32 7 9 none false).zombie (by decide)
  have hstate : getPidStat zombieBeside 7 = 'Z' := rfl
  have hword : loggerCommonUpdateState zombieBeside [] 0#32 7 9 none false = maskLogging := rfl
  rw [hword, hstate] at hzombie
  exact absurd (hzombie.mpr rfl) (by decide)

end AndroidLearn.Logctl.Liveness
