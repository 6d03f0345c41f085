import AndroidLearn.Lib.Run
import Mathlib.Logic.Function.Basic

/-!
# The session file of `lognet` and `logsniff`

From `lognet.c` and `logsniff.c`: `read_timestampes_nolock`, `write_timestampes_nolock`,
`lognet_get_log_sn`, `count_total_size_nolock`, the record that `lognet_start` writes, and
`thread_autoclear`. A logger appends a record to the session file of its log path when it
has started, and the clearing thread reads the file, removes what is beyond the size
limit, and writes it anew. Both go through `sessions`, a table of `SESSION_COUNT` records,
and both hold `data_lock`, so that each is one step.

`lognet` and `logsniff` have the same functions with names of their own; a `Service` is
what differs. A session file is a list of lines, each a record as the source prints it,
and there is one for each path. The files open and are written as a whole; the time stamps
and the device's texts are in the event and fit their fields; the sizes of the logs are
given.

Theorem: `sessionsKept_iff`: over every history no record is lost exactly when no clearing
finds more records in the file than the table holds. What a clearing removes by its limit
is not lost, but cleared (`Cleared`).
-/

namespace AndroidLearn.Lognet

open Run

/-! ## Records -/

/-- The number of sessions that are kept. -/
def sessionCount : Nat := 100

/-- `TAG_DATETIME_LEN` -/
def tagDatetimeLen : Nat := 15

/-- `LOG_SESSION` -/
structure LogSession where
  /-- `char [TAG_DATETIME_LEN + 1]` -/
  timestamp : List UInt8
  size : UInt64
  sn : UInt16
  devinfo : List UInt8
  prdinfo : List UInt8
  rominfo : List UInt8
  deriving DecidableEq, Repr

/-- `strncpy` to a field that was zero: `len` bytes, those of the string and null bytes. -/
def field (len : Nat) (s : List UInt8) : List UInt8 :=
  (s.takeWhile (· ≠ 0)).take (len - 1) ++
    List.replicate (len - ((s.takeWhile (· ≠ 0)).take (len - 1)).length) 0

/-- The properties of the device, and the time, when a logger is started. -/
structure Device where
  serialno : List UInt8
  product : List UInt8
  /-- `ro.build.description` up to the first blank -/
  description : List UInt8
  datetime : List UInt8
  deriving DecidableEq, Repr

/-- `ls`, as it is filled in -/
def newSession (device : Device) (sn : UInt16) : LogSession where
  timestamp := field (tagDatetimeLen + 1) device.datetime
  size := 0
  sn := sn
  devinfo := field 16 device.serialno
  prdinfo := field 16 device.product
  rominfo := field 16 device.description

/-! ## A service -/

/-- What sets the two services apart. -/
structure Service where
  /-- `LOG_NET_EXT` -/
  logNetExt : String
  deriving DecidableEq, Repr

/-- The service of `lognet.c`. -/
def lognet : Service := ⟨"net"⟩

/-- The service of `logsniff.c`. -/
def logsniff : Service := ⟨"sniff"⟩

/-- The session file; `code` is `dir_get_storage_code`. -/
def Service.sessionFile (service : Service) (code : String → Char) (logPath : String) : String :=
  logPath ++ "." ++ service.logNetExt ++ "_v1." ++ (code logPath).toString

/-- The session number, and the records in the files. -/
structure State where
  logPath : String
  /-- 0 until a number has been chosen -/
  sn : UInt16
  /-- the records in the session files, by name -/
  files : String → List LogSession

/-- The service as it starts. -/
def State.init (logPath : String) : State := ⟨logPath, 0, fun _ => []⟩

section Service

variable (service : Service) (code : String → Char)

/-- The records in the session file of the log path. -/
def State.recorded (s : State) : List LogSession := s.files (service.sessionFile code s.logPath)

/-- The records are written to the session file. -/
def State.write (s : State) (records : List LogSession) : State :=
  { s with files := Function.update s.files (service.sessionFile code s.logPath) records }

/-- `read_timestampes_nolock`: what fits in the table, if all of it has timestamps. -/
def readTimestampes (records : List LogSession) : List LogSession :=
  let sessions := records.take sessionCount
  if sessions.any fun pls => pls.timestamp[tagDatetimeLen]? ≠ some 0 then [] else sessions

/-- `get_log_sn`, and the value that it leaves in `sn` -/
def getLogSn (sn : UInt16) (records : List LogSession) : UInt16 :=
  let sn :=
    if sn = 0 then
      (readTimestampes records).foldl (fun sn pls => if sn ≤ pls.sn then pls.sn + 1 else sn) 1
    else sn
  -- the short may have overflowed above
  if sn = 0 ∨ 9999 < sn then 1 else sn

/-! ## The clearing -/

/-- `count_total_size_nolock`: a size that is not known yet is counted, and that of the last
session always. `count` is `count_session_size_nolock`. -/
def countSizes (count : LogSession → UInt64) : List LogSession → List LogSession
  | [] => []
  | [pls] => [{ pls with size := count pls }]
  | pls :: next :: rest =>
    (if pls.size = 0 then { pls with size := count pls } else pls) :: countSizes count (next :: rest)

/-- The sizes of the sessions, added up as the source adds them. -/
def totalSize (sessions : List LogSession) : UInt64 :=
  sessions.foldl (fun size pls => size + pls.size) 0

/-- The sessions whose files are removed, and those that are left. -/
def clearBySize (freeSize : UInt64) : UInt64 → List LogSession → List LogSession × List LogSession
  | totalSize, pls :: next :: rest =>
    if freeSize < totalSize then
      -- the noted size may be more than what the files have in all
      let totalSize := totalSize - (if pls.size < totalSize then pls.size else totalSize)
      let (unlinked, sessions) := clearBySize freeSize totalSize (next :: rest)
      (pls :: unlinked, sessions)
    else ([], pls :: next :: rest)
  | _, sessions => ([], sessions)

/-- `log_limit` in bytes -/
def freeSize (logLimit : Int) : UInt64 :=
  UInt64.ofNat (if logLimit ≤ 0 then 500 else logLimit.toNat) * (1024 * 1024)

/-- What a clearing did. -/
structure Cleared where
  /-- what the total size is the sum of -/
  counted : List LogSession
  /-- whose files were removed -/
  unlinked : List LogSession
  /-- what is written to the file -/
  sessions : List LogSession

/-- `thread_autoclear` -/
def autoclear (count : LogSession → UInt64) (logLimit : Int) (records : List LogSession) :
    Cleared :=
  let counted := countSizes count (readTimestampes records)
  let (unlinked, sessions) := clearBySize (freeSize logLimit) (totalSize counted) counted
  ⟨counted, unlinked, sessions⟩

/-! ## Histories -/

/-- What reaches the service. -/
inductive Event
  /-- `lognet_start`, by `:run:` or by the monitor; does the child log after a second? -/
  | start (device : Device) (logging : Bool)
  /-- `lognet_reset_sn`, after `:stop:` and before the restart of a zombie -/
  | resetSn
  | autoclear (count : LogSession → UInt64) (logLimit : Int)
  /-- `:setpath:` -/
  | setPath (logPath : String)

/-- What an event does to the number and to the records. -/
def State.step (s : State) : Event → State
  | .start device logging =>
    let sn := getLogSn s.sn (s.recorded service code)
    let s := { s with sn := sn }
    if logging then s.write service code (s.recorded service code ++ [newSession device sn]) else s
  | .resetSn => { s with sn := 0 }
  | .autoclear count logLimit =>
    s.write service code (Lognet.autoclear count logLimit (s.recorded service code)).sessions
  | .setPath logPath => { s with logPath := logPath }

/-! ## The property -/

/-- A record, apart from the size that is noted in it. -/
def LogSession.record (pls : LogSession) : LogSession := { pls with size := 0 }

/-- The property of one clearing of the records of a file. -/
structure Kept (records : List LogSession) (cleared : Cleared) : Prop where
  /-- what is left in the file are the records that were not removed, in order -/
  inOrder : (cleared.unlinked ++ cleared.sessions).map LogSession.record =
    records.map LogSession.record
  /-- and the total size is of all that were in the file -/
  counted : cleared.counted.map LogSession.record = records.map LogSession.record

/-- The property at one event. -/
def SessionsKept (s : State) (e : Event) : Prop :=
  ∀ count logLimit, e = .autoclear count logLimit →
    Kept (s.recorded service code)
      (Lognet.autoclear count logLimit (s.recorded service code))

/-- The condition on one event. -/
def FitsTable (s : State) (e : Event) : Prop :=
  ∀ count logLimit, e = .autoclear count logLimit → (s.recorded service code).length ≤ sessionCount

/-! ## One clearing -/

/-- The timestamp of a record ends within its field. -/
def Stamped (pls : LogSession) : Prop := pls.timestamp[tagDatetimeLen]? = some 0

/-- A field ends with a null byte. -/
theorem getElem?_field (len : Nat) (s : List UInt8) (hlen : 0 < len) :
    (field len s)[len - 1]? = some 0 := by
  have hlength : ((s.takeWhile (· ≠ 0)).take (len - 1)).length ≤ len - 1 := List.length_take_le _ _
  unfold field
  rw [List.getElem?_append_right hlength, List.getElem?_replicate, if_pos (by omega)]

theorem stamped_newSession (device : Device) (sn : UInt16) : Stamped (newSession device sn) :=
  getElem?_field (tagDatetimeLen + 1) device.datetime (Nat.succ_pos _)

/-- At most 100 records are read. -/
theorem readTimestampes_eq {records : List LogSession} (h : ∀ pls ∈ records, Stamped pls) :
    readTimestampes records = records.take sessionCount := by
  unfold readTimestampes
  rw [if_neg]
  simp only [List.any_eq_true, decide_eq_true_eq, not_exists, not_and, ne_eq, not_not]
  exact fun pls hpls => h pls (List.mem_of_mem_take hpls)

/-- Counting the sizes changes nothing else. -/
theorem countSizes_map {α : Type} (count : LogSession → UInt64) {f : LogSession → α}
    (hf : ∀ pls size, f { pls with size := size } = f pls) (sessions : List LogSession) :
    (countSizes count sessions).map f = sessions.map f := by
  induction sessions using countSizes.induct with
  | case1 => rfl
  | case2 pls => simp [countSizes, hf]
  | case3 pls next rest ih =>
    rw [countSizes, List.map_cons, ih, List.map_cons]
    congr 1
    split
    · exact hf pls _
    · rfl

/-- What is cleared and what is left are the sessions. -/
theorem clearBySize_append (freeSize totalSize : UInt64) (sessions : List LogSession) :
    (clearBySize freeSize totalSize sessions).1 ++ (clearBySize freeSize totalSize sessions).2 =
      sessions := by
  induction totalSize, sessions using clearBySize.induct freeSize with
  | case1 total pls next rest hlt total' unlinked left heq ih =>
    rw [clearBySize, if_pos hlt]
    exact congrArg (List.cons pls) ih
  | case2 total pls next rest hle => rw [clearBySize, if_neg hle]; rfl
  | case3 total sessions hshort => rw [clearBySize]; rfl; exact hshort

/-- No record is lost when there are at most 100. -/
theorem kept_iff {records : List LogSession} (h : ∀ pls ∈ records, Stamped pls)
    (count : LogSession → UInt64) (logLimit : Int) :
    Kept records (autoclear count logLimit records) ↔ records.length ≤ sessionCount := by
  -- what is counted, and then split by the size limit, is what fits in the table
  have hcounted : (autoclear count logLimit records).counted.map LogSession.record =
      (records.take sessionCount).map LogSession.record := by
    unfold autoclear
    dsimp only
    rw [countSizes_map count fun _ _ => rfl, readTimestampes_eq h]
  have hall : (autoclear count logLimit records).unlinked ++
      (autoclear count logLimit records).sessions = (autoclear count logLimit records).counted :=
    clearBySize_append _ _ _
  refine ⟨fun hkept => ?_, fun hle => ?_⟩
  · -- all of the records can only be the first hundred of them if there are no more
    have hlength := congrArg List.length (hcounted.symm.trans hkept.counted)
    rw [List.length_map, List.length_map, List.length_take] at hlength
    omega
  · rw [List.take_of_length_le hle] at hcounted
    exact ⟨(congrArg _ hall).trans hcounted, hcounted⟩

/-! ## Every run -/

/-- The records of all files have timestamps. -/
def State.Stamped (s : State) : Prop := ∀ name, ∀ pls ∈ s.files name, Lognet.Stamped pls

variable {service code}

/-- Records with a time may be written. -/
theorem State.Stamped.write {s : State} (h : s.Stamped) {records : List LogSession}
    (hrecords : ∀ pls ∈ records, Lognet.Stamped pls) : (s.write service code records).Stamped := by
  intro name
  unfold State.write
  dsimp only
  by_cases hname : name = service.sessionFile code s.logPath
  · subst hname
    rw [Function.update_self]
    exact hrecords
  · rw [Function.update_of_ne hname]
    exact h name

/-- What is left was there before. -/
theorem mem_autoclear {count : LogSession → UInt64} {logLimit : Int} {records : List LogSession}
    {pls : LogSession} (h : pls ∈ (autoclear count logLimit records).sessions) :
    ∃ pls' ∈ records, pls'.timestamp = pls.timestamp ∧ pls'.sn = pls.sn := by
  have hmem : pls ∈ countSizes count (readTimestampes records) := by
    rw [← clearBySize_append (freeSize logLimit) (totalSize _) (countSizes count _)]
    exact List.mem_append_right _ h
  -- counting changes no more than the size, so the record was read with its timestamp and number
  have hmap := countSizes_map count (f := fun pls => (pls.timestamp, pls.sn))
    (fun _ _ => rfl) (readTimestampes records)
  have himage := List.mem_map_of_mem (f := fun pls : LogSession => (pls.timestamp, pls.sn)) hmem
  rw [hmap] at himage
  obtain ⟨pls', hpls', heq⟩ := List.mem_map.mp himage
  refine ⟨pls', ?_, congrArg Prod.fst heq, congrArg Prod.snd heq⟩
  unfold readTimestampes at hpls'
  dsimp only at hpls'
  split at hpls'
  · exact absurd hpls' List.not_mem_nil
  · exact List.mem_of_mem_take hpls'

/-- Every record has a time. -/
theorem State.Stamped.step {s : State} (h : s.Stamped) (e : Event) :
    (s.step service code e).Stamped := by
  cases e with
  | start device logging =>
    unfold State.step
    dsimp only
    split
    · refine State.Stamped.write h fun pls hpls => ?_
      rcases List.mem_append.mp hpls with hpls | hpls
      · exact h _ pls hpls
      · rw [List.mem_singleton.mp hpls]
        exact stamped_newSession _ _
    · exact h
  | resetSn => exact h
  | autoclear count logLimit =>
    refine h.write fun pls hpls => ?_
    obtain ⟨pls', hpls', htimestamp, -⟩ := mem_autoclear hpls
    unfold Lognet.Stamped
    rw [← htimestamp]
    exact h _ pls' hpls'
  | setPath logPath => exact h

variable (service code)

/-- No clearing of a run loses a record or leaves one out of the total size exactly when each
finds at most as many in the file as the table holds. -/
theorem sessionsKept_iff (logPath : String) (events : List Event) :
    AllSteps (State.step service code) (SessionsKept service code) (.init logPath) events ↔
      AllSteps (State.step service code) (FitsTable service code) (.init logPath) events := by
  refine AllSteps.congr (I := State.Stamped) (fun s e h => ⟨?_, fun _ => h.step e⟩) ?_
  · unfold SessionsKept FitsTable
    simp only [kept_iff (h (service.sessionFile code s.logPath)), State.recorded]
  · exact fun _ _ hmem => absurd hmem List.not_mem_nil

/-! A start that is not recorded counts for nothing; each that is adds one. -/

theorem State.Stamped.init (logPath : String) : (State.init logPath).Stamped :=
  fun _ _ hmem => absurd hmem List.not_mem_nil

/-- A start that is recorded. -/
theorem recorded_start (s : State) (device : Device) :
    (s.step service code (.start device true)).recorded service code =
      s.recorded service code ++
        [newSession device (getLogSn s.sn (s.recorded service code))] := by
  simp [State.step, State.write, State.recorded]

theorem length_starts (s : State) (device : Device) (n : Nat) :
    (((List.replicate n (Event.start device true)).foldl (State.step service code) s).recorded
      service code).length = (s.recorded service code).length + n := by
  induction n generalizing s with
  | zero => rfl
  | succ n ih =>
    rw [List.replicate_succ, List.foldl_cons, ih, recorded_start, List.length_append]
    simp only [List.length_cons, List.length_nil]
    omega

/-- A hundred and one sessions, and a clearing that finds nothing to remove. -/
theorem sessionsKept_fails_full :
    ¬ AllSteps (State.step lognet fun _ => 'P') (SessionsKept lognet fun _ => 'P')
      (.init "/data/htclog/")
      (List.replicate 101 (.start ⟨[], [], [], []⟩ true) ++ [.autoclear (fun _ => 1) 500]) := by
  intro h
  have hlast := (allSteps_append.mp h).2.1 _ _ rfl
  have hstamped : ∀ (events : List Event) (s : State), s.Stamped →
      (events.foldl (State.step lognet fun _ => 'P') s).Stamped := by
    intro events
    induction events with
    | nil => exact fun s hs => hs
    | cons e events ih => exact fun s hs => ih _ (hs.step e)
  have hfits := (kept_iff (hstamped _ _ (.init _) _) _ _).mp hlast
  have hlength := length_starts lognet (fun _ => 'P') (.init "/data/htclog/") ⟨[], [], [], []⟩ 101
  have hnone : ((State.init "/data/htclog/").recorded lognet fun _ => 'P').length = 0 := rfl
  have hmany := Nat.le_trans (Nat.le_of_eq hlength.symm) hfits
  rw [hnone] at hmany
  exact absurd hmany (by decide)

end Service

end AndroidLearn.Lognet
