import AndroidLearn.Logctl.Loggers
import Mathlib.Tactic.Common

/-!
# The state word of a logger

`LoggerState` names the bits of `LOGGER.state`; here is the word itself, as the functions
`log_update_state` of the loggers get and return it: `logger_common_update_state` of
`logctl.c`, which most of them go through, `logdevice_update_state`,
`logkmsg_update_state`, and that of `dumplastkmsg.c`, which has a state of its own. The
masks are those of the source.

`ofWord` reads the named bits off a word, and the refresh of the word is the refresh of
the bits (`ofWord_logUpdateWord`, which ties this module to `Loggers`).

The refresh is to change the observation bits only. Every logger that goes through
`logger_common_update_state` keeps to that, whatever the word and the observation
(`commonUpdateWord_frame`); `dumplastkmsg` returns a word of its own, which knows STARTED,
STOPPED and LOGGING only.

Theorem: `onlyObservationChanged_logUpdateWord_iff` says for which words each logger
changes the observation bits alone, for every observation.
-/

namespace AndroidLearn.Logctl

/-- `int`, the type of a state that `log_update_state` is given and returns. -/
abbrev StateWord := BitVec 32

/-! ## `LOGGER_STATE_MASK_*` -/

def maskStarted : StateWord := 0x00000001#32
def maskStopped : StateWord := 0x00000002#32
def maskLogging : StateWord := 0x00000004#32
def maskRequestRemoveOldlog : StateWord := 0x00000010#32
/-- Every error bit, the fatal ones among them. -/
def maskErrorAll : StateWord := 0x0000FF00#32
def maskErrorOpen : StateWord := 0x00000100#32
def maskErrorRead : StateWord := 0x00000200#32
def maskErrorWrite : StateWord := 0x00000400#32
def maskErrorPrstat : StateWord := 0x00001000#32
def maskErrorZombie : StateWord := 0x00002000#32
def maskErrorDefunct : StateWord := 0x00004000#32
def maskErrorMissing : StateWord := 0x00008000#32
def maskCompress : StateWord := 0x01000000#32

/-- The bits that say what was observed. -/
def maskObservation : StateWord := maskLogging ||| maskErrorAll

/-- Those of them that `logger_common_update_state` sets and clears. -/
def maskCommon : StateWord :=
  maskLogging ||| maskErrorPrstat ||| maskErrorZombie ||| maskErrorDefunct ||| maskErrorMissing

/-- The bits that say what the logger is told to do. -/
def maskControl : StateWord :=
  maskStarted ||| maskStopped ||| maskCompress ||| maskRequestRemoveOldlog

/-! ## The refresh -/

/-- `state |= mask` under a condition. -/
def setIf (c : Bool) (mask w : StateWord) : StateWord := if c then w ||| mask else w

/-- Set the bit, or clear it where it is set. -/
def setOrClear (c : Bool) (mask w : StateWord) : StateWord :=
  if c then w ||| mask
  else if w &&& mask ≠ 0#32 then w &&& ~~~mask
  else w

/-- `logger_common_update_state` -/
def commonUpdateWord (o : Observation) (w : StateWord) : StateWord :=
  let w := w &&& ~~~(maskLogging ||| maskErrorPrstat ||| maskErrorMissing)
  let w := setIf o.prstat maskErrorPrstat w
  let w := if w &&& maskErrorPrstat = 0#32 then w ||| maskLogging else w
  let w := setOrClear o.zombie maskErrorZombie w
  let w := setOrClear o.defunct maskErrorDefunct w
  setIf o.missing maskErrorMissing w

/-- `logdevice_update_state` and its like: the error of the pipe, or of writing,
is taken over first. -/
def pipeUpdateWord (o : Observation) (w : StateWord) : StateWord :=
  let w := setIf o.errorOpen maskErrorOpen w
  let w := setIf o.errorRead maskErrorRead w
  let w := setIf o.errorWrite maskErrorWrite w
  commonUpdateWord o w

/-- The static `log_state` of `dumplastkmsg`, and all that is ever stored in it. -/
structure LastkmsgState where
  word : StateWord
  stored : word = maskStopped ∨ word = maskStarted ∨ word = maskStarted ||| maskLogging

/-- Its initialiser, and `dumplastkmsg_stop`. -/
def LastkmsgState.stopped : LastkmsgState where
  word := maskStopped
  stored := by simp

/-- `dumplastkmsg_start`; `dumped` says that a file was found and copied. -/
def LastkmsgState.start (dumped : Bool) : LastkmsgState where
  word := if dumped then maskStarted ||| maskLogging else maskStarted
  stored := by cases dumped <;> simp

/-- `log_update_state` of the entry. -/
def logUpdateWord (name : LoggerName) (logState : LastkmsgState) (o : Observation)
    (w : StateWord) : StateWord :=
  if name = .dumplastkmsg then logState.word else pipeUpdateWord o w

/-! ## Bits outside a mask -/

section Frame

variable {w m k : StateWord}

theorem or_frame (h : m &&& k = 0#32) : (w ||| m) &&& k = w &&& k := by
  rw [BitVec.and_comm, BitVec.and_or_distrib_left, BitVec.and_comm k m, h, BitVec.or_zero,
    BitVec.and_comm]

/-- Clearing bits leaves the others. -/
theorem andNot_frame (h : m &&& k = 0#32) : (w &&& ~~~m) &&& k = w &&& k := by
  ext i hi
  have hbit : (m[i] && k[i]) = false := by
    rw [← BitVec.getElem_and, h, BitVec.getElem_zero]
  simp only [BitVec.getElem_and, BitVec.getElem_not]
  cases hm : m[i] with
  | false => simp
  | true =>
    have hk : k[i] = false := by simpa [hm] using hbit
    simp [hk]

theorem setIf_frame (c : Bool) (h : m &&& k = 0#32) : setIf c m w &&& k = w &&& k := by
  unfold setIf
  split
  · exact or_frame h
  · rfl

theorem setOrClear_frame (c : Bool) (h : m &&& k = 0#32) :
    setOrClear c m w &&& k = w &&& k := by
  unfold setOrClear
  split
  · exact or_frame h
  · split
    · exact andNot_frame h
    · rfl

end Frame

/-- Whatever the observation, the common refresh leaves every other bit alone. -/
theorem commonUpdateWord_frame_common (o : Observation) (w : StateWord) :
    commonUpdateWord o w &&& ~~~maskCommon = w &&& ~~~maskCommon := by
  have hlogging : ∀ x : StateWord, (if x &&& maskErrorPrstat = 0#32 then x ||| maskLogging else x) &&&
      ~~~maskCommon = x &&& ~~~maskCommon := by
    intro x
    split
    · exact or_frame (by decide)
    · rfl
  unfold commonUpdateWord
  dsimp only
  rw [setIf_frame _ (by decide), setOrClear_frame _ (by decide), setOrClear_frame _ (by decide),
    hlogging, setIf_frame _ (by decide), andNot_frame (by decide)]

/-- `logger_common_update_state` changes what is observed, and nothing else. -/
theorem commonUpdateWord_frame (o : Observation) (w : StateWord) :
    commonUpdateWord o w &&& ~~~maskObservation = w &&& ~~~maskObservation := by
  have hmask : ~~~maskObservation = ~~~maskCommon &&& ~~~maskObservation := by decide
  rw [hmask, ← BitVec.and_assoc, commonUpdateWord_frame_common, BitVec.and_assoc]

theorem pipeUpdateWord_frame (o : Observation) (w : StateWord) :
    pipeUpdateWord o w &&& ~~~maskObservation = w &&& ~~~maskObservation := by
  unfold pipeUpdateWord
  dsimp only
  rw [commonUpdateWord_frame, setIf_frame _ (by decide), setIf_frame _ (by decide),
    setIf_frame _ (by decide)]

/-! ## The named bits -/

/-- The state as the rest of the model has it, bit by bit of the word. -/
def LoggerState.ofWord (w : StateWord) : LoggerState where
  started := w.getLsbD 0
  stopped := w.getLsbD 1
  logging := w.getLsbD 2
  errorOpen := w.getLsbD 8
  errorRead := w.getLsbD 9
  errorWrite := w.getLsbD 10
  errorPrstat := w.getLsbD 12
  errorZombie := w.getLsbD 13
  errorDefunct := w.getLsbD 14
  errorMissing := w.getLsbD 15
  requestRemoveOldlog := w.getLsbD 4
  compress := w.getLsbD 24

section Bits

variable (c : Bool) (mask w : StateWord) (i : Nat)

theorem getLsbD_setIf : (setIf c mask w).getLsbD i = (w.getLsbD i || c && mask.getLsbD i) := by
  unfold setIf
  cases c <;> simp

/-- A bit behind either. -/
theorem getLsbD_setOrClear : (setOrClear c mask w).getLsbD i =
    if c then w.getLsbD i || mask.getLsbD i else w.getLsbD i && !mask.getLsbD i := by
  unfold setOrClear
  cases c with
  | true => simp
  | false =>
    simp only [Bool.false_eq_true, if_false]
    split
    · by_cases hi : i < 32
      · simp [hi]
      · simp [BitVec.getLsbD_of_ge w i (by omega)]
    next hzero =>
      -- the bit was not set in the first place
      have hbit : (w &&& mask).getLsbD i = false := by
        rw [not_not.mp hzero]
        simp
      rw [BitVec.getLsbD_and] at hbit
      cases hw : w.getLsbD i with
      | false => rfl
      | true => simpa [hw] using hbit

end Bits

/-- The error bit `PRSTAT` was cleared first, so it is set exactly when the process
could not be found, and the logger is logging otherwise. -/
theorem getLsbD_logging (o : Observation) (w : StateWord) (i : Nat) :
    let x := setIf o.prstat maskErrorPrstat
      (w &&& ~~~(maskLogging ||| maskErrorPrstat ||| maskErrorMissing))
    (if x &&& maskErrorPrstat = 0#32 then x ||| maskLogging else x).getLsbD i =
      (x.getLsbD i || !o.prstat && maskLogging.getLsbD i) := by
  intro x
  have hzero : x &&& maskErrorPrstat = 0#32 ↔ o.prstat = false := by
    cases hp : o.prstat with
    | true =>
      simp only [Bool.true_eq_false, iff_false]
      intro hx
      have hbit := congrArg (fun y : StateWord => y.getLsbD 12) hx
      simp [x, setIf, hp, maskErrorPrstat] at hbit
    | false =>
      have hmask : ~~~(maskLogging ||| maskErrorPrstat ||| maskErrorMissing) &&& maskErrorPrstat
          = 0#32 := by decide
      simp [x, setIf, hp, BitVec.and_assoc, hmask]
  by_cases hp : o.prstat = false
  · rw [if_pos (hzero.mpr hp), BitVec.getLsbD_or]
    simp [hp]
  · rw [if_neg (fun hx => hp (hzero.mp hx))]
    simp [hp]

/-- What the common refresh makes of one bit. -/
theorem getLsbD_commonUpdateWord (o : Observation) (w : StateWord) (i : Nat) :
    (commonUpdateWord o w).getLsbD i =
      let observed := w.getLsbD i &&
          !(maskLogging ||| maskErrorPrstat ||| maskErrorMissing).getLsbD i && decide (i < 32) ||
        o.prstat && maskErrorPrstat.getLsbD i || !o.prstat && maskLogging.getLsbD i
      let zombie := if o.zombie then observed || maskErrorZombie.getLsbD i
        else observed && !maskErrorZombie.getLsbD i
      let defunct := if o.defunct then zombie || maskErrorDefunct.getLsbD i
        else zombie && !maskErrorDefunct.getLsbD i
      defunct || o.missing && maskErrorMissing.getLsbD i := by
  unfold commonUpdateWord
  dsimp only
  rw [getLsbD_setIf, getLsbD_setOrClear, getLsbD_setOrClear, getLsbD_logging, getLsbD_setIf,
    BitVec.getLsbD_and, BitVec.getLsbD_not]
  by_cases hi : i < 32
  · simp [hi]
  · have hge : ∀ x : StateWord, x.getLsbD i = false := by
      intro x
      exact BitVec.getLsbD_of_ge x i (by omega)
    simp [hge]

/-- The refresh of the word is the refresh of its bits. -/
theorem ofWord_pipeUpdateWord (o : Observation) (w : StateWord) :
    LoggerState.ofWord (pipeUpdateWord o w) =
      loggerCommonUpdateState o (LoggerState.ofWord w) := by
  simp only [LoggerState.ofWord, loggerCommonUpdateState, pipeUpdateWord, getLsbD_setIf,
    getLsbD_commonUpdateWord, maskLogging, maskErrorPrstat, maskErrorMissing, maskErrorOpen,
    maskErrorRead, maskErrorWrite, maskErrorZombie, maskErrorDefunct]
  simp

/-- `log_update_state` on words is `log_update_state` on their bits. -/
theorem ofWord_logUpdateWord (e : Env) (l : Logger) (logState : LastkmsgState) (w : StateWord)
    (hstate : l.state = .ofWord w) (hlast : l.logState = .ofWord logState.word) :
    LoggerState.ofWord (logUpdateWord l.name logState (e.observe l.name) w) =
      l.logUpdateState e := by
  unfold logUpdateWord Logger.logUpdateState
  split
  · exact hlast.symm
  · rw [ofWord_pipeUpdateWord, hstate]

/-! ## The control bits -/

/-- The refresh kept what the logger is told to do, and changed nothing but what
was observed. -/
def OnlyObservationChanged (w w' : StateWord) : Prop :=
  w' &&& maskControl = w &&& maskControl ∧
    w' &&& ~~~maskObservation = w &&& ~~~maskObservation

/-- The bits that `log_state` of `dumplastkmsg` has a value for. -/
def maskRunning : StateWord := maskStarted ||| maskStopped

/-- The other bits are the same. -/
theorem onlyObservationChanged_iff (w w' : StateWord) :
    OnlyObservationChanged w w' ↔ w' &&& ~~~maskObservation = w &&& ~~~maskObservation := by
  unfold OnlyObservationChanged
  refine ⟨fun h => h.2, fun h => ⟨?_, h⟩⟩
  have hmask : maskControl = ~~~maskObservation &&& maskControl := by decide
  rw [hmask, ← BitVec.and_assoc, h, BitVec.and_assoc]

theorem LastkmsgState.rest_zero (logState : LastkmsgState) :
    logState.word &&& ~~~(maskObservation ||| maskRunning) = 0#32 := by
  rcases logState.stored with h | h | h <;> rw [h] <;> decide

/-- Two words agree off the observation bits when they agree on STARTED and STOPPED
and on the rest. -/
theorem and_not_observation_iff (w w' : StateWord) :
    w' &&& ~~~maskObservation = w &&& ~~~maskObservation ↔
      w' &&& maskRunning = w &&& maskRunning ∧
        w' &&& ~~~(maskObservation ||| maskRunning) =
          w &&& ~~~(maskObservation ||| maskRunning) := by
  have hrunning : maskRunning = ~~~maskObservation &&& maskRunning := by decide
  have hrest : ~~~(maskObservation ||| maskRunning) =
      ~~~maskObservation &&& ~~~(maskObservation ||| maskRunning) := by decide
  have hsplit : ~~~maskObservation = maskRunning ||| ~~~(maskObservation ||| maskRunning) := by
    decide
  constructor
  · intro h
    refine ⟨?_, ?_⟩
    · rw [hrunning, ← BitVec.and_assoc, h, BitVec.and_assoc]
    · rw [hrest, ← BitVec.and_assoc, h, BitVec.and_assoc]
  · rintro ⟨hrun, hother⟩
    rw [hsplit, BitVec.and_or_distrib_left, BitVec.and_or_distrib_left, hrun, hother]

/-- A refresh changes the observation bits only, except that of `dumplastkmsg`: there
it does when the word's STARTED and STOPPED are those that its last start or stop
recorded, and neither COMPRESS nor REQUEST_REMOVE_OLDLOG nor another bit is set. -/
theorem onlyObservationChanged_logUpdateWord_iff (name : LoggerName) (logState : LastkmsgState)
    (o : Observation) (w : StateWord) :
    OnlyObservationChanged w (logUpdateWord name logState o w) ↔
      (name = .dumplastkmsg →
        w &&& maskRunning = logState.word &&& maskRunning ∧
          w &&& ~~~(maskObservation ||| maskRunning) = 0#32) := by
  rw [onlyObservationChanged_iff]
  unfold logUpdateWord
  by_cases hname : name = .dumplastkmsg
  · rw [if_pos hname, and_not_observation_iff, logState.rest_zero]
    constructor
    · rintro ⟨hrun, hrest⟩ _
      exact ⟨hrun.symm, hrest.symm⟩
    · intro h
      exact ⟨(h hname).1.symm, (h hname).2.symm⟩
  · rw [if_neg hname]
    refine ⟨fun _ h => absurd h hname, fun _ => pipeUpdateWord_frame o w⟩

/-- `dumplastkmsg` was started, then asked to remove its oldest logs: the refresh
forgets the request. -/
theorem onlyObservationChanged_fails_request :
    ¬ ∀ (name : LoggerName) (logState : LastkmsgState) (o : Observation) (w : StateWord),
      OnlyObservationChanged w (logUpdateWord name logState o w) := by
  intro h
  have hlost := (h .dumplastkmsg (.start false) ⟨false, false, false, false, false, false, false⟩
    (maskStarted ||| maskRequestRemoveOldlog)).1
  revert hlost
  decide

end AndroidLearn.Logctl
