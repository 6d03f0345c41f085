import AndroidLearn.Logctl.System

/-!
# A completed `:stop:` is final

`handle_local_command_stop` and `thread_monitor_main` of `logctl.c`. Between its decision
to restart the loggers and the look at the result, the monitor makes a dozen calls, and a
`:stop:` may complete between any two of them; a restart that failed is tried again later,
from a counter of the monitor's own.

What the monitor may still do is read off what is left of its program: it is `Calm` if it
makes no call that starts a logger or sets the state back, as long as what it finds out is
no reason for it (`Call.Quiet`). The pieces of its round are calm (`calm_monitorRound` and
the lemmas in front of it), by the rules of `Lib.Thread`, and so are the programs of all
commands that do not start anything (`untouching_handle`).

Theorem: `stopFinal_run`, over every run of calls of both threads, requests and changes of
the outside. A `:stop:` is final when it finds the monitor calm at its completion, in the
state that it has set, and what the monitor finds out afterwards is no reason for a
restart (`StopCalm`). The invariant is `StopInv`.
-/

namespace AndroidLearn.Logctl

open Thread Run Conf

/-! ## The property -/

/-- A further `:stop:` is being handled. -/
def Sys.stopsAgain (y : Sys) : Bool := !y.idle && y.handling.any Command.stops

/-- How often each logger was started. -/
def State.starts (s : State) : List Nat := s.loggers.map Logger.starts

/-- The property at one event. While a further `:stop:` is under way the state may be
changing. -/
structure StopFinal (y : Sys) (v : Event) : Prop where
  state : (y.step v).stopped = true → (y.step v).mem.loggersGlobalState = .stopped ∨
    (y.step v).mem.loggersGlobalState = .changing ∧ (y.step v).stopsAgain = true
  monitor : y.stopped = true → v = .monitor → (y.step v).mem.starts = y.mem.starts

/-! ## A calm monitor -/

/-- Does the call set the global state, or start the loggers? -/
def Call.touches : Call → Bool
  | loggersSetGlobalState _ | loggersStart _ => true
  | _ => false

/-- The answers that are no reason for a restart. -/
def Call.Expected : (c : Call) → c.Resp → Prop
  | loggersGetGlobalState, state => state = .stopped ∨ state = .changing
  | loggersLoggingOne, one => one = false
  | loggersHaveErrorFatal, fatal => fatal = false
  | errorCounterIncrease, count => count < loggerErrorTolerantCount
  | loggersTouchWatchdog, barking => barking = false
  | loggersGetGlobalLogpath, logpath => logpath = []
  | loggersGetGlobalStorage, storage => storage = none
  | _, _ => True

/-- The rest of the monitor's round: on the answers expected, it neither sets the state
nor starts the loggers, and leaves no restart to be tried again. -/
def Calm (p : Program Counters) : Prop :=
  p.Along (fun c => c.touches = false) Call.Expected fun n => n.restart = 0

/-- What the monitor is about to find out is no reason for a restart. -/
def Call.Quiet : Call → State → Prop
  | loggersLoggingOne, s => Logctl.loggersLoggingOne s.loggers = false
  | loggersHaveErrorFatal, s => Logctl.loggersHaveErrorFatal s.loggers = false
  | errorCounterIncrease, s => s.loggersErrorCounter + 1 < loggerErrorTolerantCount
  | loggersTouchWatchdog, s => Logctl.loggersTouchWatchdog s.env s.loggers = false
  | loggersGetGlobalLogpath, s => s.loggersGlobalLogpath = []
  | loggersGetGlobalStorage, s => s.loggersGlobalStorage = none
  | _, _ => True

/-- The condition on one event. -/
structure StopCalm (y : Sys) (v : Event) : Prop where
  /-- a `:stop:` completes while the monitor is calm, and in the state it has set -/
  completing : y.stopped = false → (y.step v).stopped = true → Calm y.monitor ∧
    (y.nextCall v = some (.loggersSetGlobalState .stopped) ∨ y.mem.loggersGlobalState = .stopped)
  quiet : y.stopped = true → v = .monitor → ∀ c, y.nextCall v = some c → c.Quiet y.mem

/-! ## What a call does to the state -/

section Call

variable {c : Call} {s : State}

/-- The global state a call sets. -/
def Call.setsTo : Call → Option GlobalState
  | loggersSetGlobalState state => some state
  | _ => none

/-- A start leaves the global state. -/
theorem State.loggersStart_globalState (s : State) (storageName : CString) :
    (s.loggersStart storageName).2.loggersGlobalState = s.loggersGlobalState := by
  have hplaced : ∀ s : State, s.placed.loggersGlobalState = s.loggersGlobalState := by
    intro s
    unfold placed
    split <;> rfl
  cases hres : (s.select storageName none).error with
  | none =>
    rw [loggersStart_ok hres]
    exact hplaced _
  | some e =>
    unfold loggersStart
    cases e <;> simp [hres, atPath]

theorem Call.exec_globalState (c : Call) (s : State) :
    (c.exec s).2.loggersGlobalState = c.setsTo.getD s.loggersGlobalState := by
  cases c with
  | loggersStart storageName => exact s.loggersStart_globalState storageName
  | confSaveToFile conf =>
    unfold exec
    dsimp only
    split <;> rfl
  | _ => rfl

theorem Call.setsTo_none (h : c.touches = false) : c.setsTo = none := by
  cases c <;> first | rfl | exact absurd h (by simp [touches])

/-- A call that touches no logger starts none. -/
theorem Call.exec_starts (h : c.touches = false) : (c.exec s).2.starts = s.starts := by
  have hturn : ∀ l : Logger, (c.turn s l).starts = l.starts := by
    intro l
    cases c with
    | loggersStart storageName => exact absurd h (by simp [touches])
    | loggersStop =>
      simp only [turn, Logger.stopped]
      split
      · exact Logger.logStop_starts
      · rfl
    | loggersSetConfigs name g =>
      simp only [turn]
      split <;> rfl
    | loggersUpdateState =>
      simp only [turn]
      split <;> rfl
    | loggersClearErrors =>
      simp only [turn]
      split <;> rfl
    | _ => rfl
  unfold State.starts
  rw [c.exec_loggers, List.map_map]
  exact List.map_congr_left fun l _ => hturn l

/-- A quiet call answers as expected. -/
theorem Call.expected (h : c.Quiet s)
    (hstate : s.loggersGlobalState = .stopped ∨ s.loggersGlobalState = .changing) :
    c.Expected (c.exec s).1 := by
  cases c with
  | loggersGetGlobalState => exact hstate
  | loggersGetGlobalStorage =>
    change s.loggersGlobalStorage = none at h
    change (s.loggersGlobalStorage.bind _) = none
    rw [h]
    rfl
  | loggersLoggingOne => exact h
  | loggersHaveErrorFatal => exact h
  | errorCounterIncrease => exact h
  | loggersTouchWatchdog => exact h
  | loggersGetGlobalLogpath => exact h
  | _ => trivial

end Call

/-! ## The monitor's round is calm -/

/-- A program that only reads, configures and refreshes. -/
abbrev Untouching {α : Type} (p : Program α) : Prop := p.Only fun c => c.touches = false

theorem untouching_setting (conf : PairList) (key default : CString) :
    Untouching (configSetting conf key default) := ⟨rfl, fun _ => trivial⟩

theorem untouching_overwrite (conf : PairList) (pair : CString × CString) :
    Untouching (configOverwrite conf pair) := ⟨rfl, fun _ => trivial⟩

theorem untouching_global (conf : PairList) (pair : CString × CString) :
    Untouching (configGlobal conf pair) :=
  (untouching_setting _ _ _).bind fun ⟨_, _⟩ => trivial

/-- Configuring a storage touches no logger. -/
theorem untouching_storage (conf : PairList) (name : StorageKey) :
    Untouching (configStorage conf name) := by
  refine (untouching_setting _ _ _).bind fun ⟨limited, conf⟩ => ?_
  refine (untouching_setting _ _ _).bind fun ⟨reserved, conf⟩ => ?_
  refine ⟨rfl, fun default => ?_⟩
  refine (untouching_setting _ _ _).bind fun ⟨priority, conf⟩ => ?_
  exact ⟨rfl, fun _ => ⟨rfl, fun _ => trivial⟩⟩

theorem untouching_extra (conf : PairList) (extra : ExtraConfig) :
    Untouching (configExtra conf extra) := by
  unfold configExtra
  split
  · trivial
  · exact (untouching_setting _ _ _).bind fun ⟨_, conf⟩ => trivial

theorem untouching_logger (conf : PairList) (name : LoggerName) :
    Untouching (configLogger conf name) := by
  refine (untouching_setting _ _ _).bind fun ⟨limited, conf⟩ => ?_
  refine (untouching_setting _ _ _).bind fun ⟨rotate, conf⟩ => ?_
  refine (untouching_setting _ _ _).bind fun ⟨compress, conf⟩ => ?_
  refine ⟨rfl, fun entry => ?_⟩
  cases entry with
  | none => trivial
  | some l =>
    refine (untouching_setting _ _ _).bind fun ⟨enabled, conf⟩ => ?_
    refine (untouching_setting _ _ _).bind fun ⟨weight, conf⟩ => ?_
    refine ⟨rfl, fun weight => ?_⟩
    refine (untouching_setting _ _ _).bind fun ⟨overload, conf⟩ => ?_
    exact ⟨rfl, fun _ => Prog.only_foldlM untouching_extra _ _⟩

theorem untouching_configLoad (updateToFile : Bool) (overwriteConfigs : CString) :
    Untouching (configLoad updateToFile overwriteConfigs) := by
  have hmerge : Untouching (configMerge overwriteConfigs) := by
    refine ⟨rfl, fun conf => ?_⟩
    refine (Prog.only_foldlM untouching_overwrite _ _).bind fun conf => ?_
    refine (Prog.only_foldlM untouching_global _ _).bind fun conf => ?_
    refine (Prog.only_foldlM untouching_storage _ _).bind fun conf => ?_
    refine ⟨rfl, fun names => ?_⟩
    exact (Prog.only_foldlM untouching_logger _ _).bind fun _ => trivial
  refine hmerge.bind fun conf => ?_
  unfold onlyIf
  split
  · exact ⟨rfl, fun _ => ⟨rfl, fun _ => trivial⟩⟩
  · exact ⟨rfl, fun _ => trivial⟩

section Monitor

variable {n : Counters}

/-- Without a restart under way the look behind one is calm. -/
theorem calm_monitorRecheck (h : n.restart = 0) : Calm (monitorRecheck n) := by
  refine Prog.along_call rfl fun state hstate => ?_
  rw [if_neg (by rcases hstate with rfl | rfl <;> simp)]
  exact h

theorem calm_monitorLogging (h : n.restart = 0) : Calm (monitorLogging n) := by
  refine Prog.along_call rfl fun one hone => ?_
  rw [if_neg (by rw [hone]; simp)]
  exact calm_monitorRecheck h

theorem calm_monitorWatchdog (h : n.restart = 0) : Calm (monitorWatchdog n) := by
  unfold monitorWatchdog
  split
  · refine Prog.along_call rfl fun barking hbarking => ?_
    rw [if_neg (by rw [hbarking]; simp)]
    exact calm_monitorLogging h
  · exact calm_monitorLogging h

theorem calm_monitorErrors (h : n.restart = 0) : Calm (monitorErrors n) := by
  refine Prog.along_call rfl fun error _ => ?_
  split
  · refine Prog.along_call rfl fun count hcount => ?_
    rw [if_neg (Nat.not_le.mpr hcount)]
    exact calm_monitorWatchdog h
  · exact Prog.along_call rfl fun _ _ => calm_monitorWatchdog h

/-- Errors are a reason for a restart only if they are found now. -/
theorem calm_monitorFatal (h : n.restart = 0) : Calm (monitorFatal n) := by
  refine Prog.along_call rfl fun fatal hfatal => ?_
  rw [if_neg (by rw [hfatal]; simp)]
  exact calm_monitorErrors h

theorem calm_monitorStopped (h : n.restart = 0) : Calm (monitorStopped n) := by
  refine Prog.along_call rfl fun one hone => ?_
  rw [if_neg (by rw [hone]; simp)]
  exact h

/-- Whatever state the round began with. -/
theorem calm_monitorAct (h : n.restart = 0) (localState : GlobalState) :
    Calm (monitorAct n localState) := by
  unfold monitorAct
  split
  · rw [if_neg (by rw [h]; simp)]
    exact calm_monitorStopped h
  · exact calm_monitorFatal rfl

theorem calm_monitorExpired (h : n.restart = 0) : Calm (monitorExpired n) := by
  refine Prog.along_call rfl fun one hone => ?_
  rw [if_neg (by rw [hone]; simp)]
  exact Prog.along_call rfl fun _ _ => h

theorem calm_monitorExpiry (h : n.restart = 0) (localState : GlobalState) :
    Calm (monitorExpiry n localState) := by
  unfold monitorExpiry
  split
  · refine Prog.along_call rfl fun expired _ => ?_
    split
    · exact calm_monitorExpired h
    · refine calm_monitorAct ?_ localState
      exact h
  · refine calm_monitorAct ?_ localState
    exact h

theorem calm_monitorHello (h : n.restart = 0) (localState : GlobalState) :
    Calm (monitorHello n localState) := by
  unfold monitorHello
  split
  · refine Prog.along_call rfl fun _ _ => Prog.along_call rfl fun _ _ => ?_
    refine calm_monitorExpiry ?_ localState
    exact h
  · refine calm_monitorExpiry ?_ localState
    exact h

theorem calm_monitorRead (h : n.restart = 0) : Calm (monitorRead n) := by
  refine Prog.along_call rfl fun localState _ => ?_
  split
  · exact h
  · exact Prog.along_call rfl fun _ _ => calm_monitorHello h localState

theorem calm_monitorRound (h : n.restart = 0) : Calm (monitorRound n) := by
  refine Prog.along_call rfl fun loaded _ => ?_
  split
  · exact calm_monitorRead h
  · exact (untouching_configLoad false []).bind_along fun _ => calm_monitorRead h

end Monitor

/-! ## The command thread -/

/-- The call sets the state as a `:stop:` does, or does not touch it. -/
structure Call.Stops (c : Call) : Prop where
  sets : ∀ state, c.setsTo = some state → state = .stopped ∨ state = .changing
  other : c.setsTo = none → c.touches = false

/-- The rest of a `:stop:`, in the state that it has set. -/
def Stopping : Program CString → GlobalState → Prop
  | .ret _, state => state = .stopped
  | .call c k, state => c.Stops ∧ ∀ r, Stopping (k r) (c.setsTo.getD state)

/-- Setting the state to STOPPED or CHANGING stops. -/
theorem Call.stops_set {state : GlobalState} (h : state = .stopped ∨ state = .changing) :
    (Call.loggersSetGlobalState state).Stops where
  sets _ hstate' := Option.some.inj hstate' ▸ h
  other hnone := nomatch hnone

theorem Call.stops_other {c : Call} (h : c.touches = false) : c.Stops where
  sets state hstate := by
    rw [Call.setsTo_none h] at hstate
    exact nomatch hstate
  other _ := h

theorem stopping_stop (buffer : CString) (state : GlobalState) :
    Stopping (handleLocalCommandStop buffer) state := by
  -- what is left when the state has been set for the last time
  have hshutdown : Stopping
      (onlyIf (buffer = "shutdown".toList) (perform (.setStopByShutdown true)) >>=
        fun _ => return okResponse) .stopped := by
    unfold onlyIf
    split
    · exact ⟨Call.stops_other rfl, fun _ => rfl⟩
    · rfl
  refine ⟨Call.stops_set (.inr rfl), fun _ => ⟨Call.stops_other rfl, fun _ => ?_⟩⟩
  refine ⟨Call.stops_other rfl, fun _ => ⟨Call.stops_other rfl, fun _ => ?_⟩⟩
  exact ⟨Call.stops_set (.inl rfl), fun _ => hshutdown⟩

/-- The other requests that do not start the loggers leave the state alone. -/
theorem untouching_handle {c : Command} (hstart : c.starts = false) (hstop : c.stops = false) :
    Untouching c.handle := by
  cases c with
  | run buffer => exact absurd hstart (by simp [Command.starts])
  | mount buffer => exact absurd hstart (by simp [Command.starts])
  | stop buffer => exact absurd hstop (by simp [Command.stops])
  | getpath =>
    refine ⟨rfl, fun _ => ⟨rfl, fun one => ?_⟩⟩
    cases one
    · exact ⟨rfl, fun _ => ⟨rfl, fun _ => trivial⟩⟩
    · exact ⟨rfl, fun _ => trivial⟩
  | islogging => exact ⟨rfl, fun _ => ⟨rfl, fun _ => trivial⟩⟩
  | getlogfiles => exact ⟨rfl, fun _ => trivial⟩
  | syncconf =>
    refine ⟨rfl, fun _ => ⟨rfl, fun one => ?_⟩⟩
    cases one
    · exact (untouching_configLoad false []).bind fun _ => trivial
    · trivial
  | genconf buffer => exact (untouching_configLoad true buffer).bind fun _ => trivial

/-! ## The invariant -/

/-- While the flag is set. -/
structure Final (y : Sys) : Prop where
  monitor : Calm y.monitor
  handling : ∃ c, y.handling = some c ∧ c.starts = false
  stopping : y.handling.any Command.stops = true → Stopping y.command y.mem.loggersGlobalState
  state : y.mem.loggersGlobalState = .stopped ∨
    y.mem.loggersGlobalState = .changing ∧ y.stopsAgain = true

/-- The invariant: where a command stops, what it has come to, and that a stop is final. -/
structure StopInv (y : Sys) : Prop where
  stopping : y.handling.any Command.stops = true → ∃ state, Stopping y.command state
  other : ∀ c, y.handling = some c → c.starts = false → c.stops = false → Untouching y.command
  final : y.stopped = true → Final y

/-- Between commands a final stop is a stop. -/
theorem Final.stopped_of_idle {y : Sys} (h : Final y) (hidle : y.idle = true) :
    y.mem.loggersGlobalState = .stopped := by
  rcases h.state with hstate | ⟨-, hagain⟩
  · exact hstate
  · simp [Sys.stopsAgain, hidle] at hagain

section Step

variable {y : Sys} {c : Call} {α : Type}

/-- A command may be received. -/
theorem receive_inv (hy : StopInv y) (hidle : y.idle = true) (c : Command) :
    StopInv (y.receive c) := by
  refine ⟨fun hstop => ?_, fun c' hc' hstart hstop => ?_, fun hflag => ?_⟩
  · cases c with
    | stop buffer => exact ⟨.stopped, stopping_stop buffer _⟩
    | _ => exact absurd hstop (by simp [Sys.receive, Command.stops])
  · obtain rfl := Option.some.inj hc'
    exact untouching_handle hstart hstop
  · have hparts : y.stopped = true ∧ c.starts = false := by
      simpa [Sys.receive] using hflag
    have hfinal := hy.final hparts.1
    refine ⟨hfinal.monitor, ⟨c, rfl, hparts.2⟩, fun hstop => ?_, .inl (hfinal.stopped_of_idle hidle)⟩
    cases c with
    | stop buffer => exact stopping_stop buffer _
    | _ => exact absurd hstop (by simp [Sys.receive, Command.stops])

/-- A step of the command thread makes its call. -/
theorem command_call {k : c.Resp → Program CString} (hcmd : y.command = .call c k)
    (hexited : y.mem.exited = false) :
    y.nextCall .command = some c ∧ (y.step .command).mem = (c.exec y.mem).2 ∧
      (y.step .command).command = k (c.exec y.mem).1 ∧ (y.step .command).handling = y.handling ∧
      (y.step .command).monitor = y.monitor ∧ ((y.step .command).stopped = true →
        y.stopped = true ∨ (y.step .command).idle = true ∧ y.handling.any Command.stops = true) := by
  unfold Sys.nextCall Sys.step Sys.stepCommand
  simp only [hexited, hcmd, Bool.false_eq_true, if_false, Bool.or_eq_true, true_and]
  intro h
  rcases h with h | h
  · exact .inl h
  · exact .inr (Bool.and_eq_true_iff.mp h)

omit c in
/-- The command thread is idle when its program has returned. -/
theorem idle_iff : y.idle = true ↔ ∃ r, y.command = .ret r := by
  unfold Sys.idle
  cases y.command with
  | ret r => simp
  | call c k => simp

omit c in
/-- A request that stops does not start. -/
theorem handling_of_stops (h : y.handling.any Command.stops = true) :
    ∃ c, y.handling = some c ∧ c.starts = false := by
  cases hc : y.handling with
  | none => simp [hc] at h
  | some c =>
    rw [hc] at h
    refine ⟨c, rfl, ?_⟩
    cases c <;> first | rfl | exact absurd h (by simp [Command.stops])

/-- What a step of the command thread does to the global state. -/
theorem command_state {k : c.Resp → Program CString} (hcmd : y.command = .call c k)
    (hexited : y.mem.exited = false) : (y.step .command).mem.loggersGlobalState =
      c.setsTo.getD y.mem.loggersGlobalState := by
  obtain ⟨-, hmem, -⟩ := command_call hcmd hexited
  rw [hmem, Call.exec_globalState]

/-- A call while the flag is set. -/
theorem Final.call {k : c.Resp → Program CString} (hfinal : Final y)
    (hother : ∀ c, y.handling = some c → c.starts = false → c.stops = false → Untouching y.command)
    (hcmd : y.command = .call c k) (hexited : y.mem.exited = false) : Final (y.step .command) := by
  obtain ⟨-, -, hcommand, hhandling, hmonitor, -⟩ := command_call hcmd hexited
  have hstate := command_state hcmd hexited
  have hstopping : y.handling.any Command.stops = true → c.Stops ∧
      Stopping (y.step .command).command (y.step .command).mem.loggersGlobalState := by
    intro hstop
    have hrest := hfinal.stopping hstop
    rw [hcmd] at hrest
    rw [hcommand, hstate]
    exact ⟨hrest.1, hrest.2 _⟩
  refine ⟨hmonitor ▸ hfinal.monitor, hhandling ▸ hfinal.handling,
    fun hstop => (hstopping (hhandling ▸ hstop)).2, ?_⟩
  by_cases hstop : y.handling.any Command.stops = true
  · obtain ⟨hc, hrest⟩ := hstopping hstop
    have hboth : (y.step .command).mem.loggersGlobalState = .stopped ∨
        (y.step .command).mem.loggersGlobalState = .changing := by
      rw [hstate]
      cases hset : c.setsTo with
      | none =>
        rcases hfinal.state with hold | ⟨hold, -⟩
        · exact .inl hold
        · exact .inr hold
      | some state => exact hc.sets state hset
    rcases hboth with hnew | hnew
    · exact .inl hnew
    · refine .inr ⟨hnew, ?_⟩
      have hbusy : (y.step .command).idle = false := by
        by_contra hidle
        obtain ⟨r, hr⟩ := idle_iff.mp (by simpa using hidle)
        rw [hr, hnew] at hrest
        exact absurd hrest (by simp [Stopping])
      unfold Sys.stopsAgain
      rw [hbusy, hhandling, hstop]
      rfl
  · -- the request that is handled leaves the state alone
    obtain ⟨c', hc', hstart⟩ := hfinal.handling
    have hrest := hother c' hc' hstart (by simpa [hc'] using hstop)
    rw [hcmd] at hrest
    have hold : y.mem.loggersGlobalState = .stopped := by
      rcases hfinal.state with hold | ⟨-, hagain⟩
      · exact hold
      · unfold Sys.stopsAgain at hagain
        rw [Bool.and_eq_true] at hagain
        exact absurd hagain.2 hstop
    left
    rw [hstate, Call.setsTo_none hrest.1, hold]
    rfl

/-- The last call of a stop, which sets the flag. -/
theorem StopInv.completed {k : c.Resp → Program CString} (hy : StopInv y)
    (hv : StopCalm y .command) (hcmd : y.command = .call c k) (hexited : y.mem.exited = false)
    (hset : y.stopped ≠ true) (hflag : (y.step .command).stopped = true) :
    Final (y.step .command) := by
  obtain ⟨hnext, -, hcommand, hhandling, hmonitor, hstopped⟩ := command_call hcmd hexited
  obtain ⟨hidle, hstop⟩ := (hstopped hflag).resolve_left hset
  obtain ⟨hcalm, hlast⟩ := hv.completing (by simpa using hset) hflag
  obtain ⟨r, hr⟩ := idle_iff.mp hidle
  have hnew : (y.step .command).mem.loggersGlobalState = .stopped := by
    obtain ⟨state, hrest⟩ := hy.stopping hstop
    rw [hcmd] at hrest
    have hend := hrest.2 (c.exec y.mem).1
    rw [← hcommand, hr] at hend
    change c.setsTo.getD state = .stopped at hend
    rw [command_state hcmd hexited]
    cases hset : c.setsTo with
    | some state' => rwa [hset] at hend
    | none =>
      rcases hlast with hlast | hlast
      · rw [hnext] at hlast
        rw [Option.some.inj hlast] at hset
        exact nomatch hset
      · exact hlast
  refine ⟨hmonitor ▸ hcalm, hhandling ▸ handling_of_stops hstop, fun _ => ?_, .inl hnew⟩
  rw [hr, hnew]
  rfl

/-- One call of the command thread. -/
theorem call_inv {k : c.Resp → Program CString} (hy : StopInv y) (hv : StopCalm y .command)
    (hcmd : y.command = .call c k) (hexited : y.mem.exited = false) :
    StopInv (y.step .command) := by
  obtain ⟨-, -, hcommand, hhandling, -, -⟩ := command_call hcmd hexited
  refine ⟨fun hstop => ?_, fun c' hc' hstart hstop => ?_, fun hflag => ?_⟩
  · rw [hhandling] at hstop
    obtain ⟨state, hrest⟩ := hy.stopping hstop
    rw [hcmd] at hrest
    rw [hcommand]
    exact ⟨_, hrest.2 _⟩
  · rw [hhandling] at hc'
    have hrest := hy.other c' hc' hstart hstop
    rw [hcmd] at hrest
    rw [hcommand]
    exact hrest.2 _
  · by_cases hset : y.stopped = true
    · exact (hy.final hset).call hy.other hcmd hexited
    · exact hy.completed hv hcmd hexited hset hflag

omit c in
/-- A step that the command thread has no part in. -/
theorem StopInv.same {y' : Sys} (hy : StopInv y) (hcommand : y'.command = y.command)
    (hhandling : y'.handling = y.handling) (hstopped : y'.stopped = y.stopped)
    (hstate : y.stopped = true → y'.mem.loggersGlobalState = y.mem.loggersGlobalState)
    (hmonitor : y.stopped = true → Calm y'.monitor) : StopInv y' := by
  refine ⟨?_, ?_, fun hflag => ?_⟩
  · rw [hhandling, hcommand]
    exact hy.stopping
  · rw [hhandling, hcommand]
    exact hy.other
  · rw [hstopped] at hflag
    have hfinal := hy.final hflag
    have hagain : y'.stopsAgain = y.stopsAgain := by
      unfold Sys.stopsAgain Sys.idle
      rw [hcommand, hhandling]
    refine ⟨hmonitor hflag, hhandling ▸ hfinal.handling, ?_, ?_⟩
    · rw [hhandling, hcommand, hstate hflag]
      exact hfinal.stopping
    · rw [hstate hflag, hagain]
      exact hfinal.state

/-- One step of the monitor. -/
theorem monitor_inv (hy : StopInv y) (hv : StopCalm y .monitor)
    (hrun : (y.mem.exited || !y.booted) = false) :
    StopInv (y.step .monitor) ∧
      (y.stopped = true → (y.step .monitor).mem.starts = y.mem.starts) := by
  have hstep : y.step .monitor = y.stepMonitor := by
    unfold Sys.step
    dsimp only
    rw [hrun]
    rfl
  rw [hstep]
  unfold Sys.stepMonitor
  cases hmon : y.monitor with
  | ret n =>
    refine ⟨hy.same rfl rfl rfl (fun _ => rfl) fun hflag => ?_, fun _ => rfl⟩
    have hcalm := (hy.final hflag).monitor
    rw [hmon] at hcalm
    exact calm_monitorRound hcalm
  | call c k =>
    have hnext : y.nextCall .monitor = some c := by
      unfold Sys.nextCall
      dsimp only
      rw [hrun, hmon]
      rfl
    have hcalm : y.stopped = true → c.touches = false ∧ Calm (k (c.exec y.mem).1) := by
      intro hflag
      have hfinal := hy.final hflag
      have hrest := hfinal.monitor
      rw [hmon] at hrest
      refine ⟨hrest.1, hrest.2 _ (Call.expected (hv.quiet hflag rfl c hnext) ?_)⟩
      exact hfinal.state.imp id And.left
    refine ⟨hy.same rfl rfl rfl (fun hflag => ?_) fun hflag => (hcalm hflag).2,
      fun hflag => Call.exec_starts (hcalm hflag).1⟩
    change (c.exec y.mem).2.loggersGlobalState = _
    rw [Call.exec_globalState, Call.setsTo_none (hcalm hflag).1]
    rfl

omit c in
/-- Every calm step keeps the invariant, and starts nothing behind a stop. -/
theorem stopInv_step {v : Event} (hy : StopInv y) (hv : StopCalm y v) :
    StopInv (y.step v) ∧ StopFinal y v := by
  have hfinal : ∀ {y' : Sys}, StopInv y' → y'.stopped = true →
      y'.mem.loggersGlobalState = .stopped ∨
        y'.mem.loggersGlobalState = .changing ∧ y'.stopsAgain = true :=
    fun hy' hflag => (hy'.final hflag).state
  cases v with
  | receive c =>
    have hinv : StopInv (y.step (.receive c)) := by
      unfold Sys.step
      dsimp only
      split
      next => exact hy
      next hfree =>
        rw [Bool.or_eq_true, not_or, Bool.not_eq_true', Bool.not_eq_false] at hfree
        exact receive_inv hy hfree.2 c
    exact ⟨hinv, hfinal hinv, fun _ hv => nomatch hv⟩
  | command =>
    have hinv : StopInv (y.step .command) := by
      cases hexited : y.mem.exited with
      | true =>
        unfold Sys.step
        dsimp only
        rw [hexited]
        exact hy
      | false =>
        cases hcmd : y.command with
        | ret r =>
          have hstep : y.step .command = { y with booted := true } := by
            unfold Sys.step Sys.stepCommand
            simp only [hexited, hcmd, Bool.false_eq_true, if_false]
          rw [hstep]
          exact hy.same rfl rfl rfl (fun _ => rfl) fun hflag => (hy.final hflag).monitor
        | call c k => exact call_inv hy hv hcmd hexited
    exact ⟨hinv, hfinal hinv, fun _ hv => nomatch hv⟩
  | monitor =>
    cases hrun : (y.mem.exited || !y.booted) with
    | true =>
      have hstep : y.step .monitor = y := by
        unfold Sys.step
        dsimp only
        rw [hrun]
        rfl
      refine ⟨hstep.symm ▸ hy, ?_, fun _ _ => by rw [hstep]⟩
      rw [hstep]
      exact hfinal hy
    | false =>
      obtain ⟨hinv, hstarts⟩ := monitor_inv hy hv hrun
      exact ⟨hinv, hfinal hinv, fun hflag _ => hstarts hflag⟩
  | env e =>
    have hinv : StopInv (y.step (.env e)) :=
      hy.same rfl rfl rfl (fun _ => rfl) fun hflag => (hy.final hflag).monitor
    exact ⟨hinv, hfinal hinv, fun _ hv => nomatch hv⟩
  | confFile conf =>
    have hinv : StopInv (y.step (.confFile conf)) :=
      hy.same rfl rfl rfl (fun _ => rfl) fun hflag => (hy.final hflag).monitor
    exact ⟨hinv, hfinal hinv, fun _ hv => nomatch hv⟩

end Step

/-- It holds as the program starts. -/
theorem init_stopInv (e : Env) (confFile : Option PairList) : StopInv (Sys.init e confFile) where
  stopping h := absurd h (by simp [Sys.init])
  other c hc := nomatch hc
  final h := nomatch h

/-- In every run of both threads in which each `:stop:` completes while the monitor is
calm, and the monitor then finds no reason for a restart, a completed `:stop:` is
final. -/
theorem stopFinal_run (e : Env) (confFile : Option PairList) {vs : List Event}
    (h : AllSteps Sys.step StopCalm (Sys.init e confFile) vs) :
    AllSteps Sys.step StopFinal (Sys.init e confFile) vs :=
  AllSteps.imp (fun _ _ hy hv => stopInv_step hy hv) (init_stopInv e confFile) h

/-! ## Two runs -/

/-- A request, and as many steps of the command thread as it may need. -/
def handled (c : Command) (steps : Nat) : List Event :=
  .receive c :: List.replicate steps .command

instance (s : State) : (c : Call) → Decidable (c.Quiet s) := fun c => by
  cases c <;> dsimp only [Call.Quiet] <;> infer_instance

/-- Is the monitor between two rounds, with no restart to be tried again? -/
def Sys.rests (y : Sys) : Bool :=
  match y.monitor with
  | .ret n => n.restart == 0
  | .call _ _ => false

/-- `StopCalm`, as evaluation can see it. -/
def Sys.checks (y : Sys) (v : Event) : Bool :=
  (y.stopped || !(y.step v).stopped || y.rests && match y.nextCall v with
    | some (.loggersSetGlobalState .stopped) => true
    | _ => false) &&
  (!y.stopped || (y.nextCall v).all fun c => decide (c.Quiet y.mem))

/-- A monitor that rests is calm. -/
theorem Sys.calm_of_rests {y : Sys} (h : y.rests = true) : Calm y.monitor := by
  unfold rests at h
  split at h
  next n hn =>
    rw [hn]
    exact eq_of_beq h
  next => exact absurd h Bool.false_ne_true

/-- What can be computed says that a step is calm. -/
theorem Sys.stopCalm_of_checks (y : Sys) (v : Event) (h : y.checks v = true) : StopCalm y v := by
  obtain ⟨hstop, hquiet⟩ := Bool.and_eq_true_iff.mp h
  refine ⟨fun hbefore hafter => ?_, fun hstopped _ c hc => ?_⟩
  · rw [hbefore, hafter] at hstop
    obtain ⟨hrests, hlast⟩ := Bool.and_eq_true_iff.mp hstop
    refine ⟨calm_of_rests hrests, .inl ?_⟩
    split at hlast
    next hc => exact hc
    next => exact absurd hlast Bool.false_ne_true
  · rw [hstopped, hc] at hquiet
    exact of_decide_eq_true hquiet

/-- `logctl` logs, and the monitor has made its first round. A `:stop:` comes while it rests, and
then its next round. -/
def bootedStop : List Event :=
  List.replicate 97 .command ++ handled (.run []) 12 ++ List.replicate 13 .monitor ++
    handled (.stop []) 5 ++ List.replicate 8 .monitor

theorem stopFinal_run_bootedStop :
    AllSteps Sys.step StopFinal (Sys.init plainEnv none) bootedStop :=
  stopFinal_run plainEnv none (AllSteps.mono Sys.stopCalm_of_checks (by decide +kernel))

/-- `logctl` logs. The monitor finds a fatal error, and has stopped the loggers for a
restart when a `:stop:` arrives and completes; then it goes on to start them. -/
def restartRun : List Event :=
  List.replicate 97 .command ++ handled (.run []) 12 ++
    [.env { plainEnv with observe := fun _ => ⟨true, false, false, false, false, false, false⟩ }] ++
    List.replicate 12 .monitor ++ handled (.stop []) 5 ++ List.replicate 6 .monitor

theorem restartRun_end :
    (restartRun.foldl Sys.step (Sys.init plainEnv none)).stopped = true ∧
    ((restartRun.foldl Sys.step (Sys.init plainEnv none)).step .monitor).mem.starts ≠
      (restartRun.foldl Sys.step (Sys.init plainEnv none)).mem.starts := by
  decide +kernel

theorem stopFinal_fails_restart :
    ¬ AllSteps Sys.step StopFinal (Sys.init plainEnv none) (restartRun ++ [.monitor]) := by
  rw [allSteps_append]
  rintro ⟨-, hlast, -⟩
  exact restartRun_end.2 (hlast.monitor restartRun_end.1 rfl)

end AndroidLearn.Logctl
