import AndroidLearn.Logctl.System

/-!
# Stopping stops everything

`loggers_stop` of `logctl.c` passes over the loggers whose `enabled` flag is cleared,
whether they run or not; the flag is rewritten by every `config_load`, of either thread,
and so it may be cleared while the logger runs.

The runs are those of `System`: one call of either thread at a time, with requests and
changes of the outside in between. A logger runs if its last `log_start` came after its
last `log_stop`.

Theorems:
- `stopAll_iff`: over any run of both threads, `loggers_stop` leaves no logger running
  exactly if it never finds a running logger with its flag cleared (`EnabledAtStop`);
- `enabledAtStop_of_keeps`: a `config_load` that never clears the flag of a running logger
  is enough for that;
- `Sys.step_exclusive`: STARTED and STOPPED are never both set, whatever happens.
-/

namespace AndroidLearn.Logctl

open Thread Run Conf

/-! ## `STARTED` and `STOPPED` -/

/-- A logger is not both started and stopped. -/
def LoggerState.Exclusive (x : LoggerState) : Prop := ¬(x.started = true ∧ x.stopped = true)

instance (x : LoggerState) : Decidable x.Exclusive := by
  unfold LoggerState.Exclusive
  infer_instance

/-- Neither word of the logger has both bits. -/
structure Logger.Exclusive (l : Logger) : Prop where
  state : l.state.Exclusive
  logState : l.logState.Exclusive

theorem onlyStopped_exclusive : LoggerState.onlyStopped.Exclusive := by decide

theorem onlyStarted_exclusive : LoggerState.onlyStarted.Exclusive := by decide

section Exclusive

variable {l : Logger} {e : Env} {p : CString}

/-- A stop keeps this. -/
theorem Logger.Exclusive.logStop (h : l.state.Exclusive) (h' : l.logState.Exclusive) :
    l.logStop.Exclusive := by
  unfold Logger.logStop
  dsimp only
  split
  · exact ⟨h, onlyStopped_exclusive⟩
  · exact ⟨h, h'⟩

theorem Logger.Exclusive.stopped (h : l.Exclusive) : l.stopped.Exclusive := by
  unfold Logger.stopped
  split
  · exact Logger.Exclusive.logStop (by simp [LoggerState.Exclusive]) h.logState
  · exact h

theorem Logger.Exclusive.logStart (h : l.state.Exclusive) (h' : l.logState.Exclusive) :
    (l.logStart e p).2.Exclusive := by
  unfold Logger.logStart
  dsimp only
  split
  · split
    · split
      · exact ⟨h, onlyStarted_exclusive⟩
      · exact ⟨h, onlyStarted_exclusive⟩
    · exact ⟨h, onlyStarted_exclusive⟩
  · exact ⟨h, h'⟩

theorem Logger.Exclusive.started (h : l.Exclusive) : (l.started e p).2.Exclusive := by
  unfold Logger.started
  dsimp only
  split
  · exact Logger.Exclusive.logStart (by simp [LoggerState.Exclusive]) h.logState
  · exact ⟨h.state, h.logState⟩

theorem Logger.Exclusive.logUpdateState (h : l.Exclusive) :
    (l.logUpdateState e).Exclusive := by
  unfold Logger.logUpdateState
  split
  · exact h.logState
  · exact h.state

theorem Call.turn_exclusive (c : Call) (s : State) (h : l.Exclusive) : (c.turn s l).Exclusive := by
  cases c with
  | loggersSetConfigs name g =>
    simp only [turn]
    split
    · exact ⟨h.state, h.logState⟩
    · exact h
  | loggersUpdateState =>
    simp only [turn]
    split
    · exact ⟨h.logUpdateState, h.logState⟩
    · exact h
  | loggersClearErrors =>
    simp only [turn]
    split
    · exact ⟨h.state, h.logState⟩
    · exact h
  | loggersStop => exact h.stopped
  | loggersStart storageName =>
    simp only [turn]
    split
    · exact h
    · exact h.started
  | _ => exact h

end Exclusive

def State.Exclusive (s : State) : Prop := ∀ l ∈ s.loggers, l.Exclusive

/-- Every call keeps it of them all. -/
theorem Call.exec_exclusive (c : Call) {s : State} (h : s.Exclusive) : (c.exec s).2.Exclusive := by
  intro l hl
  rw [c.exec_loggers, List.mem_map] at hl
  obtain ⟨l₀, hl₀, rfl⟩ := hl
  exact c.turn_exclusive s (h l₀ hl₀)

/-- What every call keeps, and a change outside keeps, every event keeps. -/
theorem Sys.step_keeps {I : State → Prop} (y : Sys) (v : Event) (h : I y.mem)
    (hcall : ∀ (c : Call) s, I s → I (c.exec s).2) (henv : ∀ (s : State) e, I s → I { s with env := e })
    (hconf : ∀ (s : State) conf, I s → I { s with confFile := conf }) : I (y.step v).mem := by
  rcases y.step_mem v with ⟨c, -, hmem⟩ | ⟨-, hmem | ⟨e, hmem⟩ | ⟨conf, hmem⟩⟩
  · rw [hmem]
    exact hcall c _ h
  · rw [hmem]
    exact h
  · rw [hmem]
    exact henv _ e h
  · rw [hmem]
    exact hconf _ conf h

theorem Sys.step_exclusive (y : Sys) (v : Event) (h : y.mem.Exclusive) :
    (y.step v).mem.Exclusive :=
  y.step_keeps v h (fun c _ hs => c.exec_exclusive hs) (fun _ _ hs => hs) (fun _ _ hs => hs)

/-- It holds as the program starts. -/
theorem State.init_exclusive (e : Env) (confFile : Option PairList) :
    (State.init e confFile).Exclusive := by
  intro l hl
  change l ∈ Logctl.loggers at hl
  simp only [Logctl.loggers, List.mem_cons, List.not_mem_nil, or_false] at hl
  rcases hl with rfl | rfl | rfl | rfl | rfl | rfl <;>
    exact ⟨onlyStopped_exclusive, onlyStopped_exclusive⟩

/-! ## The loggers after `loggers_stop` -/

/-- The property at one event: after `loggers_stop` no logger is running, and
the bits exclude each other. -/
def StopAll (y : Sys) (v : Event) : Prop :=
  (y.nextCall v = some .loggersStop → ∀ l ∈ (y.step v).mem.loggers, l.running = false) ∧
    (y.step v).mem.Exclusive

/-- `loggers_stop` finds the flag of every running logger set. -/
def EnabledAtStop (y : Sys) (v : Event) : Prop :=
  y.nextCall v = some .loggersStop → ∀ l ∈ y.mem.loggers, l.running = true → l.enabled = true

/-- Behind a stop a logger runs only if it is not enabled. -/
theorem Logger.stopped_running (l : Logger) :
    l.stopped.running = (l.running && !l.enabled) := by
  unfold stopped
  split
  next h => simp [h]
  next h => simp [h]

/-- A step with a call changes the state as the call does. -/
theorem Sys.step_of_nextCall {y : Sys} {v : Event} {c : Call} (h : y.nextCall v = some c) :
    (y.step v).mem = (c.exec y.mem).2 := by
  rcases y.step_mem v with ⟨c', hc, hmem⟩ | ⟨hnone, -⟩
  · obtain rfl : c' = c := Option.some.inj (hc.symm.trans h)
    exact hmem
  · exact absurd (hnone.symm.trans h) (by simp)

/-- When no logger runs behind `loggers_stop`. -/
theorem noneRunning_iff {y : Sys} {v : Event} (h : y.nextCall v = some .loggersStop) :
    (∀ l ∈ (y.step v).mem.loggers, l.running = false) ↔
      ∀ l ∈ y.mem.loggers, l.running = true → l.enabled = true := by
  rw [Sys.step_of_nextCall h, Call.exec_loggers, List.forall_mem_map]
  refine forall₂_congr fun l _ => ?_
  change l.stopped.running = false ↔ _
  rw [Logger.stopped_running]
  cases l.running <;> cases l.enabled <;> simp

/-- One step keeps the contract when those that run are enabled. -/
theorem stopAll_iff_enabledAtStop {y : Sys} (v : Event) (h : y.mem.Exclusive) :
    StopAll y v ↔ EnabledAtStop y v := by
  unfold StopAll EnabledAtStop
  rw [and_iff_left (y.step_exclusive v h)]
  exact forall_congr' fun hcall => noneRunning_iff hcall

/-- Over every run from boot, of both threads in any order. -/
theorem stopAll_iff (e : Env) (confFile : Option PairList) (vs : List Event) :
    AllSteps Sys.step StopAll (Sys.init e confFile) vs ↔
      AllSteps Sys.step EnabledAtStop (Sys.init e confFile) vs := by
  have hstart : (Sys.init e confFile).mem.Exclusive := State.init_exclusive e confFile
  constructor
  · exact AllSteps.imp (I := fun y : Sys => y.mem.Exclusive)
      (fun y v hy hv => ⟨y.step_exclusive v hy, (stopAll_iff_enabledAtStop v hy).mp hv⟩) hstart
  · exact AllSteps.imp (I := fun y : Sys => y.mem.Exclusive)
      (fun y v hy hv => ⟨y.step_exclusive v hy, (stopAll_iff_enabledAtStop v hy).mpr hv⟩) hstart

/-! ## Which settings are harmless -/

/-- The event does not clear the flag of a running logger. -/
def KeepsRunningEnabled (y : Sys) (v : Event) : Prop :=
  ∀ name g, y.nextCall v = some (.loggersSetConfigs name g) → g.enabled = false →
    ∀ l ∈ y.mem.loggers, l.name = name → l.running = false

/-- Every running logger has its flag set. -/
def State.RunningEnabled (s : State) : Prop := ∀ l ∈ s.loggers, l.running = true → l.enabled = true

/-- A call leaves the running loggers enabled, unless it disables one. -/
theorem Call.exec_runningEnabled {c : Call} {s : State} (h : s.RunningEnabled)
    (hset : ∀ name g, c = .loggersSetConfigs name g → g.enabled = false →
      ∀ l ∈ s.loggers, l.name = name → l.running = false) : (c.exec s).2.RunningEnabled := by
  intro l hl hrun
  rw [c.exec_loggers, List.mem_map] at hl
  obtain ⟨l₀, hl₀, rfl⟩ := hl
  have hkeep := h l₀ hl₀
  cases c with
  | loggersSetConfigs name g =>
    simp only [turn] at hrun ⊢
    split
    next hname =>
      rw [if_pos hname] at hrun
      cases hg : g.enabled with
      | true => exact hg
      | false =>
        have hoff := hset name g rfl hg l₀ hl₀ hname
        exact absurd (hrun.symm.trans hoff) (by decide)
    next hname =>
      rw [if_neg hname] at hrun
      exact hkeep hrun
  | loggersUpdateState =>
    simp only [turn] at hrun ⊢
    split
    next henabled => exact henabled
    next henabled =>
      rw [if_neg henabled] at hrun
      exact hkeep hrun
  | loggersClearErrors =>
    simp only [turn] at hrun ⊢
    split
    next henabled => exact henabled
    next henabled =>
      rw [if_neg henabled] at hrun
      exact hkeep hrun
  | loggersStop =>
    change l₀.stopped.running = true at hrun
    change l₀.stopped.enabled = true
    rw [Logger.stopped_running] at hrun
    rw [Logger.stopped_enabled]
    exact hkeep (by simp_all)
  | loggersStart storageName =>
    simp only [turn] at hrun ⊢
    split
    next hret =>
      rw [if_pos hret] at hrun
      exact hkeep hrun
    next hret =>
      rw [if_neg hret] at hrun
      rw [Logger.started_enabled]
      by_contra hoff
      have hsame : (l₀.started s.env (s.loggersStart storageName).2.loggersGlobalLogpath).2.running
          = l₀.running := by
        unfold Logger.started
        dsimp only
        rw [if_neg hoff]
      exact hoff (hkeep (hsame.symm.trans hrun))
  | _ => exact hkeep hrun

/-- A run that disables no running logger finds them enabled. -/
theorem enabledAtStop_of_keeps (e : Env) (confFile : Option PairList) {vs : List Event}
    (h : AllSteps Sys.step KeepsRunningEnabled (Sys.init e confFile) vs) :
    AllSteps Sys.step EnabledAtStop (Sys.init e confFile) vs := by
  have hstart : (Sys.init e confFile).mem.RunningEnabled := by
    intro l hl hrun
    change l ∈ Logctl.loggers at hl
    simp only [Logctl.loggers, List.mem_cons, List.not_mem_nil, or_false] at hl
    rcases hl with rfl | rfl | rfl | rfl | rfl | rfl <;> rfl
  refine AllSteps.imp (I := fun y : Sys => y.mem.RunningEnabled) (fun y v hy hv => ⟨?_, fun _ => hy⟩)
    hstart h
  rcases y.step_mem v with ⟨c, hc, hmem⟩ | ⟨-, hmem | ⟨_, hmem⟩ | ⟨_, hmem⟩⟩
  · rw [hmem]
    exact Call.exec_runningEnabled hy fun name g hcall => hv name g (hcall ▸ hc)
  all_goals
    rw [hmem]
    exact hy

/-! ## A logger left running -/

/-- A request, and as many steps as it may need. -/
def request (c : Command) (steps : Nat) : List Event :=
  .receive c :: List.replicate steps .command

/-- `logctl` starts, logs, is told to disable `logkmsg`, and to stop. -/
def disabledRun : List Event :=
  List.replicate 200 .command ++ request (.run []) 20 ++
    request (.genconf "Logger.logkmsg.Enable=false".toList) 200 ++ request (.stop []) 3

/-- `loggers_stop` is the next call, and `logkmsg` is running with its flag
cleared. -/
theorem disabledRun_end :
    (match (disabledRun.foldl Sys.step (Sys.init plainEnv none)).nextCall .command with
      | some .loggersStop => true
      | _ => false) = true ∧
    ((disabledRun.foldl Sys.step (Sys.init plainEnv none)).mem.loggers.any
      fun l => l.running && !l.enabled) = true := by
  decide +kernel

theorem stopAll_fails_disabled :
    ¬ AllSteps Sys.step StopAll (Sys.init plainEnv none) (disabledRun ++ [.command]) := by
  rw [allSteps_append]
  rintro ⟨-, ⟨hstop, -⟩, -⟩
  obtain ⟨hcall, hleft⟩ := disabledRun_end
  have hnext : (disabledRun.foldl Sys.step (Sys.init plainEnv none)).nextCall .command =
      some .loggersStop := by
    split at hcall
    next h => exact h
    · exact absurd hcall (by decide)
  obtain ⟨l, hl, hoff⟩ := List.any_eq_true.mp hleft
  rw [Bool.and_eq_true, Bool.not_eq_true'] at hoff
  have henabled := (noneRunning_iff hnext).mp (hstop hnext) l hl hoff.1
  exact absurd (henabled.symm.trans hoff.2) (by decide)

end AndroidLearn.Logctl
