import AndroidLearn.Logctl.Programs
import AndroidLearn.Lib.Run

/-!
# `logctl`: the command thread and the monitor

`logctl_main` and `thread_monitor_main` of `logctl.c` together. `Sys` is the shared state
with what is left of the two threads' programs. An event is one call of either thread, the
arrival of a request, or a change of what `logctl` sees of the outside; a run is any list
of events. An event that cannot happen leaves everything as it is.

One client is served at a time: a request is received when the command thread has nothing
left to do, and is handled from its first call to its last. The monitor begins its next
round when it is through with one. Neither waits for anything but its locks, which a call
has for itself.

`Sys.stopped` is set when a `:stop:` comes to its end, and cleared when a request arrives
that asks for a start. `State.init` is the state that the program starts in, with any
configuration file and environment, and an empty database.
-/

namespace AndroidLearn.Logctl

open Thread Run Conf

/-- Do the loggers start on the request's behalf? -/
def Command.starts : Command → Bool
  | run _ | mount _ => true
  | _ => false

/-- Is it `:stop:`? -/
def Command.stops : Command → Bool
  | stop _ => true
  | _ => false

/-- The state, the program each thread is at, and the request it is from. -/
structure Sys where
  mem : State
  command : Program CString
  /-- the request the command thread is at, or was last at -/
  handling : Option Command
  /-- `logctl_main` has created the monitor -/
  booted : Bool
  monitor : Program Counters
  /-- a `:stop:` has completed, and no `:run:` or `:mount:` has arrived since -/
  stopped : Bool

/-- A request, a call of one of the threads, or a change of the world. -/
inductive Event
  | receive (c : Command)
  | command
  | monitor
  | env (e : Env)
  | confFile (conf : Option PairList)

/-- Has the command thread completed the request it was at? -/
def Sys.idle (y : Sys) : Bool :=
  match y.command with
  | .ret _ => true
  | .call _ _ => false

/-- Has it completed a `:stop:`? -/
def Sys.completed (y : Sys) : Bool := y.idle && y.handling.any Command.stops

/-- `wait_for_connection` and `read_nointr`: a request arrives. -/
def Sys.receive (y : Sys) (c : Command) : Sys :=
  { y with
    command := c.handle
    handling := some c
    stopped := y.stopped && !c.starts }

/-- The next call of the command thread. -/
def Sys.stepCommand (y : Sys) : Sys :=
  match y.command with
  | .ret _ => { y with booted := true }
  | .call c k =>
    let y := { y with mem := (c.exec y.mem).2, command := k (c.exec y.mem).1 }
    { y with stopped := y.stopped || y.completed }

/-- The next call of the monitor, which begins anew when its round is over. -/
def Sys.stepMonitor (y : Sys) : Sys :=
  match y.monitor with
  | .ret n => { y with monitor := monitorRound n }
  | .call c k => { y with mem := (c.exec y.mem).2, monitor := k (c.exec y.mem).1 }

/-- What an event does. Behind the end of the program nothing happens. -/
def Sys.step (y : Sys) : Event → Sys
  | .receive c => if y.mem.exited || !y.booted || !y.idle then y else y.receive c
  | .command => if y.mem.exited then y else y.stepCommand
  | .monitor => if y.mem.exited || !y.booted then y else y.stepMonitor
  | .env e => { y with mem := { y.mem with env := e } }
  | .confFile conf => { y with mem := { y.mem with confFile := conf } }

/-- `session_init` to `socket_commands_init`, before `logctl_main` loads the
configuration. -/
def State.init (e : Env) (confFile : Option PairList) : State where
  env := e
  confFile := confFile
  db := []
  storages := storageInit e.toMounts Logctl.storages
  loggers := Logctl.loggers
  loggersGlobalStorage := none
  loggersGlobalLogpath := []
  loggersErrorMessage := []
  loggersErrorCounter := 0
  loggersGlobalState := .stopped
  stopByShutdown := false
  exited := false

/-- The program as it starts. -/
def Sys.init (e : Env) (confFile : Option PairList) : Sys where
  mem := State.init e confFile
  command := boot
  handling := none
  booted := false
  monitor := .ret Counters.init
  stopped := false

/-- The next call of the event's thread. -/
def Sys.nextCall (y : Sys) : Event → Option Call
  | .command =>
    if y.mem.exited then none
    else match y.command with
      | .ret _ => none
      | .call c _ => some c
  | .monitor =>
    if y.mem.exited || !y.booted then none
    else match y.monitor with
      | .ret _ => none
      | .call c _ => some c
  | _ => none

/-- What an event does to the shared state: a call, or a change outside. -/
theorem Sys.step_mem (y : Sys) (v : Event) :
    (∃ c, y.nextCall v = some c ∧ (y.step v).mem = (c.exec y.mem).2) ∨
    (y.nextCall v = none ∧ ((y.step v).mem = y.mem ∨
      (∃ e, (y.step v).mem = { y.mem with env := e }) ∨
      ∃ conf, (y.step v).mem = { y.mem with confFile := conf })) := by
  cases v with
  | receive c =>
    refine .inr ⟨rfl, .inl ?_⟩
    unfold step
    dsimp only
    split <;> rfl
  | command =>
    unfold step nextCall stepCommand
    dsimp only
    split
    · exact .inr ⟨rfl, .inl rfl⟩
    · split
      · exact .inr ⟨rfl, .inl rfl⟩
      next c k _ => exact .inl ⟨c, rfl, rfl⟩
  | monitor =>
    unfold step nextCall stepMonitor
    dsimp only
    split
    · exact .inr ⟨rfl, .inl rfl⟩
    · split
      · exact .inr ⟨rfl, .inl rfl⟩
      next c k _ => exact .inl ⟨c, rfl, rfl⟩
  | env e => exact .inr ⟨rfl, .inr (.inl ⟨e, rfl⟩)⟩
  | confFile conf => exact .inr ⟨rfl, .inr (.inr ⟨conf, rfl⟩)⟩

/-- Only the internal storage is there. -/
def plainEnv : Env where
  getmountpoint := fun _ => none
  mountEntry := fun path => if path = "/data".toList then some ⟨some "rw".toList⟩ else none
  statfs := fun _ => some ⟨4096, 1000000, 900000⟩
  writable := fun _ => true
  observe := fun _ => ⟨false, false, false, false, false, false, false⟩
  logStart := fun name path => (0, path ++ name.text)
  findLastk := false
  logWatchdog := fun _ => false
  isExpired := false
  autostartBit := false
  canSave := true
  weightText := id

end AndroidLearn.Logctl
