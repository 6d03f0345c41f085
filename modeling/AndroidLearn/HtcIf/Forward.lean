import Mathlib.Logic.Function.Basic
import Mathlib.Data.List.Basic

/-!
# The EXEC command of `htc_if`

`htc_if_thread`, `htc_if_thread_wait` and `htc_if_thread_waitpid` of `htc_if.c`. A child
runs with its output in two pipes; a thread waits for it and writes its exit status to a
third; `htc_if_thread` polls the three pipes and forwards what it reads to the client. One
step of the thread is a look of `poll` at one descriptor, the return of `poll`, the turn
of one slot, or the setup of the next cycle; the child and the waiting thread may take
steps in between.

`poll` reports a pipe with data as readable and an empty pipe as hung up once no one has
it open for writing; whether it also calls that one readable is left open. A `read` of the
output pipes takes any part of what is there, up to the size of the buffer; the four bytes
of the status were written at once, and are read at once.

The child writes and closes its two pipes as it likes, and ends with any exit code; the
status is written once it has ended, and after that there is no writer left. `fork` and
`exec` are left out. What is sent to the client arrives (`State.log`).

The module is the model alone. The invariant is in `Invariant`, its steps are in `Steps`,
and that the output is forwarded and that it ends is in `Complete`.
-/

namespace AndroidLearn.HtcIf

/-! ## Pipes and messages -/

/-- The read ends `PIPE_STDOUT_IN`, `PIPE_STDERR_IN` and `PIPE_STATUS_IN`. -/
inductive Fd
  | out
  | err
  | sta
  deriving DecidableEq, Repr

/-- A pipe, with all that ever went through it. -/
structure Pipe where
  /-- all that was ever written -/
  written : List UInt8
  /-- what was not read yet -/
  buffer : List UInt8
  /-- no one has it open for writing -/
  closed : Bool

/-- A message to the client: `HTC_IF_ACTION_ACK_OUT`, `_ERR` and `_CODE` by the pipe,
with the data, or `HTC_IF_ACTION_ACK_EXIT`. -/
inductive Msg
  | ack (f : Fd) (data : List UInt8)
  | exit
  deriving DecidableEq, Repr

/-! ## The poll array -/

/-- `revents`: `POLLIN` and `POLLHUP` -/
structure Revents where
  pollIn : Bool
  pollHup : Bool
  deriving DecidableEq, Repr

/-- An entry of `pollfds` below `pollfds_count`. -/
structure Slot where
  fd : Fd
  revents : Revents

/-- `idx_out`, `idx_err` and `idx_sta`; -1 is `none`. -/
abbrev Idx := Fd → Option Nat

/-- Which of the three indices a slot has. -/
def owner (idx : Idx) (i : Nat) : Option Fd :=
  if idx .out = some i then some .out
  else if idx .err = some i then some .err
  else if idx .sta = some i then some .sta
  else none

/-- `if (idx_out != -1)` and its like, in the setup of the next cycle. -/
def addSlot (next : List Slot × Idx) (f : Fd) : List Slot × Idx :=
  if next.2 f ≠ none then
    (next.1 ++ [⟨f, ⟨false, false⟩⟩], Function.update next.2 f (some next.1.length))
  else next

/-- The slots of the three descriptors. -/
def setupPollfds (idx : Idx) : List Slot × Idx := [Fd.out, .err, .sta].foldl addSlot ([], idx)

/-! ## States -/

/-- Where the daemon is. -/
inductive Pc
  /-- in `poll`, which has looked at the first `n` slots -/
  | poll (n : Nat)
  /-- in the loop over the slots, before the turn of slot `i` -/
  | slot (i : Nat) (msgSent : Bool)
  /-- the exit notification is sent -/
  | done
  deriving DecidableEq, Repr

/-- The pipes, the child, and the local variables of the loop. -/
structure State where
  pipe : Fd → Pipe
  /-- the exit code of the child, once it has exited -/
  exited : Option UInt32
  pollfds : List Slot
  idx : Idx
  /-- `timeout` is 10, not -1 -/
  timeout : Bool
  pc : Pc
  /-- what was sent to the client -/
  log : List Msg

/-- The start of `htc_if_thread`. -/
def State.init : State where
  pipe _ := ⟨[], [], false⟩
  exited := none
  pollfds := [⟨.out, ⟨false, false⟩⟩, ⟨.err, ⟨false, false⟩⟩, ⟨.sta, ⟨false, false⟩⟩]
  idx
    | .out => some 0
    | .err => some 1
    | .sta => some 2
  timeout := false
  pc := .poll 0
  log := []

/-- The bytes of an `int`. -/
def codeBytes (code : UInt32) : List UInt8 :=
  [code.toUInt8, (code >>> 8).toUInt8, (code >>> 16).toUInt8, (code >>> 24).toUInt8]

/-- One of the pipes is changed. -/
def State.setPipe (s : State) (f : Fd) (p : Pipe) : State :=
  { s with pipe := Function.update s.pipe f p }

/-! ## The child and its waiting thread -/

/-- The child writes to a pipe. -/
def State.write (s : State) (f : Fd) (data : List UInt8) : State :=
  s.setPipe f { s.pipe f with
    written := (s.pipe f).written ++ data
    buffer := (s.pipe f).buffer ++ data }

/-- The child closes its end of a pipe. -/
def State.close (s : State) (f : Fd) : State := s.setPipe f { s.pipe f with closed := true }

/-! ## The thread -/

/-- What is left open: whether the end of a pipe counts as readable, whether the
timeout is over, and how much one `read` takes. -/
structure Choice where
  eofReadable : Bool
  timedOut : Bool
  chunk : Nat

/-- What `poll` finds of a pipe. -/
def Pipe.revents (p : Pipe) (c : Choice) : Revents :=
  if p.buffer ≠ [] then ⟨true, p.closed⟩
  else if p.closed then ⟨c.eofReadable, true⟩
  else ⟨false, false⟩

/-- `sizeof (buffer) - 1` -/
def bufferSize : Nat := 1023

/-- How many bytes a `read` of the pipe returns. -/
def Pipe.readCount (p : Pipe) (f : Fd) (c : Choice) : Nat :=
  if f = .sta then min p.buffer.length bufferSize
  else min (c.chunk + 1) (min p.buffer.length bufferSize)

/-- `poll` has seen nothing at the slot. -/
def Slot.quiet (slot : Slot) : Bool := !slot.revents.pollIn && !slot.revents.pollHup

/-- `poll` has looked at all slots. -/
def State.pollReturn (s : State) (c : Choice) : State :=
  if s.pollfds.all Slot.quiet then
    -- nothing to report: it waits on, or its time is over
    if s.timeout && c.timedOut && (s.idx .sta).isNone then { s with pc := .slot 0 false }
    else { s with pc := .poll 0 }
  else { s with pc := .slot 0 false }

/-- The turn of slot `i`. -/
def State.handleSlot (s : State) (c : Choice) (i : Nat) (msgSent : Bool) (slot : Slot) : State :=
  if slot.revents.pollIn then
    let count := (s.pipe slot.fd).readCount slot.fd c
    let data := (s.pipe slot.fd).buffer.take count
    let s' := s.setPipe slot.fd
      { s.pipe slot.fd with buffer := (s.pipe slot.fd).buffer.drop count }
    if count = 0 then { s with pc := .slot (i + 1) msgSent }
    else
      match owner s.idx i with
      | none => { s' with pc := .slot (i + 1) msgSent }
      | some f =>
        let s' := { s' with log := s.log ++ [.ack f data], pc := .slot (i + 1) true }
        if s.idx .sta = some i then
          { s' with idx := Function.update s.idx .sta none, timeout := true }
        else s'
  else if slot.revents.pollHup then
    match owner s.idx i with
    | none => { s with pc := .slot (i + 1) msgSent }
    | some f => { s with idx := Function.update s.idx f none, pc := .slot (i + 1) msgSent }
  else { s with pc := .slot (i + 1) msgSent }

/-- The setup of the next cycle, and whether there is one. -/
def State.nextCycle (s : State) (msgSent : Bool) : State :=
  let (pollfds, idx) := setupPollfds s.idx
  let s := { s with pollfds, idx }
  if pollfds ≠ [] ∧ (msgSent ∨ idx .sta ≠ none) then { s with pc := .poll 0 }
  else { s with pc := .done, log := s.log ++ [.exit] }

/-- A step of the daemon, from where it is. -/
def State.daemon (s : State) (c : Choice) : State :=
  match s.pc with
  | .poll n =>
    match s.pollfds[n]? with
    | some slot =>
      { s with
        pollfds := s.pollfds.set n { slot with revents := (s.pipe slot.fd).revents c }
        pc := .poll (n + 1) }
    | none => s.pollReturn c
  | .slot i msgSent =>
    match s.pollfds[i]? with
    | some slot => s.handleSlot c i msgSent slot
    | none => s.nextCycle msgSent
  | .done => s

/-! ## Runs -/

/-- A step of the child, or of the daemon. -/
inductive Event
  /-- the child writes to its stdout or stderr -/
  | write (f : Fd) (data : List UInt8)
  /-- the child closes one of them -/
  | close (f : Fd)
  | exit (code : UInt32)
  /-- the waiting thread writes the exit code to the status pipe -/
  | status
  | daemon (c : Choice)

/-- An event that cannot happen leaves the state alone. -/
def State.step (s : State) : Event → State
  | .write f data => if f ≠ .sta ∧ (s.pipe f).closed = false then s.write f data else s
  | .close f => if f ≠ .sta then s.close f else s
  | .exit code =>
    if s.exited = none then { (s.close .out).close .err with exited := some code } else s
  | .status =>
    match s.exited with
    | some code => if (s.pipe .sta).written = [] then s.write .sta (codeBytes code) else s
    | none => s
  | .daemon c => s.daemon c

/-- A run. -/
def State.run (s : State) (events : List Event) : State := events.foldl State.step s

/-! ## What the client got -/

/-- The data of the messages about one pipe, in order. -/
def forwarded (f : Fd) : List Msg → List UInt8
  | [] => []
  | .ack g data :: log => (if g = f then data else []) ++ forwarded f log
  | .exit :: log => forwarded f log

/-- The replies with an exit code. -/
def codeReplies : List Msg → List (List UInt8)
  | [] => []
  | .ack .sta data :: log => data :: codeReplies log
  | _ :: log => codeReplies log

end AndroidLearn.HtcIf
