import AndroidLearn.Ttytool.Sessions

/-!
# A session between a tty and a socket

`open_device`, `close_device`, `thread_read_impl` and `thread_write_impl` of `iotty.c`,
the commands of `iotty_main` that call them, and the functions of `poll.c` and `ttytool.c`
that they wait in. When the device is opened, the service starts a thread that waits for a
client on the data socket. It starts a second one: the second writes what the client sends
to the device, the first writes what the device delivers to the client. To close, the
service closes the socket that it listens on, breaks the poll of the first thread and
waits for it to end; the first thread does the same with the second.

A step is one access to what the threads share, or one system call, and the three threads
take their steps in any order. Calls fail as they like. A `read` takes any part of what is
there, and a `write` is taken as a whole or fails; it waits while the other side takes
nothing, and a break of a poll does not wake it. What goes through is kept beside the
state, on both sides of the session (`sent`, `written`, `delivered`, `shown`, and what
each call of `tty_read_line` has read).

No descriptor is given out again while a thread of the session may still use it: the
writer uses `socketfd` until it sees the break, which the reader sends behind its `close`.
Threads and pipes can be created, `strdup` returns a copy, and the server is not started
again. Which device is opened is a parameter.

`State.Control` is the invariant: where each of the threads is says what is open, and who
else is still there. `State.Control.step` keeps it over every step.
-/

namespace AndroidLearn.Iotty

open Ttytool

/-! ## What the threads share -/

/-- How the device is read. -/
inductive Mode where
  | canonical
  | raw
  deriving DecidableEq, Repr

/-- What the device is. -/
inductive TtyType where
  | none
  | uart
  | usb
  | pipe
  deriving DecidableEq, Repr

/-- The data socket as the first thread has it. -/
inductive Socket where
  | closed
  | connected
  | shut
  deriving DecidableEq, Repr

/-- `closing`: the pointer, and what has become of the string. -/
inductive Closing where
  | null
  | str (string : Bytes)
  | freed
  deriving DecidableEq, Repr

/-- Where the service is. `next` is the string of the close under way, and nothing if the
connection has come to its end. -/
inductive Main where
  /-- before the next command -/
  | idle
  /-- before `if (closing)` -/
  | testing (next : Option Bytes)
  | freeing (next : Option Bytes)
  /-- before `closing = NULL` -/
  | clearing (next : Option Bytes)
  /-- before `closing = strdup (buffer)` -/
  | setting (string : Bytes)
  /-- before the server socket is closed -/
  | shutting
  /-- before `poll_break (& poll_read)` -/
  | breaking
  /-- in `pthread_join` -/
  | joining
  | closingDevice
  deriving DecidableEq, Repr

/-- Where `thread_read_impl` is. -/
inductive Reader where
  /-- before `poll_open` -/
  | opening
  | accepting
  /-- before the other thread is created -/
  | creating
  /-- in `poll_wait` -/
  | waiting
  | reading
  | writing (buffer : Bytes)
  /-- before `if (closing)` -/
  | parting
  /-- before the string is written -/
  | telling
  | freeing
  /-- before `closing = NULL` -/
  | clearing
  /-- before `poll_close` -/
  | closingPoll
  | shutting
  | closingSocket
  /-- before `poll_break (& poll_write)` -/
  | breaking
  /-- in `pthread_join` -/
  | joining
  deriving DecidableEq, Repr

/-- Where `thread_write_impl` is. -/
inductive Writer where
  /-- before `poll_open` -/
  | opening
  /-- in `poll_wait` -/
  | waiting
  | reading
  | writing (buffer : Bytes)
  /-- before `poll_close` -/
  | closing
  deriving DecidableEq, Repr

/-- The device as it was opened. -/
structure Opened where
  fd : Nat
  mode : Mode
  tty : Tty
  deriving DecidableEq, Repr

/-- `thread` is whether `thread_read` is set. A `POLL` has the bytes in its pipe, if it is
open. From `sent` on, what went where since the device was opened: a call of `write` has how
much of the buffer was written. -/
structure State where
  mode : Mode
  type : TtyType
  device : Option Nat
  server : Bool
  thread : Bool
  closing : Closing
  pollRead : Option Nat
  pollWrite : Option Nat
  main : Main
  reader : Option Reader
  writer : Option Writer
  socket : Socket
  /-- what came from the client and is not read, and whether no more will come -/
  queue : Bytes
  ended : Bool
  /-- the same of the device -/
  input : Bytes
  hungUp : Bool
  /-- the client takes nothing more, and a write to it waits; the same of the device -/
  socketFull : Bool
  deviceFull : Bool
  tty : Tty
  /-- freed memory, or none, was read or freed -/
  broken : Bool
  opened : Opened
  sent : Bytes
  written : List (Bytes × Nat)
  delivered : Bytes
  reads : List (Option Bytes)
  shown : List (Bytes × Nat)
  asked : Option Bytes
  farewell : Option (Bytes × Nat)

/-- No session was ever opened. -/
def State.init : State where
  mode := .canonical
  type := .none
  device := none
  server := false
  thread := false
  closing := .null
  pollRead := none
  pollWrite := none
  main := .idle
  reader := none
  writer := none
  socket := .closed
  queue := []
  ended := false
  input := []
  hungUp := false
  socketFull := false
  deviceFull := false
  tty := Tty.init
  broken := false
  opened := ⟨0, .canonical, Tty.init⟩
  sent := []
  written := []
  delivered := []
  reads := []
  shown := []
  asked := none
  farewell := none

/-! ## The threads

A system call fails with `none`. Of a `write`, as many bytes are written, and of a `read`,
one more than as many are read at most. A thread that waits for something stays where it is. -/

/-- The room for one read. -/
def bufferSize : Nat := 1024

namespace State

/-- `read` on the device, which has not returned if there is nothing. -/
def readDevice (s : State) : Option Nat → Option (Option Bytes)
  | none => some none
  | some k =>
    if s.input ≠ [] then some (some (s.input.take (min (k + 1) bufferSize)))
    else if s.hungUp then some (some [])
    else none

/-- What a `read` on the device returned is the reader's. -/
def took (s : State) (got : Option (Option Bytes)) : State :=
  { s with
    reads := s.reads ++ got.toList
    input := s.input.drop (got.join.getD []).length }

/-- `count` was returned for a read. -/
def redirect (s : State) (buf : Bytes) : State :=
  { s with reader := some (if buf = [] then .waiting else .writing buf) }

/-- `read` in the raw mode. -/
def readRaw (s : State) (result : Option Nat) : State :=
  match s.readDevice result with
  | none => s
  | some none => { s.took (some none) with reader := some .parting }
  | some (some buf) => (s.took (some (some buf))).redirect buf

/-- `tty_read_line`, up to the next `read` in it. A line in the cache needs none. -/
def readLine (s : State) (fd : Nat) (result : Option Nat) : State :=
  let got := s.readDevice result
  match ttyReadLine fd bufferSize got.toList s.tty with
  | (outcome, rest, tty) =>
    let s := { s.took (if rest = [] then got else none) with tty := tty }
    match outcome with
    | .waiting => s
    | .error => { s with reader := some .parting }
    | .line buf => s.redirect buf

/-- `thread_read_impl` -/
def goReader (s : State) (result : Option Nat) : State :=
  match s.reader with
  | none => s
  | some .opening =>
    match result with
    | none => { s with pollRead := none, reader := none }
    | some _ => { s with pollRead := some 0, reader := some .accepting }
  | some .accepting =>
    if s.server ∧ result ≠ none then { s with socket := .connected, reader := some .creating }
    else { s with reader := none }
  | some .creating => { s with writer := some .opening, reader := some .waiting }
  | some .waiting =>
    match result, s.pollRead with
    | none, _ => { s with reader := some .parting }
    | some _, some (n + 1) => { s with pollRead := some n, reader := some .parting }
    | some _, _ => if s.input ≠ [] ∨ s.hungUp then { s with reader := some .reading } else s
  | some .reading =>
    match s.mode, s.device with
    | _, none => { s with reader := some .parting }
    | .raw, some _ => s.readRaw result
    | .canonical, some fd => s.readLine fd result
  | some (.writing buffer) =>
    match result with
    | none => { s with shown := s.shown ++ [(buffer, 0)], reader := some .parting }
    | some k =>
      if s.socketFull then s
      else { s with shown := s.shown ++ [(buffer, k)], reader := some .waiting }
  | some .parting =>
    { s with reader := some (if s.closing = .null then .closingPoll else .telling) }
  | some .telling =>
    match s.closing with
    | .str string =>
      if s.socketFull ∧ result ≠ none then s
      else { s with farewell := some (string, result.getD 0), reader := some .freeing }
    | .null | .freed => { s with broken := true, reader := some .freeing }
  | some .freeing =>
    match s.closing with
    | .freed => { s with broken := true, reader := some .clearing }
    | .null => { s with reader := some .clearing }
    | .str _ => { s with closing := .freed, reader := some .clearing }
  | some .clearing => { s with closing := .null, reader := some .closingPoll }
  | some .closingPoll => { s with pollRead := none, reader := some .shutting }
  | some .shutting => { s with socket := .shut, reader := some .closingSocket }
  | some .closingSocket => { s with socket := .closed, reader := some .breaking }
  | some .breaking => { s with pollWrite := s.pollWrite.map (· + 1), reader := some .joining }
  | some .joining => if s.writer = none then { s with reader := none } else s

/-- `thread_write_impl`. On a socket that is closed, `poll` reports that it is invalid. -/
def goWriter (s : State) (result : Option Nat) : State :=
  match s.writer with
  | none => s
  | some .opening =>
    match result with
    | none => { s with pollWrite := none, writer := none }
    | some _ => { s with pollWrite := some 0, writer := some .waiting }
  | some .waiting =>
    match result, s.pollWrite with
    | none, _ => { s with writer := some .closing }
    | some _, some (n + 1) => { s with pollWrite := some n, writer := some .closing }
    | some _, _ =>
      if s.socket = .closed then { s with writer := some .closing }
      else if s.queue ≠ [] ∨ s.ended ∨ s.socket = .shut then { s with writer := some .reading }
      else s
  | some .reading =>
    match result with
    | none => { s with writer := some .closing }
    | some k =>
      if s.socket = .closed then { s with writer := some .closing }
      else if s.queue ≠ [] then
        { s with
          queue := s.queue.drop (min (k + 1) bufferSize)
          writer := some (.writing (s.queue.take (min (k + 1) bufferSize))) }
      else if s.ended ∨ s.socket = .shut then { s with writer := some .waiting }
      else s
  | some (.writing buffer) =>
    match result, s.device with
    | some k, some _ =>
      if s.deviceFull then s
      else { s with written := s.written ++ [(buffer, k)], writer := some .waiting }
    | _, _ => { s with written := s.written ++ [(buffer, 0)], writer := some .closing }
  | some .closing => { s with pollWrite := none, writer := none }

/-! ## The service -/

/-- Behind the test of `closing`. -/
def after (s : State) : Option Bytes → State
  | none => { s with main := .idle }
  | some [] => { s with main := .shutting }
  | some string => { s with main := .setting string }

/-- `close_device`; `set` is whether the attributes of the tty can be set. -/
def closeDevice (s : State) (set : Bool) : State :=
  match s.device with
  | none => s
  | some fd =>
    { s with
      tty := if s.type = .uart then ttyClose fd set s.tty else s.tty
      device := none
      type := .none }

/-- `iotty_main` behind a `:close:` or the end of the connection. -/
def goMain (s : State) (set : Bool) : State :=
  match s.main with
  | .idle => s
  | .testing next =>
    if s.closing = .null then s.after next else { s with main := .freeing next }
  | .freeing next =>
    match s.closing with
    | .freed => { s with broken := true, main := .clearing next }
    | .null => { s with main := .clearing next }
    | .str _ => { s with closing := .freed, main := .clearing next }
  | .clearing next => { s with closing := .null }.after next
  | .setting string => { s with closing := .str string, main := .shutting }
  | .shutting => { s with server := false, main := .breaking }
  | .breaking =>
    if s.thread then { s with pollRead := s.pollRead.map (· + 1), main := .joining }
    else { s with main := .closingDevice }
  | .joining =>
    if s.reader = none then { s with thread := false, main := .closingDevice } else s
  | .closingDevice => { s.closeDevice set with main := .idle }

/-- `:open:`. `type` is the type that `probe_device` finds; the attributes of the tty can be
read and set or not. -/
def openDevice (s : State) (fd : Option Nat) (type : TtyType) (got set server : Bool) : State :=
  if s.device ≠ none then s
  else
    match fd with
    | none => { s with type := type }
    | some fd =>
      let tty := if type = .uart then ttyRaw fd got set s.tty else s.tty
      let s := { s with type := type, device := some fd, tty := tty }
      if server then
        { s with
          server := true
          thread := true
          reader := some .opening
          queue := []
          ended := false
          input := []
          hungUp := false
          socketFull := false
          deviceFull := false
          opened := ⟨fd, s.mode, tty⟩
          sent := []
          written := []
          delivered := []
          reads := []
          shown := []
          asked := none
          farewell := none }
      else s.closeDevice set

end State

/-- A step of the client, of the device, or of one of the threads. -/
inductive Event where
  /-- the client sends something -/
  | send (b : Bytes)
  | clientEnds
  /-- the client stops to take what is written to it, or goes on -/
  | socketFull (full : Bool)
  | deliver (b : Bytes)
  | deviceEnds
  | deviceFull (full : Bool)
  /-- `:setmode:` -/
  | setMode (mode : Mode)
  /-- `:settype:` -/
  | setType (type : TtyType)
  /-- `:open:` -/
  | opens (fd : Option Nat) (type : TtyType) (got set server : Bool)
  /-- `:close:`, with the string behind it -/
  | close (string : Bytes)
  /-- the connection of the commands comes to its end -/
  | disconnect
  | main (set : Bool)
  | reader (result : Option Nat)
  | writer (result : Option Nat)
  deriving DecidableEq, Repr

/-- What a close asks the reader to tell. -/
def told (string : Bytes) : Option Bytes := if string = [] then none else some string

/-- The service takes a command when it is through with the last. -/
def State.step (s : State) : Event → State
  | .send b =>
    if s.socket = .connected ∧ ¬ s.ended then { s with queue := s.queue ++ b, sent := s.sent ++ b }
    else s
  | .clientEnds => { s with ended := true }
  | .socketFull full => { s with socketFull := full }
  | .deliver b =>
    if s.device = none then s
    else { s with input := s.input ++ b, delivered := s.delivered ++ b }
  | .deviceEnds => { s with hungUp := true }
  | .deviceFull full => { s with deviceFull := full }
  | .setMode mode => if s.main = .idle ∧ s.device = none then { s with mode := mode } else s
  | .setType type => if s.main = .idle ∧ s.device = none then { s with type := type } else s
  | .opens fd type got set server =>
    if s.main = .idle then s.openDevice fd type got set server else s
  | .close string =>
    if s.main = .idle then
      { s with
        main := .testing (some string)
        asked := if s.thread then told string else s.asked }
    else s
  | .disconnect => if s.main = .idle then { s with main := .testing none } else s
  | .main set => s.goMain set
  | .reader result => s.goReader result
  | .writer result => s.goWriter result

/-! ## Who is where -/

/-- What the data socket is like. -/
def Reader.socket : Reader → Socket
  | .opening | .accepting | .breaking | .joining => .closed
  | .closingSocket => .shut
  | _ => .connected

/-- The other thread has been created. -/
def Reader.started : Reader → Bool
  | .opening | .accepting | .creating => false
  | _ => true

/-- Its poll is open. -/
def Reader.polls : Reader → Bool
  | .opening | .shutting | .closingSocket | .breaking | .joining => false
  | _ => true

/-- Data is redirected. -/
def Reader.redirects : Reader → Bool
  | .creating | .waiting | .reading | .writing _ => true
  | _ => false

/-- The invariant on the threads and the descriptors. -/
structure State.Control (s : State) : Prop where
  socket : s.socket = s.reader.elim .closed Reader.socket
  writer : s.writer ≠ none → ∃ r, s.reader = some r ∧ r.started = true
  thread : s.reader ≠ none → s.thread = true
  device : s.thread = true → s.device ≠ none
  polls : ∀ r, s.reader = some r → r.polls = true → s.pollRead ≠ none
  server : s.main = .breaking ∨ s.main = .joining → s.server = false
  woken : s.main = .joining → ∀ r, s.reader = some r → r.redirects = true → s.pollRead ≠ some 0
  joined : s.main = .closingDevice → s.thread = false
  idle : s.writer = none ∨ s.writer = some .opening → s.pollWrite = none
  ready : s.reader = some .reading → s.mode = .raw → s.input ≠ [] ∨ s.hungUp = true
  opened : s.reader ≠ none → s.opened.mode = s.mode ∧ s.device = some s.opened.fd

section Control

variable {s : State} {result : Option Nat} {set : Bool} {r : Reader} {p : Option Nat} {x : Socket}

/-- The service goes on to where nothing is asked of the others. -/
theorem State.Control.goesTo (h : s.Control) {m : Main} {c : Closing} {b : Bool}
    (hm : m ≠ .breaking ∧ m ≠ .joining ∧ m ≠ .closingDevice) :
    { s with main := m, closing := c, broken := b }.Control :=
  { h with
    server := fun hclosed => (hclosed.elim hm.1 hm.2.1).elim
    woken := fun hjoining => absurd hjoining hm.2.1
    joined := fun hclosing => absurd hclosing hm.2.2 }

/-- The main thread goes on. -/
theorem State.Control.after (h : s.Control) (c : Closing) (next : Option Bytes) :
    ({ s with closing := c }.after next).Control := by
  unfold State.after
  split
  all_goals exact h.goesTo (by simp)

/-- Without a thread the device can be closed. -/
theorem State.Control.closeDevice (h : s.Control) (hthread : s.thread = false) :
    (s.closeDevice set).Control := by
  unfold State.closeDevice
  split
  · exact h
  · exact { h with
      device := fun hset => absurd (hthread.symm.trans hset) Bool.false_ne_true
      opened := fun hne => absurd (hthread.symm.trans (h.thread hne)) Bool.false_ne_true }

/-- Every step of the main thread keeps the invariant. -/
theorem State.Control.goMain (h : s.Control) : (s.goMain set).Control := by
  unfold State.goMain
  split
  · exact h
  · split
    · exact h.after s.closing _
    · exact h.goesTo (by simp)
  · split
    all_goals exact h.goesTo (by simp)
  · exact h.after .null _
  · exact h.goesTo (by simp)
  · exact { h with server := fun _ => rfl, woken := nofun, joined := nofun }
  · next hm =>
    split
    · exact { h with
        polls := fun r hr hpolls => by simpa using h.polls r hr hpolls
        server := fun _ => h.server (.inl hm)
        woken := fun _ r _ _ => by cases s.pollRead <;> simp
        joined := nofun }
    · next hthread =>
      exact { h with
        server := by simp
        woken := nofun
        joined := fun _ => Bool.eq_false_iff.mpr hthread }
  · split
    · next hreader =>
      exact { h with
        thread := fun hne => absurd hreader hne
        device := nofun
        server := by simp
        woken := nofun
        joined := fun _ => rfl }
    · exact h
  · next hm => exact (h.closeDevice (h.joined hm)).goesTo (by simp)

/-- The reader goes on, and what it leaves behind is as it should be at the new place. -/
theorem State.Control.moves (h : s.Control) (hr : s.reader = some r) (r' : Reader)
    (hx : x = r'.socket) (hstarted : r.started = true → r'.started = true)
    (hpolls : r'.polls = true → p ≠ none)
    (hwoken : s.main = .joining → r'.redirects = true → p ≠ some 0) (hready : r' ≠ .reading)
    {c : Closing} {b : Bool} {f : Option (Bytes × Nat)} {sh : List (Bytes × Nat)}
    {rs : List (Option Bytes)} {i : Bytes} {t : Tty} :
    { s with
      reader := some r', pollRead := p, socket := x, closing := c, broken := b, farewell := f,
      shown := sh, reads := rs, input := i, tty := t }.Control :=
  have hne : s.reader ≠ none := hr.symm ▸ nofun
  { h with
    socket := hx
    writer := fun hw => by
      obtain ⟨q, hq, hstart⟩ := h.writer hw
      obtain rfl := Option.some.inj (hr.symm.trans hq)
      exact ⟨r', rfl, hstarted hstart⟩
    thread := fun _ => h.thread hne
    polls := fun q hq => Option.some.inj hq ▸ hpolls
    woken := fun hm q hq => Option.some.inj hq ▸ hwoken hm
    ready := fun hq => absurd (Option.some.inj hq) hready
    opened := fun _ => h.opened hne }

/-- Before the reader has started the writer, there is none. -/
theorem State.Control.alone (h : s.Control) (hr : s.reader = some r) (hstart : r.started = false) :
    s.writer = none := by
  by_contra hw
  obtain ⟨q, hq, hstarted⟩ := h.writer hw
  obtain rfl := Option.some.inj (hr.symm.trans hq)
  exact Bool.false_ne_true (hstart.symm.trans hstarted)

theorem State.Control.socket_eq (h : s.Control) (hr : s.reader = some r) : s.socket = r.socket := by
  rw [h.socket, hr, Option.elim_some]

/-- The reader may end when its socket is closed and the writer is gone. -/
theorem State.Control.ends (h : s.Control) (hr : s.reader = some r) (hx : r.socket = .closed)
    (hw : s.writer = none) : { s with reader := none, pollRead := p }.Control :=
  { h with
    socket := (h.socket_eq hr).trans hx
    writer := fun hne => absurd hw hne
    thread := nofun
    polls := nofun
    woken := nofun
    ready := nofun
    opened := nofun }

/-- The reader goes on in the poll as it is. -/
theorem State.Control.redirects (h : s.Control) (hr : s.reader = some r) (r' : Reader)
    (hredirects : r.redirects = true) (hstarted : r'.started = true) (hx : r'.socket = .connected)
    (hready : r' ≠ .reading) {sh : List (Bytes × Nat)} {rs : List (Option Bytes)} {i : Bytes}
    {t : Tty} :
    { s with reader := some r', shown := sh, reads := rs, input := i, tty := t }.Control := by
  have hconnected : r.socket = .connected := by cases r <;> first | rfl | cases hredirects
  have hpolls : r.polls = true := by cases r <;> first | rfl | cases hredirects
  exact h.moves hr r' (((h.socket_eq hr).trans hconnected).trans hx.symm) (fun _ => hstarted)
    (fun _ => h.polls r hr hpolls) (fun hm _ => h.woken hm r hr hredirects) hready

/-- A read that is redirected leaves the threads as they are. -/
theorem State.Control.redirect (h : s.Control) (hr : s.reader = some .reading) (t : Tty)
    (got : Option (Option Bytes)) (buf : Bytes) :
    ({ s.took got with tty := t }.redirect buf).Control := by
  unfold State.redirect
  refine h.redirects hr _ rfl ?_ ?_ ?_
  all_goals split <;> simp [Reader.started, Reader.socket]

theorem State.Control.leaves (h : s.Control) (hr : s.reader = some .reading) (t : Tty)
    (got : Option (Option Bytes)) :
    { s.took got with tty := t, reader := some .parting }.Control :=
   h.redirects hr .parting rfl rfl rfl nofun

theorem State.Control.readRaw (h : s.Control) (hr : s.reader = some .reading) :
    (s.readRaw result).Control := by
  unfold State.readRaw
  split
  · exact h
  · exact h.leaves hr s.tty _
  · exact h.redirect hr s.tty _ _

theorem State.Control.readLine (h : s.Control) (hr : s.reader = some .reading)
    (hmode : s.mode = .canonical) (fd : Nat) : (s.readLine fd result).Control := by
  unfold State.readLine
  dsimp only
  split
  · exact { h with ready := fun _ hraw => nomatch hmode.symm.trans hraw }
  · exact h.leaves hr _ _
  · exact h.redirect hr _ _ _

/-- The reader is through with the data. -/
theorem State.Control.parts (h : s.Control) (hr : s.reader = some r) (r' : Reader)
    (hx : r.socket = r'.socket) (hstarted : r'.started = true)
    (hpolls : r'.polls = true → r.polls = true) (hredirects : r'.redirects = false) {c : Closing}
    {b : Bool} {f : Option (Bytes × Nat)} :
    { s with reader := some r', closing := c, broken := b, farewell := f }.Control :=
  h.moves hr r' ((h.socket_eq hr).trans hx) (fun _ => hstarted) (fun hp => h.polls r hr (hpolls hp))
    (fun _ hred => absurd (hredirects.symm.trans hred) Bool.false_ne_true)
    (fun heq => by rw [heq] at hredirects; cases hredirects)

/-- Every step of the reader keeps the invariant. -/
theorem State.Control.goReader (h : s.Control) : (s.goReader result).Control := by
  unfold State.goReader
  split
  · exact h
  · next hr =>
    split
    · exact h.ends hr rfl (h.alone hr rfl)
    · exact h.moves hr .accepting ((h.socket_eq hr).trans rfl) nofun
        (fun _ => Option.some_ne_none _) nofun nofun
  · next hr =>
    split
    · next haccept =>
      -- the service has not closed the socket yet
      refine h.moves hr .creating rfl nofun (fun _ => h.polls _ hr rfl) (fun hm _ => ?_) nofun
      exact absurd ((h.server (.inr hm)).symm.trans haccept.1) Bool.false_ne_true
    · exact h.ends hr rfl (h.alone hr rfl)
  · next hr =>
    have hidle := h.idle (.inl (h.alone hr rfl))
    have hwaiting : { s with reader := some .waiting }.Control :=
      h.redirects hr .waiting rfl rfl rfl nofun
    exact { hwaiting with
      writer := fun _ => ⟨.waiting, rfl, rfl⟩
      idle := fun _ => hidle }
  · next hr =>
    split
    · exact h.redirects hr .parting rfl rfl rfl nofun
    · exact h.moves hr .parting ((h.socket_eq hr).trans rfl) (fun _ => rfl)
        (fun _ => Option.some_ne_none _) nofun nofun
    · split
      · next hready =>
        have hwaiting : { s with reader := some .waiting }.Control :=
          h.redirects hr .waiting rfl rfl rfl nofun
        exact { hwaiting with
          writer := fun _ => ⟨.reading, rfl, rfl⟩
          thread := fun _ => h.thread (hr.symm ▸ nofun)
          polls := fun q hq _ => h.polls _ hr rfl
          woken := fun hm q hq _ => h.woken hm _ hr rfl
          ready := fun _ _ => hready
          opened := fun _ => h.opened (hr.symm ▸ nofun) }
      · exact h
  · next hr =>
    split
    · exact h.redirects hr .parting rfl rfl rfl nofun
    · exact h.readRaw hr
    · next hmode _ => exact h.readLine hr hmode _
  · next hr =>
    split
    · exact h.redirects hr .parting rfl rfl rfl nofun
    · split
      · exact h
      · exact h.redirects hr .waiting rfl rfl rfl nofun
  · next hr =>
    refine h.parts hr _ ?_ ?_ (fun _ => rfl) ?_
    all_goals split <;> rfl
  · next hr =>
    split
    · split
      · exact h
      · exact h.parts hr .freeing rfl rfl (fun _ => rfl) rfl
    all_goals exact h.parts hr .freeing rfl rfl (fun _ => rfl) rfl
  · next hr =>
    split
    all_goals exact h.parts hr .clearing rfl rfl (fun _ => rfl) rfl
  · next hr => exact h.parts hr .closingPoll rfl rfl (fun _ => rfl) rfl
  · next hr =>
    exact h.moves hr .shutting ((h.socket_eq hr).trans rfl) (fun _ => rfl) nofun nofun nofun
  · next hr => exact h.moves hr .closingSocket rfl (fun _ => rfl) nofun nofun nofun
  · next hr => exact h.moves hr .breaking rfl (fun _ => rfl) nofun nofun nofun
  · next hr =>
    have hjoining : { s with reader := some .joining }.Control :=
      h.moves hr .joining ((h.socket_eq hr).trans rfl) (fun _ => rfl) nofun nofun nofun
    exact { hjoining with idle := fun hw => by rw [h.idle hw, Option.map_none] }
  · next hr =>
    split
    · next hw => exact h.ends hr rfl hw
    · exact h

theorem State.Control.goWriter (h : s.Control) : (s.goWriter result).Control := by
  unfold State.goWriter
  split
  · exact h
  · next hw =>
    split
    · exact { h with writer := nofun, idle := fun _ => rfl }
    · exact { h with writer := fun _ => h.writer (hw.symm ▸ nofun), idle := nofun }
  · next hw =>
    have hstarted := h.writer (hw.symm ▸ nofun)
    split
    · exact { h with writer := fun _ => hstarted, idle := nofun }
    · exact { h with writer := fun _ => hstarted, idle := nofun }
    · split
      · exact { h with writer := fun _ => hstarted, idle := nofun }
      · split
        · exact { h with writer := fun _ => hstarted, idle := nofun }
        · exact h
  · next hw =>
    have hstarted := h.writer (hw.symm ▸ nofun)
    split
    · exact { h with writer := fun _ => hstarted, idle := nofun }
    · split
      · exact { h with writer := fun _ => hstarted, idle := nofun }
      · split
        · exact { h with writer := fun _ => hstarted, idle := nofun }
        · split
          · exact { h with writer := fun _ => hstarted, idle := nofun }
          · exact h
  · next hw =>
    have hstarted := h.writer (hw.symm ▸ nofun)
    split
    · split
      · exact h
      · exact { h with writer := fun _ => hstarted, idle := nofun }
    · exact { h with writer := fun _ => hstarted, idle := nofun }
  · exact { h with writer := nofun, idle := fun _ => rfl }

theorem State.Control.openDevice (h : s.Control) (hm : s.main = .idle) {fd : Option Nat}
    {type : TtyType} {got server : Bool} :
    (s.openDevice fd type got set server).Control := by
  unfold State.openDevice
  split
  · exact h
  · next hdevice =>
    have hthread : s.thread = false :=
      Bool.eq_false_iff.mpr fun hset => hdevice (h.device hset)
    have hreader : s.reader = none := by
      by_contra hne
      exact absurd (hthread.symm.trans (h.thread hne)) Bool.false_ne_true
    have hwriter : s.writer = none := by
      by_contra hne
      obtain ⟨q, hq, -⟩ := h.writer hne
      exact nomatch hreader.symm.trans hq
    split
    · exact { h with }
    · dsimp only
      split
      · exact { h with
          socket := by rw [h.socket, hreader]; rfl
          writer := fun hne => absurd hwriter hne
          thread := fun _ => rfl
          device := fun _ => nofun
          polls := fun q hq hpolls => by obtain rfl := Option.some.inj hq; cases hpolls
          server := by simp [hm]
          woken := by simp [hm]
          joined := by simp [hm]
          ready := nofun
          opened := fun _ => ⟨rfl, rfl⟩ }
      · refine State.Control.closeDevice ?_ hthread
        exact { h with
          device := fun _ => nofun
          opened := fun hne => absurd hreader hne }

/-- Every event keeps the invariant. -/
theorem State.Control.step (h : s.Control) (e : Event) : (s.step e).Control := by
  cases e with
  | send b =>
    rw [State.step]
    split
    · exact { h with }
    · exact h
  | clientEnds | socketFull | deviceFull => exact { h with }
  | deliver b =>
    rw [State.step]
    split
    · exact h
    · exact { h with
        ready := fun hr hraw => (h.ready hr hraw).imp_left fun hne => by simp [hne] }
  | deviceEnds => exact { h with ready := fun _ _ => .inr rfl }
  | setMode mode =>
    rw [State.step]
    split
    · next hidle =>
      have hreader : s.reader = none := by
        by_contra hne
        exact h.device (h.thread hne) hidle.2
      exact { h with
        ready := fun hr => nomatch hreader.symm.trans hr
        opened := fun hne => absurd hreader hne }
    · exact h
  | setType type =>
    rw [State.step]
    split
    · exact { h with }
    · exact h
  | opens fd type got set server =>
    rw [State.step]
    split
    · next hm => exact h.openDevice hm
    · exact h
  | close string =>
    rw [State.step]
    split
    · exact { h with server := by simp, woken := nofun, joined := nofun }
    · exact h
  | disconnect =>
    rw [State.step]
    split
    · exact h.goesTo (by simp)
    · exact h
  | main set => exact h.goMain
  | reader result => exact h.goReader
  | writer result => exact h.goWriter

/-- It holds before a session is opened. -/
theorem control_init : State.init.Control where
  socket := rfl
  writer := nofun
  thread := nofun
  device := nofun
  polls := nofun
  server := nofun
  woken := nofun
  joined := nofun
  idle := fun _ => rfl
  ready := nofun
  opened := nofun

end Control

end AndroidLearn.Iotty
