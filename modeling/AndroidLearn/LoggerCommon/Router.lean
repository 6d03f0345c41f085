import AndroidLearn.Lib.Bytes
import AndroidLearn.Lib.Run

/-!
# The router between a logger's pipe and its log files

`logger_common_pipe_router_thread` of `logctl.c`, and `do_rotate` of `logdevice.c`. A
logger lets `logcat` write into a pipe. A thread of the service, the router, reads it and
writes the log file. To rotate, the service puts the name of a new file into what it
shares with the router, sets `rotated` there and waits, for two seconds at most, until the
router has taken it up. The router opens a file at its start, and not for appending.

A step is one access to what is shared, or one system call, of the router or of the
service, in any order; a router that was told to stop may still be there when the next one
is started. The pipe gives its bytes in order, any number at a time; a read takes what is
there, up to the size of the buffer, and a write of the router is taken as a whole or
fails.

What happened is kept beside the state: `received` is what the routers have read since the
start, `written` the pieces they wrote, and `past` what each run has received and what was
thrown away with its pipe. A name that is set is read as a whole, the files of a run have
different names, and the count of the load does not overflow.

Theorems:
- `router_run`: in every run in which no new name comes before the router is through with
  the last, the log files one after the other hold what the router wrote, whole and in
  order;
- `router_flow`: what went into the pipe is what was read and what is still in it, but for
  what the pipe held when its router ended;
- `rotated_prompt`: one more piece goes into the old file at most.
-/

namespace AndroidLearn.LoggerCommon.Router

open Run

/-! ## What is shared -/

/-- What the router came to grief at, if it did. -/
inductive RouterError where
  | none
  | opening
  | read
  | write
  deriving DecidableEq, Repr

/-- An open file, by its place in the order in which the files were named. -/
structure Fd where
  file : Nat
  offset : Nat
  deriving DecidableEq, Repr

/-- Where the router is. -/
inductive Place where
  /-- before `pi->pipefd != -1` -/
  | looping (fd : Option Fd)
  /-- before `(fd == -1) || (pi->rotated)` -/
  | testing (fd : Option Fd)
  /-- before `pi->rotated = 0` -/
  | clearing
  | opening
  /-- before `pi->pipefd` is looked at for the read -/
  | reading (fd : Fd)
  /-- in the read -/
  | blocked (fd : Fd)
  | writing (fd : Fd) (buffer : Bytes)
  /-- before the load is calculated -/
  | measuring (fd : Fd) (count : Nat)
  deriving DecidableEq, Repr

/-- What the router writes: a piece from the pipe, or the line about the load. -/
inductive Piece where
  | data (buffer : Bytes)
  | overloaded (state : Bytes)
  deriving DecidableEq, Repr

/-- The bytes of a piece. -/
def Piece.bytes : Piece → Bytes
  | .data buffer => buffer
  | .overloaded state => state

/-- What of it came through the pipe. -/
def Piece.chunk : Piece → Bytes
  | .data buffer => buffer
  | .overloaded _ => []

/-- `logFilename` is the place of the name, `rotating` whether `do_rotate` is between the new
name and `rotated`. -/
structure State where
  files : List Bytes
  logFilename : Nat
  rotated : Bool
  rotating : Bool
  pipefd : Bool
  error : RouterError
  router : Option Place
  preTime : Nat
  bufCount : Nat
  pipe : Bytes
  /-- what the router has read since the last start -/
  received : Bytes
  /-- for each start what had been read since the one before it, and what was then left in the
  pipe and thrown away -/
  past : List (Bytes × Bytes)
  written : List Piece
  deriving DecidableEq, Repr

/-- The bytes of a file, by its place in the order of the names. -/
def State.file (s : State) (n : Nat) : Bytes := s.files.getD n []

/-- Nothing was logged yet. -/
def State.init : State where
  files := []
  logFilename := 0
  rotated := false
  rotating := false
  pipefd := false
  error := .none
  router := none
  preTime := 0
  bufCount := 0
  pipe := []
  received := []
  past := []
  written := []

/-- The name and the criterion of each logger, and the line that is written when a rate of so
many bytes in so many seconds is over a criterion. -/
structure Loggers where
  loggers : List (Bytes × Nat)
  state : Nat → Nat → Nat → Bytes

/-- `strstr` -/
def strstr (s pattern : Bytes) : Bool := s.tails.any pattern.isPrefixOf

/-- The criterion for the router of that name. -/
def Loggers.overload (l : Loggers) (name : Bytes) : Option Nat :=
  (l.loggers.find? fun logger => strstr name logger.1 && logger.2 != 0).map Prod.snd

/-! ## The router -/

section Step

variable (l : Loggers) (name : Bytes)

/-- The size of the router's buffer. -/
def bufferSize : Nat := 2048

/-- A write at the offset of the file. -/
def State.put (s : State) (fd : Fd) (piece : Piece) : State :=
  { s with
    files := s.files.set fd.file (Bytes.writeAt (s.file fd.file) fd.offset piece.bytes)
    written := s.written ++ [piece] }

/-- The offset after a write of these bytes. -/
def Fd.advance (fd : Fd) (b : Bytes) : Fd := { fd with offset := fd.offset + b.length }

/-- The load is calculated every three seconds. -/
def State.measure (s : State) (now : Nat) (result : Option Nat) (fd : Fd) (count : Nat) : State :=
  match l.overload name with
  | none => { s with router := some (.looping (some fd)) }
  | some overload =>
    let difTime := now - s.preTime
    let bufCount := s.bufCount + count
    if difTime < 3 then { s with bufCount := bufCount, router := some (.looping (some fd)) }
    else
      let s := { s with bufCount := 0, preTime := now }
      match result with
      | none => { s with router := some (.looping (some fd)) }
      | some k =>
        if overload * 1024 * difTime < bufCount then
          let state := (l.state bufCount difTime overload).take k
          { s.put fd (.overloaded state) with
            router := some (.looping (some (fd.advance state))) }
        else { s with router := some (.looping (some fd)) }

/-- One step of the router at a time. A system call fails with `none`; of a write, as many
bytes are written, and of a read, as many are read at most: none if nobody has the other
end any more. -/
def State.go (s : State) (now : Nat) (result : Option Nat) : State :=
  match s.router with
  | none => s
  | some (.looping fd) => { s with router := if s.pipefd then some (.testing fd) else none }
  | some (.testing fd) =>
    { s with router := some (if s.rotated then .clearing else fd.elim .clearing .reading) }
  | some .clearing => { s with rotated := false, error := .none, router := some .opening }
  | some .opening =>
    match result with
    | none => { s with error := .opening, router := none }
    | some _ => { s with router := some (.reading ⟨s.logFilename, 0⟩) }
  | some (.reading fd) =>
    if s.pipefd then { s with router := some (.blocked fd) }
    else { s with error := .read, router := none }
  | some (.blocked fd) =>
    match result with
    | none | some 0 => { s with error := .read, router := none }
    | some (k + 1) =>
      if s.pipe = [] then s
      else
        { s with
          router := some (.writing fd (s.pipe.take (min (k + 1) bufferSize)))
          pipe := s.pipe.drop (min (k + 1) bufferSize)
          received := s.received ++ s.pipe.take (min (k + 1) bufferSize) }
  | some (.writing fd buffer) =>
    match result with
    | none => { s with error := .write, router := none }
    | some k =>
      { s.put fd (.data (buffer.take k)) with
        router := some (.measuring (fd.advance (buffer.take k)) buffer.length) }
  | some (.measuring fd count) => s.measure l name now result fd count

/-! ## The service and the logcat process -/

/-- What happens: `logcat`, the commands, the rotation, and the router with the answer of its
call. -/
inductive Event where
  /-- `logcat` -/
  | write (b : Bytes)
  /-- `logdevice_start`, once the new file is named and the pipe opened -/
  | start (now : Nat)
  /-- the new name in `do_rotate`; if the file cannot be made, that is all -/
  | newFile (fails : Bool)
  /-- `pipeinfo.rotated = 1` in `do_rotate` -/
  | rotate
  /-- `pipeinfo.pipefd = -1` in `logdevice_stop` -/
  | stop
  | go (now : Nat) (result : Option Nat)
  deriving DecidableEq, Repr

/-- A file is named; no file was called so before. -/
def State.newName (s : State) : State :=
  { s with files := s.files ++ [[]], logFilename := s.files.length }

/-- What an event does. One that cannot happen in this state changes nothing. -/
def State.step (s : State) : Event → State
  | .write b => { s with pipe := s.pipe ++ b }
  | .start now =>
    if s.router.isSome || s.rotating then s
    else
      { s.newName with
        rotated := false
        pipefd := true
        error := .none
        router := some (.looping none)
        preTime := now
        bufCount := 0
        -- nobody had the pipe open any more
        pipe := []
        received := []
        past := s.past ++ [(s.received, s.pipe)] }
  | .newFile fails => if s.rotating then s else { s.newName with rotating := !fails }
  | .rotate => if s.rotating then { s with rotated := true, rotating := false } else s
  | .stop => if s.rotating then s else { s with pipefd := false }
  | .go now result => s.go l name now result

end Step

/-! ## The files -/

/-- The open file. -/
def Place.fd : Place → Option Fd
  | .looping fd | .testing fd => fd
  | .reading fd | .blocked fd | .writing fd _ | .measuring fd _ => some fd
  | .clearing | .opening => none

/-- A new name comes when the router has taken up the last, and has its file open. -/
def Settled (s : State) : Event → Prop
  | .newFile _ => ∀ p ∈ s.router, s.rotated = false ∧ p.fd ≠ none
  | _ => True

instance (s : State) : (e : Event) → Decidable (Settled s e)
  | .newFile _ => inferInstanceAs (Decidable (∀ p ∈ s.router, s.rotated = false ∧ p.fd ≠ none))
  | .write _ | .start _ | .rotate | .stop | .go _ _ => .isTrue trivial

/-- The router is at the end of the last file that has something in it, and in front of the
name that it is to take up. -/
structure State.AtEnd (s : State) (fd : Fd) : Prop where
  offset : fd.offset = (s.file fd.file).length
  named : fd.file ≤ s.logFilename
  later : ∀ m, fd.file < m → s.file m = []
  taken : s.rotated = true ∨ s.rotating = true → fd.file < s.logFilename

/-- Where the router is, against the files it writes. -/
structure State.Follows (s : State) (p : Place) : Prop where
  last : s.logFilename + 1 = s.files.length
  fd : ∀ fd ∈ p.fd, s.AtEnd fd
  fresh : p.fd = none → s.file s.logFilename = [] ∧ s.rotating = false
  opening : p = .opening → s.rotated = false
  single : s.rotated = true → s.rotating = false

/-- The router follows the files, and these, one after the other, are what was written. -/
structure State.Inv (s : State) : Prop where
  router : ∀ p ∈ s.router, s.Follows p
  files : s.files.flatten = s.written.flatMap Piece.bytes

section Files

variable {l : Loggers} {name : Bytes} {s s' : State} {p q : Place} {fd : Fd}

theorem file_beyond {n : Nat} (h : s.files.length ≤ n) : s.file n = [] := by
  rw [State.file, List.getD_eq_getElem?_getD, List.getElem?_eq_none h, Option.getD_none]

theorem writeAt_end (f b : Bytes) : Bytes.writeAt f f.length b = f ++ b := by
  simp [Bytes.writeAt]

/-- What is written at the end of a file is last of all if the later files are empty. -/
theorem flatten_set {files : List Bytes} {n : Nat} (hn : n < files.length)
    (hlater : ∀ m, n < m → files.getD m [] = []) (b : Bytes) :
    (files.set n (files.getD n [] ++ b)).flatten = files.flatten ++ b := by
  induction files generalizing n with
  | nil => simp at hn
  | cons file files ih =>
    cases n with
    | zero =>
      have hnil : files.flatten = [] := by
        refine List.flatten_eq_nil_iff.mpr fun f hf => ?_
        obtain ⟨m, hm, rfl⟩ := List.mem_iff_getElem.mp hf
        have hempty := hlater (m + 1) (Nat.succ_pos m)
        rw [List.getD_eq_getElem?_getD, List.getElem?_cons_succ,
          List.getElem?_eq_getElem hm] at hempty
        exact hempty
      simp [hnil]
    | succ n =>
      have hrest := ih (Nat.lt_of_succ_lt_succ hn) fun m hm => hlater (m + 1) (Nat.succ_lt_succ hm)
      rw [List.getD_cons_succ, List.set_cons_succ, List.flatten_cons, hrest, List.flatten_cons,
        List.append_assoc]

/-- The router goes on, with the file that is open or without one. -/
theorem State.Follows.goes (h : s.Follows p) (hfiles : s'.files = s.files)
    (hname : s'.logFilename = s.logFilename)
    (hrotated : s'.rotated = true → s.rotated = true) (hrotating : s'.rotating = s.rotating)
    (hfd : ∀ fd ∈ q.fd, fd ∈ p.fd) (hfresh : q.fd = none → p.fd = none ∨ s.rotated = true)
    (hopening : q = .opening → s'.rotated = false) : s'.Follows q := by
  have hfile : s'.file = s.file := by
    funext n
    rw [State.file, State.file, hfiles]
  refine ⟨by rw [hname, hfiles]; exact h.last, fun fd hq => ?_, fun hnone => ?_, hopening,
    fun hset => hrotating.trans (h.single (hrotated hset))⟩
  · obtain ⟨hoffset, hnamed, hlater, htaken⟩ := h.fd fd (hfd fd hq)
    refine ⟨by rw [hfile]; exact hoffset, by rw [hname]; exact hnamed,
      by rw [hfile]; exact hlater, fun hor => ?_⟩
    rw [hname]
    exact htaken (hor.imp hrotated fun hset => hrotating.symm.trans hset)
  · rw [hfile, hname, hrotating]
    rcases hfresh hnone with hnofd | hset
    · exact h.fresh hnofd
    · refine ⟨?_, h.single hset⟩
      cases hpfd : p.fd with
      | none => exact (h.fresh hpfd).1
      | some fd =>
        have hend := h.fd fd hpfd
        exact hend.later _ (hend.taken (.inl hset))

/-- The router writes at the end of its file. -/
theorem State.Follows.put (h : s.Follows p) (hp : fd ∈ p.fd) (piece : Piece) :
    (s.put fd piece).AtEnd (fd.advance piece.bytes) ∧
      (s.put fd piece).files.flatten = s.files.flatten ++ piece.bytes := by
  have hend := h.fd fd hp
  have hlast := h.last
  have hnamed := hend.named
  have hlt : fd.file < s.files.length := by omega
  have hput : (s.put fd piece).files = s.files.set fd.file (s.file fd.file ++ piece.bytes) := by
    show s.files.set _ _ = _
    rw [hend.offset, writeAt_end]
  have hsame : (s.put fd piece).file fd.file = s.file fd.file ++ piece.bytes := by
    rw [State.file, hput, List.getD_eq_getElem?_getD, List.getElem?_set_self hlt, Option.getD_some]
  have hother {m : Nat} (hm : fd.file < m) : (s.put fd piece).file m = s.file m := by
    rw [State.file, hput, List.getD_eq_getElem?_getD, List.getElem?_set_ne (Nat.ne_of_lt hm),
      State.file, List.getD_eq_getElem?_getD]
  refine ⟨⟨?_, hnamed, fun m hm => (hother hm).trans (hend.later m hm), hend.taken⟩, ?_⟩
  · show fd.offset + piece.bytes.length = ((s.put fd piece).file fd.file).length
    rw [hsame, List.length_append, hend.offset]
  · rw [hput]
    exact flatten_set hlt hend.later _

/-- The router goes on behind what it has written. -/
theorem State.Inv.puts (h : s.Inv) (hp : s.router = some p) (hfd : fd ∈ p.fd) {piece : Piece}
    (hq : q.fd = some (fd.advance piece.bytes)) (hfiles : s'.files = (s.put fd piece).files)
    (hwritten : s'.written = s.written ++ [piece]) (hname : s'.logFilename = s.logFilename)
    (hrotated : s'.rotated = s.rotated) (hrotating : s'.rotating = s.rotating)
    (hrouter : s'.router = some q) : s'.Inv := by
  have hfollows := h.router p hp
  obtain ⟨hend, hflatten⟩ := hfollows.put hfd piece
  have hfile : s'.file = (s.put fd piece).file := by
    funext n
    rw [State.file, State.file, hfiles]
  refine ⟨fun q' hq' => ?_, ?_⟩
  · obtain rfl : q = q' := Option.some.inj (hrouter.symm.trans hq')
    refine ⟨?_, fun fd' hfd' => ?_, fun hnone => absurd (hq.symm.trans hnone) (by simp), ?_,
      fun hset => ?_⟩
    · rw [hname, hfiles]
      exact hfollows.last.trans (List.length_set ..).symm
    · obtain rfl : fd.advance piece.bytes = fd' := Option.some.inj (hq.symm.trans hfd')
      refine ⟨by rw [hfile]; exact hend.offset, by rw [hname]; exact hend.named,
        by rw [hfile]; exact hend.later, fun hor => ?_⟩
      rw [hname]
      exact hend.taken (by rwa [hrotated, hrotating] at hor)
    · rintro rfl
      cases hq
    · rw [hrotating]
      exact hfollows.single (hrotated.symm.trans hset)
  · rw [hfiles, hflatten, h.files, hwritten, List.flatMap_append]
    simp

/-- The router opens the file that is named. -/
theorem State.Inv.opens (h : s.Inv) (hp : s.router = some .opening) :
    State.Inv { s with router := some (.reading ⟨s.logFilename, 0⟩) } := by
  have hfollows := h.router _ hp
  obtain ⟨hempty, hrotating⟩ := hfollows.fresh rfl
  have hrotated := hfollows.opening rfl
  refine ⟨fun q hq => ?_, h.files⟩
  obtain rfl := Option.some.inj hq
  refine ⟨hfollows.last, fun fd hfd => ?_, (fun hnone => nomatch hnone), (fun hne => nomatch hne),
    hfollows.single⟩
  obtain rfl := Option.some.inj hfd
  refine ⟨?_, le_rfl, fun m hm => file_beyond ?_, fun hor => ?_⟩
  · show 0 = (s.file s.logFilename).length
    rw [hempty]
    rfl
  · have hlast := hfollows.last
    have hlt : s.logFilename < m := hm
    show s.files.length ≤ m
    omega
  · rcases hor with hset | hset
    · exact absurd (hrotated.symm.trans hset) (by simp)
    · exact absurd (hrotating.symm.trans hset) (by simp)

/-- The router may end. -/
theorem State.Inv.ends (h : s.Inv) (hfiles : s'.files = s.files)
    (hwritten : s'.written = s.written) (hrouter : s'.router = none) : s'.Inv := by
  refine ⟨fun p hp => ?_, by rw [hfiles, hwritten]; exact h.files⟩
  rw [hrouter] at hp
  cases hp

/-- The router goes on, and nothing is written. -/
theorem State.Inv.goes (h : s.Inv) (hp : s.router = some p) (hrouter : s'.router = some q)
    (hfiles : s'.files = s.files) (hname : s'.logFilename = s.logFilename)
    (hwritten : s'.written = s.written) (hrotated : s'.rotated = true → s.rotated = true)
    (hrotating : s'.rotating = s.rotating) (hfd : ∀ fd ∈ q.fd, fd ∈ p.fd)
    (hfresh : q.fd = none → p.fd = none ∨ s.rotated = true)
    (hopening : q = .opening → s'.rotated = false) : s'.Inv := by
  refine ⟨fun q' hq' => ?_, by rw [hfiles, hwritten]; exact h.files⟩
  obtain rfl : q = q' := Option.some.inj (hrouter.symm.trans hq')
  exact (h.router p hp).goes hfiles hname hrotated hrotating hfd hfresh hopening

/-- The router goes on with the file, and may have written a line about the load. -/
theorem State.measure_cases (l : Loggers) (name : Bytes) (s : State) (fd : Fd) (count now : Nat)
    (result : Option Nat) :
    ∃ bufCount preTime,
      s.measure l name now result fd count =
        { s with
          bufCount := bufCount, preTime := preTime, router := some (.looping (some fd)) } ∨
      ∃ state, s.measure l name now result fd count =
        { State.put { s with bufCount := bufCount, preTime := preTime } fd (.overloaded state) with
          router := some (.looping (some (fd.advance state))) } := by
  rw [State.measure]
  split
  · exact ⟨s.bufCount, s.preTime, .inl rfl⟩
  · next overload =>
    simp only
    split
    · exact ⟨s.bufCount + count, s.preTime, .inl rfl⟩
    · refine ⟨0, now, ?_⟩
      split
      · exact .inl rfl
      · split
        · exact .inr ⟨_, rfl⟩
        · exact .inl rfl

/-- The look at the load keeps the invariant. -/
theorem State.Inv.measure (h : s.Inv) {count now : Nat} {result : Option Nat}
    (hp : s.router = some (.measuring fd count)) : (s.measure l name now result fd count).Inv := by
  obtain ⟨bufCount, preTime, heq | ⟨state, heq⟩⟩ :=
    s.measure_cases l name fd count now result
  · rw [heq]
    exact h.goes hp rfl rfl rfl rfl (fun hset => hset) rfl (fun _ hfd => hfd)
      (fun hnone => nomatch hnone) (fun hne => nomatch hne)
  · rw [heq]
    exact h.puts hp rfl rfl rfl rfl rfl rfl rfl rfl

/-- Every step of the router keeps it. -/
theorem State.Inv.go (h : s.Inv) (now : Nat) (result : Option Nat) :
    (s.go l name now result).Inv := by
  unfold State.go
  split
  · exact h
  · next fd hp =>
    split
    · exact h.goes hp rfl rfl rfl rfl (fun hset => hset) rfl (fun _ hfd => hfd) .inl
        (fun hne => nomatch hne)
    · exact h.ends rfl rfl rfl
  · next fd hp =>
    refine h.goes hp rfl rfl rfl rfl (fun hset => hset) rfl (fun fd' hfd => ?_) (fun hnone => ?_)
      fun hne => ?_
    · split at hfd
      · cases hfd
      · cases fd <;> exact hfd
    · split at hnone
      · next hrotated => exact .inr hrotated
      · cases fd with
        | none => exact .inl rfl
        | some fd => cases hnone
    · split at hne
      · cases hne
      · cases fd <;> cases hne
  · next hp =>
    exact h.goes hp rfl rfl rfl rfl (fun hset => nomatch hset) rfl (fun _ hfd => hfd) .inl
      (fun _ => rfl)
  · next hp =>
    split
    · exact h.ends rfl rfl rfl
    · exact h.opens hp
  · next fd hp =>
    split
    · exact h.goes hp rfl rfl rfl rfl (fun hset => hset) rfl (fun _ hfd => hfd) .inl
        (fun hne => nomatch hne)
    · exact h.ends rfl rfl rfl
  · next fd hp =>
    split
    · exact h.ends rfl rfl rfl
    · exact h.ends rfl rfl rfl
    · split
      · exact h
      · exact h.goes hp rfl rfl rfl rfl (fun hset => hset) rfl (fun _ hfd => hfd) .inl
          (fun hne => nomatch hne)
  · next fd buffer hp =>
    split
    · exact h.ends rfl rfl rfl
    · exact h.puts hp rfl rfl rfl rfl rfl rfl rfl rfl
  · next fd count hp => exact h.measure hp

theorem State.Inv.frame (h : s.Inv) (hrouter : s'.router = s.router)
    (hfiles : s'.files = s.files) (hname : s'.logFilename = s.logFilename)
    (hwritten : s'.written = s.written) (hrotated : s'.rotated = s.rotated)
    (hrotating : s'.rotating = s.rotating) : s'.Inv := by
  refine ⟨fun p hp => ?_, by rw [hfiles, hwritten]; exact h.files⟩
  rw [hrouter] at hp
  have hfollows := h.router p hp
  exact hfollows.goes hfiles hname (fun hset => hrotated.symm.trans hset) hrotating
    (fun _ hfd => hfd) .inl fun hne => hrotated.trans (hfollows.opening hne)

/-- A new name leaves the files as they are. -/
theorem file_newName (n : Nat) : s.newName.file n = s.file n := by
  show (s.files ++ [[]]).getD n [] = s.files.getD n []
  rw [List.getD_eq_getElem?_getD, List.getD_eq_getElem?_getD, List.getElem?_append]
  split
  · rfl
  · next hge =>
    rw [List.getElem?_eq_none (Nat.not_lt.mp hge), List.getElem?_singleton]
    split <;> rfl

theorem files_newName : s.newName.files.flatten = s.files.flatten := by
  show (s.files ++ [[]]).flatten = s.files.flatten
  simp

/-- It is the name of the last file. -/
theorem last_newName : s.newName.logFilename + 1 = s.newName.files.length := by
  show s.files.length + 1 = (s.files ++ [[]]).length
  rw [List.length_append]
  rfl

/-- The logger may be started. -/
theorem State.Inv.start (h : s.Inv) (now : Nat) : (s.step l name (.start now)).Inv := by
  rw [State.step]
  split
  · exact h
  · next hfree =>
    have hrotating : s.rotating = false := by
      simp only [Bool.or_eq_true, not_or, Bool.not_eq_true] at hfree
      exact hfree.2
    refine ⟨fun p hp => ?_, files_newName.trans h.files⟩
    obtain rfl := Option.some.inj hp
    refine ⟨last_newName, fun fd hfd => ?_, fun _ => ⟨?_, hrotating⟩, fun hne => ?_,
      fun hset => ?_⟩
    · cases hfd
    · exact (file_newName s.files.length).trans (file_beyond le_rfl)
    · cases hne
    · cases hset

/-- It may be given a new file, once the router has seen the flag. -/
theorem State.Inv.newFile (h : s.Inv) {fails : Bool} (hsettled : Settled s (.newFile fails)) :
    (s.step l name (.newFile fails)).Inv := by
  rw [State.step]
  split
  · exact h
  · refine ⟨fun p hp => ?_, files_newName.trans h.files⟩
    obtain ⟨hrotated, hfd⟩ := hsettled p hp
    have hfollows := h.router p hp
    have hlast := hfollows.last
    refine ⟨last_newName, fun fd hp => ?_, fun hnone => absurd hnone hfd, ?_,
      fun hset => absurd (hrotated.symm.trans hset) (by simp)⟩
    · obtain ⟨hoffset, hnamed, hlater, -⟩ := hfollows.fd fd hp
      have hlt : fd.file < s.files.length := by omega
      refine ⟨?_, hlt.le, fun m hm => (file_newName m).trans (hlater m hm), fun _ => hlt⟩
      exact hoffset.trans (congrArg List.length (file_newName fd.file).symm)
    · rintro rfl
      exact absurd rfl hfd

/-- It may be told to rotate. -/
theorem State.Inv.rotate (h : s.Inv) : (s.step l name .rotate).Inv := by
  rw [State.step]
  split
  · next hrotating =>
    refine ⟨fun p hp => ?_, h.files⟩
    have hfollows := h.router p hp
    have hopen : p.fd ≠ none := fun hnone =>
      absurd (hrotating.symm.trans (hfollows.fresh hnone).2) (by simp)
    refine ⟨hfollows.last, fun fd hp => ?_, fun hnone => absurd hnone hopen, ?_, fun _ => rfl⟩
    · obtain ⟨hoffset, hnamed, hlater, htaken⟩ := hfollows.fd fd hp
      exact ⟨hoffset, hnamed, hlater, fun _ => htaken (.inr hrotating)⟩
    · rintro rfl
      exact absurd rfl hopen
  · exact h

/-- Every event keeps the invariant, if each new file waits for the router. -/
theorem State.Inv.step (h : s.Inv) {e : Event} (hsettled : Settled s e) :
    (s.step l name e).Inv := by
  cases e with
  | write b => exact h.frame rfl rfl rfl rfl rfl rfl
  | start now => exact h.start now
  | newFile fails => exact h.newFile hsettled
  | rotate => exact h.rotate
  | stop =>
    rw [State.step]
    split
    · exact h
    · exact h.frame rfl rfl rfl rfl rfl rfl
  | go now result => exact h.go now result

theorem init_inv : State.init.Inv := ⟨fun _ hp => (nomatch hp), rfl⟩

end Files

/-- In every run in which a new name comes only when the router has taken up the last: the
files, in the order in which they were named, hold what the router wrote, in the order in
which it wrote it; nothing is written over. -/
theorem router_run (l : Loggers) (name : Bytes) (events : List Event)
    (hsettled : AllSteps (State.step l name) Settled .init events) :
    let s := events.foldl (State.step l name) .init
    s.files.flatten = s.written.flatMap Piece.bytes := by
  intro s
  have h : s.Inv := AllSteps.invariant (fun _ _ h hsettled => h.step hsettled) init_inv hsettled
  exact h.files

/-! ## What comes through the pipe -/

/-- What the router has read and not yet written. -/
def Place.held : Place → Bytes
  | .writing _ buffer => buffer
  | _ => []

/-- The router writes all of what it has read. -/
def Whole (s : State) : Event → Prop
  | .go _ result => ∀ p ∈ s.router, p.held ≠ [] → ∃ k ∈ result, p.held.length ≤ k
  | _ => True

instance (s : State) : (e : Event) → Decidable (Whole s e)
  | .go _ result => inferInstanceAs
      (Decidable (∀ p ∈ s.router, p.held ≠ [] → ∃ k ∈ result, p.held.length ≤ k))
  | .write _ | .start _ | .newFile _ | .rotate | .stop => .isTrue trivial

/-- What a step puts into the pipe. -/
def Event.sent : Event → Bytes
  | .write b => b
  | _ => []

/-- What is left in the pipe when a logger is started again. -/
def State.thrown (s : State) : Event → List Bytes
  | .start _ => if s.router.isSome || s.rotating then [] else [s.pipe]
  | _ => []

/-- What the router has read so far. -/
def State.readings (s : State) : Bytes := s.past.flatMap Prod.fst ++ s.received

/-- All that has been in the pipe. -/
def State.through (s : State) : Bytes :=
  s.past.flatMap (fun p => p.1 ++ p.2) ++ s.received ++ s.pipe

/-- What the router reads it writes, but for what it has in hand. -/
def State.Flows (s : State) : Prop :=
  s.readings = s.written.flatMap Piece.chunk ++ s.router.elim [] Place.held

section Flow

variable {l : Loggers} {name : Bytes} {s s' : State} {p q : Place} {fd : Fd}

/-- The load leaves the pipe alone. -/
theorem measure_pipe (now : Nat) (result : Option Nat) (fd : Fd) (count : Nat) :
    (s.measure l name now result fd count).past = s.past ∧
      (s.measure l name now result fd count).received = s.received ∧
      (s.measure l name now result fd count).pipe = s.pipe := by
  obtain ⟨bufCount, preTime, heq | ⟨state, heq⟩⟩ :=
    s.measure_cases l name fd count now result
  · rw [heq]
    exact ⟨rfl, rfl, rfl⟩
  · rw [heq]
    exact ⟨rfl, rfl, rfl⟩

/-- A step of the router takes a front off the pipe, and no more. -/
theorem go_pipe (now : Nat) (result : Option Nat) : ∃ n,
    (s.go l name now result).past = s.past ∧
      (s.go l name now result).received = s.received ++ s.pipe.take n ∧
      (s.go l name now result).pipe = s.pipe.drop n := by
  have hkeeps {s' : State} (hpast : s'.past = s.past) (hreceived : s'.received = s.received)
      (hpipe : s'.pipe = s.pipe) : ∃ n, s'.past = s.past ∧
        s'.received = s.received ++ s.pipe.take n ∧ s'.pipe = s.pipe.drop n :=
    ⟨0, hpast, hreceived.trans (List.append_nil _).symm, hpipe⟩
  unfold State.go
  split
  · exact hkeeps rfl rfl rfl
  · exact hkeeps rfl rfl rfl
  · exact hkeeps rfl rfl rfl
  · exact hkeeps rfl rfl rfl
  · split <;> exact hkeeps rfl rfl rfl
  · split <;> exact hkeeps rfl rfl rfl
  · split
    · exact hkeeps rfl rfl rfl
    · exact hkeeps rfl rfl rfl
    · split
      · exact hkeeps rfl rfl rfl
      · exact ⟨_, rfl, rfl, rfl⟩
  · split <;> exact hkeeps rfl rfl rfl
  · next fd count _ =>
    obtain ⟨hpast, hreceived, hpipe⟩ := @measure_pipe l name s now result fd count
    exact hkeeps hpast hreceived hpipe

/-- What went through, behind one event more. -/
theorem through_step (e : Event) : (s.step l name e).through = s.through ++ e.sent := by
  have hnil : s.through = s.through ++ [] := (List.append_nil _).symm
  cases e with
  | write b => exact (List.append_assoc ..).symm
  | start now =>
    rw [State.step]
    split
    · exact hnil
    · simp [State.through, Event.sent]
  | newFile fails | rotate | stop =>
    rw [State.step]
    split <;> exact hnil
  | go now result =>
    obtain ⟨n, hpast, hreceived, hpipe⟩ := @go_pipe l name s now result
    show (s.go l name now result).through = s.through ++ []
    rw [State.through, hpast, hreceived, hpipe, List.append_assoc, List.append_assoc,
      List.take_append_drop, ← List.append_assoc, List.append_nil]
    rfl

/-- What was thrown away, behind one event more. -/
theorem thrown_step (e : Event) :
    (s.step l name e).past.map Prod.snd = s.past.map Prod.snd ++ s.thrown e := by
  have hnil : s.past.map Prod.snd = s.past.map Prod.snd ++ [] := (List.append_nil _).symm
  cases e with
  | write b => exact hnil
  | start now =>
    rw [State.step, State.thrown]
    split
    · exact hnil
    · exact List.map_append
  | newFile fails | rotate | stop =>
    rw [State.step]
    split <;> exact hnil
  | go now result =>
    obtain ⟨n, hpast, -, -⟩ := @go_pipe l name s now result
    show (s.go l name now result).past.map Prod.snd = _
    rw [hpast]
    exact hnil

/-- What was sent in a run. -/
theorem seen_sent (s : State) (events : List Event) :
    seen (State.step l name) (fun _ e => e.sent) s events = events.flatMap Event.sent := by
  induction events generalizing s with
  | nil => rfl
  | cons e events ih => rw [seen, ih, List.flatMap_cons]

/-- Nothing goes through the router's hands. -/
theorem State.Flows.goes (h : s.Flows) (hp : s.router = some p) (hheld : p.held = [])
    (hrouter : s'.router.elim [] Place.held = []) (hreadings : s'.readings = s.readings)
    (hwritten : s'.written.flatMap Piece.chunk = s.written.flatMap Piece.chunk) : s'.Flows := by
  rw [State.Flows, hp] at h
  rw [State.Flows, hreadings, hwritten, hrouter, h]
  exact congrArg _ hheld

/-- The look at the load loses nothing. -/
theorem State.Flows.measure (h : s.Flows) {count now : Nat} {result : Option Nat}
    (hp : s.router = some (.measuring fd count)) :
    (s.measure l name now result fd count).Flows := by
  obtain ⟨bufCount, preTime, heq | ⟨state, heq⟩⟩ :=
    s.measure_cases l name fd count now result
  · rw [heq]
    exact h.goes hp rfl rfl rfl rfl
  · rw [heq]
    refine h.goes hp rfl rfl rfl ?_
    simp [State.put, Piece.chunk]

/-- A piece is read. -/
theorem State.Flows.reads (h : s.Flows) (hp : s.router = some (.blocked fd)) (n : Nat) :
    State.Flows { s with
      router := some (.writing fd (s.pipe.take n))
      pipe := s.pipe.drop n
      received := s.received ++ s.pipe.take n } := by
  rw [State.Flows, hp] at h
  show s.past.flatMap Prod.fst ++ (s.received ++ s.pipe.take n) =
    s.written.flatMap Piece.chunk ++ s.pipe.take n
  rw [← List.append_assoc]
  refine congrArg (· ++ s.pipe.take n) ?_
  exact h.trans (List.append_nil _)

theorem State.Flows.go (h : s.Flows) {now : Nat} {result : Option Nat}
    (hwhole : Whole s (.go now result)) : (s.go l name now result).Flows := by
  unfold State.go
  split
  · exact h
  · next fd hp =>
    refine h.goes hp rfl ?_ rfl rfl
    show Option.elim (if s.pipefd then some (Place.testing fd) else none) [] Place.held = []
    split <;> rfl
  · next fd hp =>
    refine h.goes hp rfl ?_ rfl rfl
    show Place.held (if s.rotated then .clearing else fd.elim .clearing .reading) = []
    split
    · rfl
    · cases fd <;> rfl
  · next hp => exact h.goes hp rfl rfl rfl rfl
  · next hp =>
    split
    · exact h.goes hp rfl rfl rfl rfl
    · exact h.goes hp rfl rfl rfl rfl
  · next fd hp =>
    split
    · exact h.goes hp rfl rfl rfl rfl
    · exact h.goes hp rfl rfl rfl rfl
  · next fd hp =>
    split
    · exact h.goes hp rfl rfl rfl rfl
    · exact h.goes hp rfl rfl rfl rfl
    · split
      · exact h
      · exact h.reads hp _
  · next fd buffer hp =>
    have hall := hwhole _ hp
    split
    · have hnil : buffer = [] := by
        by_contra hne
        obtain ⟨k, hk, -⟩ := hall hne
        cases hk
      exact h.goes hp hnil rfl rfl rfl
    · next k =>
      have htake : buffer.take k = buffer := by
        by_cases hne : buffer = []
        · rw [hne, List.take_nil]
        · obtain ⟨k', hk, hle⟩ := hall hne
          obtain rfl := Option.some.inj hk
          exact List.take_of_length_le hle
      rw [State.Flows, hp] at h
      show s.readings = (s.written ++ [Piece.data (buffer.take k)]).flatMap Piece.chunk ++ []
      rw [h, htake, List.flatMap_append, List.append_nil]
      simp [Piece.chunk, Place.held]
  · next fd count hp => exact h.measure hp

/-- Every event keeps what is under way, when the writes are whole. -/
theorem State.Flows.step (h : s.Flows) {e : Event} (hwhole : Whole s e) :
    (s.step l name e).Flows := by
  cases e with
  | write b => exact h
  | start now =>
    rw [State.step]
    split
    · exact h
    · next hfree =>
      have hnone : s.router = none := by
        simp only [Bool.or_eq_true, not_or, Bool.not_eq_true] at hfree
        exact Option.isSome_eq_false_iff.mp hfree.1 |> Option.isNone_iff_eq_none.mp
      rw [State.Flows, hnone] at h
      show (s.past ++ [(s.received, s.pipe)]).flatMap Prod.fst ++ [] = _ ++ []
      rw [List.append_nil, List.flatMap_append, List.flatMap_singleton]
      exact h
  | newFile fails | rotate | stop =>
    rw [State.step]
    split <;> exact h
  | go now result => exact h.go hwhole

theorem init_flows : State.init.Flows := rfl

end Flow

/-- In every run in which the router's writes of the pieces are whole, however rotations, stops
and restarts come between: what was written into the pipe is what the router has read, then at
each restart what was left in the pipe and thrown away with it, and in the end what is still in
it; and what the router has read is what it wrote, without the lines about the load, then what
it has in hand. -/
theorem router_flow (l : Loggers) (name : Bytes) (events : List Event)
    (hwhole : AllSteps (State.step l name) Whole .init events) :
    let s := events.foldl (State.step l name) .init
    events.flatMap Event.sent =
        s.past.flatMap (fun p => p.1 ++ p.2) ++ s.received ++ s.pipe ∧
      s.past.map Prod.snd = seen (State.step l name) State.thrown .init events ∧
      s.past.flatMap Prod.fst ++ s.received =
        s.written.flatMap Piece.chunk ++ s.router.elim [] Place.held := by
  intro s
  have hthrough : s.through = [] ++ seen (State.step l name) (fun _ e => e.sent) .init events :=
    record_eq_seen (I := fun _ => True) _ (fun _ e _ => ⟨trivial, through_step e⟩) trivial
  have hthrown : s.past.map Prod.snd = [] ++ seen (State.step l name) State.thrown .init events :=
    record_eq_seen (I := fun _ => True) (fun s : State => s.past.map Prod.snd)
      (fun _ e _ => ⟨trivial, thrown_step e⟩) trivial
  rw [seen_sent] at hthrough
  have hflows : s.Flows := AllSteps.invariant (fun _ _ h hwhole => h.step hwhole) init_flows hwhole
  exact ⟨hthrough.symm, hthrown, hflows⟩

/-- A piece goes into the first file, and one into the second. -/
def rotation : List Event :=
  [.start 0, .write [97, 98], .go 0 none, .go 0 none, .go 0 none, .go 0 (some 0), .go 0 none,
    .go 0 (some 9), .go 0 (some 9), .newFile false, .go 1 none, .rotate, .go 1 none, .go 1 none,
    .go 1 none, .go 1 (some 0), .write [99], .go 1 none, .go 1 (some 9), .go 1 (some 9)]

theorem router_run_rotation :
    let s := rotation.foldl (State.step ⟨[([100], 1)], fun _ _ _ => [42]⟩ [100]) .init
    s.files.flatten = s.written.flatMap Piece.bytes :=
  router_run _ _ _ (by decide)

/-- The run goes on: what is in the pipe when the router ends is thrown away with it, and the
next one reads what comes after the restart. -/
theorem router_flow_rotation :
    let l : Loggers := ⟨[([100], 1)], fun _ _ _ => [42]⟩
    let events : List Event := rotation ++
      [.write [101, 102], .stop, .go 1 none, .go 1 none, .start 2, .write [103]]
    let s := events.foldl (State.step l [100]) .init
    events.flatMap Event.sent =
        s.past.flatMap (fun p => p.1 ++ p.2) ++ s.received ++ s.pipe ∧
      s.past.map Prod.snd = seen (State.step l [100]) State.thrown .init events ∧
      s.past.flatMap Prod.fst ++ s.received =
        s.written.flatMap Piece.chunk ++ s.router.elim [] Place.held :=
  router_flow _ _ _ (by decide)

/-! ## How soon a rotation is taken up -/

/-- Is it a piece of the log, and not the line about the load? -/
def Piece.isData : Piece → Bool
  | .data _ => true
  | .overloaded _ => false

/-- Whether the router writes a piece before it looks at `rotated` again. -/
def Place.mayWrite : Place → Nat
  | .opening | .reading _ | .blocked _ | .writing _ _ => 1
  | .looping _ | .testing _ | .clearing | .measuring _ _ => 0

/-- How many pieces of the log were written. -/
def State.pieces (s : State) : Nat := s.written.countP Piece.isData

/-- How many more the router may write before it looks at the flags. -/
def State.mayWrite (s : State) : Nat := s.router.elim 0 Place.mayWrite

section Prompt

variable {l : Loggers} {name : Bytes} {s : State}

/-- The look at the load is no piece. -/
theorem measure_pieces (now : Nat) (result : Option Nat) (fd : Fd) (count : Nat) :
    (s.measure l name now result fd count).pieces = s.pieces ∧
      (s.measure l name now result fd count).mayWrite = 0 := by
  obtain ⟨bufCount, preTime, heq | ⟨state, heq⟩⟩ :=
    s.measure_cases l name fd count now result
  · rw [heq]
    exact ⟨rfl, rfl⟩
  · rw [heq]
    refine ⟨?_, rfl⟩
    simp [State.put, State.pieces, Piece.isData]

/-- A step of the router writes what it may. -/
theorem go_pieces (hrotated : s.rotated = true) (now : Nat) (result : Option Nat) :
    (s.go l name now result).pieces ≤ s.pieces + s.mayWrite ∧
      ((s.go l name now result).rotated = true →
        (s.go l name now result).pieces + (s.go l name now result).mayWrite ≤
          s.pieces + s.mayWrite) := by
  -- the router neither writes a piece nor gets nearer to one
  have hkeeps {s' : State} (hpieces : s'.pieces = s.pieces) (hmay : s'.mayWrite ≤ s.mayWrite) :
      s'.pieces ≤ s.pieces + s.mayWrite ∧
        (s'.rotated = true → s'.pieces + s'.mayWrite ≤ s.pieces + s.mayWrite) :=
    ⟨hpieces.trans_le (Nat.le_add_right _ _), fun _ => Nat.add_le_add hpieces.le hmay⟩
  unfold State.go
  split
  · exact hkeeps rfl le_rfl
  · next fd hp =>
    refine hkeeps rfl ?_
    show Option.elim (if s.pipefd then some (Place.testing fd) else none) 0 Place.mayWrite ≤ _
    split <;> exact Nat.zero_le _
  · next fd hp =>
    refine hkeeps rfl ?_
    rw [hrotated]
    exact Nat.zero_le _
  · next hp => exact ⟨Nat.le_add_right _ _, fun hset => nomatch hset⟩
  · next hp =>
    have hmay : s.mayWrite = 1 := by rw [State.mayWrite, hp]; rfl
    split
    · exact hkeeps rfl (Nat.zero_le _)
    · exact hkeeps rfl hmay.ge
  · next fd hp =>
    have hmay : s.mayWrite = 1 := by rw [State.mayWrite, hp]; rfl
    split
    · exact hkeeps rfl hmay.ge
    · exact hkeeps rfl (Nat.zero_le _)
  · next fd hp =>
    have hmay : s.mayWrite = 1 := by rw [State.mayWrite, hp]; rfl
    split
    · exact hkeeps rfl (Nat.zero_le _)
    · exact hkeeps rfl (Nat.zero_le _)
    · split
      · exact hkeeps rfl le_rfl
      · exact hkeeps rfl hmay.ge
  · next fd buffer hp =>
    have hmay : s.mayWrite = 1 := by rw [State.mayWrite, hp]; rfl
    split
    · exact hkeeps rfl (Nat.zero_le _)
    · next k =>
      have hone : (s.written ++ [Piece.data (buffer.take k)]).countP Piece.isData =
          s.pieces + 1 := by
        simp [State.pieces, Piece.isData]
      rw [hmay]
      exact ⟨hone.le, fun _ => hone.le⟩
  · next fd count hp =>
    obtain ⟨hpieces, hmay⟩ := @measure_pieces l name s now result fd count
    exact hkeeps hpieces (hmay.trans_le (Nat.zero_le _))

theorem step_pieces (hrotated : s.rotated = true) (e : Event) :
    (s.step l name e).pieces ≤ s.pieces + s.mayWrite ∧
      ((s.step l name e).rotated = true →
        (s.step l name e).pieces + (s.step l name e).mayWrite ≤ s.pieces + s.mayWrite) := by
  cases e with
  | go now result => exact go_pieces hrotated now result
  | start now =>
    rw [State.step]
    split
    · exact ⟨Nat.le_add_right _ _, fun _ => le_rfl⟩
    · exact ⟨Nat.le_add_right _ _, fun hset => nomatch hset⟩
  | write b => exact ⟨Nat.le_add_right _ _, fun _ => le_rfl⟩
  | newFile fails | rotate | stop =>
    rw [State.step]
    split <;> exact ⟨Nat.le_add_right _ _, fun _ => le_rfl⟩

/-- Once the rotation is asked for a run writes no more pieces than the router may. -/
theorem pieces_run {events : List Event} {s : State}
    (h : AllSteps (State.step l name) (fun s _ => s.rotated = true) s events) :
    (events.foldl (State.step l name) s).pieces ≤ s.pieces + s.mayWrite := by
  induction events generalizing s with
  | nil => exact Nat.le_add_right _ _
  | cons e events ih =>
    obtain ⟨hpieces, hmay⟩ := @step_pieces l name _ h.1 e
    cases events with
    | nil => exact hpieces
    | cons e' events => exact (ih h.2).trans (hmay h.2.1)

end Prompt

/-- As long as `rotated` is set and the router has not taken it up, one piece is written at
most, whatever comes through the pipe. -/
theorem rotated_prompt (l : Loggers) (name : Bytes) (s : State) (events : List Event)
    (h : AllSteps (State.step l name) (fun s _ => s.rotated = true) s events) :
    (events.foldl (State.step l name) s).pieces ≤ s.pieces + 1 := by
  have hmay : s.mayWrite ≤ 1 := by
    rw [State.mayWrite]
    cases s.router with
    | none => exact Nat.zero_le _
    | some p => cases p <;> simp [Place.mayWrite]
  exact (pieces_run h).trans (Nat.add_le_add_left hmay _)

/-- The router is in its read when `rotated` is set: the next piece goes into the old file, and
those behind it do not. -/
theorem rotated_prompt_rotation :
    let l : Loggers := ⟨[([100], 1)], fun _ _ _ => [42]⟩
    let before : List Event := [.start 0, .go 0 none, .go 0 none, .go 0 none, .go 0 (some 0),
      .go 0 none, .newFile false, .rotate]
    let more : List Event := [.write [97, 98], .go 1 (some 9), .write [99], .go 1 (some 9),
      .go 1 none, .go 1 none, .go 1 none, .go 1 none]
    let s := before.foldl (State.step l [100]) .init
    (more.foldl (State.step l [100]) s).pieces = 1 ∧
      (more.foldl (State.step l [100]) s).pieces ≤ s.pieces + 1 :=
  ⟨by decide, rotated_prompt _ _ _ _ (by decide)⟩

end AndroidLearn.LoggerCommon.Router
