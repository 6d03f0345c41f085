import AndroidLearn.Lib.Bytes
import AndroidLearn.Lib.Procs
import AndroidLearn.Lib.Run

/-!
# The log of the service and its rotation

`file_log` and `file_log_command_output` of `fio.c`, with `file_mutex_write` and
`try_rotate`. Threads of the service append lines to one log file, and the output of the
commands they run. A thread writes under a mutex, with the file opened and closed there;
then, outside the mutex, it looks at the size and renames the file when it is over 5000000
bytes. So a file may be renamed while another thread has it open, or may be another file
than the one whose size was looked at.

A step of a thread is one system call, and the calls of all threads come in any order. A
file keeps its content when it is renamed, and a descriptor leads to the file and not to
the name. The directory is there, memory suffices, and no other process or part of the
service touches the two names or the mutex.

Theorems:
- `log_run`: the two files together hold the last that was written, in the order in which
  it was written;
- `log_size`: how large the file gets while neither `stat` nor `rename` fails (`Checks`):
  by no more over the limit than the threads in a call have written;
- `log_rotated`: what is rotated is over 5000000 bytes, unless two threads come to rename
  at once (`Alone`).
-/

namespace AndroidLearn.Fio.FileLog

open Procs Run

/-! ## The lines -/

/-- The room for a line. -/
def size : Nat := 1024

/-- What `file_log` formats, with the header first; nothing is written if `vsnprintf` fails
or the line is too long for the buffer even without the header. -/
def fileLogLine (header : Bytes) (body : Option Bytes) : Option Bytes :=
  match body with
  | none => none
  | some body =>
    if body.length < size then
      some (((header.take (size - 1) ++ body).take (size - 1)).takeWhile (· ≠ 0))
    else none

/-- One byte of the buffer is kept for the newline. -/
def commandLine (header : Bytes) (body : Option Bytes) : Option Bytes :=
  match body with
  | none => none
  | some body =>
    some (((header.take (size - 1) ++ body).take (size - 2)).takeWhile (· ≠ 0) ++ [10])

/-! ## The threads and the files -/

/-- Where a thread is in `file_log` or `file_log_command_output`. -/
inductive Place where
  /-- before `file_mutex_write` has the mutex -/
  | writing
  | opening
  | opened (file : Nat)
  | unlocking
  /-- before the mutex is taken for `system` -/
  | running
  /-- the shell is to open the log -/
  | redirecting
  | output (file : Nat) (rest : List Bytes)
  | finished
  /-- before `stat` -/
  | checking
  | renaming
  deriving DecidableEq, Repr

/-- A thread that logs: its line, the output that follows, and where it is. -/
structure Thread where
  line : Bytes
  /-- the pieces in which the command writes its output, for `file_log_command_output` -/
  command : Option (List Bytes)
  place : Place
  deriving DecidableEq, Repr

/-- A file by what was written to it, the first first. -/
abbrev File := List Bytes

/-- The bytes of a file. -/
def File.size (file : File) : Nat := file.flatten.length

/-- `log` and `rotated` are the files that the two names are of; a name is of no file if
there is none of that name. -/
structure State where
  files : List File
  log : Option Nat
  rotated : Option Nat
  locked : Bool
  threads : List Thread
  /-- what was written, the first first -/
  written : List Bytes
  deriving DecidableEq, Repr

/-- With the files as the service finds them. -/
def start (rotated log : Option File) : State where
  files := rotated.toList ++ log.toList
  log := log.map fun _ => rotated.toList.length
  rotated := rotated.map fun _ => 0
  locked := false
  threads := []
  written := rotated.getD [] ++ log.getD []

/-- What is in a file. -/
def State.file (s : State) (n : Nat) : File := s.files.getD n []

/-- What a name shows. -/
def State.content (s : State) (name : Option Nat) : File := name.elim [] s.file

/-- Thread `i` goes on to another place. -/
def State.moveTo (s : State) (i : Nat) (t : Thread) (place : Place) : State :=
  { s with threads := s.threads.set i { t with place := place } }

/-- Thread `i` has returned. -/
def State.quit (s : State) (i : Nat) : State := { s with threads := s.threads.eraseIdx i }

/-- `O_CREAT | O_RDWR | O_APPEND`. -/
def State.openLog (s : State) : State × Nat :=
  match s.log with
  | some n => (s, n)
  | none => ({ s with files := s.files ++ [[]], log := some s.files.length }, s.files.length)

/-- A write to the end of a file, which may have another name by now. -/
def State.append (s : State) (n : Nat) (b : Bytes) : State :=
  { s with files := s.files.modify n (· ++ [b]), written := s.written ++ [b] }

/-- What a file may have before it is rotated. -/
def rotateSize : Nat := 5000000

/-- Whether `stat` shows a file that is to be rotated. -/
def State.exceeds (s : State) : Bool :=
  match s.log with
  | none => false
  | some n => rotateSize < (s.file n).size

/-- The log gets the name of the rotated one, whose file is gone with that. -/
def State.rename (s : State) : State :=
  match s.log with
  | none => s
  | some n => { s with log := none, rotated := some n }

/-- One system call of a thread. It fails with `none`; of a write, as many bytes are
written. -/
def State.go (s : State) (i : Nat) (result : Option Nat) : State :=
  match s.threads[i]? with
  | none => s
  | some t =>
    match t.place, result with
    | .writing, _ => if s.locked then s else { s with locked := true }.moveTo i t .opening
    | .opening, none => s.moveTo i t .unlocking
    | .opening, some _ => s.openLog.1.moveTo i t (.opened s.openLog.2)
    | .opened _, none => s.moveTo i t .unlocking
    | .opened n, some k => (s.append n (t.line.take k)).moveTo i t .unlocking
    | .unlocking, _ =>
      { s with locked := false }.moveTo i t (if t.command.isSome then .running else .checking)
    | .running, _ => if s.locked then s else { s with locked := true }.moveTo i t .redirecting
    | .redirecting, none => s.moveTo i t .finished
    | .redirecting, some _ =>
      s.openLog.1.moveTo i t (.output s.openLog.2 (t.command.getD []))
    | .output _ [], _ => s.moveTo i t .finished
    | .output n (_ :: rest), none => s.moveTo i t (.output n rest)
    | .output n (b :: rest), some k => (s.append n (b.take k)).moveTo i t (.output n rest)
    | .finished, _ => { s with locked := false }.moveTo i t .checking
    | .checking, none => s.quit i
    | .checking, some _ => if s.exceeds then s.moveTo i t .renaming else s.quit i
    | .renaming, none => s.quit i
    | .renaming, some _ => s.rename.quit i

/-- A new call, or the next system call of a thread with its result. -/
inductive Event where
  | fileLog (header : Bytes) (body : Option Bytes)
  | fileLogCommandOutput (header : Bytes) (body : Option Bytes) (output : List Bytes)
  | go (i : Nat) (result : Option Nat)
  deriving DecidableEq, Repr

/-- What an event does. -/
def State.step (s : State) : Event → State
  | .fileLog header body =>
    { s with threads := s.threads ++ [match fileLogLine header body with
        | none => ⟨[], none, .checking⟩
        | some line => ⟨line, none, .writing⟩] }
  | .fileLogCommandOutput header body output =>
    match commandLine header body with
    | none => s
    | some line => { s with threads := s.threads ++ [⟨line, some output, .writing⟩] }
  | .go i result => s.go i result

/-! ## One thread in the mutex, and what the names are of -/

/-- Whether the thread has the mutex. -/
def Place.holds : Place → Nat
  | .opening | .opened _ | .unlocking | .redirecting | .output _ _ | .finished => 1
  | .writing | .running | .checking | .renaming => 0

/-- The file that is open. -/
def Place.fd : Place → Option Nat
  | .opened n | .output n _ => some n
  | _ => none

/-- Does the thread have the lock? -/
def Thread.holds (t : Thread) : Nat := t.place.holds

/-- One thread at most has the mutex, and an open file is the newest one; the log and the rotated
file are the last two. -/
structure State.Inv (s : State) : Prop where
  locked : weigh Thread.holds s.threads = s.locked.toNat
  fds : ∀ t ∈ s.threads, ∀ n ∈ t.place.fd, n + 1 = s.files.length
  log : ∀ n ∈ s.log, n + 1 = s.files.length
  rotated : ∀ n ∈ s.rotated, n + 1 + s.log.isSome.toNat = s.files.length
  dropped : s.rotated = none → s.files.length = s.log.isSome.toNat
  written : s.files.flatten = s.written

section Inv

variable {s : State} {i : Nat} {t : Thread} {place : Place}

theorem holds_of_fd {n : Nat} (h : n ∈ place.fd) : place.holds = 1 := by
  cases place <;> first | rfl | cases h

/-- The thread that has the mutex is the only one with the file open. -/
theorem State.Inv.fds_of_holds (h : s.Inv) (hi : s.threads[i]? = some t) (ht : t.holds = 1)
    (hfd : t.place.fd = none) : ∀ u ∈ s.threads, u.place.fd = none := by
  have hone : weigh Thread.holds s.threads ≤ 1 := h.locked.trans_le s.locked.toNat_le
  have hnil : s.threads.filterMap (fun u => u.place.fd) = (t.place.fd).toList :=
    filterMap_of_weigh_le (w := Thread.holds) (fun u hu => by
      obtain ⟨n, hn⟩ := Option.ne_none_iff_exists'.mp hu
      exact (holds_of_fd (Option.mem_def.mpr hn)).ge) hone hi ht.ge
  rw [hfd] at hnil
  exact List.filterMap_eq_nil_iff.mp hnil

/-- A thread goes on, and the lock goes with it. -/
theorem State.Inv.moveTo (h : s.Inv) (hi : s.threads[i]? = some t) {locked : Bool}
    (hlocked : place.holds + s.locked.toNat = t.holds + locked.toNat)
    (hfd : ∀ n ∈ place.fd, n + 1 = s.files.length) :
    State.Inv ({ s with locked := locked }.moveTo i t place) := by
  refine ⟨?_, forall_set h.fds hfd, h.log, h.rotated, h.dropped, h.written⟩
  show weigh Thread.holds (s.threads.set i { t with place := place }) = locked.toNat
  have hweigh := weigh_set (w := Thread.holds) (q := { t with place := place }) hi
  have hplace : Thread.holds { t with place := place } = place.holds := rfl
  have hsum := h.locked
  omega

/-- A thread without the lock may return. -/
theorem State.Inv.quit (h : s.Inv) (hi : s.threads[i]? = some t) (ht : t.holds = 0) :
    (s.quit i).Inv := by
  refine ⟨?_, fun u hu => h.fds u (List.mem_of_mem_eraseIdx hu), h.log, h.rotated, h.dropped,
    h.written⟩
  show weigh Thread.holds (s.threads.eraseIdx i) = s.locked.toNat
  have hweigh := weigh_eraseIdx (w := Thread.holds) hi
  have hsum := h.locked
  omega

/-- A call begins without the lock. -/
theorem State.Inv.add (h : s.Inv) (ht : t.holds = 0) (hfd : t.place.fd = none) :
    State.Inv { s with threads := s.threads ++ [t] } := by
  refine ⟨?_, forall_concat h.fds fun n hn => ?_, h.log, h.rotated, h.dropped, h.written⟩
  · show weigh Thread.holds (s.threads ++ [t]) = s.locked.toNat
    rw [weigh_concat, ht]
    exact h.locked
  · rw [hfd] at hn
    cases hn

@[simp] theorem State.openLog_threads : s.openLog.1.threads = s.threads := by
  rw [State.openLog]
  split <;> rfl

/-- The file that is opened is the log. -/
theorem State.openLog_log : s.openLog.1.log = some s.openLog.2 := by
  rw [State.openLog]
  split
  · next hlog => exact hlog
  · rfl

/-- The log may be opened where no thread has a descriptor. -/
theorem State.Inv.openLog (h : s.Inv) (hfds : ∀ u ∈ s.threads, u.place.fd = none) :
    s.openLog.1.Inv := by
  rw [State.openLog]
  split
  · exact h
  · next hlog =>
    have hfiles : (s.files ++ [[]]).length = s.files.length + 1 := List.length_append ..
    refine ⟨h.locked, fun u hu n hn => ?_, fun n hn => ?_, fun n hn => ?_, fun hnone => ?_, ?_⟩
    · rw [hfds u hu] at hn
      cases hn
    · obtain rfl : s.files.length = n := Option.some.inj hn
      exact hfiles.symm
    · have hlast := h.rotated n hn
      simp only [hlog, Option.isSome_none, Bool.toNat_false] at hlast
      simp only [Option.isSome_some, Bool.toNat_true, hfiles]
      omega
    · have hempty := h.dropped hnone
      simp only [hlog, Option.isSome_none, Bool.toNat_false] at hempty
      simp only [Option.isSome_some, Bool.toNat_true, hfiles]
      omega
    · show (s.files ++ [[]]).flatten = s.written
      rw [List.flatten_append]
      simpa using h.written

/-- What is appended to the last file is written after all else. -/
theorem flatten_modify_last {files : List File} {n : Nat} (hn : n + 1 = files.length) (b : Bytes) :
    (files.modify n (· ++ [b])).flatten = files.flatten ++ [b] := by
  induction files generalizing n with
  | nil => simp at hn
  | cons file files ih =>
    cases n with
    | zero =>
      obtain rfl : files = [] := List.eq_nil_of_length_eq_zero (by simpa using hn.symm)
      simp
    | succ n =>
      rw [List.modify_succ_cons, List.flatten_cons, List.flatten_cons, List.append_assoc,
        ih (Nat.succ.inj hn)]

/-- The last file may be written to. -/
theorem State.Inv.append (h : s.Inv) {n : Nat} (hn : n + 1 = s.files.length) (b : Bytes) :
    (s.append n b).Inv := by
  have hfiles : (s.files.modify n (· ++ [b])).length = s.files.length := List.length_modify ..
  refine ⟨h.locked, fun u hu m hm => ?_, fun m hm => ?_, fun m hm => ?_, fun hnone => ?_, ?_⟩
  · exact (h.fds u hu m hm).trans hfiles.symm
  · exact (h.log m hm).trans hfiles.symm
  · exact (h.rotated m hm).trans hfiles.symm
  · exact hfiles.trans (h.dropped hnone)
  · show (s.files.modify n _).flatten = s.written ++ [b]
    rw [flatten_modify_last hn, h.written]

@[simp] theorem State.rename_threads : s.rename.threads = s.threads := by
  rw [State.rename]
  split <;> rfl

/-- The log may be renamed. -/
theorem State.Inv.rename (h : s.Inv) : s.rename.Inv := by
  rw [State.rename]
  split
  · exact h
  · next n hlog =>
    refine ⟨h.locked, h.fds, fun m hm => ?_, fun m hm => ?_, fun hnone => ?_, h.written⟩
    · cases hm
    · obtain rfl : n = m := Option.some.inj hm
      exact h.log n hlog
    · cases hnone

/-- A thread with the lock opens the log. -/
theorem State.Inv.opens (h : s.Inv) (hi : s.threads[i]? = some t) (ht : t.holds = 1)
    (hfd : t.place.fd = none) (hplace : place.holds = 1) (hopened : place.fd = some s.openLog.2) :
    (s.openLog.1.moveTo i t place).Inv := by
  have hopen := h.openLog (h.fds_of_holds hi ht hfd)
  show State.Inv ({ s.openLog.1 with locked := s.openLog.1.locked }.moveTo i t place)
  refine hopen.moveTo ?_ (by rw [hplace, ht]) fun n hn => ?_
  · rw [State.openLog_threads]
    exact hi
  · rw [hopened] at hn
    exact hopen.log n (State.openLog_log.trans hn)

/-- A thread with the lock writes to the log it has opened. -/
theorem State.Inv.writes (h : s.Inv) (hi : s.threads[i]? = some t) {n : Nat}
    (hfd : t.place.fd = some n) (hplace : place.holds = 1)
    (hsame : place.fd = none ∨ place.fd = some n) (b : Bytes) :
    ((s.append n b).moveTo i t place).Inv := by
  have hn := h.fds t (List.mem_of_getElem? hi) n hfd
  have happend := h.append hn b
  show State.Inv ({ s.append n b with locked := s.locked }.moveTo i t place)
  refine happend.moveTo hi ?_ fun m hm => ?_
  · rw [hplace, Thread.holds, holds_of_fd hfd]
    rfl
  · rcases hsame with hnone | hsome
    · rw [hnone] at hm
      cases hm
    · obtain rfl : n = m := Option.some.inj (hsome.symm.trans hm)
      exact hn.trans (List.length_modify ..).symm

end Inv

/-! ## What the files hold -/

section Runs

variable {s : State} {i : Nat} {t : Thread}

/-- A thread's own step keeps the invariant, whatever its call answers. -/
theorem State.Inv.go (h : s.Inv) (i : Nat) (result : Option Nat) : (s.go i result).Inv := by
  rw [State.go]
  split
  · exact h
  next t hi =>
  have hnofd {place : Place} (hnone : place.fd = none) :
      ∀ n ∈ place.fd, n + 1 = s.files.length := by
    intro n hn
    rw [hnone] at hn
    cases hn
  have hlocked : t.holds ≤ s.locked.toNat := (le_weigh hi).trans_eq h.locked
  split
  · next hplace =>
    split
    · exact h
    · next hunlocked =>
      refine h.moveTo hi ?_ (hnofd rfl)
      simp [Thread.holds, hplace, Place.holds, hunlocked]
  · next hplace => exact h.moveTo hi (by rw [Thread.holds, hplace]; rfl) (hnofd rfl)
  · next hplace =>
    exact h.opens hi (by rw [Thread.holds, hplace]; rfl) (by rw [hplace]; rfl) rfl rfl
  · next hplace => exact h.moveTo hi (by rw [Thread.holds, hplace]; rfl) (hnofd rfl)
  · next n k hplace =>
    exact h.writes hi (by rw [hplace]; rfl) rfl (.inl rfl) _
  · next hplace =>
    have hholds : t.holds = 1 := by rw [Thread.holds, hplace]; rfl
    have hwas : s.locked.toNat = 1 := le_antisymm s.locked.toNat_le (hholds ▸ hlocked)
    split
    · exact h.moveTo hi (by rw [hholds, hwas]; rfl) (hnofd rfl)
    · exact h.moveTo hi (by rw [hholds, hwas]; rfl) (hnofd rfl)
  · next hplace =>
    split
    · exact h
    · next hunlocked =>
      refine h.moveTo hi ?_ (hnofd rfl)
      simp [Thread.holds, hplace, Place.holds, hunlocked]
  · next hplace => exact h.moveTo hi (by rw [Thread.holds, hplace]; rfl) (hnofd rfl)
  · next hplace =>
    exact h.opens hi (by rw [Thread.holds, hplace]; rfl) (by rw [hplace]; rfl) rfl rfl
  · next hplace => exact h.moveTo hi (by rw [Thread.holds, hplace]; rfl) (hnofd rfl)
  · next n b rest hplace =>
    refine h.moveTo hi (by rw [Thread.holds, hplace]; rfl) fun m hm => ?_
    exact h.fds t (List.mem_of_getElem? hi) m (by rw [hplace]; exact hm)
  · next n b rest k hplace =>
    exact h.writes hi (by rw [hplace]; rfl) rfl (.inr rfl) _
  · next hplace =>
    have hholds : t.holds = 1 := by rw [Thread.holds, hplace]; rfl
    have hwas : s.locked.toNat = 1 := le_antisymm s.locked.toNat_le (hholds ▸ hlocked)
    exact h.moveTo hi (by rw [hholds, hwas]; rfl) (hnofd rfl)
  · next hplace => exact h.quit hi (by rw [Thread.holds, hplace]; rfl)
  · next hplace =>
    split
    · exact h.moveTo hi (by rw [Thread.holds, hplace]; rfl) (hnofd rfl)
    · exact h.quit hi (by rw [Thread.holds, hplace]; rfl)
  · next hplace => exact h.quit hi (by rw [Thread.holds, hplace]; rfl)
  · next hplace =>
    refine h.rename.quit ?_ (by rw [Thread.holds, hplace]; rfl)
    rw [State.rename_threads]
    exact hi

/-- Every event keeps the invariant. -/
theorem State.Inv.step (h : s.Inv) (e : Event) : (s.step e).Inv := by
  cases e with
  | fileLog header body =>
    rw [State.step]
    refine h.add ?_ ?_
    · split <;> rfl
    · split <;> rfl
  | fileLogCommandOutput header body output =>
    rw [State.step]
    split
    · exact h
    · exact h.add rfl rfl
  | go i result => exact h.go i result

theorem start_inv (rotated log : Option File) : (start rotated log).Inv := by
  refine ⟨rfl, fun t ht => (List.not_mem_nil ht).elim, ?_, ?_, ?_, ?_⟩
  all_goals cases rotated <;> cases log <;> simp [start]

theorem inv_steps (rotated log : Option File) (events : List Event) :
    (events.foldl State.step (start rotated log)).Inv :=
  List.foldlRecOn events _ (start_inv rotated log) fun _ h e _ => h.step e

/-- The last file is written to, and so is all that was written. -/
theorem flatten_last {files : List File} {n : Nat} (hn : n + 1 = files.length) :
    files.flatten = (files.take n).flatten ++ files.getD n [] := by
  have hlt : n < files.length := by omega
  have htake : files.take (n + 1) = files.take n ++ [files.getD n []] := by
    rw [List.take_succ_eq_append_getElem hlt, List.getD_eq_getElem?_getD,
      List.getElem?_eq_getElem hlt, Option.getD_some]
  calc files.flatten = (files.take (n + 1)).flatten := by rw [hn, List.take_length]
    _ = (files.take n).flatten ++ files.getD n [] := by simp [htake]

/-- What the two names show together is the last that was written. -/
theorem State.Inv.last (h : s.Inv) :
    ∃ dropped, s.written = dropped ++ s.content s.rotated ++ s.content s.log := by
  rw [← h.written]
  cases hlog : s.log with
  | none =>
    cases hrotated : s.rotated with
    | none =>
      have hlength := h.dropped hrotated
      rw [hlog] at hlength
      rw [List.eq_nil_of_length_eq_zero hlength]
      exact ⟨[], rfl⟩
    | some n =>
      have hlength := h.rotated n hrotated
      rw [hlog] at hlength
      exact ⟨(s.files.take n).flatten, by
        rw [flatten_last hlength]
        exact (List.append_nil _).symm⟩
  | some m =>
    have hlast := h.log m hlog
    rw [flatten_last hlast]
    cases hrotated : s.rotated with
    | none =>
      have hlength := h.dropped hrotated
      rw [hlog] at hlength
      obtain rfl : m = 0 := Nat.succ.inj (hlast.trans hlength)
      exact ⟨[], rfl⟩
    | some n =>
      have hlength := h.rotated n hrotated
      rw [hlog] at hlength
      obtain rfl : m = n + 1 := Nat.succ.inj (hlast.trans hlength.symm)
      have htake : n + 1 = (s.files.take (n + 1)).length := by
        rw [List.length_take]
        omega
      refine ⟨(s.files.take n).flatten, ?_⟩
      rw [flatten_last htake, List.take_take, Nat.min_eq_left (Nat.le_succ n)]
      have hget : (s.files.take (n + 1)).getD n [] = s.files.getD n [] := by
        rw [List.getD_eq_getElem?_getD, List.getElem?_take_of_lt (Nat.lt_succ_self n),
          List.getD_eq_getElem?_getD]
      rw [hget]
      rfl

end Runs

/-- In every run of any number of threads one has the mutex at most, and the file is open in
that one only. The two files together hold the last that was written, in the order in which
it was written, however a rename comes between the steps of a write. -/
theorem log_run (rotated log : Option File) (events : List Event) :
    let s := events.foldl State.step (start rotated log)
    weigh Thread.holds s.threads ≤ 1 ∧
      (∃ dropped, s.written = dropped ++ s.content s.rotated ++ s.content s.log) ∧
      s.files.flatten = s.written := by
  have h := inv_steps rotated log events
  exact ⟨h.locked.trans_le (Bool.toNat_le _), h.last, h.written⟩

/-! ## How large the file gets -/

/-- The number of bytes a command gives. -/
def outputSize (output : List Bytes) : Nat := output.flatten.length

/-- What the thread may write in all. -/
def Thread.bytes (t : Thread) : Nat := t.line.length + outputSize (t.command.getD [])

/-- What it may yet write. -/
def Thread.left (t : Thread) : Nat :=
  match t.place with
  | .writing | .opening | .opened _ => t.bytes
  | .unlocking | .running | .redirecting => outputSize (t.command.getD [])
  | .output _ rest => outputSize rest
  | .finished | .checking | .renaming => 0

/-- Neither `stat` nor `rename` fails. -/
def Checks (s : State) : Event → Prop
  | .go i none => s.threads[i]?.map Thread.place ≠ some .checking ∧
      s.threads[i]?.map Thread.place ≠ some .renaming
  | _ => True

instance (s : State) : (e : Event) → Decidable (Checks s e)
  | .go _ none => inferInstanceAs (Decidable (_ ∧ _))
  | .go _ (some _) | .fileLog _ _ | .fileLogCommandOutput _ _ _ => .isTrue trivial

/-- The log has no more over the limit than the threads in a call have written. -/
structure State.Sized (limit : Nat) (s : State) : Prop where
  log : ∀ n ∈ s.log, (s.file n).size + weigh Thread.left s.threads ≤
    limit + weigh Thread.bytes s.threads
  threads : ∀ t ∈ s.threads, t.left ≤ t.bytes ∧ t.line.length < FileLog.size

section Sized

variable {s : State} {i limit : Nat} {t : Thread}

/-- A thread goes on; the log is as before, but for what the thread wrote, or is new. -/
theorem State.Sized.moved {s' : State} (h : s.Sized limit) (hi : s.threads[i]? = some t)
    {place : Place} (hthreads : s'.threads = s.threads.set i { t with place := place })
    (hlog : ∀ n ∈ s'.log, n ∈ s.log ∧ (s'.file n).size + Thread.left { t with place := place } ≤
      (s.file n).size + t.left ∨ (s'.file n).size = 0)
    (hle : Thread.left { t with place := place } ≤ t.bytes) : s'.Sized limit := by
  have hthread := h.threads t (List.mem_of_getElem? hi)
  have hle' : ∀ u ∈ s'.threads, u.left ≤ u.bytes ∧ u.line.length < FileLog.size := by
    rw [hthreads]
    exact forall_set h.threads ⟨hle, hthread.2⟩
  refine ⟨fun n hn => ?_, hle'⟩
  rcases hlog n hn with ⟨hold, hsize⟩ | hnew
  · have hbefore := h.log n hold
    have hleft := weigh_set (w := Thread.left) (q := { t with place := place }) hi
    have hbytes := weigh_set (w := Thread.bytes) (q := { t with place := place }) hi
    have hsame : Thread.bytes { t with place := place } = t.bytes := rfl
    rw [hthreads]
    omega
  · have hall := weigh_le_of_le fun u hu => (hle' u hu).1
    omega

/-- A thread may return, its bytes are in the log. -/
theorem State.Sized.quit (h : s.Sized limit) (hlog : ∀ n ∈ s.log, (s.file n).size ≤ limit) :
    (s.quit i).Sized limit := by
  have hle : ∀ u ∈ s.threads.eraseIdx i, u.left ≤ u.bytes ∧ u.line.length < FileLog.size :=
    fun u hu => h.threads u (List.mem_of_mem_eraseIdx hu)
  refine ⟨fun n hn => ?_, hle⟩
  show (s.file n).size + weigh Thread.left (s.threads.eraseIdx i) ≤
    limit + weigh Thread.bytes (s.threads.eraseIdx i)
  have hsize := hlog n hn
  have hall := weigh_le_of_le fun u hu => (hle u hu).1
  omega

/-- A call brings no more than its line. -/
theorem State.Sized.add (h : s.Sized limit) (ht : t.left ≤ t.bytes)
    (hline : t.line.length < FileLog.size) :
    State.Sized limit { s with threads := s.threads ++ [t] } := by
  refine ⟨fun n hn => ?_, forall_concat h.threads ⟨ht, hline⟩⟩
  have hbefore := h.log n hn
  show (s.file n).size + weigh Thread.left (s.threads ++ [t]) ≤
    limit + weigh Thread.bytes (s.threads ++ [t])
  rw [weigh_concat, weigh_concat]
  omega

/-- A write lengthens one file, by what is written. -/
theorem size_append (n m : Nat) (b : Bytes) :
    (s.file n).size ≤ ((s.append m b).file n).size ∧
      ((s.append m b).file n).size ≤ (s.file n).size + b.length := by
  have hfile : (s.append m b).file n = s.file n ∨
      (s.append m b).file n = s.file n ++ [b] := by
    show (s.files.modify m (· ++ [b])).getD n [] = s.files.getD n [] ∨
      (s.files.modify m (· ++ [b])).getD n [] = s.files.getD n [] ++ [b]
    rw [List.getD_eq_getElem?_getD, List.getD_eq_getElem?_getD, List.getElem?_modify]
    cases s.files[n]? with
    | none => exact .inl rfl
    | some file =>
      by_cases hm : m = n
      · exact .inr (by simp [hm])
      · exact .inl (by simp [hm])
  rcases hfile with hsame | hmore
  · rw [hsame]
    omega
  · rw [hmore]
    simp [File.size]

/-- A log that is opened is as it was, or new. -/
theorem openLog_size {n : Nat} (hn : n ∈ s.openLog.1.log) :
    n ∈ s.log ∧ (s.openLog.1.file n).size = (s.file n).size ∨ (s.openLog.1.file n).size = 0 := by
  cases hlog : s.log with
  | some m =>
    have hsame : s.openLog.1 = s := by rw [State.openLog, hlog]
    rw [hsame] at hn ⊢
    exact .inl ⟨hlog ▸ hn, rfl⟩
  | none =>
    have hnew : s.openLog.1 = { s with files := s.files ++ [[]], log := some s.files.length } := by
      rw [State.openLog, hlog]
    rw [hnew] at hn ⊢
    obtain rfl : s.files.length = n := Option.some.inj hn
    refine .inr ?_
    simp [State.file, File.size]

/-- Nothing is written. -/
theorem State.Sized.keep (h : s.Sized limit) (hi : s.threads[i]? = some t) {place : Place}
    (locked : Bool) (hleft : Thread.left { t with place := place } ≤ t.left) :
    State.Sized limit ({ s with locked := locked }.moveTo i t place) := by
  have hthread := h.threads t (List.mem_of_getElem? hi)
  exact h.moved hi rfl (fun n hn => .inl ⟨hn, Nat.add_le_add_left hleft _⟩)
    (hleft.trans hthread.1)

/-- Opening the log changes no size. -/
theorem State.Sized.opens (h : s.Sized limit) (hi : s.threads[i]? = some t) {place : Place}
    (hleft : Thread.left { t with place := place } ≤ t.left) :
    State.Sized limit (s.openLog.1.moveTo i t place) := by
  have hthread := h.threads t (List.mem_of_getElem? hi)
  refine h.moved hi (by simp [State.moveTo]) (fun n hn => ?_) (hleft.trans hthread.1)
  rcases openLog_size hn with ⟨hold, hsame⟩ | hnew
  · exact .inl ⟨hold, Nat.add_le_add hsame.le hleft⟩
  · exact .inr hnew

/-- What is written comes off what the thread may yet write. -/
theorem State.Sized.writes (h : s.Sized limit) (hi : s.threads[i]? = some t) {place : Place}
    {m : Nat} {b : Bytes} (hleft : b.length + Thread.left { t with place := place } ≤ t.left) :
    State.Sized limit ((s.append m b).moveTo i t place) := by
  have hthread := h.threads t (List.mem_of_getElem? hi)
  refine h.moved hi rfl (fun n hn => .inl ⟨hn, ?_⟩) (by omega)
  have hsize := (size_append (s := s) n m b).2
  show ((s.append m b).file n).size + _ ≤ _
  omega

/-- A thread's own step keeps the bound, if it has looked at the size. -/
theorem State.Sized.go (h : s.Sized limit) (hlimit : rotateSize ≤ limit) {result : Option Nat}
    (hchecks : Checks s (.go i result)) : (s.go i result).Sized limit := by
  rw [State.go]
  split
  · exact h
  next t hi =>
  split
  · next hplace =>
    have hleft : t.left = t.bytes := by rw [Thread.left, hplace]
    split
    · exact h
    · exact h.keep hi true hleft.ge
  · next hplace =>
    have hleft : t.left = t.bytes := by rw [Thread.left, hplace]
    exact h.keep hi s.locked (hleft ▸ Nat.le_add_left _ _)
  · next hplace =>
    have hleft : t.left = t.bytes := by rw [Thread.left, hplace]
    exact h.opens hi hleft.ge
  · next hplace =>
    have hleft : t.left = t.bytes := by rw [Thread.left, hplace]
    exact h.keep hi s.locked (hleft ▸ Nat.le_add_left _ _)
  · next m k hplace =>
    have hleft : t.left = t.bytes := by rw [Thread.left, hplace]
    refine h.writes hi ?_
    rw [hleft, Thread.bytes]
    exact Nat.add_le_add_right (List.length_take_le' _ _) _
  · next hplace =>
    have hleft : t.left = outputSize (t.command.getD []) := by rw [Thread.left, hplace]
    split
    · exact h.keep hi false hleft.ge
    · exact h.keep hi false (Nat.zero_le _)
  · next hplace =>
    have hleft : t.left = outputSize (t.command.getD []) := by rw [Thread.left, hplace]
    split
    · exact h
    · exact h.keep hi true hleft.ge
  · exact h.keep hi s.locked (Nat.zero_le _)
  · next hplace =>
    have hleft : t.left = outputSize (t.command.getD []) := by rw [Thread.left, hplace]
    exact h.opens hi hleft.ge
  · exact h.keep hi s.locked (Nat.zero_le _)
  · next m b rest hplace =>
    have hleft : t.left = outputSize (b :: rest) := by rw [Thread.left, hplace]
    refine h.keep hi s.locked ?_
    rw [hleft]
    simp [Thread.left, outputSize]
  · next m b rest k hplace =>
    have hleft : t.left = outputSize (b :: rest) := by rw [Thread.left, hplace]
    refine h.writes hi ?_
    rw [hleft]
    have htake := List.length_take_le' k b
    simp only [Thread.left, outputSize, List.flatten_cons, List.length_append]
    omega
  · exact h.keep hi false (Nat.zero_le _)
  · next hplace => exact absurd (by rw [hi, Option.map_some, hplace]) hchecks.1
  · next hplace =>
    split
    · exact h.keep hi s.locked (Nat.zero_le _)
    · next hsmall =>
      refine h.quit fun n hn => ?_
      rw [State.exceeds, Option.mem_def.mp hn] at hsmall
      simp only [decide_eq_true_eq] at hsmall
      omega
  · next hplace => exact absurd (by rw [hi, Option.map_some, hplace]) hchecks.2
  · refine ⟨fun n hn => ?_, fun u hu => h.threads u ?_⟩
    · have hnone : (s.rename.quit i).log = none := by
        show s.rename.log = none
        rw [State.rename]
        split
        · next hlog => exact hlog
        · rfl
      rw [hnone] at hn
      cases hn
    · have hu' : u ∈ s.rename.threads.eraseIdx i := hu
      rw [State.rename_threads] at hu'
      exact List.mem_of_mem_eraseIdx hu'

theorem length_takeWhile_take_le (n : Nat) (b : Bytes) :
    ((b.take n).takeWhile (· ≠ 0)).length ≤ n :=
  (List.takeWhile_prefix _).length_le.trans (List.length_take_le _ _)

/-- The line of `fileLog` fits into the buffer. -/
theorem fileLogLine_lt {header line : Bytes} {body : Option Bytes}
    (h : fileLogLine header body = some line) : line.length < FileLog.size := by
  cases body with
  | none => cases h
  | some body =>
    rw [fileLogLine] at h
    split at h
    · obtain rfl := Option.some.inj h
      exact Nat.lt_succ_of_le (length_takeWhile_take_le _ _)
    · cases h

theorem commandLine_lt {header line : Bytes} {body : Option Bytes}
    (h : commandLine header body = some line) : line.length < FileLog.size := by
  cases body with
  | none => cases h
  | some body =>
    obtain rfl := Option.some.inj h
    rw [List.length_append]
    exact Nat.lt_succ_of_le (Nat.succ_le_succ (length_takeWhile_take_le _ _))

/-- Every event keeps the bound, if each write comes after a look at the size. -/
theorem State.Sized.step (h : s.Sized limit) (hlimit : rotateSize ≤ limit) {e : Event}
    (hchecks : Checks s e) : (s.step e).Sized limit := by
  cases e with
  | fileLog header body =>
    rw [State.step]
    refine h.add ?_ ?_
    · split
      · exact Nat.zero_le _
      · exact le_rfl
    · split
      · decide
      · next line hline => exact fileLogLine_lt hline
  | fileLogCommandOutput header body output =>
    rw [State.step]
    split
    · exact h
    · next line hline => exact h.add le_rfl (commandLine_lt hline)
  | go i result => exact h.go hlimit hchecks

/-- The bound as the program starts, with the files it finds. -/
theorem start_sized (rotated log : Option File) :
    (start rotated log).Sized (max rotateSize (log.getD []).size) := by
  refine ⟨fun n hn => ?_, fun t ht => (List.not_mem_nil ht).elim⟩
  cases log with
  | none => cases hn
  | some file =>
    obtain rfl : rotated.toList.length = n := Option.some.inj hn
    have hfile : (start rotated (some file)).file rotated.toList.length = file := by
      cases rotated <;> rfl
    rw [hfile]
    exact Nat.add_le_add_right (Nat.le_max_right _ _) _

/-- The threads under way may still write so much. -/
theorem weigh_bytes_le {threads : List Thread}
    (h : ∀ t ∈ threads, t.line.length < FileLog.size) : weigh Thread.bytes threads ≤
      1023 * threads.length + weigh (fun t => outputSize (t.command.getD [])) threads := by
  induction threads with
  | nil => exact Nat.zero_le _
  | cons t threads ih =>
    have hline : t.line.length < 1024 := h t List.mem_cons_self
    have hrest := ih fun u hu => h u (List.mem_cons_of_mem _ hu)
    rw [weigh_cons, weigh_cons, List.length_cons, Thread.bytes]
    omega

end Sized

/-- Unless `stat` or `rename` fails: the log is larger than 5000000 bytes, or than it was
found, by no more than what the threads that are still in a call wrote: 1023 bytes for each
line, and the output of their commands. -/
theorem log_size (rotated log : Option File) (events : List Event)
    (hchecks : AllSteps State.step Checks (start rotated log) events) :
    let s := events.foldl State.step (start rotated log)
    (s.content s.log).size ≤ max rotateSize (log.getD []).size + 1023 * s.threads.length +
      weigh (fun t => outputSize (t.command.getD [])) s.threads := by
  intro s
  have h : s.Sized (max rotateSize (log.getD []).size) :=
    AllSteps.invariant (fun _ _ h hchecks => h.step (Nat.le_max_left _ _) hchecks)
      (start_sized rotated log) hchecks
  show File.size (s.log.elim [] s.file) ≤ _
  cases hlog : s.log with
  | none => exact Nat.zero_le _
  | some n =>
    have hsize := h.log n hlog
    have hbytes := weigh_bytes_le fun t ht => (h.threads t ht).2
    show (s.file n).size ≤ _
    omega

theorem log_size_twice :
    let s := [Event.fileLog [49] (some [97]), .go 0 (some 0), .go 0 (some 0), .go 0 (some 2),
      .fileLog [49] (some [98]), .go 0 none].foldl State.step (start none none)
    (s.content s.log).size ≤ rotateSize + 1023 * s.threads.length +
      weigh (fun t => outputSize (t.command.getD [])) s.threads :=
  log_size none none _ (by decide)

/-! ## What is rotated -/

/-- One if the thread has found the log too large. -/
def Thread.renames (t : Thread) : Nat := if t.place = .renaming then 1 else 0

/-- No two threads are at the rename when one of them renames. -/
def Alone (s : State) : Event → Prop
  | .go i (some _) => s.threads[i]?.map Thread.place = some .renaming →
      weigh Thread.renames s.threads ≤ 1
  | _ => True

instance (s : State) : (e : Event) → Decidable (Alone s e)
  | .go _ (some _) => inferInstanceAs (Decidable (_ → _))
  | .go _ none | .fileLog _ _ | .fileLogCommandOutput _ _ _ => .isTrue trivial

/-- The files from `base` on, but for the one that is the log, are over the size; so is the
log when a thread is to rename it. -/
structure State.Large (base : Nat) (s : State) : Prop where
  files : ∀ n, base ≤ n → n < s.files.length → n ∉ s.log → rotateSize < (s.file n).size
  log : ∀ t ∈ s.threads, t.place = .renaming → s.exceeds = true

section Large

variable {s : State} {i base : Nat} {t : Thread}

/-- When a log is to be renamed. -/
theorem State.exceeds_iff : s.exceeds = true ↔ ∃ n ∈ s.log, rotateSize < (s.file n).size := by
  rw [State.exceeds]
  split
  · next hlog => simp [hlog]
  · next n hlog => simp [hlog]

/-- A thread may go on to the rename when the log is large enough. -/
theorem State.Large.moveTo (h : s.Large base) {locked : Bool} {place : Place}
    (hplace : place = .renaming → s.exceeds = true) :
    State.Large base ({ s with locked := locked }.moveTo i t place) :=
  ⟨h.files, forall_set h.log hplace⟩

theorem State.Large.quit (h : s.Large base) : (s.quit i).Large base :=
  ⟨h.files, fun u hu => h.log u (List.mem_of_mem_eraseIdx hu)⟩

theorem State.Large.add (h : s.Large base) (ht : t.place ≠ .renaming) :
    State.Large base { s with threads := s.threads ++ [t] } :=
  ⟨h.files, forall_concat h.log fun hrenaming => absurd hrenaming ht⟩

/-- A new log is small, and the others are large. -/
theorem State.Large.openLog (h : s.Large base) : s.openLog.1.Large base := by
  rw [State.openLog]
  split
  · exact h
  · next hlog =>
    refine ⟨fun n hbase hn hlast => ?_, fun u hu hrenaming => ?_⟩
    · have hlt : n < s.files.length := by
        have hne : s.files.length ≠ n := fun heq => hlast (congrArg some heq)
        have hle : n < s.files.length + 1 := hn.trans_eq (List.length_append ..)
        omega
      have hfile : (s.files ++ [[]]).getD n [] = s.files.getD n [] := by
        rw [List.getD_eq_getElem?_getD, List.getD_eq_getElem?_getD, List.getElem?_append_left hlt]
      show rotateSize < File.size ((s.files ++ [[]]).getD n [])
      rw [hfile]
      exact h.files n hbase hlt (by simp [hlog])
    · obtain ⟨n, hn, -⟩ := State.exceeds_iff.mp (h.log u hu hrenaming)
      rw [hlog] at hn
      cases hn

/-- A write makes no file smaller. -/
theorem State.Large.append (h : s.Large base) (m : Nat) (b : Bytes) :
    (s.append m b).Large base := by
  refine ⟨fun n hbase hn hlog => ?_, fun u hu hrenaming => ?_⟩
  · have hlt : n < s.files.length := hn.trans_eq (List.length_modify ..)
    exact (h.files n hbase hlt hlog).trans_le (size_append n m b).1
  · obtain ⟨n, hn, hsize⟩ := State.exceeds_iff.mp (h.log u hu hrenaming)
    exact State.exceeds_iff.mpr ⟨n, hn, hsize.trans_le (size_append n m b).1⟩

/-- What is renamed is over the size, and no thread is left that is to rename. -/
theorem State.Large.rename (h : s.Large base) (hi : s.threads[i]? = some t)
    (ht : t.place = .renaming) (halone : weigh Thread.renames s.threads ≤ 1) :
    (s.rename.quit i).Large base := by
  obtain ⟨m, hm, hsize⟩ := State.exceeds_iff.mp (h.log t (List.mem_of_getElem? hi) ht)
  have hrename : s.rename = { s with log := none, rotated := some m } := by
    rw [State.rename, Option.mem_def.mp hm]
  rw [hrename]
  refine ⟨fun n hbase hn _ => ?_, fun u hu hrenaming => ?_⟩
  · by_cases heq : n = m
    · subst heq
      exact hsize
    · refine h.files n hbase hn fun hlog => heq ?_
      exact Option.some.inj (hlog.symm.trans hm)
  · have herase := weigh_eraseIdx (w := Thread.renames) hi
    obtain ⟨j, hj⟩ := List.mem_iff_getElem?.mp hu
    have hother := le_weigh (w := Thread.renames) hj
    have hone : t.renames = 1 := if_pos ht
    have hone' : u.renames = 1 := if_pos hrenaming
    have herase' : weigh Thread.renames (s.threads.eraseIdx i) = 0 := by omega
    have hzero : u.renames ≤ weigh Thread.renames (s.threads.eraseIdx i) := hother
    omega

/-- A thread's own step keeps the files large, if no other renames with it. -/
theorem State.Large.go (h : s.Large base) {result : Option Nat}
    (halone : Alone s (.go i result)) : (s.go i result).Large base := by
  rw [State.go]
  split
  · exact h
  next t hi =>
  split
  · split
    · exact h
    · exact h.moveTo (fun hne => nomatch hne)
  · exact h.moveTo fun hne => nomatch hne
  · exact h.openLog.moveTo fun hne => nomatch hne
  · exact h.moveTo fun hne => nomatch hne
  · exact (h.append _ _).moveTo fun hne => nomatch hne
  · refine h.moveTo fun hne => ?_
    split at hne <;> cases hne
  · split
    · exact h
    · exact h.moveTo fun hne => nomatch hne
  · exact h.moveTo fun hne => nomatch hne
  · exact h.openLog.moveTo fun hne => nomatch hne
  · exact h.moveTo fun hne => nomatch hne
  · exact h.moveTo fun hne => nomatch hne
  · exact (h.append _ _).moveTo fun hne => nomatch hne
  · exact h.moveTo fun hne => nomatch hne
  · exact h.quit
  · split
    · next hexceeds => exact h.moveTo fun _ => hexceeds
    · exact h.quit
  · exact h.quit
  · next hplace => exact h.rename hi hplace (halone (by rw [hi, Option.map_some, hplace]))

/-- Every event keeps the files large, if no other thread renames along with the one that does. -/
theorem State.Large.step (h : s.Large base) {e : Event} (halone : Alone s e) :
    (s.step e).Large base := by
  cases e with
  | fileLog header body =>
    rw [State.step]
    refine h.add ?_
    split <;> exact fun hne => nomatch hne
  | fileLogCommandOutput header body output =>
    rw [State.step]
    split
    · exact h
    · exact h.add fun hne => nomatch hne
  | go i result => exact h.go halone

/-- The files the program finds are not spoken of. -/
theorem start_large (rotated log : Option File) :
    (start rotated log).Large rotated.toList.length := by
  refine ⟨fun n hbase hn hlog => ?_, fun t ht => (List.not_mem_nil ht).elim⟩
  have hlength : (start rotated log).files.length = rotated.toList.length + log.toList.length :=
    List.length_append ..
  cases log with
  | none => exact absurd (hn.trans_eq hlength) (Nat.not_lt.mpr hbase)
  | some file =>
    have heq : rotated.toList.length = n := by
      have hlt := hn.trans_eq hlength
      simp only [Option.toList_some, List.length_singleton] at hlt
      omega
    exact absurd (congrArg some heq) hlog

end Large

/-- Unless two threads come to rename at once: every file that was rotated since the service
began is over 5000000 bytes, the one that still has a name and those that no longer have
one. (If two do, the second renames the new log, however small, over what the first has just
rotated.) -/
theorem log_rotated (rotated log : Option File) (events : List Event)
    (halone : AllSteps State.step Alone (start rotated log) events) :
    let s := events.foldl State.step (start rotated log)
    ∀ n, rotated.toList.length ≤ n → n < s.files.length → s.log ≠ some n →
      rotateSize < (s.file n).size := by
  have h : State.Large rotated.toList.length (events.foldl State.step (start rotated log)) :=
    AllSteps.invariant (fun _ _ h halone => h.step halone) (start_large rotated log) halone
  exact h.files

/-- The first thread renames the log while the second has it open, whose line goes to the
rotated file; a third begins a new log. -/
def rotation : List Event :=
  [.fileLog [49] (some [97]), .fileLog [49] (some [98]), .go 0 (some 0), .go 0 (some 0),
    .go 0 (some 2), .go 0 (some 0), .go 1 (some 0), .go 1 (some 0), .go 0 (some 0), .go 0 (some 0),
    .go 0 (some 2), .go 0 (some 0), .go 0 (some 0), .fileLog [49] (some [99]), .go 0 (some 0),
    .go 0 (some 0), .go 0 (some 2)]

/-- From a log that is over the size there is one that renames it, and no other in the way. -/
theorem rotation_from {large : Bytes} (h : rotateSize < large.length) :
    (rotation.foldl State.step (start none (some [large]))).rotated = some 0 ∧
      (rotation.foldl State.step (start none (some [large]))).log = some 1 ∧
      AllSteps State.step Alone (start none (some [large])) rotation := by
  have hlarge : ∀ more, rotateSize < large.length + more := fun more => by omega
  refine ⟨?_, ?_, ?_⟩
  · simp [rotation, State.step, State.go, start, State.exceeds, State.file, File.size,
      State.moveTo, State.openLog, State.append, State.quit, State.rename, fileLogLine, size, hlarge]
  · simp [rotation, State.step, State.go, start, State.exceeds, State.file, File.size,
      State.moveTo, State.openLog, State.append, State.quit, State.rename, fileLogLine, size, hlarge]
  · simp [rotation, AllSteps, Alone, Thread.renames, State.step, State.go, start, State.exceeds,
      State.file, File.size, State.moveTo, State.openLog, State.append, State.quit, State.rename,
      fileLogLine, size, hlarge]

/-- The log is over the size when the service starts. -/
theorem log_rotated_two :
    let s := rotation.foldl State.step (start none (some [List.replicate 5000001 97]))
    s.rotated = some 0 ∧ s.log = some 1 ∧
      ∀ n, 0 ≤ n → n < s.files.length → s.log ≠ some n → rotateSize < (s.file n).size := by
  have hlarge : rotateSize < (List.replicate 5000001 (97 : UInt8)).length := by
    rw [List.length_replicate, rotateSize]
    omega
  obtain ⟨hrotated, hlog, halone⟩ := rotation_from hlarge
  exact ⟨hrotated, hlog, log_rotated none _ rotation halone⟩

end AndroidLearn.Fio.FileLog
