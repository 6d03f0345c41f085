import AndroidLearn.Lib.Coalesce
import Mathlib.Data.List.AList
import Mathlib.Logic.Function.Basic

/-!
# The ghost mirror

The threads of `ghost.c`. The `ghost:monitor` thread watches the source directory and the
`ghost` directory of one of two storages by inotify, and copies or deletes in the second
what is written or deleted in the first. The events its own changes cause are to be passed
over: their kinds stand in `drop_list`. The thread of the commands selects the storage,
and syncs the two directories when `:mount:` selects another one.

One step is a change by someone else, a storage that is attached or detached, a connection
or a command, a `read` of the monitor, an event of its loop, or the next operation on the
file system of the thread that has `data_lock`. These come in any order.

A directory is a finite map from names to contents, and its names are those of files. The
kernel puts an event at the end of its queue for each change in a watched directory, and
merges it with the last one if the two are the same. A `Notice` carries the mark `own`
that the kernel and the code do not see: the monitor caused it, and has put its kind on
the list.

The source directory is there from the begin of the first sync on, and no one removes it.
The `.nomedia` file that a new connection may leave in both directories stands on no list;
it is a change as those by others are. A file that is copied or deleted is one operation,
an `inotify_add_watch` of a directory that is there succeeds, and names are not cut.

What the mirror is for is `Converged`: when nothing is under way, the two directories are
the same, and no event but the monitor's own was passed over.
-/

namespace AndroidLearn.Ghost

open Coalesce (post)

/-! ## Files and events -/

/-- The regular files of a directory, with their contents. -/
abbrev Dir := AList fun _ : String => List UInt8

/-- `usbpath` and `extpath` -/
inductive Storage
  | usb
  | ext
  deriving DecidableEq, Repr

/-- Where a file is written or deleted: in the source, or in the destination on a storage. -/
inductive Place
  | src
  | dst (st : Storage)
  deriving DecidableEq, Repr

/-- `IN_CLOSE_WRITE` and `IN_DELETE` -/
inductive Kind
  | closeWrite
  | delete
  deriving DecidableEq, Repr

/-- What inotify queues: an event of a file, or `IN_IGNORED`. -/
inductive Notice
  | file (wd : Nat) (kind : Kind) (name : String) (own : Bool)
  | ignored (wd : Nat)
  deriving DecidableEq, Repr

/-- The kernel does not queue an event that is the last one again. -/
def Notice.same : Notice → Notice → Bool
  | .file wd kind name _, .file wd' kind' name' _ => wd = wd' && kind = kind' && name = name'
  | .ignored wd, .ignored wd' => wd = wd'
  | _, _ => false

/-! ## States -/

/-- `copy_to_dst` and `delete_from_dst` -/
inductive Op
  | copy (name : String)
  | delete (name : String)
  deriving DecidableEq, Repr

/-- What the thread that has `data_lock` is at. -/
inductive Pc
  /-- no one has it -/
  | idle
  /-- the monitor is in its loop over the events -/
  | events
  /-- it has decided on an operation -/
  | op (o : Op)
  /-- before the sync of the two directories -/
  | sync
  /-- in the loop of `sync_src_and_dst` over the files of the destination -/
  | restore (rest : List String)
  /-- in `copy_dir` from the source; `created`: `add_watch` has made the destination -/
  | copyAll (created : Bool) (rest : List String)
  | addWatch
  /-- before the two calls of `inotify_add_watch` -/
  | addSrc
  | addDst
  deriving DecidableEq, Repr

/-- Where the thread of the commands is. -/
inductive Main
  | free
  /-- `:mount:` waits for `data_lock`, with the mount point it has selected -/
  | waiting (st : Storage)
  | mounting
  deriving DecidableEq, Repr

/-- The files, the watches of the monitor and of the kernel, the events that are on their way, and
where the two threads are. -/
structure State where
  src : Dir
  /-- the `ghost` directory on the medium, if there is one -/
  dst : Storage → Option Dir
  /-- `dir_storage_state` -/
  mounted : Storage → Bool
  /-- the storage that `path_dst` is on -/
  pathDst : Storage
  wdSrc : Option Nat
  wdDst : Option Nat
  /-- the watch on a destination that the kernel has -/
  dstWatch : Option (Nat × Storage)
  nextWd : Nat
  /-- the events in the kernel -/
  queue : List Notice
  /-- the events that the monitor has read -/
  batch : List Notice
  dropList : List Kind
  pc : Pc
  main : Main
  /-- an event that was not the monitor's own was passed over -/
  discarded : Bool
  /-- `copy_dir` has broken off -/
  failed : Bool

/-- The `ghost` directory, where it can be reached. -/
def State.dirAt (s : State) (st : Storage) : Option Dir := if s.mounted st then s.dst st else none

/-- What `opendir (path_dst)` finds. -/
def State.dstDir (s : State) : Option Dir := s.dirAt s.pathDst

/-- What a file of the destination holds. -/
def State.dstFile (s : State) (name : String) : Option (List UInt8) :=
  s.dstDir.bind fun d => d.lookup name

/-- What is on a storage. -/
def State.setDst (s : State) (st : Storage) (d : Option Dir) : State :=
  { s with dst := Function.update s.dst st d }

/-- The start of `thread_main`, after `ghost_dir_get_storage`. -/
def State.init (src : Dir) (dst : Storage → Option Dir) (mounted : Storage → Bool) : State where
  src
  dst
  mounted
  pathDst := if mounted .usb then .usb else .ext
  wdSrc := none
  wdDst := none
  dstWatch := none
  nextWd := 1
  queue := []
  batch := []
  dropList := []
  pc := if mounted (if mounted .usb then .usb else .ext) then .sync else .idle
  main := .free
  discarded := false
  failed := false

/-! ## The kernel -/

/-- The kernel tells of a change in the source, if it is watched. -/
def State.noticeSrc (s : State) (kind : Kind) (name : String) : State :=
  match s.wdSrc with
  | some wd => { s with queue := post Notice.same s.queue (.file wd kind name false) }
  | none => s

/-- The kernel tells of a change in the destination, if the watch is on that storage. -/
def State.noticeDst (s : State) (st : Storage) (kind : Kind) (name : String) (own : Bool) : State :=
  match s.dstWatch with
  | some (wd, watched) =>
    if watched = st then { s with queue := post Notice.same s.queue (.file wd kind name own) } else s
  | none => s

/-- Someone writes a file of the source and closes it. -/
def State.writeSrc (s : State) (name : String) (data : List UInt8) : State :=
  { s with src := s.src.insert name data }.noticeSrc .closeWrite name

/-- Someone deletes a file of the source. -/
def State.deleteSrc (s : State) (name : String) : State :=
  if name ∈ s.src then { s with src := s.src.erase name }.noticeSrc .delete name else s

/-- A file of a destination is written; `own` if the monitor does it. -/
def State.writeDst (s : State) (st : Storage) (name : String) (data : List UInt8) (own : Bool) :
    State :=
  match s.dirAt st with
  | some d => (s.setDst st (some (d.insert name data))).noticeDst st .closeWrite name own
  | none => s

/-- A file of a destination is deleted; `own` if the monitor does it. -/
def State.deleteDst (s : State) (st : Storage) (name : String) (own : Bool) : State :=
  match s.dirAt st with
  | some d =>
    if name ∈ d then (s.setDst st (some (d.erase name))).noticeDst st .delete name own else s
  | none => s

/-- A storage comes up, with whatever its medium holds. -/
def State.attach (s : State) (st : Storage) (d : Option Dir) : State :=
  if s.mounted st then s else { s.setDst st d with mounted := Function.update s.mounted st true }

/-- It goes, and the watch on it. -/
def State.detach (s : State) (st : Storage) : State :=
  let s := { s with mounted := Function.update s.mounted st false }
  match s.dstWatch with
  | some (wd, watched) =>
    if watched = st then
      { s with dstWatch := none, queue := post Notice.same s.queue (.ignored wd) }
    else s
  | none => s

/-! ## `thread_main` -/

/-- The end of the loop's body. -/
def State.endEvent (s : State) : State :=
  { s with pc := if s.batch = [] then .idle else .events }

/-- `IN_IGNORED`: the watch is gone. If the destination is gone with it, it is made anew and all
files are copied. -/
def State.handleIgnored (s : State) (wd : Nat) : State :=
  if s.wdSrc = some wd then { s with wdSrc := none }.endEvent
  else if s.wdDst = some wd then
    let s := { s with wdDst := none }
    if s.mounted s.pathDst ∧ s.dst s.pathDst = none then
      { s.setDst s.pathDst (some ∅) with pc := .copyAll false s.src.keys }
    else s.endEvent
  else s.endEvent

/-- An event of the source is mirrored, while the destination is watched. -/
def State.handleSrc (s : State) (kind : Kind) (name : String) : State :=
  if s.wdDst = none then s.endEvent
  else
    match kind with
    | .delete => { s with pc := .op (.delete name) }
    | .closeWrite => { s with pc := .op (.copy name) }

/-- An event of the destination is passed over if its kind is on the list; otherwise the change is
undone. -/
def State.handleDst (s : State) (kind : Kind) (name : String) (own : Bool) : State :=
  if kind ∈ s.dropList then
    { s with dropList := s.dropList.erase kind, discarded := s.discarded || !own }.endEvent
  else
    match kind with
    | .delete => if name ∈ s.src then { s with pc := .op (.copy name) } else s.endEvent
    | .closeWrite =>
      if name ∈ s.src then { s with pc := .op (.copy name) } else { s with pc := .op (.delete name) }

/-- The loop over the batch takes the next event. -/
def State.handle (s : State) : State :=
  match s.batch with
  | [] => s
  | n :: rest =>
    let s := { s with batch := rest }
    match n with
    | .ignored wd => s.handleIgnored wd
    | .file wd kind name own =>
      if s.wdSrc = some wd then s.handleSrc kind name
      else if s.wdDst = some wd then s.handleDst kind name own
      else s.endEvent

/-- The operation, and `drop_add` when it has succeeded. -/
def State.operate (s : State) : Op → State
  | .copy name =>
    match s.src.lookup name, s.dstDir with
    | some data, some _ =>
      { s.writeDst s.pathDst name data true with dropList := .closeWrite :: s.dropList }.endEvent
    | _, _ => s.endEvent
  | .delete name =>
    if (s.dstFile name).isSome then
      { s.deleteDst s.pathDst name true with dropList := .delete :: s.dropList }.endEvent
    else s.endEvent

/-! ## The sync -/

/-- `inotify_rm_watch` of the source: the kernel posts `IN_IGNORED`. -/
def State.removeSrcWatch (s : State) : State :=
  match s.wdSrc with
  | some wd => { s with wdSrc := none, queue := post Notice.same s.queue (.ignored wd) }
  | none => s

/-- `inotify_rm_watch` of the destination. -/
def State.removeDstWatch (s : State) : State :=
  match s.dstWatch with
  | some (wd, _) =>
    { s with wdDst := none, dstWatch := none, queue := post Notice.same s.queue (.ignored wd) }
  -- the kernel has removed it already, or there was none
  | none => { s with wdDst := none }

/-- Both watches are removed. -/
def State.removeWatch (s : State) : State := s.removeSrcWatch.removeDstWatch

/-- The loop of `sync_src_and_dst`; the watches are removed already. -/
def State.restoreFile (s : State) (name : String) : State :=
  if name ∈ s.src then s
  else
    match s.dstFile name with
    | some data => s.writeSrc name data
    | none => s

/-- Where the mirror goes on behind the copies. -/
def Pc.afterCopy (created : Bool) : Pc := if created then .addSrc else .addWatch

/-- The loop of `copy_dir`, which an error ends. -/
def State.copyFile (s : State) (created : Bool) (rest : List String) (name : String) : State :=
  match s.src.lookup name, s.dstDir with
  | some data, some _ =>
    { s.writeDst s.pathDst name data true with pc := .copyAll created (rest.erase name) }
  | _, _ => { s with failed := true, pc := .afterCopy created }

/-- `data_lock` is given back. -/
def State.release (s : State) : State :=
  if s.main = .mounting then { s with pc := .idle, main := .free } else s.endEvent

/-- The next step of the thread with the lock; `name` is what `readdir` gives next. -/
def State.next (s : State) (name : String) : State :=
  match s.pc with
  | .idle => s
  | .events => s
  | .op o => s.operate o
  | .sync =>
    match s.dstDir with
    | some d => { s with pc := .restore d.keys }
    | none => { s with pc := .addWatch }
  | .restore rest =>
    if rest = [] then { s with pc := .copyAll false s.src.keys }
    else if name ∈ rest then { s.restoreFile name with pc := .restore (rest.erase name) }
    else s
  | .copyAll created rest =>
    if rest = [] then { s with pc := .afterCopy created }
    else if name ∈ rest then s.copyFile created rest name
    else s
  | .addWatch =>
    if s.mounted s.pathDst ∧ s.dst s.pathDst = none then
      let s := s.removeWatch
      { s.setDst s.pathDst (some ∅) with pc := .copyAll true s.src.keys }
    else { s with pc := .addSrc }
  | .addSrc =>
    match s.wdSrc with
    | some _ => { s with pc := .addDst }
    | none => { s with wdSrc := some s.nextWd, nextWd := s.nextWd + 1, pc := .addDst }
  | .addDst =>
    match s.dstDir with
    | some _ =>
      { s with
        wdDst := some s.nextWd
        dstWatch := some (s.nextWd, s.pathDst)
        nextWd := s.nextWd + 1 }.release
    | none => { s with wdDst := none }.release

/-! ## The commands -/

/-- The mount point that `:mount:` selects for the one it is told. -/
def State.select (s : State) (st : Storage) (mount : Bool) : Option Storage :=
  match st with
  | .usb => if mount then some .usb else if s.mounted .ext then some .ext else none
  | .ext =>
    if mount then some (if s.mounted .usb then .usb else .ext)
    else if s.mounted .usb then some .usb else none

/-- `:mount:`: the sync is due if another storage is selected, or if the destination is not
watched. -/
def State.mount (s : State) (st : Storage) (mount : Bool) : State :=
  match s.select st mount with
  | some selected =>
    if s.wdDst = none ∨ selected ≠ s.pathDst then { s with main := .waiting selected } else s
  | none => s

/-- `:mount:` has got the lock. -/
def State.startSync (s : State) (st : Storage) : State :=
  { s.removeWatch with pathDst := st, pc := .sync, main := .mounting }

/-! ## Runs -/

/-- What comes from outside, and whose turn is next. -/
inductive Event
  /-- someone else writes a file and closes it -/
  | write (place : Place) (name : String) (data : List UInt8)
  | delete (place : Place) (name : String)
  | attach (st : Storage) (d : Option Dir)
  | detach (st : Storage)
  /-- a client connects -/
  | connect
  | mount (st : Storage) (mount : Bool)
  /-- the thread of the commands gets the lock it waits for -/
  | lock
  /-- the monitor reads some of the events -/
  | read (count : Nat)
  /-- and takes the next of them -/
  | handle
  | next (name : String)

/-- An event that cannot happen leaves the state alone. -/
def State.step (s : State) : Event → State
  | .write .src name data => s.writeSrc name data
  | .write (.dst st) name data => s.writeDst st name data false
  | .delete .src name => s.deleteSrc name
  | .delete (.dst st) name => s.deleteDst st name false
  | .attach st d => s.attach st d
  | .detach st => s.detach st
  | .connect =>
    if s.main = .free then { s with pathDst := if s.mounted .usb then .usb else .ext } else s
  | .mount st mount => if s.main = .free then s.mount st mount else s
  | .lock =>
    match s.main with
    | .waiting st => if s.pc = .idle then s.startSync st else s
    | _ => s
  | .read count =>
    if s.batch = [] ∧ (s.pc = .idle ∨ s.main = .mounting) then
      { s with batch := s.queue.take (count + 1), queue := s.queue.drop (count + 1) }
    else s
  | .handle => if s.pc = .idle ∨ s.pc = .events then s.handle else s
  | .next name => s.next name

/-- A run. -/
def State.run (s : State) (events : List Event) : State := events.foldl State.step s

/-! ## What the mirror is for -/

/-- Whenever it has come to rest, nothing is left to be passed over and the two
directories hold the same files; and no event of others was passed over. -/
structure Converged (s : State) : Prop where
  rest : s.mounted s.pathDst = true → s.wdSrc ≠ none → s.wdDst ≠ none → s.queue = [] → s.batch = [] →
    s.pc = .idle → s.failed = false → s.dropList = [] ∧ ∀ name, s.dstFile name = s.src.lookup name
  heard : s.discarded = false

end AndroidLearn.Ghost
