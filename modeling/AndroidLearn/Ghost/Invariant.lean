import AndroidLearn.Ghost.Mirror
import Mathlib.Tactic.Common

/-!
# What holds while files are mirrored

The invariant of the mirror of `ghost.c`, in two parts. `Books` is about watches and
events: as many events of the monitor's own are on their way as there are entries on the
list (`onList`), an event of its own has no one else's of the same kind before it
(`inTurn`), and nothing comes after the `IN_IGNORED` of a watch (`last`). `Files` is about
what the events say: the last event of a file of the source says whether it is there
(`srcTrue`), and a file in which the directories differ is on its way to be looked at
(`settled`).

Neither is kept by every step. `Orderly` says of a step, by the state before it and by
what comes from outside, what must not happen: a change that comes behind the back of a
sync (`State.Noticed`), an event that the kernel merges with one of the monitor's own
(`State.NotMerged`), an own change while one of its kind by others is on its way
(`State.OwnEvent`), a connection that sets `path_dst` to another storage while it is
watched, and a watch that is removed with events under way from it.

The steps are in `Steps`, `Monitor` and `Sync`, by the thread that makes them, and
`Converge` puts them together. Here is the start of the program (`inv_init`).
-/

namespace AndroidLearn.Ghost

open Coalesce

/-! ## Events on their way -/

/-- The watch an event is from. -/
def Notice.wd : Notice → Nat
  | .file wd _ _ _ => wd
  | .ignored wd => wd

/-- An event of the monitor's own, of this kind. -/
def Notice.isOwn (kind : Kind) : Notice → Bool
  | .file _ kind' _ own => own && kind' = kind
  | .ignored _ => false

/-- The events that are not handled yet, the batch before the queue. -/
def State.pending (s : State) : List Notice := s.batch ++ s.queue

/-- An event of the file in the source is among `ns`. -/
def State.LiveSrc (s : State) (ns : List Notice) (name : String) : Prop :=
  ∃ wd kind own, s.wdSrc = some wd ∧ .file wd kind name own ∈ ns

/-- An event of the file that tells of a change by others is among `ns`. -/
def State.Live (s : State) (ns : List Notice) (name : String) : Prop :=
  s.LiveSrc ns name ∨ ∃ wd kind, s.wdDst = some wd ∧ .file wd kind name false ∈ ns

/-! ## Files to be looked at -/

/-- The thread with the lock comes to the file. -/
def Pc.toCome (src : Dir) (name : String) : Pc → Prop
  | .op (.copy name') => name' = name
  | .op (.delete name') => name' = name
  | .restore rest => name ∈ rest ∨ name ∈ src
  | .copyAll _ rest => name ∈ rest
  | _ => False

/-- The file is the same in both directories, or it is still looked at. -/
def State.Settled (s : State) (name : String) : Prop :=
  s.dstFile name = s.src.lookup name ∨ s.Live s.pending name ∨ s.pc.toCome s.src name

/-- The sync has begun. -/
def Pc.copying : Pc → Prop
  | .restore _ => True
  | .copyAll _ _ => True
  | .addWatch => True
  | .addSrc => True
  | .addDst => True
  | _ => False

/-! ## Orderly steps -/

/-- The event of someone else's change is not lost in one of the monitor's own. -/
def State.NotMerged (s : State) (st : Storage) (kind : Kind) (name : String) : Prop :=
  ∀ wd, s.dstWatch = some (wd, st) → s.queue.getLast? ≠ some (.file wd kind name true)

/-- The monitor's own change gets an event of its own, and comes when no event of a change by
others of the same kind is on its way from the destination. -/
def State.OwnEvent (s : State) (kind : Kind) (name : String) : Prop :=
  ∃ wd, s.dstWatch = some (wd, s.pathDst) ∧
    s.queue.getLast? ≠ some (.file wd kind name true) ∧
    ∀ name', .file wd kind name' false ∉ s.pending

/-- The change does not come behind the back of a sync. -/
def State.Noticed (s s' : State) (name : String) : Prop :=
  s.pc.copying → s'.dstDir ≠ none → s'.Settled name

/-- What must not happen, of each step. -/
def Orderly (s : State) : Event → Prop
  | .write .src name data => s.Noticed (s.writeSrc name data) name
  | .delete .src name => s.Noticed (s.deleteSrc name) name
  | .write (.dst st) name data =>
    s.NotMerged st .closeWrite name ∧
      (st = s.pathDst → s.Noticed (s.writeDst st name data false) name)
  | .delete (.dst st) name =>
    s.NotMerged st .delete name ∧ (st = s.pathDst → s.Noticed (s.deleteDst st name false) name)
  | .attach st d => st = s.pathDst → ∀ name, s.Noticed (s.attach st d) name
  | .detach _ => True
  -- the destination is not another one while it is watched, or copied to
  | .connect => s.main = .free →
    (if s.mounted .usb then Storage.usb else .ext) = s.pathDst ∨ s.dstWatch = none ∧ ¬ s.pc.copying
  | .mount _ _ => True
  -- no event is under way to a watch that is removed
  | .lock => ∀ st, s.main = .waiting st → s.pc = .idle → s.dropList = []
  | .read _ => True
  | .handle => True
  | .next _ =>
    match s.pc with
    | .op (.copy name) => name ∈ s.src → s.dstDir ≠ none → s.OwnEvent .closeWrite name
    | .op (.delete name) => s.dstFile name ≠ none → s.OwnEvent .delete name
    | _ => True

/-! ## The invariant -/

/-- The watches, the events and the list of expected events, against one another. -/
structure Books (s : State) : Prop where
  fresh : ∀ n ∈ s.pending, n.wd < s.nextWd
  freshSrc : ∀ wd, s.wdSrc = some wd → wd < s.nextWd
  freshDst : ∀ wd, s.wdDst = some wd → wd < s.nextWd
  apart : ∀ wd, s.wdSrc = some wd → s.wdDst ≠ some wd
  both : s.wdDst ≠ none → s.wdSrc ≠ none
  watched : ∀ wd st, s.dstWatch = some (wd, st) →
    s.wdDst = some wd ∧ st = s.pathDst ∧ s.dstDir ≠ none
  syncing : s.pc.copying ∨ s.pc = .sync → s.wdDst = none
  operating : ∀ o, s.pc = .op o → s.wdDst ≠ none
  adding : s.pc = .addDst → s.wdSrc ≠ none
  onList : ∀ kind, s.dropList.count kind = s.pending.countP (Notice.isOwn kind)
  ownDst : ∀ wd kind name, .file wd kind name true ∈ s.pending → s.wdDst = some wd
  srcKept : ∀ wd, s.wdSrc = some wd → .ignored wd ∉ s.pending
  dead : ∀ wd, s.wdDst = some wd → (s.dstWatch = none ↔ .ignored wd ∈ s.pending)
  last : ∀ wd pre suf, s.wdDst = some wd → s.pending = pre ++ .ignored wd :: suf →
    ∀ n ∈ suf, n.wd ≠ wd
  /-- behind the event of a change by others comes none of the monitor's own of its kind -/
  inTurn : ∀ wd kind name pre suf, s.wdDst = some wd →
    s.pending = pre ++ .file wd kind name false :: suf → ∀ n ∈ suf, n.isOwn kind = false

/-- The destination is the source's copy, or becomes it. -/
def State.On (s : State) : Prop := s.dstDir ≠ none ∧ (s.pc.copying ∨ s.dstWatch ≠ none)

/-- An event of the source says whether the file is there, or a later one does. -/
def State.SrcTrue (s : State) : Prop :=
  ∀ wd kind name own pre suf, s.wdSrc = some wd →
    s.pending = pre ++ .file wd kind name own :: suf →
    (kind = .delete ↔ name ∉ s.src) ∨ s.LiveSrc suf name

/-- Every difference between source and destination has an event to come. -/
structure Files (s : State) : Prop where
  srcTrue : s.SrcTrue
  dstTrue : ∀ wd name pre suf, s.wdDst = some wd → s.dstWatch ≠ none →
    s.pending = pre ++ .file wd .delete name false :: suf →
    s.dstFile name = none ∨ name ∈ s.src ∨ s.Live suf name
  opCopy : ∀ name, s.pc = .op (.copy name) → name ∈ s.src ∨ s.LiveSrc s.pending name
  opDelete : ∀ name, s.pc = .op (.delete name) → name ∉ s.src ∨ s.LiveSrc s.pending name
  settled : s.failed = false → s.On → ∀ name, s.Settled name
  heard : s.discarded = false

/-- The invariant. -/
structure Inv (s : State) : Prop where
  books : Books s
  files : Files s

/-- Nothing is under way at the start. -/
theorem pc_init (src : Dir) (dst : Storage → Option Dir) (mounted : Storage → Bool) :
    (State.init src dst mounted).pc = .sync ∨ (State.init src dst mounted).pc = .idle := by
  by_cases hup : mounted (if mounted .usb then .usb else .ext) = true
  · exact .inl (if_pos hup)
  · exact .inr (if_neg hup)

/-- The books are in order as the mirror starts. -/
theorem books_init (src : Dir) (dst : Storage → Option Dir) (mounted : Storage → Bool) :
    Books (.init src dst mounted) where
  fresh _ h := absurd h List.not_mem_nil
  freshSrc _ h := nomatch h
  freshDst _ h := nomatch h
  apart _ h := nomatch h
  both h := absurd rfl h
  watched _ _ h := nomatch h
  syncing _ := rfl
  operating o h := by rcases pc_init src dst mounted with hpc | hpc <;> rw [hpc] at h <;> contradiction
  adding h := by rcases pc_init src dst mounted with hpc | hpc <;> rw [hpc] at h <;> contradiction
  onList _ := rfl
  ownDst _ _ _ h := absurd h List.not_mem_nil
  srcKept _ h := nomatch h
  dead _ h := nomatch h
  last _ _ _ h := nomatch h
  inTurn _ _ _ _ _ h := nomatch h

/-- Nothing is claimed of the files as the mirror starts. -/
theorem files_init (src : Dir) (dst : Storage → Option Dir) (mounted : Storage → Bool) :
    Files (.init src dst mounted) where
  srcTrue _ _ _ _ _ _ h := nomatch h
  dstTrue _ _ _ _ h := nomatch h
  opCopy _ h := by rcases pc_init src dst mounted with hpc | hpc <;> rw [hpc] at h <;> contradiction
  opDelete _ h := by rcases pc_init src dst mounted with hpc | hpc <;> rw [hpc] at h <;> contradiction
  settled _ hon := by
    obtain ⟨-, hcopying | hwatch⟩ := hon
    · rcases pc_init src dst mounted with hpc | hpc <;> rw [hpc] at hcopying <;> exact hcopying.elim
    · exact absurd rfl hwatch
  heard := rfl

theorem inv_init (src : Dir) (dst : Storage → Option Dir) (mounted : Storage → Bool) :
    Inv (.init src dst mounted) :=
  ⟨books_init src dst mounted, files_init src dst mounted⟩

end AndroidLearn.Ghost
