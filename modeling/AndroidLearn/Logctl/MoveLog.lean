import AndroidLearn.Lib.Bytes
import AndroidLearn.Lib.Run
import AndroidLearn.Logctl.Storage

/-!
# Moving the logs to another storage

`handle_local_command_movelog` of `logctl.c` copies the log files of one storage to a
folder on the other, and unlinks each that is copied, unless it is still being written.
`file_copy` of `fio.c` goes through stdio: what `fwrite` accepts reaches the file at the
latest in `fclose`, and whether that succeeds is not looked at.

What `readdir` gives is a list of entries, each with a type and the answers of the calls
that are made for it (`Outcome`): which of them fail, how much `fread` and `fwrite` take
at each round, and how much of the copy is in the file when it is closed. What is at the
source and at the destination are two maps from names to contents; nobody else changes
them. The lookup of the storages before the copying is given by its results (`Query`).

`Moved` says of one entry that every file of the source is still there as it was, or gone
and in full at the destination, and that an entry which changes the answer leaves the
source alone.

Theorems:
- `moved_iff`: in a run over any entries every one of them is moved well if and only if
  `fclose` leaves out nothing of a log that is then unlinked (`ClosesWhole`);
- `movelog_keeps`: then every log that the command found is at the source or in full at
  the destination when it is through.
-/

namespace AndroidLearn.Logctl.MoveLog

open Bytes Conf Run

/-! ## `file_copy` -/

/-- `PATH_MAX` -/
def pathMax : Nat := 4096

/-- What the calls answer for one file. -/
structure Outcome where
  /-- `fopen` of the source, if it is there -/
  opensSource : Bool
  /-- `fopen` of the destination -/
  opensDest : Bool
  /-- `ferror` after the read `i` -/
  readFails : Nat → Bool
  /-- how many bytes the write `i` accepts -/
  accepts : Nat → Nat
  /-- how many of the bytes accepted are in the file when it is closed -/
  closesWith : Nat
  /-- `unlink` succeeds -/
  unlinks : Bool
  /-- `strerror (errno)`, if something fails -/
  error : CString

/-- The copy has come through. -/
def fileCopySucceeded : Int := 0

/-- The file could not be opened or read. -/
def fileCopyErrorSource : Int := -1

/-- The copy could not be opened or written. -/
def fileCopyErrorDestination : Int := -2

/-- The loop of `file_copy`, from the read `i` on: the return value, and what `fwrite`
has accepted. It ends at the first read that is short, or before; `fuel` is more than
there is to read. -/
def copyLoop (o : Outcome) : Nat → Nat → Bytes → Bytes → Int × Bytes
  | 0, _, _, accepted => (fileCopySucceeded, accepted)
  | fuel + 1, i, rest, accepted =>
    if o.readFails i then (fileCopyErrorSource, accepted)
    else
      let buf := rest.take pathMax
      let written := buf.take (o.accepts i)
      let accepted := accepted ++ written
      if written.length ≠ buf.length then (fileCopyErrorDestination, accepted)
      -- `feof`
      else if buf.length < pathMax then (fileCopySucceeded, accepted)
      else copyLoop o fuel (i + 1) (rest.drop pathMax) accepted

/-- `file_copy`: the return value, and the content of the destination if it was opened. -/
def fileCopy (o : Outcome) (source : Option Bytes) : Int × Option Bytes :=
  match source with
  | none => (fileCopyErrorSource, none)
  | some content =>
    if !o.opensSource then (fileCopyErrorSource, none)
    else if !o.opensDest then (fileCopyErrorDestination, none)
    else
      let (ret, accepted) := copyLoop o (content.length + 1) 0 content []
      -- the result of `fclose (fpw)` is not looked at
      (ret, some (accepted.take o.closesWith))

/-! ## The command -/

/-- `LOGGER_FILETYPE_*` -/
inductive FileType
  | unknown
  | file
  | data
  | loggingFile
  | loggingData
  deriving DecidableEq, Repr

/-- An entry of the source folder, and what becomes of it. -/
structure Entry where
  name : CString
  /-- `loggers_check_file_type` -/
  type : FileType
  outcome : Outcome

/-- The files of the two folders, and the state of the loop. -/
structure Move where
  source : CString → Option Bytes
  dest : CString → Option Bytes
  err : Int
  /-- the text that the command has returned with -/
  reply : Option CString

/-- `LOG_DATA_EXT ".txt"` -/
def logDataTxt : CString := "stt.txt".toList

/-- A file is copied. -/
def Move.copy (m : Move) (e : Entry) : Move :=
  let (err, written) := fileCopy e.outcome (m.source e.name)
  { m with
    err := err
    dest := if written.isSome then Function.update m.dest e.name written else m.dest }

/-- A file is removed from the log folder. -/
def Move.unlink (m : Move) (e : Entry) : Move :=
  if e.outcome.unlinks then { m with source := Function.update m.source e.name none } else m

/-- The switch of the loop. -/
def Move.dispatch (m : Move) (e : Entry) : Move :=
  match e.type with
  | .file | .data =>
    let m := m.copy e
    if m.err ≥ 0 then m.unlink e else m
  | .loggingFile | .loggingData => m.copy e
  | .unknown => if logDataTxt.isPrefixOf e.name then m.copy e else m

/-- One entry of the folder. -/
def Move.visit (srcpath dstpath : CString) (m : Move) (e : Entry) : Move :=
  if m.reply.isSome then m
  else if e.name = ".".toList ∨ e.name = "..".toList then m
  else
    let m := m.dispatch e
    if m.err < 0 then
      { m with
        reply := "Failed on [".toList ++ (if m.err = fileCopyErrorSource then srcpath else dstpath) ++
          "]: ".toList ++ e.outcome.error }
    else m

/-- `storage_query_log_path_and_excluded_state`: the log path, or the name as it was if
there is no such storage. -/
structure Query where
  path : CString
  excluded : Option Excluded

/-- The answer if a storage cannot take part. -/
def Query.refusal (q : Query) (writes : Bool) : Option CString :=
  let storage (text : CString) := some ("Storage [".toList ++ q.path ++ text)
  match q.excluded with
  | none => storage "] is not found!".toList
  | some excluded =>
    if excluded.unmount then storage "] is not mounted!".toList
    else if excluded.readonly then storage "] is ready only!".toList
    else if writes && excluded.noFreeSpace then storage "] is no free space!".toList
    else none

/-- `handle_local_command_movelog`. `accessible`: `mkdir` and `dir_exists`; `opendir`: the
entries, or the error. -/
def handleLocalCommandMovelog (name : CString) (src dst : Query) (accessible : Bool)
    (opendir : Except CString (List Entry)) (source dest : CString → Option Bytes) : Move :=
  let m : Move := ⟨source, dest, fileCopySucceeded, none⟩
  match src.refusal false with
  | some text => { m with reply := text }
  | none =>
    match dst.refusal true with
    | some text => { m with reply := text }
    | none =>
      let dstpath := dst.path ++ "zfllog_".toList ++ name ++ "/".toList
      if !accessible then
        { m with reply := some ("Cannot access [".toList ++ dstpath ++ "]!".toList) }
      else
        match opendir with
        | .error error =>
          { m with reply := some ("Failed on [".toList ++ src.path ++ "]: ".toList ++ error) }
        | .ok entries =>
          let m := entries.foldl (Move.visit src.path dstpath) m
          { m with reply := some (m.reply.getD "0".toList) }

/-! ## What is moved -/

/-- The property at one entry: a file is still at the source or in full at the
destination, and it is at the source if the command returns with a failure. -/
def Moved (srcpath dstpath : CString) (m : Move) (e : Entry) : Prop :=
  let m' := m.visit srcpath dstpath e
  (∀ name content, m.source name = some content →
    m'.source name = some content ∨ m'.source name = none ∧ m'.dest name = some content) ∧
  (m'.reply ≠ m.reply → m'.source = m.source)

/-- No call fails before `fclose`, from the read `i` on. -/
def Copies (o : Outcome) (i : Nat) (rest : Bytes) : Prop :=
  ∀ j ≤ rest.length / pathMax,
    o.readFails (i + j) = false ∧ min pathMax (rest.length - j * pathMax) ≤ o.accepts (i + j)

/-- The log of an entry is to be unlinked: it is not being written, and is copied
without an error. -/
def Unlinks (m : Move) (e : Entry) (content : Bytes) : Prop :=
  m.reply = none ∧ e.name ≠ ".".toList ∧ e.name ≠ "..".toList ∧
    (e.type = .file ∨ e.type = .data) ∧ m.source e.name = some content ∧
    e.outcome.opensSource = true ∧ e.outcome.opensDest = true ∧ Copies e.outcome 0 content ∧
    e.outcome.unlinks = true

/-- The condition on one entry: `fclose` does not leave out the end of a log that is
unlinked. -/
def ClosesWhole (m : Move) (e : Entry) : Prop :=
  ∀ content, Unlinks m e content → content.length ≤ e.outcome.closesWith

section Copy

variable {o : Outcome} {i fuel : Nat} {rest accepted content : Bytes}

/-- One read and write, and the rest. -/
theorem copies_iff :
    Copies o i rest ↔
      (o.readFails i = false ∧ min pathMax rest.length ≤ o.accepts i) ∧
        (pathMax ≤ rest.length → Copies o (i + 1) (rest.drop pathMax)) := by
  have hmore (h : pathMax ≤ rest.length) :
      rest.length / pathMax = (rest.length - pathMax) / pathMax + 1 :=
    Nat.div_eq_sub_div (by decide) h
  unfold Copies
  rw [List.length_drop]
  constructor
  · intro h
    refine ⟨by simpa using h 0 (Nat.zero_le _), fun hle j hj => ?_⟩
    have hnext := h (j + 1) (by rw [hmore hle]; omega)
    rw [show i + 1 + j = i + (j + 1) by omega,
      show rest.length - pathMax - j * pathMax = rest.length - (j + 1) * pathMax by
        rw [Nat.add_one_mul]; omega]
    exact hnext
  · intro h j hj
    obtain ⟨hfirst, hrest⟩ := h
    cases j with
    | zero => simpa using hfirst
    | succ j =>
      have hle : pathMax ≤ rest.length := by
        by_contra hlt
        rw [Nat.div_eq_of_lt (by omega)] at hj
        omega
      rw [hmore hle] at hj
      have hnext := hrest hle j (by omega)
      rw [show i + 1 + j = i + (j + 1) by omega,
        show rest.length - pathMax - j * pathMax = rest.length - (j + 1) * pathMax by
          rw [Nat.add_one_mul]; omega] at hnext
      exact hnext

/-- If no call fails, everything is accepted. -/
theorem copyLoop_copies (hfuel : rest.length < fuel) (h : Copies o i rest) :
    copyLoop o fuel i rest accepted = (fileCopySucceeded, accepted ++ rest) := by
  induction fuel generalizing i rest accepted with
  | zero => omega
  | succ fuel ih =>
    obtain ⟨⟨hread, haccepts⟩, hmore⟩ := copies_iff.mp h
    have hbuf : (rest.take pathMax).length = min pathMax rest.length := List.length_take
    have hwritten : (rest.take pathMax).take (o.accepts i) = rest.take pathMax :=
      List.take_of_length_le (by omega)
    unfold copyLoop
    rw [if_neg (by simp [hread])]
    dsimp only
    rw [hwritten, if_neg (not_not.mpr rfl)]
    split
    · next hlast =>
      rw [List.take_of_length_le (by omega)]
    · next hfull =>
      have hle : pathMax ≤ rest.length := by omega
      have hpos : 0 < pathMax := by decide
      rw [ih (by rw [List.length_drop]; omega) (hmore hle), List.append_assoc,
        List.take_append_drop]

/-- Where a read or a write fails the loop does. -/
theorem copyLoop_fails (hfuel : rest.length < fuel) (h : ¬ Copies o i rest) :
    (copyLoop o fuel i rest accepted).1 < 0 := by
  induction fuel generalizing i rest accepted with
  | zero => omega
  | succ fuel ih =>
    rw [copies_iff] at h
    have hbuf : (rest.take pathMax).length = min pathMax rest.length := List.length_take
    unfold copyLoop
    split
    · show fileCopyErrorSource < 0
      decide
    next hread =>
      dsimp only
      split
      · show fileCopyErrorDestination < 0
        decide
      next hwritten =>
        have haccepts : min pathMax rest.length ≤ o.accepts i := by
          rw [not_not, List.length_take, hbuf] at hwritten
          omega
        have hgoes : ¬ (pathMax ≤ rest.length → Copies o (i + 1) (rest.drop pathMax)) :=
          fun hmore => h ⟨⟨by simpa using hread, haccepts⟩, hmore⟩
        obtain ⟨hle, hnot⟩ := Classical.not_imp.mp hgoes
        have hpos : 0 < pathMax := by decide
        rw [if_neg (by omega)]
        exact ih (by rw [List.length_drop]; omega) hnot

/-- Where none does the copy has all that is written when it is closed. -/
theorem fileCopy_copies (hsource : o.opensSource = true) (hdest : o.opensDest = true)
    (h : Copies o 0 content) :
    fileCopy o (some content) = (fileCopySucceeded, some (content.take o.closesWith)) := by
  unfold fileCopy
  dsimp only
  rw [hsource, hdest, copyLoop_copies (Nat.lt_succ_self _) h]
  rfl

/-- Without an error, the source was there and all of it was accepted. -/
theorem fileCopy_succeeds {source : Option Bytes} (h : 0 ≤ (fileCopy o source).1) :
    ∃ content, source = some content ∧ o.opensSource = true ∧ o.opensDest = true ∧
      Copies o 0 content := by
  unfold fileCopy at h
  split at h
  · exact absurd h (show ¬ 0 ≤ fileCopyErrorSource by decide)
  next content =>
    split at h
    · exact absurd h (show ¬ 0 ≤ fileCopyErrorSource by decide)
    next hsource =>
      split at h
      · exact absurd h (show ¬ 0 ≤ fileCopyErrorDestination by decide)
      next hdest =>
        refine ⟨content, rfl, by simpa using hsource, by simpa using hdest, ?_⟩
        by_contra hnot
        have hfails : (copyLoop o (content.length + 1) 0 content []).1 < 0 :=
          copyLoop_fails (Nat.lt_succ_self _) hnot
        exact absurd hfails (Int.not_lt.mpr h)

/-- A file that is not there is not opened for writing either. -/
theorem fileCopy_none : fileCopy o none = (fileCopyErrorSource, none) := rfl

end Copy

section Visit

variable {srcpath dstpath : CString} {m : Move} {e : Entry} {content : Bytes}

/-- The log is unlinked, and the destination holds what `fclose` has left of it. -/
structure Unlinked (m : Move) (e : Entry) (content : Bytes) (m' : Move) : Prop where
  source : m'.source = Function.update m.source e.name none
  dest : m'.dest e.name = some (content.take e.outcome.closesWith)
  err : m'.err = fileCopySucceeded

theorem copy_source : (m.copy e).source = m.source := rfl

theorem copy_copies (hsource : m.source e.name = some content) (hopens : e.outcome.opensSource = true)
    (hdest : e.outcome.opensDest = true) (h : Copies e.outcome 0 content) :
    (m.copy e).err = fileCopySucceeded ∧
      (m.copy e).dest e.name = some (content.take e.outcome.closesWith) := by
  unfold Move.copy
  rw [hsource, fileCopy_copies hopens hdest h]
  exact ⟨rfl, Function.update_self _ _ _⟩

/-- The source goes when the copy has come through. -/
theorem dispatch_unlinks (h : Unlinks m e content) : Unlinked m e content (m.dispatch e) := by
  obtain ⟨-, -, -, htype, hsource, hopens, hdest, hcopies, hunlinks⟩ := h
  obtain ⟨herr, hwritten⟩ := copy_copies hsource hopens hdest hcopies
  have hdispatch : m.dispatch e = (m.copy e).unlink e := by
    have hsucceeded : (m.copy e).err ≥ 0 := by
      rw [herr]
      decide
    rcases htype with htype | htype
    · rw [Move.dispatch, htype]
      exact if_pos hsucceeded
    · rw [Move.dispatch, htype]
      exact if_pos hsucceeded
  rw [hdispatch, Move.unlink, if_pos hunlinks]
  exact ⟨rfl, hwritten, herr⟩

/-- Nothing else takes a file from the source. -/
theorem dispatch_source (hreply : m.reply = none) (hdot : e.name ≠ ".".toList)
    (hdots : e.name ≠ "..".toList) :
    (m.dispatch e).source = m.source ∨ ∃ content, Unlinks m e content := by
  have hunlink (htype : e.type = .file ∨ e.type = .data) (herr : (m.copy e).err ≥ 0) :
      ((m.copy e).unlink e).source = m.source ∨ ∃ content, Unlinks m e content := by
    by_cases hunlinks : e.outcome.unlinks = true
    · obtain ⟨content, hsource, hopens, hdest, hcopies⟩ := fileCopy_succeeds herr
      exact .inr ⟨content, hreply, hdot, hdots, htype, hsource, hopens, hdest, hcopies, hunlinks⟩
    · refine .inl ?_
      rw [Move.unlink, if_neg hunlinks, copy_source]
  unfold Move.dispatch
  split
  · next htype =>
    dsimp only
    split
    · next herr => exact hunlink (.inl htype) herr
    · exact .inl rfl
  · next htype =>
    dsimp only
    split
    · next herr => exact hunlink (.inr htype) herr
    · exact .inl rfl
  · exact .inl rfl
  · exact .inl rfl
  · split
    · exact .inl rfl
    · exact .inl rfl

theorem unlink_reply : (m.unlink e).reply = m.reply := by
  unfold Move.unlink
  split <;> rfl

/-- A turn does not answer. -/
theorem dispatch_reply : (m.dispatch e).reply = m.reply := by
  have hcopy : (m.copy e).reply = m.reply := rfl
  unfold Move.dispatch
  dsimp only
  split
  · split
    · rw [unlink_reply, hcopy]
    · exact hcopy
  · split
    · rw [unlink_reply, hcopy]
    · exact hcopy
  · exact hcopy
  · exact hcopy
  · split
    · exact hcopy
    · rfl

theorem visit_unlinks (srcpath dstpath : CString) (h : Unlinks m e content) :
    Unlinked m e content (m.visit srcpath dstpath e) ∧ (m.visit srcpath dstpath e).reply = m.reply := by
  have hunlinked := dispatch_unlinks h
  obtain ⟨hreply, hdot, hdots, -⟩ := h
  have hvisit : m.visit srcpath dstpath e = m.dispatch e := by
    unfold Move.visit
    rw [if_neg (by simp [hreply]), if_neg (not_or.mpr ⟨hdot, hdots⟩)]
    dsimp only
    rw [if_neg (by rw [hunlinked.err]; decide)]
  rw [hvisit]
  exact ⟨hunlinked, dispatch_reply⟩

/-- A turn leaves the files, but for one it may remove. -/
theorem visit_source (srcpath dstpath : CString) :
    (m.visit srcpath dstpath e).source = m.source ∨ ∃ content, Unlinks m e content := by
  unfold Move.visit
  split
  · exact .inl rfl
  next hreply =>
    split
    · exact .inl rfl
    next hname =>
      rw [not_or] at hname
      have hdispatch := dispatch_source (by simpa using hreply) hname.1 hname.2
      dsimp only
      split
      · exact hdispatch
      · exact hdispatch

/-- A file is moved whole when its copy is closed with all of it. -/
theorem moved_iff_closesWhole : Moved srcpath dstpath m e ↔ ClosesWhole m e := by
  unfold Moved
  dsimp only
  constructor
  · intro hmoved content h
    have hkept := hmoved.1
    obtain ⟨⟨hsource, hdest, -⟩, -⟩ := visit_unlinks srcpath dstpath h
    obtain ⟨-, -, -, -, hcontent, -⟩ := h
    rcases hkept e.name content hcontent with hstill | ⟨-, hwhole⟩
    · rw [hsource, Function.update_self] at hstill
      exact absurd hstill (by simp)
    · rw [hdest] at hwhole
      have hlength := congrArg List.length (Option.some.inj hwhole)
      rw [List.length_take] at hlength
      omega
  · intro h
    rcases visit_source srcpath dstpath with hsame | ⟨content, hunlinks⟩
    · rw [hsame]
      exact ⟨fun _ _ hcontent => .inl hcontent, fun _ => rfl⟩
    · obtain ⟨⟨hsource, hdest, -⟩, hreply⟩ := visit_unlinks srcpath dstpath hunlinks
      refine ⟨fun name text htext => ?_, fun hne => absurd hreply hne⟩
      rw [hsource]
      by_cases hname : name = e.name
      · subst hname
        have hwhole := h content hunlinks
        obtain ⟨-, -, -, -, hcontent, -⟩ := hunlinks
        obtain rfl : content = text := Option.some.inj (hcontent.symm.trans htext)
        refine .inr ⟨Function.update_self _ _ _, ?_⟩
        rw [hdest, List.take_of_length_le hwhole]
      · rw [Function.update_of_ne hname]
        exact .inl htext

/-- A log that is not at the source any more is not opened at the destination either. -/
theorem copy_dest_none {name : CString} (h : m.source name = none) :
    (m.copy e).dest name = m.dest name := by
  unfold Move.copy
  dsimp only
  split
  · next hopened =>
    have hne : name ≠ e.name := by
      intro hname
      subst hname
      rw [h, fileCopy_none] at hopened
      exact absurd hopened (by simp)
    exact Function.update_of_ne hne _ _
  · rfl

theorem unlink_dest : (m.unlink e).dest = m.dest := by
  unfold Move.unlink
  split <;> rfl

/-- A turn brings no file where there was none. -/
theorem visit_dest_none (srcpath dstpath : CString) {name : CString} (h : m.source name = none) :
    (m.visit srcpath dstpath e).dest name = m.dest name := by
  have hdispatch : (m.dispatch e).dest name = m.dest name := by
    unfold Move.dispatch
    dsimp only
    split
    · split
      · rw [unlink_dest, copy_dest_none h]
      · exact copy_dest_none h
    · split
      · rw [unlink_dest, copy_dest_none h]
      · exact copy_dest_none h
    · exact copy_dest_none h
    · exact copy_dest_none h
    · split
      · exact copy_dest_none h
      · rfl
  unfold Move.visit
  split
  · rfl
  · split
    · rfl
    · dsimp only
      split
      · exact hdispatch
      · exact hdispatch

theorem visit_source_none (srcpath dstpath : CString) {name : CString} (h : m.source name = none) :
    (m.visit srcpath dstpath e).source name = none := by
  rcases visit_source srcpath dstpath with hsame | ⟨content, hunlinks⟩
  · rw [hsame]
    exact h
  · rw [(visit_unlinks srcpath dstpath hunlinks).1.source, Function.update_apply]
    split
    · rfl
    · exact h

end Visit

/-- Whatever the entries and the outcomes, no log is lost while the logs of a storage are
moved exactly when `fclose` leaves out nothing of a log that is then unlinked. -/
theorem moved_iff (srcpath dstpath : CString) (entries : List Entry)
    (source dest : CString → Option Bytes) :
    AllSteps (Move.visit srcpath dstpath) (Moved srcpath dstpath)
        ⟨source, dest, fileCopySucceeded, none⟩ entries ↔
      AllSteps (Move.visit srcpath dstpath) ClosesWhole ⟨source, dest, fileCopySucceeded, none⟩
        entries :=
  AllSteps.congr (I := fun _ => True) (fun _ _ _ => ⟨moved_iff_closesWhole, fun _ => trivial⟩) trivial

/-- Then every log that the command found is at the source or in full at the
destination when it is through. -/
theorem movelog_keeps (name srcName : CString) (src dst : Query) (accessible : Bool)
    (entries : List Entry) (source dest : CString → Option Bytes) (content : Bytes)
    (hcontent : source name = some content)
    (hcloses : AllSteps (Move.visit src.path (dst.path ++ "zfllog_".toList ++ srcName ++ "/".toList))
      ClosesWhole ⟨source, dest, fileCopySucceeded, none⟩ entries) :
    let m := handleLocalCommandMovelog srcName src dst accessible (.ok entries) source dest
    m.source name = some content ∨ m.source name = none ∧ m.dest name = some content := by
  unfold handleLocalCommandMovelog
  dsimp only
  split
  · exact .inl hcontent
  split
  · exact .inl hcontent
  split
  · exact .inl hcontent
  refine AllSteps.invariant (I := fun m : Move =>
    m.source name = some content ∨ m.source name = none ∧ m.dest name = some content)
    (fun m e h he => ?_) (.inl hcontent) hcloses
  rcases h with hthere | ⟨hgone, hmoved⟩
  · exact (moved_iff_closesWhole.mpr he).1 name content hthere
  · rw [visit_dest_none _ _ hgone]
    exact .inr ⟨visit_source_none _ _ hgone, hmoved⟩

/-- A disk that is full when the buffer is flushed: the copy is empty, and the log is
unlinked. -/
theorem moved_fails_flushed :
    ¬ AllSteps (Move.visit "/a/".toList "/b/".toList) (Moved "/a/".toList "/b/".toList)
      ⟨fun _ => some [1], fun _ => none, fileCopySucceeded, none⟩
      [⟨"kernel_1".toList, .file,
        ⟨true, true, fun _ => false, fun _ => 4096, 0, true, "No space left on device".toList⟩⟩] := by
  intro hsteps
  have hcloses := moved_iff_closesWhole.mp hsteps.1 [1]
    ⟨rfl, by decide, by decide, .inl rfl, rfl, rfl, rfl, fun j _ => ⟨rfl, by dsimp; omega⟩, rfl⟩
  exact absurd hcloses (by decide)

end AndroidLearn.Logctl.MoveLog
