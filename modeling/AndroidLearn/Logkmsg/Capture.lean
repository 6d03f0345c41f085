import AndroidLearn.Conf.File
import AndroidLearn.Lib.Run
import AndroidLearn.Lib.Strstr

/-!
# The capture of the kernel log

The loops of `thread_main` in `ZflTestTool/service/logkmsg.c` and in
`klogcat/logkmsg.c`. Each round reads the kernel's buffer as a whole, looks in it for
the line it remembers from the round before, and appends what follows to the log file.
The stream is what the kernel has printed since the first round; a round's window is
the part of it still in the buffer, and what is new.

`scanRecords` is the search for the new text, `lastLine` what is remembered of it. They
work on what `strstr` and `strncpy` see, a text up to its first NUL: `logkmsg` puts
blanks for the NULs it reads, `klogcat` does not.

With no line to look for, a read of nothing sends `ptr` in front of `kbuf`, and the code
takes the last line from the memory there. What that is, and what becomes of the
capture, no model of this file can say: the round is then `none`, and the capture
`outside`.

The line is found by `strstr`, at its first occurrence. `capture_iff` says for which
windows that is the right place, over every sequence of rounds.
-/

namespace AndroidLearn.Logkmsg

open Conf Run Strstr

/-! ## One round -/

/-- Is it the end of a line? -/
def isEol (c : Char) : Bool := c = '\n' || c = '\r'

/-- `replace null string with blank space on the buffer` -/
def blankNul (c : Char) : Char := if c = '\x00' then ' ' else c

/-- `for (; (ptr != head) && p (*ptr); ptr --)`, from an index on. -/
def skipBack (p : Char → Bool) (head : CString) : Nat → Nat
  | 0 => 0
  | i + 1 => if p (head.getD (i + 1) '\x00') then skipBack p head i else i + 1

/-- `sizeof (last)` -/
def lastSize : Nat := 1024

/-- Where the last line begins, blank ones aside. -/
def lastLineStart (head : CString) : Nat :=
  let ptr := skipBack isEol head (head.length - 1)
  let ptr := skipBack (fun c => !isEol c) head ptr
  if ptr ≠ 0 then ptr + 1 else ptr

/-- `strncpy (last, ptr, sizeof (last) - 1); strtrim (last);`: the line to look for in the
next round, of the text `head` that this one writes. -/
def lastLine (head : CString) : CString :=
  strtrim (((head.drop (lastLineStart head)).takeWhile (· ≠ '\x00')).take (lastSize - 1))

/-- The part of the window behind the line `last`. Without a line, or where it is
missing, that is all of the window. -/
def scanRecords (last window : CString) : CString :=
  if last = [] then window
  else
    match window.dropInfix? last with
    | none => window
    | some (_, rest) => ((last ++ rest).dropWhile fun c => !isEol c).dropWhile isEol

/-- A round of `thread_main`: the text written, and the line remembered. -/
def captureRound (last window : CString) : Option (CString × CString) :=
  -- `ptr = head + count - 1` is in front of `kbuf`
  if last = [] ∧ window = [] then none
  else
    let head := scanRecords last (window.map blankNul)
    -- no new log, or nothing was read
    some (if head = [] then ([], last) else (head, lastLine head))

/-- The scan of `klogcat`: it looks in the buffer up to its first NUL. -/
def klogcatScan (last window : CString) : CString :=
  let kbuf := window.takeWhile (· ≠ '\x00')
  if last = [] then window
  else
    match kbuf.dropInfix? last with
    | none => window
    | some (_, rest) =>
      let ptr := ((last ++ rest).dropWhile fun c => !isEol c).dropWhile isEol
      if ptr = [] then [] else window.drop (kbuf.length - ptr.length)

/-- A round of `thread_main` of `klogcat`, whose log file is in place. -/
def klogcatRound (last window : CString) : Option (CString × CString) :=
  if last = [] ∧ window = [] then none
  else
    let head := klogcatScan last window
    some (if head = [] then ([], last) else (head, lastLine head))

/-! ## Runs -/

/-- A round: how much of the stream has left the buffer, and what was printed since
the round before. -/
structure Round where
  lost : Nat
  new : CString

/-- The capture between two rounds, and what was printed and written so far. -/
structure Capture where
  /-- what was printed up to the last round -/
  stream : CString
  last : CString
  /-- what was written to the log file, without the update headers -/
  log : CString
  /-- a round has looked in front of `kbuf` -/
  outside : Bool

/-- Nothing was printed yet. -/
def Capture.start : Capture := ⟨[], [], [], false⟩

/-- A round, with what was printed before it. -/
def Capture.step (s : Capture) (r : Round) : Capture :=
  match captureRound s.last (s.stream.drop r.lost ++ r.new) with
  | none => { s with stream := s.stream ++ r.new, outside := true }
  | some (written, last) =>
    { s with stream := s.stream ++ r.new, last := last, log := s.log ++ written }

/-- After a round that has stayed in `kbuf`, the log holds the stream: nothing twice,
nothing skipped. -/
structure Complete (s : Capture) (r : Round) : Prop where
  inside : (s.step r).outside = false
  log : (s.step r).log = (s.step r).stream

/-! ## The resume point -/

/-- The text that follows the first place of `last` in `old ++ new`, from the next line
on, is `new`. -/
inductive ResumePoint (old new last : CString) : Prop
  /-- nothing to look for: the window must hold nothing old -/
  | noLine (hlast : last = []) (hold : old = [])
  /-- not in the window: the same -/
  | missing (hmissing : ¬ last <:+: old ++ new) (hold : old = [])
  /-- the first place is in the last line read before, and that line was ended, and
  followed by no further line ends, when it was read -/
  | found (before line ends : CString) (hlast : last ≠ []) (hold : old = before ++ (line ++ ends))
      (hhere : last <+: line ++ ends ++ new)
      (hfirst : ∀ before' rest, old ++ new = before' ++ last ++ rest →
        before.length ≤ before'.length)
      (hline : ∀ c ∈ line, isEol c = false) (hends : ∀ c ∈ ends, isEol c = true)
      (hended : ends = [] → new = []) (hnew : ∀ c ∈ new.head?, isEol c = false)

section Scan

variable {old new last window rest : CString}

/-- The front is dropped, and no more. -/
theorem dropWhile_append_of {p : Char → Bool} {xs ys : CString} (hxs : ∀ c ∈ xs, p c = true)
    (hys : ∀ c ∈ ys.head?, p c = false) : (xs ++ ys).dropWhile p = ys := by
  rw [List.dropWhile_append_of_pos hxs]
  cases ys with
  | nil => rfl
  | cons c ys =>
    have hc : p c = false := hys c (by simp)
    rw [List.dropWhile_cons_of_neg (by simp [hc])]

/-- What is left begins with something else. -/
theorem head_dropWhile (p : Char → Bool) (xs : CString) :
    ∀ c ∈ (xs.dropWhile p).head?, p c = false := by
  intro c hc
  have h := List.head?_dropWhile_not p xs
  rw [hc] at h
  simpa using h

/-- What follows a line: its ends, and what comes after them. -/
theorem afterLine_append {line ends : CString} (hline : ∀ c ∈ line, isEol c = false)
    (hends : ∀ c ∈ ends, isEol c = true) (hended : ends = [] → new = [])
    (hnew : ∀ c ∈ new.head?, isEol c = false) :
    ((line ++ ends ++ new).dropWhile fun c => !isEol c).dropWhile isEol = new := by
  rw [List.append_assoc, dropWhile_append_of, dropWhile_append_of hends hnew]
  · intro c hc
    simp [hline c hc]
  · intro c hc
    cases ends with
    | nil =>
      rw [hended rfl] at hc
      simp at hc
    | cons d ends =>
      obtain rfl : d = c := by simpa using hc
      simp [hends d]

/-- A text is a line, its ends, and what comes after them. -/
theorem cut_line (text : CString) : ∃ line ends : CString,
    text = line ++ ends ++ (text.dropWhile fun c => !isEol c).dropWhile isEol ∧
      (∀ c ∈ line, isEol c = false) ∧ (∀ c ∈ ends, isEol c = true) ∧
      (ends = [] → (text.dropWhile fun c => !isEol c).dropWhile isEol = []) := by
  refine ⟨text.takeWhile fun c => !isEol c,
    (text.dropWhile fun c => !isEol c).takeWhile isEol, ?_, ?_, ?_, ?_⟩
  · rw [List.append_assoc, List.takeWhile_append_dropWhile, List.takeWhile_append_dropWhile]
  · intro c hc
    simpa using List.mem_takeWhile_imp hc
  · intro c hc
    exact List.mem_takeWhile_imp hc
  · intro hnil
    -- behind the line there is a line end, or nothing
    cases hrest : text.dropWhile fun c => !isEol c with
    | nil => rfl
    | cons c rest =>
      have hc := head_dropWhile (fun c => !isEol c) text c (by rw [hrest]; rfl)
      rw [hrest, List.takeWhile_cons_of_pos (by simpa using hc)] at hnil
      exact absurd hnil (by simp)

/-- The scan finds what is new exactly at a resume point. -/
theorem scanRecords_iff : scanRecords last (old ++ new) = new ↔ ResumePoint old new last := by
  by_cases hlast : last = []
  · -- without a line the whole window is taken
    have hscan : scanRecords last (old ++ new) = old ++ new := by
      rw [scanRecords, if_pos hlast]
    rw [hscan]
    constructor
    · intro h
      exact .noLine hlast (by simpa using h)
    · rintro (⟨-, rfl⟩ | ⟨-, rfl⟩ | ⟨-, -, -, hne, -⟩)
      · rfl
      · rfl
      · exact absurd hlast hne
  · cases hfind : (old ++ new).dropInfix? last with
    | none =>
      have hmissing := dropInfix_eq_none.mp hfind
      have hscan : scanRecords last (old ++ new) = old ++ new := by
        rw [scanRecords, if_neg hlast, hfind]
      rw [hscan]
      constructor
      · intro h
        exact .missing hmissing (by simpa using h)
      · rintro (⟨hnil, -⟩ | ⟨-, rfl⟩ | ⟨before, line, ends, -, hold, hhere, -⟩)
        · exact absurd hnil hlast
        · rfl
        · -- it is in the window after all
          refine absurd ?_ hmissing
          rw [hold]
          have hwithin := hhere.isInfix.trans (List.suffix_append before (line ++ ends ++ new)).isInfix
          simpa using hwithin
    | some found =>
      obtain ⟨before, rest⟩ := found
      obtain ⟨hwindow, hfirst⟩ := dropInfix_eq_some.mp hfind
      have hscan : scanRecords last (old ++ new) =
          ((last ++ rest).dropWhile fun c => !isEol c).dropWhile isEol := by
        rw [scanRecords, if_neg hlast, hfind]
      rw [hscan]
      constructor
      · intro h
        -- cut what follows into the line, its ends and the rest
        obtain ⟨line, ends, hsplit, hline, hends, hended⟩ := cut_line (last ++ rest)
        rw [h] at hsplit hended
        have hnew : ∀ c ∈ new.head?, isEol c = false := by
          rw [← h]
          exact head_dropWhile isEol _
        refine .found before line ends hlast ?_ ⟨rest, hsplit⟩ hfirst hline hends hended hnew
        rw [List.append_assoc, hsplit, ← List.append_assoc] at hwindow
        exact List.append_cancel_right hwindow
      · rintro (⟨hnil, -⟩ | ⟨hmissing, -⟩ | ⟨before', line, ends, -, hold, hhere, hfirst', hline,
          hends, hended, hnew⟩)
        · exact absurd hnil hlast
        · exact absurd ⟨before, rest, hwindow.symm⟩ hmissing
        · obtain ⟨rest', hrest'⟩ := hhere
          have hwindow' : old ++ new = before' ++ last ++ rest' := by
            rw [hold, List.append_assoc before' last, hrest']
            simp
          -- both are the first place
          have hlen : before.length = before'.length :=
            Nat.le_antisymm (hfirst before' rest' hwindow') (hfirst' before rest hwindow)
          have hsame : last ++ rest = line ++ ends ++ new := by
            rw [hwindow, List.append_assoc, List.append_assoc] at hwindow'
            rw [List.append_inj_right hwindow' hlen, hrest']
          rw [hsame]
          exact afterLine_append hline hends hended hnew

/-- What the scan leaves is the end of the window. -/
theorem scanRecords_suffix : scanRecords last window <:+ window := by
  unfold scanRecords
  split
  · exact List.suffix_refl _
  · split
    · exact List.suffix_refl _
    next before rest hfind =>
      have hwindow := (dropInfix_eq_some.mp hfind).1
      refine (List.dropWhile_suffix _).trans ((List.dropWhile_suffix _).trans ⟨before, ?_⟩)
      rw [hwindow, List.append_assoc]

/-- Where there is no null byte nothing is blanked. -/
theorem map_blankNul (h : '\x00' ∉ window) : window.map blankNul = window := by
  have hid : ∀ c ∈ window, blankNul c = c := by
    intro c hc
    have hne : c ≠ '\x00' := fun heq => h (heq ▸ hc)
    rw [blankNul, if_neg hne]
  rw [List.map_congr_left hid, List.map_id']

/-- Behind the blanking there is none. -/
theorem nul_notMem_blank (window : CString) : '\x00' ∉ window.map blankNul := by
  intro h
  obtain ⟨c, -, hc⟩ := List.mem_map.mp h
  unfold blankNul at hc
  split at hc
  · exact absurd hc (by decide)
  next hne => exact hne hc

/-- When a round reads in front of its buffer. -/
theorem captureRound_eq_none : captureRound last window = none ↔ last = [] ∧ window = [] := by
  unfold captureRound
  split
  next h => exact iff_of_true rfl h
  next h => exact iff_of_false (by simp) h

/-- A round that has text writes all of it and remembers its last line. -/
theorem captureRound_eq_some {written line : CString}
    (h : captureRound last window = some (written, line)) :
    written = scanRecords last (window.map blankNul) ∧
      line = if written = [] then last else lastLine written := by
  unfold captureRound at h
  split at h
  next => exact absurd h (by simp)
  next =>
    dsimp only at h
    split at h
    next hnil =>
      obtain ⟨rfl, rfl⟩ := Prod.mk.inj (Option.some.inj h)
      exact ⟨hnil.symm, (if_pos rfl).symm⟩
    next hne =>
      obtain ⟨rfl, rfl⟩ := Prod.mk.inj (Option.some.inj h)
      exact ⟨rfl, (if_neg hne).symm⟩

/-- A round writes what is new exactly when it stays in `kbuf`, and what is new has no NUL
and begins at a resume point. -/
theorem captureRound_iff (hold : '\x00' ∉ old) :
    (∃ line, captureRound last (old ++ new) = some (new, line)) ↔
      ¬ (last = [] ∧ old ++ new = []) ∧ '\x00' ∉ new ∧ ResumePoint old new last := by
  constructor
  · rintro ⟨line, h⟩
    have hinside : ¬ (last = [] ∧ old ++ new = []) := fun hnothing =>
      absurd ((captureRound_eq_none.mpr hnothing).symm.trans h) (by simp)
    have hscan := (captureRound_eq_some h).1
    have hnew : '\x00' ∉ new := by
      intro hmem
      have hsuffix := (@scanRecords_suffix last ((old ++ new).map blankNul)).subset
      rw [← hscan] at hsuffix
      exact nul_notMem_blank _ (hsuffix hmem)
    rw [map_blankNul (by simp [hold, hnew])] at hscan
    exact ⟨hinside, hnew, scanRecords_iff.mp hscan.symm⟩
  · rintro ⟨hinside, hnew, hresume⟩
    cases hround : captureRound last (old ++ new) with
    | none => exact absurd (captureRound_eq_none.mp hround) hinside
    | some result =>
      obtain ⟨written, line⟩ := result
      have hscan := (captureRound_eq_some hround).1
      rw [map_blankNul (by simp [hold, hnew]), scanRecords_iff.mpr hresume] at hscan
      exact ⟨line, by rw [hscan]⟩

/-- Where no NUL is read, `klogcat` does the same. -/
theorem klogcatRound_eq (h : '\x00' ∉ window) : klogcatRound last window = captureRound last window := by
  have htake : window.takeWhile (· ≠ '\x00') = window := by
    rw [List.takeWhile_eq_self_iff]
    intro c hc
    have hne : c ≠ '\x00' := fun heq => h (heq ▸ hc)
    simpa using hne
  have hsuffix := @scanRecords_suffix last window
  have hscan : klogcatScan last window = scanRecords last window := by
    unfold scanRecords at hsuffix ⊢
    unfold klogcatScan
    dsimp only
    rw [htake]
    split
    · rfl
    next hne =>
      rw [if_neg hne] at hsuffix
      split
      · rfl
      next before rest hfind =>
        simp only [hfind] at hsuffix
        split
        next hnil => exact hnil.symm
        next => exact (List.suffix_iff_eq_drop.mp hsuffix).symm
  unfold klogcatRound captureRound
  rw [hscan, map_blankNul h]

end Scan

/-! ## Every run -/

/-- What was printed, and the last line of it that was new: what a capture ought to
know. -/
structure Printed where
  stream : CString
  last : CString

/-- Nothing was printed yet. -/
def Printed.start : Printed := ⟨[], []⟩

/-- What was printed, and its last line. -/
def Printed.step (s : Printed) (r : Round) : Printed :=
  ⟨s.stream ++ r.new, if r.new = [] then s.last else lastLine r.new⟩

/-- What is new has no NUL, and follows the first place of the last line in the window;
and if there is no line to look for, something is read. -/
def Resumes (s : Printed) (r : Round) : Prop :=
  ¬ (s.last = [] ∧ s.stream.drop r.lost ++ r.new = []) ∧
    '\x00' ∉ r.new ∧ ResumePoint (s.stream.drop r.lost) r.new s.last

/-- From a complete log, a round is complete when it writes what is new. -/
theorem complete_iff {log last : CString} {r : Round} :
    Complete ⟨log, last, log, false⟩ r ↔
      ∃ line, captureRound last (log.drop r.lost ++ r.new) = some (r.new, line) := by
  constructor
  · rintro ⟨hinside, hlog⟩
    unfold Capture.step at hinside hlog
    dsimp only at hinside hlog
    cases hround : captureRound last (log.drop r.lost ++ r.new) with
    | none =>
      rw [hround] at hinside
      exact absurd hinside (by simp)
    | some result =>
      obtain ⟨written, line⟩ := result
      rw [hround] at hlog
      obtain rfl : written = r.new := List.append_cancel_left hlog
      exact ⟨line, rfl⟩
  · rintro ⟨line, hround⟩
    constructor
    all_goals
      unfold Capture.step
      dsimp only
      rw [hround]

/-- Over every sequence of rounds the log is the stream, round by round, exactly when
each round's window lets it resume. -/
theorem capture_iff (rounds : List Round) :
    AllSteps Capture.step Complete Capture.start rounds ↔
      AllSteps Printed.step Resumes Printed.start rounds := by
  -- as long as the log is complete, the remembered line is the last one printed
  suffices hrel : ∀ (s : Capture) (t : Printed), s.stream = t.stream → s.last = t.last →
      s.log = s.stream → s.outside = false → '\x00' ∉ t.stream →
      (AllSteps Capture.step Complete s rounds ↔ AllSteps Printed.step Resumes t rounds) from
    hrel _ _ rfl rfl rfl rfl (by simp [Printed.start])
  induction rounds with
  | nil => exact fun _ _ _ _ _ _ _ => Iff.rfl
  | cons r rounds ih =>
    rintro ⟨stream, last, log, outside⟩ ⟨stream', last'⟩ hstream hlast hlog houtside hnul
    obtain rfl : stream = stream' := hstream
    obtain rfl : last = last' := hlast
    obtain rfl : log = stream := hlog
    obtain rfl : outside = false := houtside
    have hold : '\x00' ∉ log.drop r.lost := fun h => hnul (List.mem_of_mem_drop h)
    have hround : Complete ⟨log, last, log, false⟩ r ↔ Resumes ⟨log, last⟩ r := by
      rw [complete_iff]
      exact captureRound_iff hold
    unfold AllSteps
    rw [hround]
    refine and_congr_right fun hresumes => ?_
    obtain ⟨line, heq⟩ := (captureRound_iff hold).mpr hresumes
    have hline := (captureRound_eq_some heq).2
    have hstep : Capture.step ⟨log, last, log, false⟩ r = ⟨log ++ r.new, line, log ++ r.new, false⟩ := by
      unfold Capture.step
      dsimp only
      rw [heq]
    rw [hstep]
    exact ih _ _ rfl hline rfl rfl (by simp [Printed.step, hnul, hresumes.2.1])

/-- The last line printed before the round is still in its window. -/
def LastInWindow (s : Printed) (r : Round) : Prop := r.lost ≤ lastLineStart s.stream

/-- The kernel prints the lines `a`, `b` and `a`; all of them are still in the buffer
when it has printed `c`. The second `b` and `a` are written twice. -/
theorem complete_fails_repeated :
    ¬ ∀ rounds : List Round, AllSteps Printed.step LastInWindow Printed.start rounds →
      AllSteps Capture.step Complete Capture.start rounds := by
  intro h
  have hwindow : AllSteps Printed.step LastInWindow Printed.start
      [⟨0, "a\nb\na\n".toList⟩, ⟨0, "c\n".toList⟩] :=
    ⟨Nat.zero_le _, Nat.zero_le _, trivial⟩
  have hsecond := (h _ hwindow).2.1.log
  revert hsecond
  decide +kernel

end AndroidLearn.Logkmsg
