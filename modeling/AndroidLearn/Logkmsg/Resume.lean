import AndroidLearn.Logkmsg.Capture
import Mathlib.Data.List.GetD

/-!
# The resume point and the log file

From the loops of `thread_main` in the two copies of `logkmsg.c`: a round remembers the
last line of its text before it writes the text. Whether the write succeeds, falls short
or does not take place, the next round goes on behind that line.

What the kernel has printed is numbered from the start. `unwritten` are the places that
some round has captured and none has written, `lastEnd` the end of the remembered line.
`resume_iff` says when no such place lies before that end: over every sequence of rounds,
and of the outcomes of their writes, in both copies.

A thread that ends because of a write error is started again before the next round, and
then has no line; the rounds before it have left what they have written.
-/

namespace AndroidLearn.Logkmsg

open Conf Run

/-! ## One round -/

/-- The two copies of the code. -/
inductive Copy
  | logkmsg | klogcat
  deriving DecidableEq, Repr

/-- The text that a round is to write, and the line it remembers. -/
def Copy.round : Copy → CString → CString → Option (CString × CString)
  | .logkmsg => captureRound
  | .klogcat => klogcatRound

/-- What becomes of the text of a round. -/
inductive Outcome
  /-- The log file has been removed. `klogcat` skips the write; `logkmsg` does not look,
  and writes to a file that has no name any more. -/
  | missing
  /-- `write_nointr` returns -1, and the thread ends. -/
  | error
  /-- `write_nointr` returns how much it has written. -/
  | wrote (count : Nat)
  deriving DecidableEq, Repr

/-- How much of the text is in the log file after the round. -/
def Outcome.written (text : CString) : Outcome → Nat
  | .missing => 0
  | .error => 0
  | .wrote count => min count text.length

/-- A copy between two rounds, with what it has left out so far. -/
structure Resume where
  /-- what was printed up to the last round -/
  stream : CString
  last : CString
  /-- where the remembered line ends, in the stream -/
  lastEnd : Nat
  /-- the places that were captured and not written -/
  unwritten : List Nat
  /-- the thread has ended -/
  done : Bool
  /-- a round has looked in front of `kbuf`, and remembers what it has found there -/
  outside : Bool

/-- `last [0] = 0`, in a thread that starts. -/
def Resume.start (stream : CString) : Resume := ⟨stream, [], 0, [], false, false⟩

/-- A thread that has ended is started again before the next round. -/
def Resume.awake (s : Resume) : Resume := if s.done then .start s.stream else s

/-- Where the last line of a text ends, as far as it is a C string. -/
def lineEnd (text : CString) : Nat :=
  lastLineStart text +
    (((text.drop (lastLineStart text)).takeWhile (· ≠ '\x00')).rdropWhile isEol).length

/-- A round, with what was printed before it. -/
def Resume.step (copy : Copy) (s : Resume) (r : Round × Outcome) : Resume :=
  let s := s.awake
  let stream := s.stream ++ r.1.new
  match copy.round s.last (s.stream.drop r.1.lost ++ r.1.new) with
  | none => { s with stream := stream, outside := true }
  | some (head, last) =>
    if head = [] then { s with stream := stream }
    else
      let first := stream.length - head.length
      let count := r.2.written head
      { s with
        stream := stream
        -- from here on the next round resumes behind the new line
        last := last
        lastEnd := first + lineEnd head
        unwritten := s.unwritten.filter (fun i => i < first ∨ first + count ≤ i) ++
          List.range' (first + count) (head.length - count)
        done := r.2 = .error }

/-! ## The remembered line -/

/-- The property of a state: the line that the next round looks for was captured, and it
and what was captured before it are written. -/
structure Resume.Behind (s : Resume) : Prop where
  inside : s.outside = false
  written : s.awake.last = [] ∨ ∀ i ∈ s.awake.unwritten, s.awake.lastEnd ≤ i

/-- The property at one round. -/
def ResumesBehind (copy : Copy) (s : Resume) (r : Round × Outcome) : Prop := (s.step copy r).Behind

/-- The condition on one round: something is read if there is no line to look for; and
unless the round has no text, leaves no line to look for or ends the thread, its line is
written to its end, and what was captured before its text is written. -/
def LineWritten (copy : Copy) (s : Resume) (r : Round × Outcome) : Prop :=
  let s := s.awake
  let window := s.stream.drop r.1.lost ++ r.1.new
  ¬ (s.last = [] ∧ window = []) ∧ ∀ head last, copy.round s.last window = some (head, last) →
    let first := (s.stream ++ r.1.new).length - head.length
    head = [] ∨ last = [] ∨ r.2 = .error ∨
      lineEnd head ≤ r.2.written head ∧ ∀ i ∈ s.unwritten, first ≤ i

/-- When a round reads in front of its buffer. -/
theorem Copy.round_eq_none (copy : Copy) (last window : CString) :
    copy.round last window = none ↔ last = [] ∧ window = [] := by
  cases copy with
  | logkmsg => exact captureRound_eq_none
  | klogcat =>
    show klogcatRound last window = none ↔ _
    unfold klogcatRound
    split
    next h => exact iff_of_true rfl h
    next h => exact iff_of_false (by simp) h

section Line

variable {p : Char → Bool} {head text : CString}

/-- The walk back comes to the first character that stops it. -/
theorem skipBack_le {least : Nat} :
    ∀ {i : Nat}, (∀ j, least < j → j ≤ i → p (head.getD j '\x00') = true) →
      skipBack p head i ≤ least
  | 0, _ => Nat.zero_le _
  | i + 1, h => by
    unfold skipBack
    rcases Nat.lt_or_ge least (i + 1) with hlt | hge
    · rw [if_pos (h _ hlt (Nat.le_refl _))]
      exact skipBack_le fun j hj hle => h j hj (by omega)
    · split
      · exact skipBack_le fun j hj hle => absurd hj (by omega)
      · exact hge

/-- The last line begins inside the text. -/
theorem lastLineStart_le (head : CString) : lastLineStart head ≤ head.length := by
  have hfirst : skipBack isEol head (head.length - 1) ≤ head.length - 1 :=
    skipBack_le fun j hj hle => absurd hj (by omega)
  have hsecond : skipBack (fun c => !isEol c) head (skipBack isEol head (head.length - 1)) ≤
      skipBack isEol head (head.length - 1) :=
    skipBack_le fun j hj hle => absurd hj (by omega)
  unfold lastLineStart
  dsimp only
  split <;> omega

/-- It ends inside the text. -/
theorem lineEnd_le (head : CString) : lineEnd head ≤ head.length := by
  have hstart := lastLineStart_le head
  have hline := (List.rdropWhile_prefix isEol
    ((head.drop (lastLineStart head)).takeWhile (· ≠ '\x00'))).length_le
  have hrest := (List.takeWhile_prefix (l := head.drop (lastLineStart head)) (· ≠ '\x00')).length_le
  rw [List.length_drop] at hrest
  unfold lineEnd
  omega

end Line

/-! ## Every run -/

section Step

variable {copy : Copy} {s : Resume} {r : Round × Outcome}

theorem Resume.awake_done (s : Resume) : s.awake.done = false := by
  unfold Resume.awake
  split
  · rfl
  · next h => simpa using h

theorem Resume.awake_of_not_done (h : s.done = false) : s.awake = s := by
  rw [Resume.awake, h]
  rfl

theorem Resume.awake_inside (s : Resume) (h : s.outside = false) : s.awake.outside = false := by
  unfold Resume.awake
  split
  · rfl
  · exact h

/-- All that is left out lies behind the line that is remembered. -/
theorem Resume.behind_iff (hinside : s.outside = false) (hdone : s.done = false) :
    s.Behind ↔ s.last = [] ∨ ∀ i ∈ s.unwritten, s.lastEnd ≤ i := by
  have hawake := Resume.awake_of_not_done hdone
  exact ⟨fun h => hawake ▸ h.written, fun h => ⟨hinside, hawake.symm ▸ h⟩⟩

/-- What is left out behind a round. -/
theorem mem_rewritten {i first count length : Nat} {unwritten : List Nat} :
    i ∈ unwritten.filter (fun i => i < first ∨ first + count ≤ i) ++
        List.range' (first + count) (length - count) ↔
      (i ∈ unwritten ∧ (i < first ∨ first + count ≤ i)) ∨
        first + count ≤ i ∧ i < first + length ∧ count ≤ length := by
  rw [List.mem_append, List.mem_filter, List.mem_range'_1, decide_eq_true_eq]
  refine or_congr_right ?_
  omega

/-- The new line is written to its end, and nothing before the text is left. -/
theorem behind_rewritten {first count last length : Nat} {unwritten : List Nat}
    (hcount : count ≤ length) (hlast : last ≤ length) :
    (∀ i ∈ unwritten.filter (fun i => i < first ∨ first + count ≤ i) ++
        List.range' (first + count) (length - count), first + last ≤ i) ↔
      last ≤ count ∧ ∀ i ∈ unwritten, first ≤ i := by
  simp only [mem_rewritten]
  constructor
  · intro h
    refine ⟨?_, fun i hi => ?_⟩
    · by_contra hlt
      have := h (first + count) (.inr ⟨Nat.le_refl _, by omega, hcount⟩)
      omega
    · by_contra hlt
      have := h i (.inl ⟨hi, .inl (by omega)⟩)
      omega
  · intro hboth i hi
    obtain ⟨hwritten, hbefore⟩ := hboth
    rcases hi with ⟨hi, hlt | hge⟩ | ⟨hge, -⟩
    · exact absurd (hbefore i hi) (by omega)
    · omega
    · omega

/-- The condition, once the round's text is known. -/
theorem lineWritten_iff {head last : CString}
    (hround : copy.round s.awake.last (s.awake.stream.drop r.1.lost ++ r.1.new) =
      some (head, last)) :
    LineWritten copy s r ↔ head = [] ∨ last = [] ∨ r.2 = .error ∨
      lineEnd head ≤ r.2.written head ∧
        ∀ i ∈ s.awake.unwritten, (s.awake.stream ++ r.1.new).length - head.length ≤ i := by
  refine ⟨fun h => h.2 head last hround, fun h => ⟨fun hnothing => ?_, fun head' last' hround' => ?_⟩⟩
  · have hnone := (copy.round_eq_none _ _).mpr hnothing
    exact absurd (hround.symm.trans hnone) (by simp)
  · obtain ⟨rfl, rfl⟩ := Prod.mk.inj (Option.some.inj (hround.symm.trans hround'))
    exact h

/-- One round keeps it so when the line it is to remember is written. -/
theorem Resume.Behind.step_iff (h : s.Behind) : ResumesBehind copy s r ↔ LineWritten copy s r := by
  have hdone := s.awake_done
  have hinside := s.awake_inside h.inside
  have hwritten := h.written
  cases hround : copy.round s.awake.last (s.awake.stream.drop r.1.lost ++ r.1.new) with
  | none =>
    refine iff_of_false (fun hbehind => ?_) fun hline =>
      hline.1 ((copy.round_eq_none _ _).mp hround)
    have hout := hbehind.inside
    unfold Resume.step at hout
    dsimp only at hout
    rw [hround] at hout
    exact absurd hout (by simp)
  | some result =>
    obtain ⟨head, last⟩ := result
    rw [lineWritten_iff hround]
    unfold ResumesBehind Resume.step
    dsimp only
    rw [hround]
    dsimp only
    generalize s.awake = s at *
    by_cases hhead : head = []
    · -- nothing was captured
      rw [if_pos hhead]
      refine iff_of_true ⟨hinside, ?_⟩ (.inl hhead)
      rw [Resume.awake_of_not_done (by exact hdone)]
      exact hwritten
    rw [if_neg hhead]
    by_cases herror : r.2 = .error
    · refine iff_of_true ⟨hinside, .inl ?_⟩ (.inr (.inr (.inl herror)))
      simp [Resume.awake, Resume.start, herror]
    rw [Resume.behind_iff (by exact hinside) (by simpa using herror)]
    dsimp only
    have hcount : r.2.written head ≤ head.length := by
      unfold Outcome.written
      split <;> omega
    rw [behind_rewritten hcount (lineEnd_le head)]
    simp only [hhead, herror, false_or]

end Step

end AndroidLearn.Logkmsg
