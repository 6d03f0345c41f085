import AndroidLearn.Lib.Scanf
import AndroidLearn.Cputest.Loop
import AndroidLearn.Touchtest.Panel

/-!
# The places that `touchtest` writes

`thread_main` and `read_diag` of `touchtest.c`. The thread reads the diagnostic node into
a buffer of `DATA_LEN` bytes, ends the text behind what it has read, takes the numbers of
rows and columns from its first line and gives the rest to a test.

What the node gives is any bytes, and each `read` any number of them. An access is
recorded by its place in the buffer or in the array of a test, which has as many places as
the header says rows and columns, or by what is divided by (`Access`). The parameters of a
test are read as the text that the command has left.

Theorem: `bounded_iff` says when the thread stays within the buffer, and the test within
its array and does not divide by 0, for every sequence of rounds and parameters.
-/

namespace AndroidLearn.Touchtest

open Conf Logctl

/-! ## The loop -/

/-- The loop of `read_diag`, behind the bytes that are in the buffer: nothing, if an error
comes before the first of them. What `read_nointr` answers is an error or some bytes, and
none at the end of the file. -/
def readDiag (len : Nat) (buf : CString) : List (Option CString) → Option CString
  | [] => some buf
  | answer :: answers =>
    if len - buf.length = 0 then some buf
    else
      match answer with
      | none => if buf = [] then none else some buf
      | some [] => some buf
      | some bytes => readDiag len (buf ++ bytes.take (len - buf.length)) answers

/-- A number that `%d` stores; one beyond a `long` is cut to the limit before. -/
def storeInt (n : Int) : Int32 := (max (-(2 ^ 63)) (min n (2 ^ 63 - 1))).toInt32

/-- `"Channel: %d * %d\n %[^]]"` -/
def headerFormat : List Scanf.Directive :=
  "Channel:".toList.map .literal ++
    [.space, .assign (.int 10), .space, .literal '*', .space, .assign (.int 10), .space,
      .assign (.set (· ≠ ']'))]

/-- The rows, the columns and the items, if `sscanf` returns 3. -/
def scanHeader (buf : CString) : Option (Int32 × Int32 × CString) :=
  match (Scanf.scan headerFormat buf).values with
  | [.int row, .int column, .text items] => some (storeInt row, storeInt column, items)
  | _ => none

/-- `mode`, `param`, and what is left in `parambuf`. -/
structure Config where
  mode : Int32
  param : Param
  parambuf : CString
  deriving DecidableEq, Repr

/-- The parameters of a test, as the command gives them. -/
def readConfig (testParam : CString) : Config :=
  let mode := Cputest.datatok testParam
  let p0 := Cputest.datatok mode.2
  let p1 := Cputest.datatok p0.2
  let p2 := Cputest.datatok p1.2
  ⟨atoi mode.1, ⟨atoi p0.1, atoi p1.1, atoi p2.1⟩, p2.1⟩

/-- The switch over `TEST_*`. -/
def runTest (mode row column : Int32) (param : Param) (buf : CString) : Option Result :=
  if mode = 1 then some (deltaTest row column param buf)
  else if mode = 2 then some (refTest row column param buf)
  else if mode = 3 then some (acTest row column param buf)
  else none

/-- A round of the test's thread. -/
structure Step where
  trace : List Access
  /-- what is put behind the text in `data` -/
  posted : Option CString
  deriving DecidableEq, Repr

/-- `";%d;%d;:%d:%d:%d;%s"` -/
def postedText (r : Result) (config : Config) : CString :=
  ";".toList ++ (toString r.ret).toList ++ ";".toList ++ decimal config.mode ++ ";:".toList ++
    decimal config.param.p0 ++ ":".toList ++ decimal config.param.p1 ++ ":".toList ++
    decimal config.param.p2 ++ ";".toList ++ r.retStr.getD config.parambuf

/-- From the mode on. -/
def dispatch (config : Config) (buf : CString) : Step :=
  if config.mode = 0 then ⟨[], none⟩
  else
    match scanHeader buf with
    | none => ⟨[], none⟩
    | some (row, column, items) =>
      -- `sscanf` writes the items to the front of the buffer
      let trace := [.buffer items.length]
      match runTest config.mode row column config.param items with
      | none => ⟨trace, none⟩
      | some r => ⟨trace ++ r.trace, some (postedText r config)⟩

/-- A round of the loop: what `read_nointr` answers, and `test_param`, which a command
can have set before it. -/
structure Round where
  testParam : CString
  answers : List (Option CString)
  deriving DecidableEq, Repr

/-- Nothing, if the loop ends with this round. -/
def Round.step (r : Round) : Option Step :=
  match readDiag dataLen [] r.answers with
  | none => none
  | some buf =>
    if buf = [] ∨ buf.head? = some '\x00' then some ⟨[], none⟩
    else
      let step := dispatch (readConfig r.testParam) (buf.takeWhile (· ≠ '\x00'))
      some { step with trace := .buffer buf.length :: step.trace }

/-- The accesses of the rounds. That the loop ends as well when the log is not written is
a list that is shorter. -/
def loop : List Round → List Access
  | [] => []
  | r :: rounds =>
    match r.step with
    | none => []
    | some step => step.trace ++ loop rounds

/-! ## The condition -/

/-- `ac_test` goes no further than this item. -/
def acDone (column : Int32) (param : Param) (i : Nat) : Bool :=
  param.p0.toInt ≤ (i : Int).tdiv column.toInt

/-- The panel has a place for each item up to the one where the test stops. -/
def TestFits (mode row column : Int32) (param : Param) (items : List Int32) : Prop :=
  let size := (row * column).toInt
  if mode = 1 then stopAt (deltaBad param items) 0 items < size
  else if mode = 2 then
    if 0 < column.toInt then stopAt (refBad column.toInt.toNat param items) 0 items < size
    else 0 < size ∧ ∀ v ∈ items.head?, v < param.p0 ∨ param.p1 < v
  else if mode = 3 then stopAt (acDone column param) 0 items < size
  else True

/-- The condition on a round: what is read fits, and so does what the test makes of it. -/
def Round.Fits (r : Round) : Prop :=
  ∀ buf, readDiag dataLen [] r.answers = some buf → buf ≠ [] → buf.head? ≠ some '\x00' →
    buf.length < dataLen ∧
      ∀ row column items, scanHeader (buf.takeWhile (· ≠ '\x00')) = some (row, column, items) →
        TestFits (readConfig r.testParam).mode row column (readConfig r.testParam).param
          (itemsOf items)

/-- The rounds up to the first whose read fails. -/
def reached (rounds : List Round) : List Round :=
  rounds.takeWhile fun r => (readDiag dataLen [] r.answers).isSome

/-! ## The tests -/

section Tests

variable {values rest : List Int32} {size column : Int32} {param : Param} {i : Nat}

/-- `ac_test` divides where it looks at an item, and at its end. -/
theorem acLoop_bounds (hsized : Sized size column) (ac : Ac) :
    (∀ a ∈ (acLoop size column param ac i rest).trace, a.Ok) ↔
      (stopAt (acDone column param) i rest : Int) < size.toInt := by
  induction rest generalizing i ac with
  | nil =>
    show (∀ a ∈ [.item size i, .div column, .div column], Access.Ok a) ↔ (i : Int) < size.toInt
    constructor
    · intro h
      exact (h (.item size i) List.mem_cons_self).2
    · intro hlt a ha
      have hcolumn : column ≠ 0 := hsized (by omega)
      simp only [List.mem_cons, List.not_mem_nil, or_false] at ha
      rcases ha with rfl | rfl | rfl
      · exact ⟨Int.natCast_nonneg i, hlt⟩
      · exact hcolumn
      · exact hcolumn
  | cons v rest ih =>
    have hdone : acDone column param i = true ↔
        ¬ (i : Int).tdiv column.toInt < param.p0.toInt := by
      rw [acDone, decide_eq_true_eq, Int.not_lt]
    unfold acLoop
    dsimp only
    by_cases hstop : (i : Int).tdiv column.toInt < param.p0.toInt
    · rw [if_neg (not_not.mpr hstop), stopAt_good (by rw [hdone]; exact not_not.mpr hstop)]
      have hle := le_stopAt (acDone column param) (i + 1) rest
      show (∀ a ∈ [.item size i, .div column, .item size (i + 1)] ++ _, Access.Ok a) ↔ _
      rw [List.forall_mem_append, ih]
      refine and_iff_right_of_imp fun hsize a ha => ?_
      simp only [List.mem_cons, List.not_mem_nil, or_false] at ha
      rcases ha with rfl | rfl | rfl
      · exact item_ok (by omega) (by omega) hsize
      · exact hsized (by omega)
      · exact item_ok (by omega) (by omega) hsize
    · rw [if_pos hstop, stopAt_bad (hdone.mpr hstop)]
      constructor
      · intro h
        exact (h (.item size i) (by simp)).2
      · intro hlt a ha
        have hcolumn : column ≠ 0 := hsized (by omega)
        simp only [List.mem_append, List.mem_cons, List.not_mem_nil, or_false] at ha
        rcases ha with (rfl | rfl) | rfl | rfl
        · exact ⟨Int.natCast_nonneg i, hlt⟩
        · exact hcolumn
        · exact hcolumn
        · exact hcolumn

/-- The test looks at no item it has not. -/
theorem acTest_bounds (row column : Int32) (param : Param) (buf : CString) :
    (∀ a ∈ (acTest row column param buf).trace, a.Ok) ↔
      (stopAt (acDone column param) 0 (itemsOf buf) : Int) < (row * column).toInt := by
  show (∀ a ∈ [.item (row * column) 0] ++ _, Access.Ok a) ↔ _
  rw [List.forall_mem_append, acLoop_bounds (sized_mul row column)]
  refine and_iff_right_of_imp fun hsize => ?_
  rw [List.forall_mem_singleton]
  exact item_ok (Int.le_refl 0) (Int.natCast_nonneg _) hsize

/-- Without a column there is no first row, and the item on the left of the first one is
looked at. -/
theorem refTest_bounds_column (row : Int32) (param : Param) (buf : CString)
    (hcolumn : ¬ 0 < column.toInt) :
    (∀ a ∈ (refTest row column param buf).trace, a.Ok) ↔
      0 < (row * column).toInt ∧ ∀ v ∈ (itemsOf buf).head?, v < param.p0 ∨ param.p1 < v := by
  unfold refTest
  dsimp only
  have hsized := sized_mul row column
  generalize row * column = size at hsized ⊢
  generalize itemsOf buf = items
  have hfirst (hsize : 0 < size.toInt) : (Access.item size 0).Ok := ⟨Int.le_refl 0, hsize⟩
  cases items with
  | nil =>
    show (∀ a ∈ [.item size 0, .item size (0 : Nat), .item size (0 : Nat)], Access.Ok a) ↔ _
    constructor
    · intro h
      exact ⟨(h (.item size 0) List.mem_cons_self).2, fun v hv => nomatch hv⟩
    · intro h a ha
      simp only [List.mem_cons, List.not_mem_nil, or_false] at ha
      rcases ha with rfl | rfl | rfl <;> exact hfirst h.1
  | cons v rest =>
    have hrow : ¬ ((0 : Nat) : Int) < column.toInt := by omega
    unfold refFirst
    rw [if_pos hrow, List.head?_cons]
    simp only [Option.mem_def, Option.some.injEq, forall_eq']
    unfold refFollowing
    dsimp only
    by_cases hrange : v < param.p0 ∨ param.p1 < v
    · rw [if_pos hrange]
      show (∀ a ∈ [.item size 0, .item size (0 : Nat), .item size (0 : Nat), .div column, .div column],
        Access.Ok a) ↔ _
      constructor
      · intro h
        exact ⟨(h (.item size 0) List.mem_cons_self).2, hrange⟩
      · intro h a ha
        simp only [List.mem_cons, List.not_mem_nil, or_false] at ha
        rcases ha with rfl | rfl | rfl | rfl | rfl
        · exact hfirst h.1
        · exact hfirst h.1
        · exact hfirst h.1
        · exact hsized h.1
        · exact hsized h.1
    · refine iff_of_false (fun h => ?_) fun h => hrange h.2
      have hleft : (Access.item size ((0 : Nat) - 1)).Ok := by
        refine h _ ?_
        rw [if_neg hrange]
        split
        · simp [Result.after]
        · split <;> simp [Result.after]
      exact absurd hleft.1 (by omega)

theorem runTest_bounds (mode row column : Int32) (param : Param) (buf : CString) :
    (∀ r ∈ runTest mode row column param buf, ∀ a ∈ r.trace, a.Ok) ↔
      TestFits mode row column param (itemsOf buf) := by
  unfold runTest TestFits
  dsimp only
  by_cases hdelta : mode = 1
  · rw [if_pos hdelta, if_pos hdelta]
    simp only [Option.mem_def, Option.some.injEq, forall_eq']
    exact (deltaTest_stops row column param buf).bounds
  rw [if_neg hdelta, if_neg hdelta]
  by_cases href : mode = 2
  · rw [if_pos href, if_pos href]
    simp only [Option.mem_def, Option.some.injEq, forall_eq']
    by_cases hcolumn : 0 < column.toInt
    · rw [if_pos hcolumn]
      exact (refTest_stops row param buf (by omega) (by omega)).bounds
    · rw [if_neg hcolumn]
      exact refTest_bounds_column row param buf hcolumn
  rw [if_neg href, if_neg href]
  by_cases hac : mode = 3
  · rw [if_pos hac, if_pos hac]
    simp only [Option.mem_def, Option.some.injEq, forall_eq']
    exact acTest_bounds row column param buf
  · rw [if_neg hac, if_neg hac]
    exact iff_of_true (fun r hr => nomatch hr) trivial

end Tests

/-! ## The round -/

/-- What is behind the header is shorter. -/
theorem scanHeader_length {buf items : CString} {row column : Int32}
    (h : scanHeader buf = some (row, column, items)) : items.length ≤ buf.length := by
  unfold scanHeader at h
  split at h
  · next hvalues =>
    cases h
    have hmem : .text items ∈ (Scanf.scan headerFormat buf).values := by
      rw [hvalues]
      simp
    exact Scanf.scan_text_length hmem
  · cases h

theorem dispatch_bounds {config : Config} {buf : CString} (hbuf : buf.length < dataLen) :
    (∀ a ∈ (dispatch config buf).trace, a.Ok) ↔
      ∀ row column items, scanHeader buf = some (row, column, items) →
        TestFits config.mode row column config.param (itemsOf items) := by
  unfold dispatch
  by_cases hmode : config.mode = 0
  · rw [if_pos hmode]
    refine iff_of_true (List.forall_mem_nil _) fun row column items _ => ?_
    rw [hmode]
    exact trivial
  rw [if_neg hmode]
  cases hheader : scanHeader buf with
  | none => exact iff_of_true (List.forall_mem_nil _) fun _ _ _ h => nomatch h
  | some header =>
    obtain ⟨row, column, items⟩ := header
    have hitems : (Access.buffer items.length).Ok := (scanHeader_length hheader).trans_lt hbuf
    have htest := runTest_bounds config.mode row column config.param items
    have hgoal : (∀ row' column' items', some (row, column, items) = some (row', column', items') →
        TestFits config.mode row' column' config.param (itemsOf items')) ↔
        TestFits config.mode row column config.param (itemsOf items) := by
      constructor
      · intro h
        exact h row column items rfl
      · intro h row' column' items' heq
        cases heq
        exact h
    rw [hgoal, ← htest]
    dsimp only
    cases runTest config.mode row column config.param items with
    | none =>
      refine iff_of_true ?_ fun r hr => nomatch hr
      exact (List.forall_mem_singleton).mpr hitems
    | some r =>
      show (∀ a ∈ [.buffer items.length] ++ r.trace, Access.Ok a) ↔ _
      rw [List.forall_mem_append, List.forall_mem_singleton]
      simp only [Option.mem_def, Option.some.injEq, forall_eq']
      exact and_iff_right hitems

theorem step_bounds (r : Round) :
    (∀ step ∈ r.step, ∀ a ∈ step.trace, a.Ok) ↔ r.Fits := by
  unfold Round.step Round.Fits
  cases hread : readDiag dataLen [] r.answers with
  | none => exact iff_of_true (fun _ h => nomatch h) fun _ h => nomatch h
  | some buf =>
    simp only [Option.some.injEq, forall_eq']
    by_cases hblank : buf = [] ∨ buf.head? = some '\x00'
    · rw [if_pos hblank]
      refine iff_of_true (fun step hstep => ?_) fun hne hhead => ?_
      · cases hstep
        exact List.forall_mem_nil _
      · exact absurd hblank (not_or.mpr ⟨hne, hhead⟩)
    rw [if_neg hblank]
    obtain ⟨hne, hhead⟩ := not_or.mp hblank
    simp only [Option.mem_def, Option.some.injEq, forall_eq', List.forall_mem_cons]
    have htext : (buf.takeWhile (· ≠ '\x00')).length ≤ buf.length :=
      (List.takeWhile_sublist _).length_le
    constructor
    · intro h _ _
      exact ⟨h.1, (dispatch_bounds (Nat.lt_of_le_of_lt htext h.1)).mp h.2⟩
    · intro h
      obtain ⟨hbuf, htest⟩ := h hne hhead
      exact ⟨hbuf, (dispatch_bounds (Nat.lt_of_le_of_lt htext hbuf)).mpr htest⟩

/-- In all rounds up to the first whose read fails, nothing is written outside the buffer,
and each test stays within its array and divides by nothing that is 0, exactly when the
text leaves a byte of the buffer free and the panel has a place for each item up to the
one where the test stops. -/
theorem bounded_iff (rounds : List Round) :
    (∀ a ∈ loop rounds, a.Ok) ↔ ∀ r ∈ reached rounds, r.Fits := by
  induction rounds with
  | nil => exact iff_of_true (List.forall_mem_nil _) (List.forall_mem_nil _)
  | cons r rounds ih =>
    have hstep := step_bounds r
    unfold loop reached
    cases hread : readDiag dataLen [] r.answers with
    | none =>
      have hend : r.step = none := by rw [Round.step, hread]
      rw [hend, List.takeWhile_cons, hread]
      exact iff_of_true (List.forall_mem_nil _) (List.forall_mem_nil _)
    | some buf =>
      obtain ⟨step, hnext⟩ : ∃ step, r.step = some step := by
        rw [Round.step, hread]
        dsimp only
        split
        · exact ⟨_, rfl⟩
        · exact ⟨_, rfl⟩
      rw [hnext] at hstep ⊢
      simp only [Option.mem_def, Option.some.injEq, forall_eq'] at hstep
      rw [List.takeWhile_cons, hread]
      show (∀ a ∈ step.trace ++ loop rounds, a.Ok) ↔ ∀ r' ∈ r :: reached rounds, r'.Fits
      rw [List.forall_mem_append, List.forall_mem_cons, hstep, ih]

/-- One item for a panel of one place: the null pointer behind it is written to a second. -/
theorem bounded_fails_exact :
    ¬ ∀ a ∈ loop [⟨"1:9:0:0".toList, [some "Channel: 1 * 1\n 5".toList]⟩], a.Ok := by
  decide

end AndroidLearn.Touchtest
