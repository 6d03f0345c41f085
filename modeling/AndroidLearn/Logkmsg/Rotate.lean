import Mathlib.Logic.Function.Basic

/-!
# The rotation of log files

`f` is renamed to `f.1`, `f.1` to `f.2` and so on, the oldest first, so that only the
oldest is overwritten. `rotate_file` (of `logrpm.c`, `logtouch.c` and `touchtest.c`, each
with a copy of its own) stops at a rename that fails, and then opens `f` and truncates it;
`logkmsg_rotate_logs` of `klogcat/logkmsg.c` goes on after it.

A file is named by its number, 0 for `f`, and holds what it held at first (`Content`), so
that one sees where each has come to. A rename fails with any error, a file that is not
there is no failure, and `fopen` may refuse a file. The names and the count as they are
printed and read are in `RotateNames`.

Both do a number of moves, of which each failure leaves one out (`Moves`, `MovesOn`); what
is where afterwards follows from the moves alone (`shifted_eq_some_iff`).

Theorem: `rotation_iff` says for which failures nothing but the oldest file is lost, for
both routines.
-/

namespace AndroidLearn.Logkmsg

/-! ## The files -/

/-- What a file holds: what `f.i` held before, or nothing yet. -/
inductive Content
  | of (i : Nat)
  | fresh
  deriving DecidableEq, Repr

/-- `f` is file 0, and `f.i` is file `i`. -/
abbrev Files := Nat → Option Content

/-- The files as they are before the rotation. -/
def Files.init (present : Nat → Bool) : Files := fun i => if present i then some (.of i) else none

/-- What a call may fail with, as far as it matters. -/
inductive Errno
  | enoent
  | other
  deriving DecidableEq, Repr

/-- A file is renamed, over the one that is there. -/
def Files.move (fs : Files) (src dst : Nat) : Files :=
  fun i => if i = dst then fs src else if i = src then none else fs i

/-- `rename`: the files after it, and its error. If nothing else is wrong, it fails
without a source. -/
def Files.rename (fs : Files) (src dst : Nat) (error : Option Errno) : Files × Option Errno :=
  match error with
  | some e => (fs, some e)
  | none => if (fs src).isSome then (fs.move src dst, none) else (fs, some .enoent)

/-! ## The two routines -/

/-- The loop of `rotate_file`; `error i` is what is wrong with the rename to `f.i`. -/
def rotateLoop (error : Nat → Option Errno) : Nat → Files → Files
  | 0, fs => fs
  | i + 1, fs =>
    let (fs, e) := fs.rename i (i + 1) (error (i + 1))
    -- any error but ENOENT breaks
    if e = some .other then fs else rotateLoop error i fs

/-- `rotate_file`, with a file name set. -/
def rotateFile (rotate : Nat) (error : Nat → Option Errno) (opens : Bool) (fs : Files) : Files :=
  let fs := rotateLoop error rotate fs
  -- O_CREAT | O_RDWR | O_TRUNC
  if opens then Function.update fs 0 (some .fresh) else fs

/-- `logkmsg_rotate_logs`. A file other than `f` is moved only if `fopen` can read it. -/
def logkmsgRotateLogs (error : Nat → Option Errno) (readable : Nat → Bool) : Nat → Files → Files
  | 0, fs => fs
  | i + 1, fs =>
    if i ≠ 0 ∧ ¬((fs i).isSome ∧ readable i) then logkmsgRotateLogs error readable i fs
    else logkmsgRotateLogs error readable i (fs.rename i (i + 1) (error (i + 1))).1

/-! ## The moves -/

/-- The moves of a rotation, from the oldest file on; `moves i` says that `f.i` is moved. -/
def shift (moves : Nat → Prop) [DecidablePred moves] : Nat → Files → Files
  | 0, fs => fs
  | i + 1, fs => shift moves i (if moves i then fs.move i (i + 1) else fs)

/-- `rotate_file` moves `f.i`: it is there, its rename has no error, and none before it
stopped the loop. -/
def Moves (present : Nat → Bool) (rotate : Nat) (error : Nat → Option Errno) (i : Nat) : Prop :=
  i < rotate ∧ present i ∧ error (i + 1) = none ∧ ∀ j ≤ rotate, i + 1 < j → error j ≠ some .other

/-- `klogcat` moves `f.i`. -/
def MovesOn (present : Nat → Bool) (count : Nat) (error : Nat → Option Errno)
    (readable : Nat → Bool) (i : Nat) : Prop :=
  i < count ∧ present i ∧ error (i + 1) = none ∧ (i = 0 ∨ readable i)

instance (present : Nat → Bool) (rotate : Nat) (error : Nat → Option Errno) :
    DecidablePred (Moves present rotate error) :=
  fun _ => inferInstanceAs (Decidable (_ ∧ _ ∧ _ ∧ _))

instance (present : Nat → Bool) (count : Nat) (error : Nat → Option Errno)
    (readable : Nat → Bool) : DecidablePred (MovesOn present count error readable) :=
  fun _ => inferInstanceAs (Decidable (_ ∧ _ ∧ _ ∧ _))

/-- The property: every file but the oldest is still there, under some name, and so is
`f` in any case. -/
def Kept (present : Nat → Bool) (rotate : Nat) (fs : Files) : Prop :=
  ∀ i, i < rotate ∨ i = 0 → present i → ∃ j, fs j = some (.of i)

/-- The condition: a file that the next newer one is moved to is moved itself. -/
def MovedFirst (present : Nat → Bool) (rotate : Nat) (moves : Nat → Prop) : Prop :=
  ∀ i, i + 1 < rotate → present (i + 1) → moves i → moves (i + 1)

/-- A place is free when the file there has moved. -/
theorem MovedFirst.free {present : Nat → Bool} {rotate : Nat} {moves : Nat → Prop}
    (h : MovedFirst present rotate moves) {i : Nat} (hi : i < rotate ∨ i = 0)
    (hpresent : present i = true) (hstay : ¬ moves i) : ¬(0 < i ∧ moves (i - 1)) := by
  intro hpair
  obtain ⟨hpos, hnewer⟩ := hpair
  obtain ⟨k, rfl⟩ := Nat.exists_eq_succ_of_ne_zero (Nat.ne_of_gt hpos)
  exact hstay (h k (by omega) hpresent hnewer)

section Shift

variable {present : Nat → Bool} {rotate : Nat} {moves : Nat → Prop} [DecidablePred moves]

/-- Where nothing moves everything stays. -/
theorem shift_none {i : Nat} {fs : Files} (h : ∀ j < i, ¬ moves j) : shift moves i fs = fs := by
  induction i with
  | zero => rfl
  | succ i ih =>
    rw [shift, if_neg (h i (Nat.lt_succ_self i))]
    exact ih fun j hj => h j (Nat.lt_succ_of_lt hj)

/-- Where the files are when `f.first` and all older ones have had their turn. -/
def shifted (present : Nat → Bool) (moves : Nat → Prop) [DecidablePred moves] (first : Nat) : Files :=
  fun j =>
    if first < j ∧ moves (j - 1) then some (.of (j - 1))
    else if first ≤ j ∧ moves j then none
    else Files.init present j

/-- A file that has not had its turn is still there. -/
theorem shifted_below {first j : Nat} (h : j < first) :
    shifted present moves first j = Files.init present j := by
  rw [shifted, if_neg (by omega), if_neg (by omega)]

/-- Nothing has moved above the last. -/
theorem shifted_rotate {rotate : Nat} (hmoves : ∀ i, moves i → i < rotate) :
    shifted present moves rotate = Files.init present := by
  funext j
  unfold shifted
  rw [if_neg, if_neg]
  · intro hmoved
    exact absurd (hmoves j hmoved.2) (by omega)
  · intro hmoved
    exact absurd (hmoves _ hmoved.2) (by omega)

/-- One turn. -/
theorem shifted_step (hpresent : ∀ i, moves i → present i = true) (i : Nat) :
    (if moves i then (shifted present moves (i + 1)).move i (i + 1)
      else shifted present moves (i + 1)) = shifted present moves i := by
  funext j
  by_cases hi : moves i
  · rw [if_pos hi, Files.move, shifted_below (Nat.lt_succ_self i), Files.init, hpresent i hi]
    rcases Nat.lt_trichotomy j i with hlt | rfl | hgt
    · rw [if_neg (by omega), if_neg (by omega), shifted_below hlt, shifted_below (by omega)]
    · simp [shifted, hi]
    · by_cases hj : j = i + 1
      · simp [shifted, hj, hi]
      · simp only [shifted, if_neg hj, if_neg (show j ≠ i by omega), show i + 1 < j by omega,
          show i < j by omega, show i + 1 ≤ j by omega, show i ≤ j by omega]
  · rw [if_neg hi]
    rcases Nat.lt_trichotomy j i with hlt | rfl | hgt
    · rw [shifted_below hlt, shifted_below (by omega)]
    · rw [shifted_below (Nat.lt_succ_self j)]
      simp [shifted, hi]
    · by_cases hj : j = i + 1
      · simp [shifted, hj, hi]
      · simp only [shifted, show i + 1 < j by omega, show i < j by omega,
          show i + 1 ≤ j by omega, show i ≤ j by omega]

/-- The moves from the top down. -/
theorem shift_shifted (hpresent : ∀ i, moves i → present i = true) :
    ∀ i, shift moves i (shifted present moves i) = shifted present moves 0
  | 0 => rfl
  | i + 1 => by
    rw [shift, shifted_step hpresent]
    exact shift_shifted hpresent i

/-- A file is where it was or one further, or it is overwritten. -/
theorem shifted_eq_some_iff {i j : Nat} (hpresent : present i = true) :
    shifted present moves 0 j = some (.of i) ↔
      j = i + 1 ∧ moves i ∨ j = i ∧ ¬ moves i ∧ ¬(0 < i ∧ moves (i - 1)) := by
  unfold shifted Files.init
  constructor
  · intro h
    split at h
    · next hmoved =>
      obtain rfl : j - 1 = i := by simpa using h
      exact .inl ⟨by omega, hmoved.2⟩
    split at h
    · exact absurd h (by simp)
    next hfree hstay =>
      obtain rfl : j = i := by
        split at h
        · simpa using h
        · exact absurd h (by simp)
      exact .inr ⟨rfl, fun hj => hstay ⟨Nat.zero_le _, hj⟩, hfree⟩
  · intro hplace
    rcases hplace with ⟨rfl, hi⟩ | ⟨rfl, hi, hfree⟩
    · rw [if_pos ⟨Nat.succ_pos _, hi⟩]
      rfl
    · rw [if_neg hfree, if_neg (by simp [hi]), if_pos hpresent]

/-- No file is lost when each has moved before it is overwritten. -/
theorem shifted_kept_iff :
    Kept present rotate (shifted present moves 0) ↔ MovedFirst present rotate moves := by
  constructor
  · intro h i hi hpresent hnewer
    obtain ⟨j, hj⟩ := h (i + 1) (.inl hi) hpresent
    rcases (shifted_eq_some_iff hpresent).mp hj with ⟨-, hmoves⟩ | ⟨-, -, hfree⟩
    · exact hmoves
    · exact absurd ⟨Nat.succ_pos i, hnewer⟩ hfree
  · intro h i hi hpresent
    by_cases hmoves : moves i
    · exact ⟨i + 1, (shifted_eq_some_iff hpresent).mpr (.inl ⟨rfl, hmoves⟩)⟩
    · exact ⟨i, (shifted_eq_some_iff hpresent).mpr (.inr ⟨rfl, hmoves, h.free hi hpresent hmoves⟩)⟩

/-- When `f` is truncated, it must have been moved as well. -/
theorem shifted_opened_kept_iff :
    Kept present rotate (Function.update (shifted present moves 0) 0 (some .fresh)) ↔
      MovedFirst present rotate moves ∧ (present 0 = true → moves 0) := by
  constructor
  · intro h
    have hkept (i : Nat) (hi : i < rotate ∨ i = 0) (hpresent : present i = true) :
        moves i ∨ i ≠ 0 ∧ ¬(0 < i ∧ moves (i - 1)) := by
      obtain ⟨j, hj⟩ := h i hi hpresent
      rw [Function.update_apply] at hj
      split at hj
      · exact absurd hj (by simp)
      rcases (shifted_eq_some_iff hpresent).mp hj with ⟨-, hmoves⟩ | ⟨rfl, -, hfree⟩
      · exact .inl hmoves
      · exact .inr ⟨‹_›, hfree⟩
    refine ⟨fun i hi hpresent hnewer => ?_, fun hpresent => ?_⟩
    · rcases hkept (i + 1) (.inl hi) hpresent with hmoves | ⟨-, hfree⟩
      · exact hmoves
      · exact absurd ⟨Nat.succ_pos i, hnewer⟩ hfree
    · rcases hkept 0 (.inr rfl) hpresent with hmoves | ⟨hne, -⟩
      · exact hmoves
      · exact absurd rfl hne
  · intro hboth i hi hpresent
    obtain ⟨h, hfirst⟩ := hboth
    by_cases hmoves : moves i
    · refine ⟨i + 1, ?_⟩
      rw [Function.update_of_ne (Nat.succ_ne_zero i)]
      exact (shifted_eq_some_iff hpresent).mpr (.inl ⟨rfl, hmoves⟩)
    · refine ⟨i, ?_⟩
      have hne : i ≠ 0 := by
        intro hzero
        subst hzero
        exact hmoves (hfirst hpresent)
      rw [Function.update_of_ne hne]
      exact (shifted_eq_some_iff hpresent).mpr (.inr ⟨rfl, hmoves, h.free hi hpresent hmoves⟩)

end Shift

/-! ## The routines are such rotations -/

section Routines

variable {present : Nat → Bool} {rotate : Nat} {error : Nat → Option Errno}
  {readable : Nat → Bool}

/-- A rename that comes through is a move. -/
theorem rename_moves {fs : Files} {i : Nat} (hfs : fs i = Files.init present i) :
    (fs.rename i (i + 1) (error (i + 1))).1 =
      if present i = true ∧ error (i + 1) = none then fs.move i (i + 1) else fs := by
  unfold Files.rename
  cases herror : error (i + 1) with
  | some e => simp
  | none => cases hi : present i <;> simp [hfs, Files.init, hi]

/-- What a rename fails with. -/
theorem rename_error {fs : Files} {src dst : Nat} {e : Option Errno} :
    (fs.rename src dst e).2 = some .other ↔ e = some .other := by
  unfold Files.rename
  cases e with
  | some e => simp
  | none => cases hsrc : (fs src).isSome <;> simp

/-- What is still to be moved is not touched by a move. -/
theorem move_below {fs : Files} {i : Nat} (hfs : ∀ j < i + 1, fs j = Files.init present j) :
    ∀ j < i, fs.move i (i + 1) j = Files.init present j := by
  intro j hj
  rw [Files.move, if_neg (by omega), if_neg (by omega)]
  exact hfs j (by omega)

/-- The loop of `rotate_file`, from where nothing has stopped it. -/
theorem rotateLoop_eq :
    ∀ {i : Nat} {fs : Files}, i ≤ rotate → (∀ j < i, fs j = Files.init present j) →
      (∀ j ≤ rotate, i < j → error j ≠ some .other) →
      rotateLoop error i fs = shift (Moves present rotate error) i fs
  | 0, _, _, _, _ => rfl
  | i + 1, fs, hi, hfs, hgoes => by
    rw [rotateLoop]
    dsimp only
    simp only [rename_error]
    split
    · next hstop =>
      -- nothing is moved any more
      have hnext : (fs.rename i (i + 1) (error (i + 1))).1 = fs := by
        rw [rename_moves (hfs i (Nat.lt_succ_self i)), if_neg (by simp [hstop])]
      rw [hnext]
      refine (shift_none fun j hj hmoves => ?_).symm
      rcases Nat.lt_or_ge j i with hlt | hge
      · exact hmoves.2.2.2 (i + 1) hi (by omega) hstop
      · obtain rfl : j = i := by omega
        exact absurd hmoves.2.2.1 (by simp [hstop])
    · next hgo =>
      have hgoes' : ∀ j ≤ rotate, i < j → error j ≠ some .other := by
        intro j hj hlt
        rcases Nat.lt_or_ge (i + 1) j with hbehind | hhere
        · exact hgoes j hj hbehind
        · obtain rfl : j = i + 1 := by omega
          exact hgo
      have hmoves : (present i = true ∧ error (i + 1) = none) ↔ Moves present rotate error i :=
        ⟨fun h => ⟨hi, h.1, h.2, hgoes⟩, fun h => ⟨h.2.1, h.2.2.1⟩⟩
      rw [shift, rename_moves (hfs i (Nat.lt_succ_self i))]
      simp only [hmoves]
      refine rotateLoop_eq (by omega) ?_ hgoes'
      split
      · exact move_below hfs
      · exact fun j hj => hfs j (by omega)

/-- The loop moves the files from the top down. -/
theorem logkmsgRotateLogs_eq :
    ∀ {i : Nat} {fs : Files}, i ≤ rotate → (∀ j < i, fs j = Files.init present j) →
      logkmsgRotateLogs error readable i fs = shift (MovesOn present rotate error readable) i fs
  | 0, _, _, _ => rfl
  | i + 1, fs, hi, hfs => by
    have hsource := hfs i (Nat.lt_succ_self i)
    have hthere : (fs i).isSome = present i := by
      rw [hsource, Files.init]
      cases present i <;> rfl
    rw [logkmsgRotateLogs, shift]
    split
    · next hskip =>
      rw [hthere] at hskip
      rw [if_neg (fun hmoves : MovesOn _ _ _ _ _ =>
        hskip.2 ⟨hmoves.2.1, hmoves.2.2.2.resolve_left hskip.1⟩)]
      exact logkmsgRotateLogs_eq (by omega) fun j hj => hfs j (by omega)
    · next hopen =>
      have hmoves : (present i = true ∧ error (i + 1) = none) ↔
          MovesOn present rotate error readable i := by
        refine ⟨fun h => ⟨hi, h.1, h.2, ?_⟩, fun h => ⟨h.2.1, h.2.2.1⟩⟩
        rw [hthere] at hopen
        by_contra hnot
        rw [not_or] at hnot
        exact hopen ⟨hnot.1, fun hreadable => hnot.2 hreadable.2⟩
      rw [rename_moves hsource]
      simp only [hmoves]
      refine logkmsgRotateLogs_eq (by omega) ?_
      split
      · exact move_below hfs
      · exact fun j hj => hfs j (by omega)

theorem rotateLoop_init :
    rotateLoop error rotate (.init present) = shifted present (Moves present rotate error) 0 := by
  have hstart : shifted present (Moves present rotate error) rotate = .init present :=
    shifted_rotate fun i h => h.1
  rw [rotateLoop_eq (Nat.le_refl _) (fun _ _ => rfl) (by omega), ← hstart]
  exact shift_shifted (fun i h => h.2.1) rotate

/-- The files behind the loop. -/
theorem logkmsgRotateLogs_init :
    logkmsgRotateLogs error readable rotate (.init present) =
      shifted present (MovesOn present rotate error readable) 0 := by
  have hstart : shifted present (MovesOn present rotate error readable) rotate = .init present :=
    shifted_rotate fun i h => h.1
  rw [logkmsgRotateLogs_eq (Nat.le_refl _) fun _ _ => rfl, ← hstart]
  exact shift_shifted (fun i h => h.2.1) rotate

/-- When `rotate_file` loses nothing. -/
theorem rotateFile_kept_iff (opens : Bool) :
    Kept present rotate (rotateFile rotate error opens (.init present)) ↔
      MovedFirst present rotate (Moves present rotate error) ∧
        (opens = true → present 0 = true → Moves present rotate error 0) := by
  rw [rotateFile, rotateLoop_init]
  cases opens with
  | false => simpa using shifted_kept_iff
  | true => simpa using shifted_opened_kept_iff

/-- When `logkmsg_rotate_logs` loses nothing. -/
theorem logkmsgRotateLogs_kept_iff :
    Kept present rotate (logkmsgRotateLogs error readable rotate (.init present)) ↔
      MovedFirst present rotate (MovesOn present rotate error readable) := by
  rw [logkmsgRotateLogs_init]
  exact shifted_kept_iff

end Routines

/-- Either rotation loses the oldest file at most exactly when a file is moved on before
the next newer one takes its place; `rotate_file` moreover only if `f`, when it is there
and is opened, is moved. -/
theorem rotation_iff (present : Nat → Bool) (rotate : Nat) (error : Nat → Option Errno)
    (opens : Bool) (readable : Nat → Bool) :
    (Kept present rotate (rotateFile rotate error opens (.init present)) ↔
      MovedFirst present rotate (Moves present rotate error) ∧
        (opens = true → present 0 = true → Moves present rotate error 0)) ∧
    (Kept present rotate (logkmsgRotateLogs error readable rotate (.init present)) ↔
      MovedFirst present rotate (MovesOn present rotate error readable)) :=
  ⟨rotateFile_kept_iff opens, logkmsgRotateLogs_kept_iff⟩

/-- `f` cannot be renamed, and is truncated all the same. -/
theorem rotation_fails_truncated :
    ¬ Kept (fun i => i = 0) 1 (rotateFile 1 (fun _ => some .other) true (.init fun i => i = 0)) := by
  rw [rotateFile_kept_iff]
  rintro ⟨-, hmoved⟩
  exact absurd (hmoved rfl rfl).2.2.1 (by decide)

end AndroidLearn.Logkmsg
