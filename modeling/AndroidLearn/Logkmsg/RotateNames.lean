import AndroidLearn.Conf.Conf
import AndroidLearn.Logkmsg.Rotate
import Mathlib.Order.Basic

/-!
# The names of a rotation

`logkmsg_rotate_logs` of `klogcat/logkmsg.c` as it is written: on names, which it prints
into buffers of `PATH_MAX` bytes, and with the count of the option `-n`, any `int`. Names
are taken to fit (`Fits`): the name of the log with the largest number behind it is
shorter than the buffer. Then it does on them what `logkmsgRotateLogs` does on numbers
(`renameLoop_simulates`): two numbers have different names (`nameOf_injective`), and the
files under them are those of `Rotate` (`Disk.files`).

A file other than `f` that `fopen` cannot read is skipped, so that the next newer one is
renamed over it; and with a count that is not positive nothing is moved.

Theorem: `rotated_iff` says when all files are shifted by one and only the oldest is
overwritten, for every set of files, count and outcome of the calls.
-/

namespace AndroidLearn.Logkmsg

open Conf (CString)

/-! ## Names and files -/

/-- `PATH_MAX` -/
def pathMax : Nat := 4096

/-- What `snprintf` leaves of a name in a buffer of `PATH_MAX` bytes. -/
def buffered (name : CString) : CString := name.take (pathMax - 1)

/-- `f`, and `"%s.%d"` behind it. -/
def nameOf (f : CString) (i : Nat) : CString :=
  if i = 0 then f else f ++ '.' :: Nat.toDigits 10 i

/-- What is under a name: what `f.i` was before the rotation. -/
abbrev Disk := CString → Option Nat

/-- The files as they are before the rotation, by name. -/
def Disk.init (f : CString) (present : Nat → Bool) (count : Nat) : Disk :=
  fun name => (List.range (count + 1)).find? fun i => present i && name == nameOf f i

/-- A rename over a file that is there. -/
structure Overwrite where
  moved : Nat
  lost : Nat
  deriving DecidableEq

/-- `rename`, when nothing is wrong but perhaps the source. -/
def Disk.rename (d : Disk) (src dst : CString) : Disk × List Overwrite :=
  match d src with
  | none => (d, [])
  | some moved =>
    if src = dst then (d, [])
    else
      (fun name => if name = dst then some moved else if name = src then none else d name,
        (d dst).toList.map fun lost => ⟨moved, lost⟩)

/-! ## The routine -/

/-- The loop; `readable i` says that `fopen` can read what `f.i` was before. -/
def renameLoop (f : CString) (readable : Nat → Bool) : Nat → Disk → Disk × List Overwrite
  | 0, d => (d, [])
  | i + 1, d =>
    let bufferfile2 := buffered (nameOf f (i + 1))
    let bufferfile1 := buffered (nameOf f i)
    if i ≠ 0 ∧ ¬ (d bufferfile1).any readable then renameLoop f readable i d
    else
      let (d, overwrites) := d.rename bufferfile1 bufferfile2
      let (d, more) := renameLoop f readable i d
      (d, overwrites ++ more)

/-- `logkmsg_rotate_logs` with `m_nCount`. -/
def rotateLogs (f : CString) (readable : Nat → Bool) (count : Int) (d : Disk) :
    Disk × List Overwrite :=
  renameLoop f readable count.toNat d

/-! ## Names that fit -/

/-- Every name fits into the buffer. -/
def Fits (f : CString) (count : Nat) : Prop := ∀ i ≤ count, (nameOf f i).length < pathMax

theorem Fits.buffered_eq {f : CString} {count : Nat} (h : Fits f count) {i : Nat} (hi : i ≤ count) :
    buffered (nameOf f i) = nameOf f i :=
  List.take_of_length_le (Nat.le_sub_one_of_lt (h i hi))

/-- No two files have one name. -/
theorem nameOf_injective (f : CString) : Function.Injective (nameOf f) := by
  intro i j h
  unfold nameOf at h
  split at h <;> split at h
  · omega
  · have hlength := congrArg List.length h
    simp at hlength
  · have hlength := congrArg List.length h
    simp at hlength
  · have hdigits := (List.cons.inj (List.append_cancel_left h)).2
    rw [← Nat.ofDigitChars_ten_toDigits (n := i), hdigits, Nat.ofDigitChars_ten_toDigits]

theorem nameOf_inj {f : CString} {i j : Nat} : nameOf f i = nameOf f j ↔ i = j :=
  (nameOf_injective f).eq_iff

/-- The files of a rotation, by number. -/
def Disk.files (f : CString) (d : Disk) : Files := fun i => (d (nameOf f i)).map .of

/-- The files among `f`, `f.1`, ..., `f.count` that are there. -/
def presentTo (present : Nat → Bool) (count : Nat) : Nat → Bool :=
  fun i => present i && decide (i ≤ count)

/-- Which file a name is of. -/
theorem init_nameOf (f : CString) (present : Nat → Bool) (count i : Nat) :
    Disk.init f present count (nameOf f i) = if presentTo present count i then some i else none := by
  unfold Disk.init presentTo
  cases hfind : (List.range (count + 1)).find? fun j => present j && nameOf f i == nameOf f j with
  | none =>
    have hnone := List.find?_eq_none.mp hfind
    rw [if_neg]
    intro h
    rw [Bool.and_eq_true, decide_eq_true_eq] at h
    exact hnone i (List.mem_range.mpr (Nat.lt_succ_of_le h.2)) (by simp [h.1])
  | some j =>
    have hmem := List.mem_range.mp (List.mem_of_find?_eq_some hfind)
    have hj := List.find?_some hfind
    simp only [Bool.and_eq_true, beq_iff_eq, nameOf_inj] at hj
    obtain ⟨hpresent, rfl⟩ := hj
    rw [if_pos]
    simp [hpresent, Nat.le_of_lt_succ hmem]

theorem files_init (f : CString) (present : Nat → Bool) (count : Nat) :
    (Disk.init f present count).files f = .init (presentTo present count) := by
  funext i
  unfold Disk.files Files.init
  rw [init_nameOf]
  split <;> rfl

theorem files_rename {f : CString} {d : Disk} {i : Nat} :
    (d.rename (nameOf f i) (nameOf f (i + 1))).1.files f =
      ((d.files f).rename i (i + 1) none).1 := by
  unfold Disk.rename Files.rename
  cases hsrc : d (nameOf f i) with
  | none => simp [Disk.files, hsrc]
  | some moved =>
    have hne : nameOf f i ≠ nameOf f (i + 1) := fun h => by simp [nameOf_inj] at h
    have hfile : d.files f i = some (.of moved) := by simp [Disk.files, hsrc]
    simp only [hne, if_false, hfile, Option.isSome_some, if_true]
    funext j
    show (if nameOf f j = nameOf f (i + 1) then some moved
      else if nameOf f j = nameOf f i then none else d (nameOf f j)).map Content.of = _
    simp only [Files.move, nameOf_inj, hfile]
    split
    · rfl
    · split <;> rfl

/-- It is enough that the longest name fits. -/
theorem fits_of_lt {f : CString} {count : Nat}
    (h : f.length + 1 + (Nat.toDigits 10 count).length < pathMax) : Fits f count := by
  intro i hi
  have hdigits : (Nat.toDigits 10 i).length ≤ (Nat.toDigits 10 count).length := by
    have hpos := Nat.length_toDigits_pos (b := 10) (n := count)
    rw [Nat.length_toDigits_le_iff (by omega) hpos]
    exact Nat.lt_of_le_of_lt hi
      ((Nat.length_toDigits_le_iff (by omega) hpos).mp (Nat.le_refl _))
  unfold nameOf
  split
  · omega
  · rw [List.length_append, List.length_cons]
    omega

/-! ## One rotation -/

/-- The disk when `f.i` has its turn: `f`, ..., `f.(i-1)` are as they were, and so is
`f.i` unless it has been moved. -/
structure Turn (f : CString) (present : Nat → Bool) (i : Nat) (d : Disk) : Prop where
  below : ∀ j < i, d (nameOf f j) = if present j then some j else none
  here : ∀ lost, d (nameOf f i) = some lost → lost = i

/-- A turn that does nothing. -/
theorem Turn.skip {f : CString} {present : Nat → Bool} {i : Nat} {d : Disk}
    (h : Turn f present (i + 1) d) : Turn f present i d := by
  refine ⟨fun j hj => h.below j (Nat.lt_succ_of_lt hj), ?_⟩
  intro lost hlost
  rw [h.below i (Nat.lt_succ_self i)] at hlost
  split at hlost
  · exact (Option.some.inj hlost).symm
  · exact absurd hlost (by simp)

/-- A turn that renames a file into a free place. -/
theorem Turn.rename {f : CString} {present : Nat → Bool} {i : Nat} {d : Disk}
    (h : Turn f present (i + 1) d) :
    Turn f present i (d.rename (nameOf f i) (nameOf f (i + 1))).1 ∧
    ∀ o ∈ (d.rename (nameOf f i) (nameOf f (i + 1))).2, o.moved < o.lost := by
  have hsource := h.below i (Nat.lt_succ_self i)
  have hne : nameOf f i ≠ nameOf f (i + 1) := fun h => by simp [nameOf_inj] at h
  unfold Disk.rename
  cases hsrc : d (nameOf f i) with
  | none => exact ⟨h.skip, List.forall_mem_nil _⟩
  | some moved =>
    have hmoved : moved = i := h.skip.here moved hsrc
    simp only [hne, if_false]
    refine ⟨⟨?_, ?_⟩, ?_⟩
    · intro j hj
      show (if nameOf f j = nameOf f (i + 1) then _ else if nameOf f j = nameOf f i then _ else _) = _
      rw [if_neg (nameOf_inj.not.mpr (by omega)), if_neg (nameOf_inj.not.mpr (by omega))]
      exact h.below j (by omega)
    · intro lost hlost
      simp [hne] at hlost
    · intro o ho
      obtain ⟨lost, hlost, rfl⟩ := List.mem_map.mp ho
      have heq := h.here lost (by simpa using hlost)
      show moved < lost
      omega

/-- On names that fit, the loop does what the loop on numbers does, and each file that
is overwritten is overwritten by a newer one. -/
theorem renameLoop_simulates {f : CString} {count : Nat} (hfits : Fits f count)
    {present : Nat → Bool} (readable : Nat → Bool) :
    ∀ {i : Nat} {d : Disk}, i ≤ count → Turn f present i d →
      (renameLoop f readable i d).1.files f =
        logkmsgRotateLogs (fun _ => none) readable i (d.files f) ∧
      ∀ o ∈ (renameLoop f readable i d).2, o.moved < o.lost
  | 0, _, _, _ => ⟨rfl, List.forall_mem_nil _⟩
  | i + 1, d, hi, h => by
    have hsource := h.below i (Nat.lt_succ_self i)
    have hopen : (d (nameOf f i)).any readable = true ↔ (d.files f i).isSome ∧ readable i := by
      rw [Disk.files, hsource]
      cases present i <;> simp
    rw [renameLoop, logkmsgRotateLogs]
    simp only [hfits.buffered_eq hi, hfits.buffered_eq (Nat.le_of_succ_le hi), hopen]
    split
    · exact renameLoop_simulates hfits readable (Nat.le_of_succ_le hi) h.skip
    · obtain ⟨hturn, hnewer⟩ := h.rename
      obtain ⟨hfiles, hmore⟩ := renameLoop_simulates hfits readable
        (Nat.le_of_succ_le hi) hturn
      refine ⟨?_, ?_⟩
      · rw [← files_rename]
        exact hfiles
      · intro o ho
        rcases List.mem_append.mp ho with ho | ho
        · exact hnewer o ho
        · exact hmore o ho

/-- The rotation renames `f.i`. -/
def Renames (present readable : Nat → Bool) (count i : Nat) : Prop :=
  i < count ∧ present i ∧ (i = 0 ∨ readable i)

/-- Which files move. -/
theorem movesOn_iff {present readable : Nat → Bool} {count i : Nat} :
    MovesOn (presentTo present count) count (fun _ => none) readable i ↔
      Renames present readable count i := by
  unfold MovesOn Renames presentTo
  rw [Bool.and_eq_true, decide_eq_true_eq]
  constructor
  · intro h
    exact ⟨h.1, h.2.1.1, h.2.2.2⟩
  · intro h
    exact ⟨h.1, ⟨h.2.1, Nat.le_of_lt h.1⟩, rfl, h.2.2⟩

/-- A file that was moved was there. -/
theorem present_of_shifted {present : Nat → Bool} {moves : Nat → Prop} [DecidablePred moves]
    (hmoves : ∀ i, moves i → present i = true) {i x : Nat}
    (h : shifted present moves 0 i = some (.of x)) : present x = true := by
  unfold shifted Files.init at h
  split at h
  next hmoved =>
    obtain rfl : i - 1 = x := by simpa using h
    exact hmoves _ hmoved.2
  next =>
    split at h
    · exact absurd h (by simp)
    split at h
    next hpresent =>
      obtain rfl : i = x := by simpa using h
      exact hpresent
    · exact absurd h (by simp)

section Result

variable {f : CString} {present readable : Nat → Bool} {count : Int}

/-- The first turn. -/
theorem turn_init :
    Turn f (presentTo present count.toNat) count.toNat (.init f present count.toNat) := by
  refine ⟨fun j _ => init_nameOf f present _ j, fun lost hlost => ?_⟩
  rw [init_nameOf] at hlost
  split at hlost
  · exact (Option.some.inj hlost).symm
  · exact absurd hlost (by simp)

/-- Where the files are after a rotation. -/
theorem rotateLogs_eq_some_iff (hfits : Fits f count.toNat) {i x : Nat} :
    (rotateLogs f readable count (.init f present count.toNat)).1 (nameOf f i) = some x ↔
      i = x + 1 ∧ Renames present readable count.toNat x ∨
      i = x ∧ presentTo present count.toNat x = true ∧
        ¬ Renames present readable count.toNat x ∧
        ¬ (0 < x ∧ Renames present readable count.toNat (x - 1)) := by
  obtain ⟨hfiles, -⟩ := renameLoop_simulates hfits readable (Nat.le_refl _)
    (show Turn f (presentTo present count.toNat) count.toNat _ from turn_init)
  rw [files_init, logkmsgRotateLogs_init] at hfiles
  have hdisk : (rotateLogs f readable count (.init f present count.toNat)).1 (nameOf f i) = some x ↔
      shifted (presentTo present count.toNat)
        (MovesOn (presentTo present count.toNat) count.toNat (fun _ => none) readable) 0 i =
        some (.of x) := by
    rw [← hfiles]
    simp [Disk.files, rotateLogs]
  rw [hdisk]
  by_cases hpresent : presentTo present count.toNat x = true
  · rw [shifted_eq_some_iff hpresent, movesOn_iff, movesOn_iff]
    simp [hpresent]
  · constructor
    · intro h
      exact absurd (present_of_shifted (fun i h => h.2.1) h) hpresent
    · intro h
      rcases h with ⟨-, hrenames⟩ | ⟨-, h, -⟩
      · exact absurd (movesOn_iff.mpr hrenames).2.1 hpresent
      · exact absurd h hpresent

theorem overwrites_newer (hfits : Fits f count.toNat) :
    ∀ o ∈ (rotateLogs f readable count (.init f present count.toNat)).2, o.moved < o.lost :=
  (renameLoop_simulates hfits readable (Nat.le_refl _) turn_init).2

end Result

/-! ## The shift -/

/-- All files are shifted by one. -/
structure Rotated (f : CString) (present : Nat → Bool) (count : Int)
    (result : Disk × List Overwrite) : Prop where
  shifted : ∀ i : Nat, i < count → present i → result.1 (nameOf f (i + 1)) = some i
  cleared : result.1 f = none
  /-- Only what was in `f.count` may be lost. -/
  kept : ∀ i : Nat, i < count → present i → ∃ j, result.1 (nameOf f j) = some i
  ordered : ∀ i j x y, result.1 (nameOf f i) = some x → result.1 (nameOf f j) = some y →
    (i < j ↔ x < y)
  newer : ∀ o ∈ result.2, o.moved < o.lost

/-- There is a turn for `f` if it is there, and `fopen` can read what is in its way. -/
def AllTurns (present readable : Nat → Bool) (count : Int) : Prop :=
  (0 < count ∨ ¬ present 0) ∧ ∀ i : Nat, 0 < i → i < count → present i → readable i

section Condition

variable {f : CString} {present readable : Nat → Bool} {count : Int}

/-- If all is as it should be each file had its turn. -/
theorem allTurns_of_rotated (hfits : Fits f count.toNat)
    (h : Rotated f present count (rotateLogs f readable count (.init f present count.toNat))) :
    AllTurns present readable count := by
  constructor
  · by_contra hnot
    obtain ⟨hcount, hpresent⟩ := not_or.mp hnot
    have hzero : count.toNat = 0 := by omega
    have hthere : (rotateLogs f readable count (.init f present count.toNat)).1 (nameOf f 0) =
        some 0 := by
      rw [rotateLogs_eq_some_iff hfits]
      refine .inr ⟨rfl, by simpa [presentTo] using hpresent, ?_, by omega⟩
      intro hrenames
      have hlt := hrenames.1
      omega
    exact absurd (h.cleared.symm.trans hthere) (by simp)
  · intro i hpos hi hpresent
    rcases (rotateLogs_eq_some_iff hfits).mp (h.shifted i hi hpresent) with ⟨-, hrenames⟩ | ⟨heq, -⟩
    · exact hrenames.2.2.resolve_left (Nat.ne_of_gt hpos)
    · omega

/-- Every file that is there moves. -/
theorem AllTurns.renames_iff (h : AllTurns present readable count) {i : Nat} :
    Renames present readable count.toNat i ↔ i < count.toNat ∧ present i := by
  refine ⟨fun hrenames => ⟨hrenames.1, hrenames.2.1⟩, fun hi => ⟨hi.1, hi.2, ?_⟩⟩
  rcases Nat.eq_zero_or_pos i with hzero | hpos
  · exact .inl hzero
  · exact .inr (h.2 i hpos (by omega) hi.2)

/-- A file is one further, or it is the oldest and nothing has taken its place. -/
theorem AllTurns.place (h : AllTurns present readable count) (hfits : Fits f count.toNat)
    {i x : Nat}
    (hx : (rotateLogs f readable count (.init f present count.toNat)).1 (nameOf f i) = some x) :
    i = x + 1 ∧ x < count.toNat ∧ present x ∨
    i = x ∧ x = count.toNat ∧ 0 < x ∧ ¬ present (x - 1) := by
  rw [rotateLogs_eq_some_iff hfits, h.renames_iff, h.renames_iff] at hx
  rcases hx with ⟨hi, hx, hpresent⟩ | ⟨hi, hpresent, hstay, hfree⟩
  · exact .inl ⟨hi, hx, hpresent⟩
  · rw [presentTo, Bool.and_eq_true, decide_eq_true_eq] at hpresent
    have hlast : x = count.toNat := by
      by_contra hne
      exact hstay ⟨by omega, hpresent.1⟩
    have hpos : 0 < x := by
      rcases Nat.eq_zero_or_pos x with rfl | hpos
      · rcases h.1 with hcount | hnot
        · omega
        · exact absurd hpresent.1 hnot
      · exact hpos
    exact .inr ⟨hi, hlast, hpos, fun hprev => hfree ⟨hpos, by omega, hprev⟩⟩

/-- If each file has its turn all is as it should be. -/
theorem AllTurns.rotated (h : AllTurns present readable count) (hfits : Fits f count.toNat) :
    Rotated f present count (rotateLogs f readable count (.init f present count.toNat)) := by
  have hshifted : ∀ i : Nat, i < count → present i →
      (rotateLogs f readable count (.init f present count.toNat)).1 (nameOf f (i + 1)) = some i := by
    intro i hi hpresent
    rw [rotateLogs_eq_some_iff hfits]
    exact .inl ⟨rfl, h.renames_iff.mpr ⟨by omega, hpresent⟩⟩
  refine ⟨hshifted, ?_, fun i hi hpresent => ⟨_, hshifted i hi hpresent⟩, ?_,
    overwrites_newer hfits⟩
  · show (rotateLogs f readable count _).1 (nameOf f 0) = none
    rw [Option.eq_none_iff_forall_not_mem]
    intro x hx
    rcases h.place hfits hx with ⟨hi, -⟩ | ⟨hi, -, hpos, -⟩ <;> omega
  · intro i j x y hx hy
    rcases h.place hfits hx with ⟨hi, hxn, hpx⟩ | ⟨hi, hxn, hposx, hfreex⟩ <;>
      rcases h.place hfits hy with ⟨hj, hyn, hpy⟩ | ⟨hj, hyn, hposy, hfreey⟩
    · omega
    · -- what is in front of the oldest file was not there
      have hne : x ≠ y - 1 := fun heq => hfreey (heq ▸ hpx)
      omega
    · have hne : y ≠ x - 1 := fun heq => hfreex (heq ▸ hpy)
      omega
    · omega

end Condition

/-- The exact condition, for names that fit. -/
theorem rotated_iff (f : CString) (present readable : Nat → Bool) (count : Int)
    (hfits : Fits f count.toNat) :
    Rotated f present count (rotateLogs f readable count (.init f present count.toNat)) ↔
      AllTurns present readable count :=
  ⟨allTurns_of_rotated hfits, fun h => h.rotated hfits⟩

/-- `f.1` is there and cannot be read, so `f` is renamed over it. -/
theorem rotated_fails_unreadable :
    Fits "f".toList 2 ∧ ¬ Rotated "f".toList (fun _ => true) 2
      (rotateLogs "f".toList (fun i => i ≠ 1) 2 (.init "f".toList (fun _ => true) 2)) := by
  have hfits : Fits "f".toList 2 := fits_of_lt (by decide)
  refine ⟨hfits, fun h => ?_⟩
  have hreadable := (allTurns_of_rotated (show Fits _ (2 : Int).toNat from hfits) h).2 1 (by decide) (by decide) rfl
  exact absurd hreadable (by decide)

/-- With a gap and an unreadable `f`, all is shifted. -/
theorem rotated_gap :
    Rotated "f".toList (fun i => i ≠ 1) 3
      (rotateLogs "f".toList (fun i => i ≠ 0) 3 (.init "f".toList (fun i => i ≠ 1) 3)) := by
  refine (rotated_iff "f".toList _ _ 3 (fits_of_lt (by decide))).mpr ⟨.inl (by decide), ?_⟩
  intro i hpos _ _
  simpa using Nat.ne_of_gt hpos

end AndroidLearn.Logkmsg
