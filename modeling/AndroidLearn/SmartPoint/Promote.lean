import AndroidLearn.SmartPoint.RefBase

/-!
# Promoting a weak reference

`attemptIncStrong` of `test.cpp` makes a strong reference out of a weak one. Its loop has
lost the exchange that was to take it out: with a strong count above 0 it reads the same
count again and again.

The model runs the loop for a number of rounds, and nothing else changes the counts
meanwhile. The second half of the function, for a count of 0 or the initial one, is as in
the source, with the lifetime of the object and the call of `onIncStrongAttempted`.

Theorems:
- `attempts_iff`: of an object with the regular lifetime, the call comes back and does
  what it is to do exactly if there is no strong reference;
- `attemptIncStrong_run`: the same of the objects that a run of operations leaves.
-/

namespace AndroidLearn.SmartPoint

open Run

/-! ## The call -/

/-- `while (curCount > 0 && curCount != INITIAL_STRONG_VALUE) curCount = impl->mStrong`, for so
many rounds: `curCount` behind the loop, or `none` if it is still in it. -/
def Obj.retry (o : Obj) : Nat → Int32 → Option Int32
  | 0, _ => none
  | rounds + 1, curCount =>
    if 0 < curCount ∧ curCount ≠ initialStrongValue then
      -- the `android_atomic_cmpxchg` is commented out
      o.retry rounds o.mStrong
    else some curCount

/-- `onLastStrongRef`, for a reference that is not needed. -/
def Obj.dropUnneeded (o : Obj) (curCount : Int32) : Obj :=
  if 0 < curCount ∧ curCount < initialStrongValue then o.useBase else o

/-- What is behind the loop. -/
def Obj.promote (o : Obj) (agrees : Bool) (curCount : Int32) : Bool × Obj :=
  if curCount ≤ 0 ∨ curCount = initialStrongValue then
    if o.mFlags &&& objectLifetimeWeak = objectLifetimeStrong then
      if curCount ≤ 0 then (false, o.decWeak)
      -- the second loop is commented out altogether
      else if curCount ≤ 0 then (false, o.decWeak)
      else (true, o.dropUnneeded curCount)
    else
      let o := o.useBase
      if agrees then
        (true, { o.useRefs with mStrong := o.mStrong + 1 }.dropUnneeded o.mStrong)
      else (false, o.decWeak)
  else (true, o)

/-- `weakref_type::attemptIncStrong`, with what `onIncStrongAttempted` returns. -/
def Obj.attemptIncStrong (o : Obj) (agrees : Bool) (rounds : Nat) : Option (Bool × Obj) :=
  let o := o.incWeak
  (o.retry rounds o.mStrong).map (o.promote agrees)

/-! ## The property -/

/-- The regular lifetime: the object goes with its last strong reference. -/
def Obj.Regular (o : Obj) : Prop := o.mFlags &&& objectLifetimeWeak = objectLifetimeStrong

instance (o : Obj) : Decidable o.Regular := inferInstanceAs (Decidable (_ = _))

/-- The call returns: with one strong reference more if there was one, and else with the counts
as they were. -/
def Attempts (agrees : Bool) (o : Obj) : Prop :=
  ∃ rounds promoted o', o.attemptIncStrong agrees rounds = some (promoted, o') ∧
    (promoted = true ↔ 1 ≤ o.mStrong.toInt) ∧
    (promoted = true → o'.mStrong.toInt = o.mStrong.toInt + 1) ∧
    (promoted = false → o'.mStrong = o.mStrong ∧ o'.mWeak = o.mWeak)

/-! ## The loop -/

section

variable {o : Obj} {agrees : Bool} {rounds : Nat} {curCount : Int32}

/-- A count above 0 is read again as it is. -/
theorem retry_spins (h : 0 < o.mStrong) :
    ∀ rounds, o.retry rounds o.mStrong = none
  | 0 => rfl
  | rounds + 1 => by
    have hinitial : o.mStrong ≠ initialStrongValue := by
      intro heq
      rw [heq] at h
      exact absurd h (Int32.lt_irrefl (a := 0))
    show (if 0 < o.mStrong ∧ o.mStrong ≠ initialStrongValue then o.retry rounds o.mStrong
      else some o.mStrong) = none
    rw [if_pos ⟨h, hinitial⟩]
    exact retry_spins h rounds

theorem retry_exits (h : curCount ≤ 0) : o.retry (rounds + 1) curCount = some curCount :=
  if_neg fun hcond => absurd hcond.1 (Int32.not_lt.mpr h)

/-- With a strong reference the call is never done. -/
theorem attemptIncStrong_spins (h : 0 < o.mStrong) (agrees : Bool) (rounds : Nat) :
    o.attemptIncStrong agrees rounds = none := by
  have hspins : o.incWeak.retry rounds o.incWeak.mStrong = none :=
    retry_spins (o := o.incWeak) h rounds
  unfold Obj.attemptIncStrong
  dsimp only
  rw [hspins]
  rfl

/-- Without a strong reference the loop is left for the other way. -/
theorem attemptIncStrong_exits (h : o.mStrong ≤ 0) :
    o.attemptIncStrong agrees (rounds + 1) = some (o.incWeak.promote agrees o.mStrong) := by
  have hexits : o.incWeak.retry (rounds + 1) o.incWeak.mStrong = some o.mStrong :=
    retry_exits h
  unfold Obj.attemptIncStrong
  dsimp only
  rw [hexits]
  rfl

end

/-! ## Behind the loop -/

section

variable {o : Obj} {agrees : Bool} {rounds : Nat}

theorem add_one_ne {a : Int32} (h : a ≠ 0) : a + 1 ≠ 1 := by
  intro heq
  exact h ((Int32.add_left_inj 1).mp (heq.trans (Int32.zero_add 1).symm))

/-- A weak reference that is not the last goes. -/
theorem decWeak_of_ne (h : o.mWeak ≠ 1) :
    o.decWeak = { o.useRefs with mWeak := o.mWeak - 1 } := by
  unfold Obj.decWeak
  exact if_pos h

/-- The weak reference of the call is not the last. -/
theorem incWeak_decWeak (h : o.mWeak ≠ 0) : o.incWeak.decWeak = o.useRefs.useRefs := by
  rw [decWeak_of_ne (add_one_ne h)]
  dsimp only [Obj.incWeak, Obj.useRefs]
  rw [Int32.add_sub_cancel]

/-- An object that goes with its strong references is not promoted. -/
theorem promote_regular (h : o.mStrong ≤ 0) (hregular : o.Regular) :
    o.incWeak.promote agrees o.mStrong = (false, o.incWeak.decWeak) := by
  unfold Obj.promote
  rw [if_pos (Or.inl h), if_pos (by exact hregular), if_pos h]

/-- Of the regular lifetime without a strong reference, the call is done in one round and has
changed nothing. -/
theorem attemptIncStrong_regular (h : o.mStrong ≤ 0) (hregular : o.Regular) (hweak : o.mWeak ≠ 0) :
    o.attemptIncStrong agrees (rounds + 1) = some (false, o.useRefs.useRefs) := by
  rw [attemptIncStrong_exits h, promote_regular h hregular, incWeak_decWeak hweak]

/-- Of an extended lifetime the object is asked, and there is a strong reference if it agrees. -/
theorem attemptIncStrong_extended (h : o.mStrong ≤ 0) (hextended : ¬o.Regular)
    (hweak : o.mWeak ≠ 0) :
    ∃ o', o.attemptIncStrong agrees (rounds + 1) = some (agrees, o') ∧
      o'.mStrong = (if agrees then o.mStrong + 1 else o.mStrong) ∧
      o'.mWeak = (if agrees then o.mWeak + 1 else o.mWeak) := by
  rw [attemptIncStrong_exits h]
  unfold Obj.promote
  rw [if_pos (Or.inl h), if_neg (by exact hextended)]
  cases agrees with
  | false =>
    have hlast : o.incWeak.useBase.mWeak ≠ 1 := add_one_ne hweak
    refine ⟨o.incWeak.useBase.decWeak, rfl, ?_, ?_⟩
    · rw [decWeak_of_ne hlast]
      rfl
    · rw [decWeak_of_ne hlast]
      exact Int32.add_sub_cancel _ _
  | true =>
    refine ⟨_, rfl, ?_, ?_⟩
    · unfold Obj.dropUnneeded
      split <;> rfl
    · unfold Obj.dropUnneeded
      split <;> rfl

end

/-! ## When it does -/

theorem not_pos_iff {a : Int32} (h : 0 ≤ a) : ¬0 < a ↔ a = 0 := by
  rw [Int32.not_lt]
  exact ⟨fun hle => Int32.le_antisymm hle h, fun heq => heq ▸ Int32.le_refl _⟩

/-- The call does what it is to do exactly if there is no strong reference: with one it never
returns. -/
theorem attempts_iff (agrees : Bool) (o : Obj) (hstrong : 0 ≤ o.mStrong) (hweak : 1 ≤ o.mWeak)
    (hregular : o.Regular) : Attempts agrees o ↔ o.mStrong = 0 := by
  have hweak' : o.mWeak ≠ 0 := by
    intro heq
    rw [heq] at hweak
    exact absurd hweak (by decide)
  constructor
  · rintro ⟨rounds, promoted, o', hreturns, -⟩
    refine (not_pos_iff hstrong).mp fun hpos => ?_
    rw [attemptIncStrong_spins hpos] at hreturns
    exact absurd hreturns (by simp)
  · intro hzero
    have hle : o.mStrong ≤ 0 := hzero ▸ Int32.le_refl _
    refine ⟨1, false, o.useRefs.useRefs, attemptIncStrong_regular hle hregular hweak', ?_, ?_, ?_⟩
    · rw [hzero]
      exact ⟨fun h => absurd h (by simp), fun h => absurd h (by decide)⟩
    · exact fun h => absurd h (by simp)
    · exact fun _ => ⟨rfl, rfl⟩

/-- Only `createWeak` has been called. -/
theorem attempts_createWeak : Attempts true Obj.new.createWeak :=
  (attempts_iff true Obj.new.createWeak (by decide) (by decide) (by decide)).mpr rfl

/-- One handle and one weak reference. -/
theorem attempts_fails_handle :
    0 ≤ Obj.new.incStrong.createWeak.mStrong ∧ 1 ≤ Obj.new.incStrong.createWeak.mWeak ∧
      Obj.new.incStrong.createWeak.Regular ∧ ¬Attempts true Obj.new.incStrong.createWeak := by
  refine ⟨by decide, by decide, by decide, ?_⟩
  rintro ⟨rounds, promoted, o', hreturns, -⟩
  rw [attemptIncStrong_spins (by decide)] at hreturns
  exact absurd hreturns (by simp)

/-! ## With the handles -/

/-- An object that is there can be tried if it has no handle, and then there is nothing to be
had. -/
theorem Counted.attemptIncStrong {o : Obj} {h w : Nat} (ho : Counted o h w) (hw : 0 < w)
    (hsmall : h + w < 2 ^ 31) (agrees : Bool) (rounds : Nat) :
    o.attemptIncStrong agrees (rounds + 1) = if h = 0 then some (false, o) else none := by
  cases ho with
  | gone => exact absurd hw (Nat.lt_irrefl 0)
  | alive =>
    split
    case isTrue hzero =>
      subst hzero
      have hweak : Int32.ofNat (0 + w) ≠ 0 := by
        intro heq
        have hzero := (ofNat_inj hsmall (by decide)).mp
          (heq.trans (by decide : (0 : Int32) = Int32.ofNat 0))
        omega
      have hregular : (0 : UInt32) &&& objectLifetimeWeak = objectLifetimeStrong := by decide
      exact attemptIncStrong_regular (Int32.le_refl 0) hregular hweak
    case isFalse hpos =>
      refine attemptIncStrong_spins ?_ agrees (rounds + 1)
      show 0 < Int32.ofNat h
      rw [Int32.lt_iff_toInt_lt, Int32.toInt_ofNat_of_lt (by omega)]
      show (0 : Int) < h
      omega

/-- Of every run in which no weak reference is left when a last handle goes: a weak reference to
an object that has a handle can never be promoted, and one to an object without is refused. -/
theorem attemptIncStrong_run (program : List Op)
    (hprogram : AllSteps Heap.step NoWeakLeft Heap.init program) {s : Heap}
    (hs : s = program.foldl Heap.step Heap.init) {o : Nat} {obj : Obj}
    (hobj : s.objects[o]? = some obj) (hweak : o ∈ s.weaks)
    (hsmall : s.handles.count (some o) + s.weaks.count o < 2 ^ 31) (agrees : Bool) (rounds : Nat) :
    obj.attemptIncStrong agrees (rounds + 1) =
      if s.handles.count (some o) = 0 then some (false, obj) else none := by
  have hledger : Ledger s.objects s.handles s.weaks := by
    rw [hs]
    exact AllSteps.invariant (I := fun s => Ledger s.objects s.handles s.weaks)
      (fun _ _ h hv => (stepped h hv).ledger) ledger_init hprogram
  exact (hledger.counted o obj hobj).attemptIncStrong (List.count_pos_iff.mpr hweak) hsmall
    agrees rounds

end AndroidLearn.SmartPoint
