import AndroidLearn.Lib.Run
import Mathlib.Data.List.Perm.Basic
import Mathlib.Data.List.Count
import Mathlib.Tactic.Ring

/-!
# `sp` and `RefBase`

`RefBase`, `weakref_impl` and `sp` of `test.cpp`. An object is counted by its
`weakref_impl`, a block of its own that can outlive it. The heap has both, with the number
of times that the destructor has run and the block has been deleted, and whether either
was touched when it was gone. The bookkeeping for debugging is left out.

A program is any list of operations on `sp` handles and weak references: made from an
object or from another handle, assigned, given up, `createWeak` and `decWeak`. One
operation comes after the other; it takes an object that its handle or reference still
holds.

The counts follow the operations function by function (`incStrong`, `decStrong`,
`incWeak`, `decWeak`). The invariant says how many handles and references an object has,
and what its counts are because of them.

Theorem: `lifecycle_run`: the counts and the two lifetimes are right in every run in which
no weak reference is left when the last handle goes.
-/

namespace AndroidLearn.SmartPoint

open Run

/-! ## The counts -/

/-- A `RefBase` and its `weakref_impl`. -/
structure Obj where
  mStrong : Int32
  mWeak : Int32
  mFlags : UInt32
  /-- how many times `~RefBase` has run -/
  destroyed : Nat
  /-- how many times the block has been deleted -/
  freed : Nat
  /-- one of the two was used when it was gone -/
  misused : Bool
  deriving DecidableEq, Repr

/-- `INITIAL_STRONG_VALUE` -/
def initialStrongValue : Int32 := 0

/-- `OBJECT_LIFETIME_*` -/
def objectLifetimeStrong : UInt32 := 0
def objectLifetimeWeak : UInt32 := 1
def objectLifetimeMask : UInt32 := 1

/-- `RefBase::RefBase` -/
def Obj.new : Obj := ⟨initialStrongValue, 0, 0, 0, 0, false⟩

/-- The block is used. -/
def Obj.useRefs (o : Obj) : Obj := { o with misused := o.misused || o.freed != 0 }

/-- The object is used. -/
def Obj.useBase (o : Obj) : Obj := { o with misused := o.misused || o.destroyed != 0 }

/-- `delete mRefs` -/
def Obj.deleteRefs (o : Obj) : Obj := { o.useRefs with freed := o.freed + 1 }

/-- `delete this`: `~RefBase` -/
def Obj.deleteBase (o : Obj) : Obj :=
  let o := { o.useBase.useRefs with destroyed := o.destroyed + 1 }
  if o.mStrong = initialStrongValue then o.deleteRefs
  else if o.mFlags &&& objectLifetimeMask ≠ objectLifetimeStrong then
    if o.mWeak = 0 then o.deleteRefs else o
  else o

/-- `weakref_type::incWeak` -/
def Obj.incWeak (o : Obj) : Obj := { o.useRefs with mWeak := o.mWeak + 1 }

/-- `weakref_type::decWeak` -/
def Obj.decWeak (o : Obj) : Obj :=
  let c := o.mWeak
  let o := { o.useRefs with mWeak := o.mWeak - 1 }
  if c ≠ 1 then o
  else if o.mFlags &&& objectLifetimeWeak = objectLifetimeStrong then
    -- "we never had a strong reference", or have none any more
    if o.mStrong = initialStrongValue then o.deleteBase else o.deleteRefs
  else
    let o := o.useBase
    if o.mFlags &&& objectLifetimeMask = objectLifetimeWeak then o.deleteBase else o

/-- `RefBase::incStrong` -/
def Obj.incStrong (o : Obj) : Obj :=
  let o := o.useBase.incWeak
  let c := o.mStrong
  let o := { o.useRefs with mStrong := o.mStrong + 1 }
  -- `onFirstRef`
  if c ≠ initialStrongValue then o else o.useBase

/-- `RefBase::decStrong` -/
def Obj.decStrong (o : Obj) : Obj :=
  let o := o.useBase
  let c := o.mStrong
  let o := { o.useRefs with mStrong := o.mStrong - 1 }
  if c = 0 then
    -- `onLastStrongRef`
    let o := o.useBase
    let o := if o.mFlags &&& objectLifetimeMask = objectLifetimeStrong then o.deleteBase else o
    o.decWeak
  else o.decWeak

/-- `RefBase::createWeak` -/
def Obj.createWeak (o : Obj) : Obj := o.useBase.incWeak

/-! ## Handles -/

/-- The objects, and the handles on them. -/
structure Heap where
  /-- by address -/
  objects : List Obj
  /-- `m_ptr` of the live `sp` handles -/
  handles : List (Option Nat)
  /-- the objects of the live weak references -/
  weaks : List Nat
  deriving DecidableEq, Repr

/-- No object was made. -/
def Heap.init : Heap := ⟨[], [], []⟩

/-- `if (ptr) ptr->incStrong (this)` -/
def acquire (ptr : Option Nat) (objects : List Obj) : List Obj :=
  match ptr with
  | none => objects
  | some o => objects.modify o Obj.incStrong

/-- `if (ptr) ptr->decStrong (this)` -/
def release (ptr : Option Nat) (objects : List Obj) : List Obj :=
  match ptr with
  | none => objects
  | some o => objects.modify o Obj.decStrong

/-- What a program does with its handles. -/
inductive Op
  /-- `new T` -/
  | new
  /-- `sp (T*)` and `sp ()` -/
  | fromPtr (other : Option Nat)
  /-- `sp (const sp&)` -/
  | copy (other : Nat)
  /-- `operator = (const sp&)` -/
  | assign (this other : Nat)
  /-- `operator = (T*)` -/
  | assignPtr (this : Nat) (other : Option Nat)
  | clear (this : Nat)
  /-- `~sp` -/
  | destroy (this : Nat)
  | createWeak (object : Nat)
  /-- one more reference by way of a weak reference -/
  | incWeak (weak : Nat)
  | decWeak (weak : Nat)
  deriving DecidableEq, Repr

/-- Is it a null pointer, or one to an object that is there? -/
def Heap.valid (s : Heap) (ptr : Option Nat) : Bool :=
  match ptr with
  | none => true
  | some o => (s.objects[o]?).any fun obj => obj.destroyed = 0

/-- `m_ptr = other`, between the two counts. -/
def Heap.point (s : Heap) (this : Nat) (ptr other : Option Nat) : Heap :=
  { s with
    objects := release ptr (acquire other s.objects)
    handles := s.handles.set this other }

/-- A program has handles and weak references to name, and pointers to objects that are
there; what it cannot do leaves everything as it is. -/
def Heap.step (s : Heap) : Op → Heap
  | .new => { s with objects := s.objects ++ [.new] }
  | .fromPtr other =>
    if s.valid other then
      { s with objects := acquire other s.objects, handles := other :: s.handles }
    else s
  | .copy other =>
    match s.handles[other]? with
    | none => s
    | some ptr => { s with objects := acquire ptr s.objects, handles := ptr :: s.handles }
  | .assign this other =>
    match s.handles[this]?, s.handles[other]? with
    | some ptr, some otherPtr => s.point this ptr otherPtr
    | _, _ => s
  | .assignPtr this other =>
    match s.handles[this]? with
    | none => s
    | some ptr => if s.valid other then s.point this ptr other else s
  | .clear this =>
    match s.handles[this]? with
    | none => s
    | some ptr =>
      { s with objects := release ptr s.objects, handles := s.handles.set this none }
  | .destroy this =>
    match s.handles[this]? with
    | none => s
    | some ptr =>
      { s with objects := release ptr s.objects, handles := s.handles.eraseIdx this }
  | .createWeak object =>
    if s.valid (some object) then
      { s with
        objects := s.objects.modify object Obj.createWeak
        weaks := object :: s.weaks }
    else s
  | .incWeak weak =>
    match s.weaks[weak]? with
    | none => s
    | some object =>
      { s with objects := s.objects.modify object Obj.incWeak, weaks := object :: s.weaks }
  | .decWeak weak =>
    match s.weaks[weak]? with
    | none => s
    | some object =>
      { s with objects := s.objects.modify object Obj.decWeak, weaks := s.weaks.eraseIdx weak }

/-! ## The property -/

/-- The last handle of the object goes. -/
def Heap.dropsLast (s : Heap) (v : Op) (o : Nat) : Prop :=
  0 < s.handles.count (some o) ∧ (s.step v).handles.count (some o) = 0

instance (s : Heap) (v : Op) (o : Nat) : Decidable (s.dropsLast v o) :=
  inferInstanceAs (Decidable (_ ∧ _))

/-- The property at one operation. -/
structure Lifecycle (s : Heap) (v : Op) : Prop where
  /-- the strong count of an object that is there is the number of its handles -/
  strong : ∀ (o : Nat) (obj : Obj), (s.step v).objects[o]? = some obj → obj.destroyed = 0 →
    obj.mStrong.toInt = ((s.step v).handles.count (some o) : Nat)
  /-- the destructor runs exactly when the last handle goes -/
  destroyed : ∀ (o : Nat) (obj obj' : Obj),
    s.objects[o]? = some obj → (s.step v).objects[o]? = some obj' →
    obj'.destroyed = obj.destroyed + if s.dropsLast v o then 1 else 0
  /-- and no second time -/
  once : ∀ (o : Nat) (obj : Obj), (s.step v).objects[o]? = some obj → obj.destroyed ≤ 1
  /-- the block has been deleted once if both are gone, and not at all otherwise -/
  freed : ∀ (o : Nat) (obj : Obj), (s.step v).objects[o]? = some obj →
    obj.freed = if 0 < obj.destroyed ∧ (s.step v).weaks.count o = 0 then 1 else 0
  used : ∀ (o : Nat) (obj : Obj), (s.step v).objects[o]? = some obj → obj.misused = false

/-- The condition on one operation. -/
structure NoWeakLeft (s : Heap) (v : Op) : Prop where
  /-- when the last handle goes, no weak reference is left -/
  handle : ∀ o, s.dropsLast v o → s.weaks.count o = 0
  /-- the last weak reference goes while there is a handle -/
  weak : ∀ weak o, v = .decWeak weak → s.weaks[weak]? = some o → s.weaks.count o = 1 →
    0 < s.handles.count (some o)
  /-- there are fewer references than an `int` can count -/
  small : ∀ o, s.handles.count (some o) + s.weaks.count o + 1 < 2 ^ 31

/-! ## One object -/

/-- Small counts are told apart. -/
theorem ofNat_inj {a b : Nat} (ha : a < 2 ^ 31) (hb : b < 2 ^ 31) :
    Int32.ofNat a = Int32.ofNat b ↔ a = b := by
  rw [← Int32.toInt_inj, Int32.toInt_ofNat_of_lt ha, Int32.toInt_ofNat_of_lt hb]
  exact Int.natCast_inj

theorem ofNat_succ (n : Nat) : Int32.ofNat n + 1 = Int32.ofNat (n + 1) :=
  (Int32.ofNat_add n 1).symm

theorem ofNat_pred (n : Nat) : Int32.ofNat (n + 1) - 1 = Int32.ofNat n := by
  rw [← ofNat_succ]
  exact Int32.add_sub_cancel _ _

/-- An object with that many handles and weak references. -/
inductive Counted : Obj → Nat → Nat → Prop
  | alive (h w : Nat) : Counted ⟨Int32.ofNat h, Int32.ofNat (h + w), 0, 0, 0, false⟩ h w
  | gone (mStrong mWeak : Int32) : Counted ⟨mStrong, mWeak, 0, 1, 1, false⟩ 0 0

section Counted

variable {o : Obj} {h w : Nat}

/-- A strong reference more. -/
theorem Counted.incStrong (ho : Counted o h w) (halive : o.destroyed = 0) :
    Counted o.incStrong (h + 1) w ∧ o.incStrong.destroyed = o.destroyed := by
  cases ho with
  | gone => exact absurd halive (by simp)
  | alive =>
    have hresult : Obj.incStrong ⟨Int32.ofNat h, Int32.ofNat (h + w), 0, 0, 0, false⟩ =
        ⟨Int32.ofNat (h + 1), Int32.ofNat (h + 1 + w), 0, 0, 0, false⟩ := by
      unfold Obj.incStrong
      rw [← ofNat_succ, show h + 1 + w = h + w + 1 by omega, ← ofNat_succ]
      dsimp only [Obj.useBase, Obj.incWeak, Obj.useRefs]
      split <;> rfl
    rw [hresult]
    exact ⟨.alive _ _, rfl⟩

/-- A weak reference more. -/
theorem Counted.incWeak (ho : Counted o h w) (halive : o.destroyed = 0) :
    Counted o.incWeak h (w + 1) ∧ Counted o.createWeak h (w + 1) ∧
      o.incWeak.destroyed = o.destroyed ∧ o.createWeak.destroyed = o.destroyed := by
  cases ho with
  | gone => exact absurd halive (by simp)
  | alive =>
    have hresult : Obj.incWeak ⟨Int32.ofNat h, Int32.ofNat (h + w), 0, 0, 0, false⟩ =
        ⟨Int32.ofNat h, Int32.ofNat (h + (w + 1)), 0, 0, 0, false⟩ := by
      rw [← Nat.add_assoc, ← ofNat_succ]
      rfl
    have hcreate : Obj.createWeak ⟨Int32.ofNat h, Int32.ofNat (h + w), 0, 0, 0, false⟩ =
        ⟨Int32.ofNat h, Int32.ofNat (h + (w + 1)), 0, 0, 0, false⟩ := hresult
    rw [hresult, hcreate]
    exact ⟨.alive _ _, .alive _ _, rfl, rfl⟩

/-- The last reference of all: both the object and the block go. -/
theorem Counted.decWeak_last :
    Counted (Obj.decWeak ⟨Int32.ofNat 0, Int32.ofNat 1, 0, 0, 0, false⟩) 0 0 ∧
      (Obj.decWeak ⟨Int32.ofNat 0, Int32.ofNat 1, 0, 0, 0, false⟩).destroyed = 1 :=
  ⟨.gone 0 0, rfl⟩

/-- A weak reference less, where others are left. -/
theorem decWeak_more (n : Nat) (hn : 0 < n) (hsmall : n + 1 < 2 ^ 31) (s : Int32) :
    Obj.decWeak ⟨s, Int32.ofNat (n + 1), 0, 0, 0, false⟩ = ⟨s, Int32.ofNat n, 0, 0, 0, false⟩ := by
  unfold Obj.decWeak
  have hne : Int32.ofNat (n + 1) ≠ 1 := by
    intro heq
    have hone := (ofNat_inj hsmall (by decide)).mp (heq.trans (by decide : (1 : Int32) = Int32.ofNat 1))
    omega
  dsimp only
  rw [if_pos hne, ofNat_pred]
  rfl

/-- A weak reference less, where the object stays. -/
theorem Counted.decWeak (ho : Counted o h (w + 1)) (hkept : w = 0 → 0 < h)
    (hsmall : h + w + 1 < 2 ^ 31) :
    Counted o.decWeak h w ∧ o.decWeak.destroyed = o.destroyed := by
  cases ho with
  | alive =>
    rw [← Nat.add_assoc, decWeak_more (h + w) (by omega) hsmall]
    exact ⟨.alive _ _, rfl⟩

/-- A strong reference less. The last one destroys the object. -/
theorem Counted.decStrong (ho : Counted o (h + 1) w) (hlast : h = 0 → w = 0)
    (hsmall : h + 1 + w < 2 ^ 31) :
    Counted o.decStrong h w ∧ o.decStrong.destroyed = o.destroyed + if h = 0 then 1 else 0 := by
  cases ho with
  | alive =>
    -- the old count is never 0, so that it is left to `decWeak` to destroy the object
    have hne : Int32.ofNat (h + 1) ≠ 0 := by
      intro heq
      have hzero := (ofNat_inj (by omega) (by decide)).mp
        (heq.trans (by decide : (0 : Int32) = Int32.ofNat 0))
      omega
    have hresult : Obj.decStrong ⟨Int32.ofNat (h + 1), Int32.ofNat (h + 1 + w), 0, 0, 0, false⟩ =
        Obj.decWeak ⟨Int32.ofNat h, Int32.ofNat (h + w + 1), 0, 0, 0, false⟩ := by
      unfold Obj.decStrong
      dsimp only [Obj.useBase, Obj.useRefs]
      rw [if_neg hne, ofNat_pred, show h + 1 + w = h + w + 1 by omega]
      rfl
    rw [hresult]
    rcases Nat.eq_zero_or_pos h with rfl | hpos
    · rw [hlast rfl]
      exact Counted.decWeak_last
    · rw [decWeak_more (h + w) (by omega) (by omega), if_neg (by omega)]
      exact ⟨.alive _ _, rfl⟩

/-- The strong count is the number of handles. -/
theorem Counted.mStrong_eq (ho : Counted o h w) (halive : o.destroyed = 0) (hsmall : h < 2 ^ 31) :
    o.mStrong.toInt = h := by
  cases ho with
  | alive => exact Int32.toInt_ofNat_of_lt hsmall
  | gone => exact absurd halive (by simp)

theorem Counted.freed_eq (ho : Counted o h w) :
    o.freed = if 0 < o.destroyed ∧ w = 0 then 1 else 0 := by
  cases ho <;> simp

theorem Counted.destroyed_le (ho : Counted o h w) : o.destroyed ≤ 1 := by
  cases ho <;> simp

theorem Counted.misused_eq (ho : Counted o h w) : o.misused = false := by
  cases ho <;> rfl

/-- What has a reference is there. -/
theorem Counted.alive_of_pos (ho : Counted o h w) (hpos : 0 < h + w) : o.destroyed = 0 := by
  cases ho with
  | alive => rfl
  | gone => exact absurd hpos (by simp)

end Counted

/-! ## The heap -/

/-- Every object has the handles and weak references that are counted on it, and every
pointer is to an object. -/
structure Ledger (objects : List Obj) (handles : List (Option Nat)) (weaks : List Nat) : Prop where
  counted : ∀ (o : Nat) (obj : Obj), objects[o]? = some obj →
    Counted obj (handles.count (some o)) (weaks.count o)
  handles_lt : ∀ o, some o ∈ handles → o < objects.length
  weaks_lt : ∀ o ∈ weaks, o < objects.length

/-- The destructor has run once more for the objects of `runs`, and for no others. -/
def DestroyedBy (objects objects' : List Obj) (runs : Nat → Prop) [DecidablePred runs] : Prop :=
  ∀ (o : Nat) (obj obj' : Obj), objects[o]? = some obj → objects'[o]? = some obj' →
    obj'.destroyed = obj.destroyed + if runs o then 1 else 0

section Ledger

variable {objects objects' objects'' : List Obj} {handles handles' : List (Option Nat)}
  {weaks weaks' : List Nat} {ptr : Option Nat} {o : Nat} {f : Obj → Obj} {runs runs' : Nat → Prop}
  [DecidablePred runs] [DecidablePred runs']

/-- Only the handles that point to something count. -/
theorem Ledger.of_count (h : Ledger objects handles weaks)
    (hcount : ∀ o, handles.count (some o) = handles'.count (some o)) :
    Ledger objects handles' weaks where
  counted o obj hobj := by
    rw [← hcount]
    exact h.counted o obj hobj
  handles_lt o ho := by
    refine h.handles_lt o (List.count_pos_iff.mp ?_)
    rw [hcount]
    exact List.count_pos_iff.mpr ho
  weaks_lt := h.weaks_lt

/-- One object is changed. -/
theorem getElem?_modify_self {old : Obj} (h : objects[o]? = some old) :
    (objects.modify o f)[o]? = some (f old) := by
  rw [List.getElem?_modify, h]
  exact congrArg some (if_pos rfl)

/-- The others are not. -/
theorem getElem?_modify_other {o' : Nat} (h : o ≠ o') :
    (objects.modify o f)[o']? = objects[o']? := by
  rw [List.getElem?_modify]
  cases objects[o']? with
  | none => rfl
  | some old => exact congrArg some (if_neg h)

/-- One object is changed by `f`. -/
theorem Ledger.modify (h : Ledger objects handles weaks)
    (hmem : ∀ o', some o' ∈ handles' → o' < objects.length)
    (hmem' : ∀ o' ∈ weaks', o' < objects.length)
    (hother : ∀ o', o' ≠ o → handles'.count (some o') = handles.count (some o') ∧
      weaks'.count o' = weaks.count o')
    (hf : ∀ obj, objects[o]? = some obj →
      Counted (f obj) (handles'.count (some o)) (weaks'.count o)) :
    Ledger (objects.modify o f) handles' weaks' where
  counted o' obj hobj := by
    by_cases heq : o = o'
    · subst heq
      cases hold : objects[o]? with
      | none =>
        rw [List.getElem?_modify, hold] at hobj
        exact nomatch hobj
      | some old =>
        rw [getElem?_modify_self hold] at hobj
        rw [← Option.some.inj hobj]
        exact hf old hold
    · rw [getElem?_modify_other heq] at hobj
      obtain ⟨hh, hw⟩ := hother o' (Ne.symm heq)
      rw [hh, hw]
      exact h.counted o' obj hobj
  handles_lt o' ho' := by
    rw [List.length_modify]
    exact hmem o' ho'
  weaks_lt o' ho' := by
    rw [List.length_modify]
    exact hmem' o' ho'

/-- One object may be destroyed. -/
theorem destroyedBy_modify (hruns : ∀ o', runs o' → o' = o)
    (hf : ∀ obj, objects[o]? = some obj →
      (f obj).destroyed = obj.destroyed + if runs o then 1 else 0) :
    DestroyedBy objects (objects.modify o f) runs := by
  intro o' obj obj' hobj hobj'
  by_cases heq : o = o'
  · subst heq
    rw [getElem?_modify_self hobj] at hobj'
    rw [← Option.some.inj hobj']
    exact hf obj hobj
  · rw [getElem?_modify_other heq, hobj] at hobj'
    rw [← Option.some.inj hobj', if_neg fun hrun => heq (hruns o' hrun).symm]
    rfl

theorem DestroyedBy.refl (hruns : ∀ o, ¬ runs o) : DestroyedBy objects objects runs := by
  intro o obj obj' hobj hobj'
  rw [hobj] at hobj'
  rw [← Option.some.inj hobj', if_neg (hruns o)]
  rfl

/-- `ptr->incStrong ()` -/
theorem Ledger.acquire (h : Ledger objects handles weaks)
    (hvalid : ∀ o, ptr = some o → ∃ obj, objects[o]? = some obj ∧ obj.destroyed = 0) :
    Ledger (SmartPoint.acquire ptr objects) (ptr :: handles) weaks ∧
      DestroyedBy objects (SmartPoint.acquire ptr objects) (fun _ => False) := by
  cases ptr with
  | none =>
    refine ⟨⟨fun o obj hobj => ?_, fun o ho => ?_, h.weaks_lt⟩, .refl fun _ => not_false⟩
    · rw [List.count_cons_of_ne (by simp)]
      exact h.counted o obj hobj
    · exact h.handles_lt o (by simpa using ho)
  | some o =>
    obtain ⟨obj, hobj, halive⟩ := hvalid o rfl
    obtain ⟨hcounted, hdestroyed⟩ := (h.counted o obj hobj).incStrong halive
    refine ⟨h.modify (fun o' ho' => ?_) h.weaks_lt (fun o' hne => ⟨?_, rfl⟩) fun obj' hobj' => ?_,
      destroyedBy_modify (fun _ hfalse => hfalse.elim) fun obj' hobj' => ?_⟩
    · rcases List.mem_cons.mp ho' with heq | ho'
      · rw [Option.some.inj heq]
        exact (List.getElem?_eq_some_iff.mp hobj).1
      · exact h.handles_lt o' ho'
    · exact List.count_cons_of_ne (by simpa using Ne.symm hne)
    · rw [hobj] at hobj'
      rw [← Option.some.inj hobj', List.count_cons_self]
      exact hcounted
    · rw [hobj] at hobj'
      rw [← Option.some.inj hobj', if_neg not_false]
      exact hdestroyed

/-- `ptr->decStrong ()` -/
theorem Ledger.release (h : Ledger objects (ptr :: handles) weaks)
    (hlast : ∀ o, ptr = some o → handles.count (some o) = 0 → weaks.count o = 0)
    (hsmall : ∀ o, ptr = some o → handles.count (some o) + 1 + weaks.count o < 2 ^ 31) :
    Ledger (SmartPoint.release ptr objects) handles weaks ∧
      DestroyedBy objects (SmartPoint.release ptr objects)
        (fun o => ptr = some o ∧ handles.count (some o) = 0) := by
  cases ptr with
  | none =>
    refine ⟨⟨fun o obj hobj => ?_, fun o ho => ?_, h.weaks_lt⟩, .refl fun _ hrun => nomatch hrun.1⟩
    · have hcounted := h.counted o obj hobj
      rwa [List.count_cons_of_ne (by simp)] at hcounted
    · exact h.handles_lt o (List.mem_cons_of_mem _ ho)
  | some o =>
    have hboth : ∀ obj, objects[o]? = some obj →
        Counted obj.decStrong (handles.count (some o)) (weaks.count o) ∧
          obj.decStrong.destroyed = obj.destroyed + if handles.count (some o) = 0 then 1 else 0 := by
      intro obj hobj
      have hcounted := h.counted o obj hobj
      rw [List.count_cons_self] at hcounted
      exact hcounted.decStrong (hlast o rfl) (hsmall o rfl)
    refine ⟨h.modify (fun o' ho' => h.handles_lt o' (List.mem_cons_of_mem _ ho')) h.weaks_lt
      (fun o' hne => ⟨?_, rfl⟩) fun obj hobj => (hboth obj hobj).1,
      destroyedBy_modify (fun o' hrun => (Option.some.inj hrun.1).symm) fun obj hobj => ?_⟩
    · exact (List.count_cons_of_ne (by simpa using Ne.symm hne)).symm
    · rw [(hboth obj hobj).2]
      simp

/-- Which ones are can be said in another way. -/
theorem DestroyedBy.congr (h : DestroyedBy objects objects' runs) (hiff : ∀ o, runs o ↔ runs' o) :
    DestroyedBy objects objects' runs' := by
  intro o obj obj' hobj hobj'
  rw [h o obj obj' hobj hobj']
  simp only [hiff o]

/-- None first, and some then. -/
theorem DestroyedBy.trans (h : DestroyedBy objects objects' fun _ => False)
    (hlength : objects'.length = objects.length) (h' : DestroyedBy objects' objects'' runs) :
    DestroyedBy objects objects'' runs := by
  intro o obj obj'' hobj hobj''
  have hlt : o < objects'.length := hlength ▸ (List.getElem?_eq_some_iff.mp hobj).1
  have hobj' : objects'[o]? = some objects'[o] := List.getElem?_eq_getElem hlt
  rw [h' o _ obj'' hobj' hobj'', h o obj _ hobj hobj', if_neg not_false]
  rfl

theorem acquire_length (ptr : Option Nat) (objects : List Obj) :
    (SmartPoint.acquire ptr objects).length = objects.length := by
  cases ptr with
  | none => rfl
  | some o => exact List.length_modify _ _ _

/-- The object of a reference is there. -/
theorem Ledger.alive (h : Ledger objects handles weaks) {o : Nat}
    (hmem : some o ∈ handles ∨ o ∈ weaks) : ∃ obj, objects[o]? = some obj ∧ obj.destroyed = 0 := by
  have hlt : o < objects.length := hmem.elim (h.handles_lt o) (h.weaks_lt o)
  have hobj : objects[o]? = some objects[o] := List.getElem?_eq_getElem hlt
  refine ⟨_, hobj, (h.counted o _ hobj).alive_of_pos ?_⟩
  rcases hmem with hmem | hmem
  · exact Nat.add_pos_left (List.count_pos_iff.mpr hmem) _
  · exact Nat.add_pos_right _ (List.count_pos_iff.mpr hmem)

end Ledger

/-! ## One operation -/

/-- What an operation keeps. -/
structure Stepped (s : Heap) (v : Op) : Prop where
  ledger : Ledger (s.step v).objects (s.step v).handles (s.step v).weaks
  destroyed : DestroyedBy s.objects (s.step v).objects (s.dropsLast v)
  few : ∀ o, (s.step v).handles.count (some o) ≤ s.handles.count (some o) + 1

section Step

variable {s : Heap} {v : Op}

/-- The operation cannot be done. -/
theorem stepped_same (h : Ledger s.objects s.handles s.weaks) (hsame : s.step v = s) :
    Stepped s v where
  ledger := by
    rw [hsame]
    exact h
  destroyed := by
    rw [hsame]
    refine .refl fun o hdrops => ?_
    have hnone := hdrops.2
    rw [hsame] at hnone
    exact absurd hnone (Nat.pos_iff_ne_zero.mp hdrops.1)
  few o := by
    rw [hsame]
    exact Nat.le_succ _

/-- One more handle. -/
theorem stepped_acquire (h : Ledger s.objects s.handles s.weaks) {ptr : Option Nat}
    (hvalid : ∀ o, ptr = some o → ∃ obj, s.objects[o]? = some obj ∧ obj.destroyed = 0)
    (hstep : s.step v = { s with objects := acquire ptr s.objects, handles := ptr :: s.handles }) :
    Stepped s v := by
  obtain ⟨hledger, hdestroyed⟩ := h.acquire hvalid
  refine ⟨hstep ▸ hledger, ?_, fun o => ?_⟩
  · rw [hstep]
    refine hdestroyed.congr fun o => ⟨False.elim, fun hdrops => ?_⟩
    have hnone := hdrops.2
    rw [hstep] at hnone
    dsimp only at hnone
    have hmore := List.count_le_count_cons (a := some o) (b := ptr) (l := s.handles)
    exact absurd hdrops.1 (by omega)
  · rw [hstep]
    dsimp only
    rw [List.count_cons]
    split <;> omega

/-- A handle that points to `ptr` does so no more, and may point to `other`. -/
theorem stepped_release (h : Ledger s.objects s.handles s.weaks) (hv : NoWeakLeft s v)
    {ptr other : Option Nat} {handles' : List (Option Nat)}
    (hvalid : ∀ o, other = some o → ∃ obj, s.objects[o]? = some obj ∧ obj.destroyed = 0)
    (hmem : ptr ∈ s.handles)
    (hcount : ∀ o, (other :: s.handles).count (some o) = (ptr :: handles').count (some o))
    (hstep : s.step v =
      { s with objects := release ptr (acquire other s.objects), handles := handles' }) :
    Stepped s v := by
  -- in between there is one handle more than the program has, which keeps `other` alive even if
  -- it is `ptr`
  obtain ⟨hledger, hdestroyed⟩ := h.acquire hvalid
  have hfew : ∀ o, handles'.count (some o) ≤ s.handles.count (some o) + 1 := by
    intro o
    have heq := hcount o
    rw [List.count_cons, List.count_cons] at heq
    split at heq <;> split at heq <;> omega
  have hdrops : ∀ o, ptr = some o ∧ handles'.count (some o) = 0 ↔ s.dropsLast v o := by
    intro o
    unfold Heap.dropsLast
    rw [hstep]
    refine ⟨fun ⟨hptr, hnone⟩ => ⟨?_, hnone⟩, fun ⟨hpos, hnone⟩ => ⟨?_, hnone⟩⟩
    · rw [← hptr]
      exact List.count_pos_iff.mpr hmem
    · by_contra hne
      have heq := hcount o
      rw [List.count_cons_of_ne hne] at heq
      have hle := List.count_le_count_cons (a := some o) (b := other) (l := s.handles)
      dsimp only at hnone
      omega
  have hsmall : ∀ o, ptr = some o → handles'.count (some o) + 1 + s.weaks.count o < 2 ^ 31 := by
    rintro o rfl
    have heq := hcount o
    rw [List.count_cons_self, List.count_cons] at heq
    have hlt := hv.small o
    split at heq <;> omega
  obtain ⟨hledger', hdestroyed'⟩ := (hledger.of_count hcount).release
    (fun o hptr hnone => hv.handle o ((hdrops o).mp ⟨hptr, hnone⟩)) hsmall
  refine ⟨hstep ▸ hledger', ?_, fun o => ?_⟩
  · rw [hstep]
    exact (hdestroyed.trans (acquire_length _ _) hdestroyed').congr hdrops
  · rw [hstep]
    exact hfew o

/-- One more weak reference, or one less. -/
theorem stepped_weak (h : Ledger s.objects s.handles s.weaks) {o : Nat} {f : Obj → Obj}
    {weaks : List Nat} (hmem : ∀ o' ∈ weaks, o' < s.objects.length)
    (hother : ∀ o', o' ≠ o → weaks.count o' = s.weaks.count o')
    (hf : ∀ obj, s.objects[o]? = some obj →
      Counted (f obj) (s.handles.count (some o)) (weaks.count o) ∧
        (f obj).destroyed = obj.destroyed)
    (hstep : s.step v = { s with objects := s.objects.modify o f, weaks := weaks }) :
    Stepped s v := by
  have hdrops : ∀ o', ¬ s.dropsLast v o' := by
    intro o' hdrops
    have hnone := hdrops.2
    rw [hstep] at hnone
    exact absurd hnone (Nat.pos_iff_ne_zero.mp hdrops.1)
  refine ⟨?_, ?_, fun o' => ?_⟩
  · rw [hstep]
    exact h.modify h.handles_lt hmem (fun o' hne => ⟨rfl, hother o' hne⟩) fun obj hobj => (hf obj hobj).1
  · rw [hstep]
    refine destroyedBy_modify (fun o' hrun => absurd hrun (hdrops o')) fun obj hobj => ?_
    rw [if_neg (hdrops o)]
    exact (hf obj hobj).2
  · rw [hstep]
    exact Nat.le_succ _

/-- One more weak reference, to an object that is there. -/
theorem stepped_more (h : Ledger s.objects s.handles s.weaks) {o : Nat} {f : Obj → Obj} {obj : Obj}
    (hobj : s.objects[o]? = some obj) (halive : obj.destroyed = 0)
    (hf : ∀ {hs ws : Nat}, Counted obj hs ws → obj.destroyed = 0 →
      Counted (f obj) hs (ws + 1) ∧ (f obj).destroyed = obj.destroyed)
    (hstep : s.step v = { s with objects := s.objects.modify o f, weaks := o :: s.weaks }) :
    Stepped s v := by
  refine stepped_weak h (fun o' ho' => ?_) (fun o' hne => List.count_cons_of_ne hne.symm)
    (fun obj' hobj' => ?_) hstep
  · rcases List.mem_cons.mp ho' with rfl | ho'
    · exact (List.getElem?_eq_some_iff.mp hobj).1
    · exact h.weaks_lt o' ho'
  · rw [hobj] at hobj'
    rw [← Option.some.inj hobj', List.count_cons_self]
    exact hf (h.counted o obj hobj) halive

/-- A pointer a program may use is to an object that lives. -/
theorem valid_alive {ptr : Option Nat} (h : s.valid ptr = true) :
    ∀ o, ptr = some o → ∃ obj, s.objects[o]? = some obj ∧ obj.destroyed = 0 := by
  rintro o rfl
  unfold Heap.valid at h
  cases hobj : s.objects[o]? with
  | none => simp [hobj] at h
  | some obj => exact ⟨obj, rfl, by simpa [hobj] using h⟩

/-- An object is made. -/
theorem step_new (h : Ledger s.objects s.handles s.weaks) : Stepped s .new := by
  refine ⟨⟨fun o obj hobj => ?_, fun o ho => ?_, fun o ho => ?_⟩, fun o obj obj' hobj hobj' => ?_,
    fun o => Nat.le_succ _⟩
  · change (s.objects ++ [Obj.new])[o]? = some obj at hobj
    rw [List.getElem?_append] at hobj
    split at hobj
    next => exact h.counted o obj hobj
    next hge =>
      -- nothing points to where the new object is
      have hhandles : s.handles.count (some o) = 0 :=
        List.count_eq_zero.mpr fun hmem => hge (h.handles_lt o hmem)
      have hweaks : s.weaks.count o = 0 := List.count_eq_zero.mpr fun hmem => hge (h.weaks_lt o hmem)
      have hnew : obj = Obj.new := by
        have hlast := List.mem_of_getElem? hobj
        exact List.mem_singleton.mp hlast
      change Counted obj (s.handles.count (some o)) (s.weaks.count o)
      rw [hhandles, hweaks, hnew]
      exact .alive 0 0
  · exact Nat.lt_of_lt_of_le (h.handles_lt o ho) (by simp [Heap.step])
  · exact Nat.lt_of_lt_of_le (h.weaks_lt o ho) (by simp [Heap.step])
  · change (s.objects ++ [Obj.new])[o]? = some obj' at hobj'
    rw [List.getElem?_append_left (List.getElem?_eq_some_iff.mp hobj).1, hobj] at hobj'
    rw [← Option.some.inj hobj', if_neg fun hdrops => Nat.pos_iff_ne_zero.mp hdrops.1 hdrops.2]
    rfl

theorem Ledger.handle_alive (h : Ledger s.objects s.handles s.weaks) {i : Nat} {ptr : Option Nat}
    (hptr : s.handles[i]? = some ptr) :
    ∀ o, ptr = some o → ∃ obj, s.objects[o]? = some obj ∧ obj.destroyed = 0 := by
  rintro o rfl
  exact h.alive (.inl (List.mem_of_getElem? hptr))

/-- What a handle pointed to, it points to beside what it is set to. -/
theorem count_cons_set {handles : List (Option Nat)} {i : Nat} {ptr other : Option Nat}
    (hptr : handles[i]? = some ptr) (o : Nat) :
    (other :: handles).count (some o) = (ptr :: handles.set i other).count (some o) := by
  obtain ⟨hlt, rfl⟩ := List.getElem?_eq_some_iff.mp hptr
  have hold := (List.getElem_cons_eraseIdx_perm hlt).symm
  have hnew := List.set_perm_cons_eraseIdx hlt other
  exact ((hold.cons other).trans ((List.Perm.swap _ _ _).trans (hnew.symm.cons _))).count_eq _

theorem perm_cons_eraseIdx {α : Type} {l : List α} {i : Nat} {a : α} (h : l[i]? = some a) :
    l.Perm (a :: l.eraseIdx i) := by
  obtain ⟨hlt, rfl⟩ := List.getElem?_eq_some_iff.mp h
  exact (List.getElem_cons_eraseIdx_perm hlt).symm

/-- A weak reference goes. It is among those counted, so that there was at least one. -/
theorem step_decWeak (h : Ledger s.objects s.handles s.weaks) {weak object : Nat}
    (hv : NoWeakLeft s (.decWeak weak)) (hweak : s.weaks[weak]? = some object) :
    Stepped s (.decWeak weak) := by
  have hstep : s.step (.decWeak weak) =
      { s with
        objects := s.objects.modify object Obj.decWeak
        weaks := s.weaks.eraseIdx weak } := by
    simp [Heap.step, hweak]
  have hperm := perm_cons_eraseIdx hweak
  refine stepped_weak h (fun o' ho' => h.weaks_lt o' (List.mem_of_mem_eraseIdx ho'))
    (fun o' hne => ?_) (fun obj hobj => ?_) hstep
  · rw [hperm.count_eq, List.count_cons_of_ne hne.symm]
  · have hcounted := h.counted _ obj hobj
    have hsmall := hv.small object
    have hlast := hv.weak weak _ rfl hweak
    rw [hperm.count_eq, List.count_cons_self] at hcounted hsmall hlast
    exact hcounted.decWeak (fun hzero => hlast (by omega)) (by omega)

/-- Every step keeps the ledger, if no weak reference outlives the last strong one. -/
theorem stepped (h : Ledger s.objects s.handles s.weaks) (hv : NoWeakLeft s v) : Stepped s v := by
  cases v with
  | new => exact step_new h
  | fromPtr other =>
    cases hvalid : s.valid other with
    | false => exact stepped_same h (by simp [Heap.step, hvalid])
    | true => exact stepped_acquire h (valid_alive hvalid) (by simp [Heap.step, hvalid])
  | copy other =>
    cases hptr : s.handles[other]? with
    | none => exact stepped_same h (by simp [Heap.step, hptr])
    | some ptr => exact stepped_acquire h (h.handle_alive hptr) (by simp [Heap.step, hptr])
  | assign this other =>
    cases hptr : s.handles[this]? with
    | none => exact stepped_same h (by simp [Heap.step, hptr])
    | some ptr =>
      cases hother : s.handles[other]? with
      | none => exact stepped_same h (by simp [Heap.step, hptr, hother])
      | some otherPtr =>
        exact stepped_release h hv (h.handle_alive hother) (List.mem_of_getElem? hptr)
          (count_cons_set hptr)
          (by simp [Heap.step, Heap.point, hptr, hother])
  | assignPtr this other =>
    cases hptr : s.handles[this]? with
    | none => exact stepped_same h (by simp [Heap.step, hptr])
    | some ptr =>
      cases hvalid : s.valid other with
      | false => exact stepped_same h (by simp [Heap.step, hptr, hvalid])
      | true =>
        exact stepped_release h hv (valid_alive hvalid) (List.mem_of_getElem? hptr)
          (count_cons_set hptr)
          (by simp [Heap.step, Heap.point, hptr, hvalid])
  | clear this =>
    cases hptr : s.handles[this]? with
    | none => exact stepped_same h (by simp [Heap.step, hptr])
    | some ptr =>
      -- an assignment of a null pointer
      have hstep : s.step (.clear this) =
          { s with
            objects := release ptr (acquire none s.objects)
            handles := s.handles.set this none } := by
        simp [Heap.step, hptr, acquire]
      exact stepped_release h hv (by simp) (List.mem_of_getElem? hptr)
        (count_cons_set hptr) hstep
  | destroy this =>
    cases hptr : s.handles[this]? with
    | none => exact stepped_same h (by simp [Heap.step, hptr])
    | some ptr =>
      have hstep : s.step (.destroy this) =
          { s with
            objects := release ptr (acquire none s.objects)
            handles := s.handles.eraseIdx this } := by
        simp [Heap.step, hptr, acquire]
      refine stepped_release h hv (by simp) (List.mem_of_getElem? hptr)
        (fun o => ?_) hstep
      rw [List.count_cons_of_ne (by simp)]
      exact (perm_cons_eraseIdx hptr).count_eq _
  | createWeak object =>
    cases hvalid : s.valid (some object) with
    | false => exact stepped_same h (by simp [Heap.step, hvalid])
    | true =>
      obtain ⟨obj, hobj, halive⟩ := valid_alive hvalid object rfl
      exact stepped_more h hobj halive (fun ho ha => ⟨(ho.incWeak ha).2.1, (ho.incWeak ha).2.2.2⟩)
        (by simp [Heap.step, hvalid])
  | incWeak weak =>
    cases hweak : s.weaks[weak]? with
    | none => exact stepped_same h (by simp [Heap.step, hweak])
    | some object =>
      obtain ⟨obj, hobj, halive⟩ := h.alive (.inr (List.mem_of_getElem? hweak))
      exact stepped_more h hobj halive (fun ho ha => ⟨(ho.incWeak ha).1, (ho.incWeak ha).2.2.1⟩)
        (by simp [Heap.step, hweak])
  | decWeak weak =>
    cases hweak : s.weaks[weak]? with
    | none => exact stepped_same h (by simp [Heap.step, hweak])
    | some object => exact step_decWeak h hv hweak

/-- Such a step is as it should be. -/
theorem Stepped.lifecycle (h : Stepped s v) (hv : NoWeakLeft s v) : Lifecycle s v where
  strong o obj hobj halive := by
    refine (h.ledger.counted o obj hobj).mStrong_eq halive ?_
    have hfew := h.few o
    have hsmall := hv.small o
    omega
  destroyed := h.destroyed
  once o obj hobj := (h.ledger.counted o obj hobj).destroyed_le
  freed o obj hobj := (h.ledger.counted o obj hobj).freed_eq
  used o obj hobj := (h.ledger.counted o obj hobj).misused_eq

end Step

/-! ## Every run -/

theorem ledger_init : Ledger Heap.init.objects Heap.init.handles Heap.init.weaks :=
  ⟨by simp [Heap.init], by simp [Heap.init], by simp [Heap.init]⟩

/-- The counts and the two lifetimes are right after every operation of a run, if no
weak reference is left when a last handle goes. -/
theorem lifecycle_run (program : List Op)
    (hprogram : AllSteps Heap.step NoWeakLeft Heap.init program) :
    AllSteps Heap.step Lifecycle Heap.init program :=
  AllSteps.imp (I := fun s => Ledger s.objects s.handles s.weaks)
    (fun _ _ h hv => ⟨(stepped h hv).ledger, (stepped h hv).lifecycle hv⟩) ledger_init hprogram

/-- No weak reference does where a strong one is left for each. -/
theorem noWeakLeft_of_handles {s : Heap} {v : Op}
    (hhandle : ∀ o ∈ s.handles.filterMap id, s.dropsLast v o → s.weaks.count o = 0)
    (hweak : ∀ o ∈ s.weaks, 0 < s.handles.count (some o))
    (hsmall : s.handles.length + s.weaks.length + 1 < 2 ^ 31) : NoWeakLeft s v where
  handle o hdrops := by
    refine hhandle o ?_ hdrops
    exact List.mem_filterMap.mpr ⟨some o, List.count_pos_iff.mp hdrops.1, rfl⟩
  weak _ o _ hweaks _ := hweak o (List.mem_of_getElem? hweaks)
  small o := by
    have hhandles := List.count_le_length (a := some o) (l := s.handles)
    have hweaks := List.count_le_length (a := o) (l := s.weaks)
    omega

/-- Two handles and a weak reference that goes before them. -/
theorem lifecycle_run_twoHandles :
    AllSteps Heap.step Lifecycle Heap.init
      [.new, .fromPtr (some 0), .createWeak 0, .copy 0, .destroy 1, .decWeak 0, .destroy 0] := by
  refine lifecycle_run _ ⟨?_, ?_, ?_, ?_, ?_, ?_, ?_, trivial⟩ <;>
    exact noWeakLeft_of_handles (by decide) (by decide) (by decide)

/-- A weak reference is left when the only handle goes: the destructor does not run. -/
theorem lifecycle_fails_weakLeft :
    ¬ AllSteps Heap.step Lifecycle Heap.init
      [.new, .fromPtr (some 0), .createWeak 0, .destroy 0] := by
  intro h
  obtain ⟨-, -, -, hlast, -⟩ := h
  have hdestroyed := hlast.destroyed 0 _ _ rfl rfl
  revert hdestroyed
  decide

end AndroidLearn.SmartPoint
