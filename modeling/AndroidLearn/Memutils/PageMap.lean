import AndroidLearn.Conf.Conf

/-!
# The map of a process' memory regions

`BKDRHash`, `PageMapItem`, `getDetailRegionMemory`, `getRegionPssMemory` and
`getProcessPssOnlyFromMap` of `MemoryMeasureHelper.cpp`. `getProcessPageMapItems` leaves
one item for each region name, under the hash of the name, and one for the total. What the
graphics devices take is not counted to the pss of a process: `getProcessPssOnlyFromMap`
subtracts it, for each platform in its own branch.

A map gives the item under a hash, if there is one, and a name is looked up by its hash
alone. An item keeps its values in a `long`, and gives them as an `int`. The devices of
each platform are those of the source, by their names.

Theorem: `pssOnly_iff` says when the result is the total without the devices, for every
map and platform; `missedCancels_iff` is the same in terms of the regions that a branch
forgets.
-/

namespace AndroidLearn.Memutils

open Conf

/-! ## The map -/

/-- What an item counts. -/
inductive Field
  | vss | rss | pss | swap | pSwap
  | sharedClean | sharedDirty | privateClean | privateDirty
  | referenced | anonymous | anonHugePages | kernelPageSize | mmuPageSize | locked
  deriving DecidableEq, Repr

/-- `PageMapItem`, a `long` for each field. The name that it also holds is never read. -/
abbrev PageMapItem := Field → Int64

/-- `getVss` and the others, which return an `int`. -/
def PageMapItem.get (item : PageMapItem) (f : Field) : Int32 := (item f).toInt32

/-- `DefaultKeyedVector`, ordered by key; the default is a null pointer. -/
abbrev PageMap := List (UInt32 × PageMapItem)

/-- The record under a key. -/
def PageMap.valueFor (map : PageMap) (key : UInt32) : Option PageMapItem := map.lookup key

/-- An item with that key is replaced. -/
def PageMap.add (key : UInt32) (item : PageMapItem) : PageMap → PageMap
  | [] => [(key, item)]
  | (k, x) :: map =>
    if key < k then (key, item) :: (k, x) :: map
    else if key = k then (key, item) :: map
    else (k, x) :: PageMap.add key item map

/-- `BKDRHash`. Each step adds the seed, where the function of that name multiplies by
it; a `char` is unsigned. -/
def bkdrHash (str : CString) : UInt32 :=
  let seed : UInt32 := 131
  (str.foldl (fun hash c => hash + seed + UInt32.ofNat c.toNat) 0) &&& 0x7FFFFFFF

/-- The name of the sum. -/
def totalMemory : CString := "TOTAL".toList

/-- What a process has of graphics on this platform is under these names. -/
def qctGraphicDev : CString := "/dev/kgsl-3d0".toList

def qctGraphicIonDev1 : CString := "anon_inode:ion_share_fd".toList

def qctGraphicIonDev2 : CString := "anon_inode:dmabuf".toList

def nvGraphicDevNvmap : CString := "/dev/nvmap".toList

def nvGraphicDevKnvmap : CString := "/dev/knvmap".toList

def steGraphicDev : CString := "/dev/mali".toList

/-- A record that was added is found. -/
theorem PageMap.valueFor_add_self (map : PageMap) (key : UInt32) (item : PageMapItem) :
    (map.add key item).valueFor key = some item := by
  induction map with
  | nil => simp [add, valueFor]
  | cons entry map ih =>
    obtain ⟨k, x⟩ := entry
    rw [PageMap.add]
    split
    · exact List.lookup_cons_self
    · split
      · exact List.lookup_cons_self
      · next hne =>
        rw [valueFor, List.lookup_cons, beq_false_of_ne hne]
        exact ih

/-- The others stay. -/
theorem PageMap.valueFor_add_ne (map : PageMap) {key other : UInt32} (item : PageMapItem)
    (hne : other ≠ key) : (map.add key item).valueFor other = map.valueFor other := by
  induction map with
  | nil =>
    rw [add, valueFor, List.lookup_cons, beq_false_of_ne hne]
    rfl
  | cons entry map ih =>
    obtain ⟨k, x⟩ := entry
    rw [PageMap.add]
    split
    · rw [valueFor, List.lookup_cons, beq_false_of_ne hne]
      rfl
    · split
      · next heq =>
        subst heq
        rw [valueFor, valueFor, List.lookup_cons, List.lookup_cons, beq_false_of_ne hne]
      · unfold valueFor at ih ⊢
        rw [List.lookup_cons, List.lookup_cons, ih]

/-! ## The pss without the graphics devices -/

/-- `mPlatform` -/
inductive Platform
  | none | nv | qct | ste | brcm | mtk
  deriving DecidableEq, Repr

/-- `result -= item->getPss ()`, if the map has the item. -/
def PageMap.subtractPss (map : PageMap) (name : CString) (result : Int64) : Int64 :=
  match map.valueFor (bkdrHash name) with
  | some item => result - (item.get .pss).toInt64
  | .none => result

/-- The sum, less what is graphics. -/
def getProcessPssOnlyFromMap (platform : Platform) (map : PageMap) : Int64 :=
  if map.isEmpty then 0
  else
    let result : Int64 :=
      match map.valueFor (bkdrHash totalMemory) with
      | some total => (total.get .pss).toInt64
      | .none => 0
    match platform with
    | .qct =>
      -- pss - kgsl_pss - iOn_pss
      match map.valueFor (bkdrHash qctGraphicDev) with
      | some kgsl =>
        let result := result - (kgsl.get .pss).toInt64
        let result := map.subtractPss qctGraphicIonDev1 result
        map.subtractPss qctGraphicIonDev2 result
      | .none => result
    | .nv => map.subtractPss nvGraphicDevKnvmap (map.subtractPss nvGraphicDevNvmap result)
    | .ste => map.subtractPss steGraphicDev result
    | .brcm => map.subtractPss qctGraphicIonDev2 result
    | .mtk => map.subtractPss qctGraphicIonDev2 result
    | .none => result

/-- The graphics devices of a platform. -/
def Platform.graphicsDevices : Platform → List CString
  | .qct => [qctGraphicDev, qctGraphicIonDev1, qctGraphicIonDev2]
  | .nv => [nvGraphicDevNvmap, nvGraphicDevKnvmap]
  | .ste => [steGraphicDev]
  | .brcm => [qctGraphicIonDev2]
  | .mtk => [qctGraphicIonDev2]
  | .none => []

/-- The pss that the map has for a name; nothing, if it has no item. -/
def PageMap.pss (map : PageMap) (name : CString) : Int :=
  match map.valueFor (bkdrHash name) with
  | some item => (item .pss).toInt
  | .none => 0

/-- What `getPss` makes of it. -/
def PageMap.gotPss (map : PageMap) (name : CString) : Int :=
  match map.valueFor (bkdrHash name) with
  | some item => (item.get .pss).toInt
  | .none => 0

/-- The property: the total without the devices of the platform. -/
def PssWithoutGraphics (platform : Platform) (map : PageMap) : Prop :=
  (getProcessPssOnlyFromMap platform map).toInt =
    map.pss totalMemory - (platform.graphicsDevices.map map.pss).sum

/-- `kgsl` is missing, and with it the branch that subtracts the others. -/
def Skipped (platform : Platform) (map : PageMap) : Prop :=
  platform = .qct ∧ map.valueFor (bkdrHash qctGraphicDev) = .none

instance (platform : Platform) (map : PageMap) : Decidable (Skipped platform map) :=
  inferInstanceAs (Decidable (_ ∧ map.lookup _ = .none))

/-- What is not subtracted of a device. -/
def missed (platform : Platform) (map : PageMap) (name : CString) : Int :=
  if Skipped platform map then map.pss name else map.pss name - map.gotPss name

/-- The condition: what is missed of the devices is what `getPss` drops of the total. -/
def MissedCancels (platform : Platform) (map : PageMap) : Prop :=
  map.pss totalMemory - map.gotPss totalMemory =
    (platform.graphicsDevices.map (missed platform map)).sum

section Pss

variable {map : PageMap} {platform : Platform}

/-- A `pss` is an `int`. -/
theorem gotPss_bounds (map : PageMap) (name : CString) :
    -2 ^ 31 ≤ map.gotPss name ∧ map.gotPss name < 2 ^ 31 := by
  unfold PageMap.gotPss
  split
  · exact ⟨Int32.le_toInt _, Int32.toInt_lt _⟩
  · omega

/-- A `long` is wide enough for the few values that are subtracted. -/
theorem toInt_sub_pss {result : Int64} (pss : Int32)
    (hresult : -2 ^ 40 ≤ result.toInt ∧ result.toInt ≤ 2 ^ 40) :
    (result - pss.toInt64).toInt = result.toInt - pss.toInt := by
  have hlow := Int32.le_toInt pss
  have hhigh := Int32.toInt_lt pss
  rw [Int64.toInt_sub, Int32.toInt_toInt64]
  exact Int.bmod_eq_of_le (by omega) (by omega)

/-- The subtraction does not wrap around. -/
theorem toInt_subtractPss {result : Int64} (name : CString)
    (hresult : -2 ^ 40 ≤ result.toInt ∧ result.toInt ≤ 2 ^ 40) :
    (map.subtractPss name result).toInt = result.toInt - map.gotPss name := by
  unfold PageMap.subtractPss PageMap.gotPss
  split
  · exact toInt_sub_pss _ hresult
  · omega

/-- The result is made of what `getPss` returns: the total, and the devices that are not
skipped. -/
theorem getProcessPssOnlyFromMap_eq (platform : Platform) (map : PageMap) :
    (getProcessPssOnlyFromMap platform map).toInt =
      map.gotPss totalMemory -
        (platform.graphicsDevices.map fun name =>
          if Skipped platform map then 0 else map.gotPss name).sum := by
  unfold getProcessPssOnlyFromMap
  split
  · next hempty =>
    obtain rfl := List.isEmpty_iff.mp hempty
    cases platform <;> rfl
  extract_lets result
  have htotal : result.toInt = map.gotPss totalMemory := by
    show (match map.valueFor (bkdrHash totalMemory) with
      | some total => (total.get .pss).toInt64
      | .none => 0).toInt = _
    unfold PageMap.gotPss
    split
    · exact Int32.toInt_toInt64 _
    · rfl
  have hbounds := gotPss_bounds map totalMemory
  rw [← htotal] at hbounds ⊢
  -- each branch subtracts the devices of its platform one after the other
  have hone (name : CString) :
      (map.subtractPss name result).toInt = result.toInt - map.gotPss name :=
    toInt_subtractPss name (by omega)
  cases platform with
  | none => simp [Platform.graphicsDevices]
  | ste => simp [Platform.graphicsDevices, Skipped, hone]
  | brcm => simp [Platform.graphicsDevices, Skipped, hone]
  | mtk => simp [Platform.graphicsDevices, Skipped, hone]
  | nv =>
    have hfirst := gotPss_bounds map nvGraphicDevNvmap
    have htwo : (map.subtractPss nvGraphicDevKnvmap
        (map.subtractPss nvGraphicDevNvmap result)).toInt =
        result.toInt - map.gotPss nvGraphicDevNvmap - map.gotPss nvGraphicDevKnvmap := by
      rw [toInt_subtractPss _ (by rw [hone]; omega), hone]
    simp [Platform.graphicsDevices, Skipped, htwo]
    omega
  | qct =>
    cases hkgsl : map.valueFor (bkdrHash qctGraphicDev) with
    | none => simp [Platform.graphicsDevices, Skipped, hkgsl]
    | some kgsl =>
      have hfirst : map.gotPss qctGraphicDev = (kgsl.get .pss).toInt := by
        rw [PageMap.gotPss, hkgsl]
      have hkgslBounds := gotPss_bounds map qctGraphicDev
      have hion := gotPss_bounds map qctGraphicIonDev1
      have hsub := toInt_sub_pss (kgsl.get .pss) (show _ ∧ result.toInt ≤ 2 ^ 40 by omega)
      rw [← hfirst] at hsub
      have hthree : (map.subtractPss qctGraphicIonDev2 (map.subtractPss qctGraphicIonDev1
          (result - (kgsl.get .pss).toInt64))).toInt =
          result.toInt - map.gotPss qctGraphicDev - map.gotPss qctGraphicIonDev1 -
            map.gotPss qctGraphicIonDev2 := by
        have hsecond : (map.subtractPss qctGraphicIonDev1
            (result - (kgsl.get .pss).toInt64)).toInt = _ :=
          toInt_subtractPss _ (by rw [hsub]; omega)
        rw [toInt_subtractPss _ (by rw [hsecond, hsub]; omega), hsecond, hsub]
      simp [Platform.graphicsDevices, Skipped, hkgsl, hthree]
      omega

/-- Without values beyond an `int`, only the skipped devices are missed. -/
theorem missedCancels_iff (hfits : ∀ entry ∈ map, (entry.2.get .pss).toInt = (entry.2 .pss).toInt) :
    MissedCancels platform map ↔
      (Skipped platform map → map.pss qctGraphicIonDev1 + map.pss qctGraphicIonDev2 = 0) := by
  have hgot (name : CString) : map.gotPss name = map.pss name := by
    unfold PageMap.gotPss PageMap.pss
    split
    · next item hitem =>
      obtain ⟨front, rest, rfl, -⟩ := List.lookup_eq_some_iff.mp hitem
      exact hfits (bkdrHash name, item) (by simp)
    · rfl
  unfold MissedCancels missed
  rw [hgot, Int.sub_self]
  by_cases hskipped : Skipped platform map
  · obtain ⟨rfl, hkgsl⟩ := id hskipped
    have hnone : map.pss qctGraphicDev = 0 := by rw [PageMap.pss, hkgsl]
    simp [hskipped, Platform.graphicsDevices, hnone, eq_comm]
  · simp [hskipped, hgot]

end Pss

/-- The pss is returned without that of the graphics devices exactly when what is missed
of them cancels. -/
theorem pssOnly_iff (platform : Platform) (map : PageMap) :
    PssWithoutGraphics platform map ↔ MissedCancels platform map := by
  have hmissed (names : List CString) :
      (names.map (missed platform map)).sum = (names.map map.pss).sum -
        (names.map fun name => if Skipped platform map then 0 else map.gotPss name).sum := by
    induction names with
    | nil => rfl
    | cons name names ih =>
      rw [List.map_cons, List.map_cons, List.map_cons, List.sum_cons, List.sum_cons,
        List.sum_cons, ih, missed]
      split <;> omega
  unfold PssWithoutGraphics MissedCancels
  rw [getProcessPssOnlyFromMap_eq, hmissed]
  constructor <;> intro h <;> omega

/-- `dmabuf` without `kgsl`. -/
theorem pssOnly_fails_ion :
    let map := (PageMap.add (bkdrHash totalMemory) (fun _ => 100) []).add
      (bkdrHash qctGraphicIonDev2) fun _ => 10
    ¬ PssWithoutGraphics .qct map := by
  unfold PssWithoutGraphics
  decide

end AndroidLearn.Memutils
