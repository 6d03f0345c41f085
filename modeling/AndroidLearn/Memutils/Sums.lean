import AndroidLearn.Memutils.Aggregate

/-!
# The items of `smaps`

What the map of `getProcessPageMapItems` in `MemoryMeasureHelper.cpp` has for a name, and
for the total, against what the text says: the sums of the values of the mappings with
that name, and of all mappings, for each platform and in both modes of the reader.

Theorems:
- `smaps_iff`: for quiet texts, in which no name looks like a line of another kind, the
  items are right exactly when, of the mappings whose names have one hash, those with
  another name have nothing that is counted;
- `kept_iff_of_plain`: what this comes to for names of one word and values that an `int`
  holds.

The hash adds up the characters of a name, so that it is the same for all names with the
same characters in another order.
-/

namespace AndroidLearn.Memutils

open Conf

variable {platform : Platform}

/-! ## The property -/

/-- The sum of a field. -/
def total (ms : List (Mapping platform)) (f : Field) : Nat := (ms.map fun m => m.values f).sum

/-- The mappings with a name. -/
def named (ms : List (Mapping platform)) (name : CString) : List (Mapping platform) :=
  ms.filter fun m => m.label = name

/-- The item looked up for a name has this value. -/
def Holds (map : PageMap) (name : CString) (f : Field) (n : Nat) : Prop :=
  ∃ item, map.valueFor (bkdrHash name) = some item ∧ (item f).toInt = n

/-- Each name has the sums of its mappings, and the total those of all. -/
structure Exact (allValues : Bool) (ms : List (Mapping platform)) (map : PageMap) : Prop where
  names : ∀ m ∈ ms, ∀ f ∈ countedFields platform allValues,
    Holds map m.label f (total (named ms m.label) f)
  total : ∀ f ∈ countedFields platform allValues, Holds map totalMemory f (total ms f)

/-! ## The condition -/

/-- The mappings that are counted under a key. -/
def under (ms : List (Mapping platform)) (key : UInt32) : List (Mapping platform) :=
  ms.filter fun m => bkdrHash m.word = key

/-- A value as an `int`. -/
def cut (v : Nat) : Int := (v : Int).bmod (2 ^ 32)

/-- What an item keeps of its mappings: the values of all but the first come through the
getters, which return an `int`. -/
def kept : List (Mapping platform) → Field → Int
  | [], _ => 0
  | m :: ms, f => m.values f + (ms.map fun m => cut (m.values f)).sum

/-- The condition: the sums fit, and what is under a name is what is kept of it. -/
structure Kept (allValues : Bool) (ms : List (Mapping platform)) : Prop where
  /-- a `long` has room for the sums -/
  fits : ∀ f ∈ countedFields platform allValues, Memutils.total ms f < 2 ^ 63
  /-- something is counted under the name's key, and what is kept of it makes up the sum -/
  apart : ∀ m ∈ ms, bkdrHash m.label ≠ bkdrHash totalMemory →
    under ms (bkdrHash m.label) ≠ [] ∧ ∀ f ∈ countedFields platform allValues,
      kept (under ms (bkdrHash m.label)) f = Memutils.total (named ms m.label) f
  /-- the total takes the place of an item with its key -/
  replaced : ∀ m ∈ ms, bkdrHash m.label = bkdrHash totalMemory →
    ∀ f ∈ countedFields platform allValues, Memutils.total (named ms m.label) f = Memutils.total ms f

/-! ## An item -/

section Item

variable {allValues : Bool} {m : Mapping platform} {ms l : List (Mapping platform)} {f : Field}
  {key : UInt32}

/-- A value that fits is stored as it is. -/
theorem toInt_storeLong {v : Nat} (hv : v < 2 ^ 63) : (storeLong v).toInt = v := by
  unfold storeLong
  rw [show max (-(2 ^ 63)) (min (v : Int) (2 ^ 63 - 1)) = v by omega]
  exact Int64.toInt_ofInt_of_le (by omega) (by omega)

/-- A value that is counted is collected. -/
theorem collected_of_counted (hf : f ∈ countedFields platform allValues) (hv : m.values f < 2 ^ 63) :
    (m.collected allValues platform.order f).toInt = m.values f := by
  unfold countedFields at hf
  unfold Mapping.collected
  rw [if_pos hf]
  exact toInt_storeLong hv

/-- A new record has it. -/
theorem init_of_counted (hf : f ∈ countedFields platform allValues) (values : PageMapItem) :
    PageMapItem.init allValues values f = values f := by
  refine if_pos ?_
  cases allValues with
  | true => exact .inl rfl
  | false => exact .inr (countedFields_main f hf)

theorem item_of_counted (hf : f ∈ countedFields platform allValues) (hv : m.values f < 2 ^ 63) :
    (m.item allValues f).toInt = m.values f := by
  rw [Mapping.item, init_of_counted hf, collected_of_counted hf hv]

theorem cut_of_lt {v : Nat} (hv : v < 2 ^ 31) : cut v = v :=
  Int.bmod_eq_of_le (by omega) (by omega)

/-- Cutting to an `int` makes nothing larger. -/
theorem natAbs_cut (v : Nat) : (cut v).natAbs ≤ v := by
  by_cases hv : v < 2 ^ 31
  · rw [cut_of_lt hv]
    omega
  · have hlow : -((2 : Int) ^ 31) ≤ cut v := Int.le_bmod (by omega)
    have hhigh : cut v < 2 ^ 31 := Int.bmod_lt (by omega)
    omega

/-- A record that is added to has the sum. -/
theorem combine_of_counted {old : PageMapItem} (hf : f ∈ countedFields platform allValues)
    (hfits : (old f).toInt.natAbs + m.values f < 2 ^ 63) :
    (old.combine allValues (m.item allValues) f).toInt = (old f).toInt + cut (m.values f) := by
  have hmain : allValues = true ∨ f ∈ mainFields := by
    cases allValues with
    | true => exact .inl rfl
    | false => exact .inr (countedFields_main f hf)
  have hcut := natAbs_cut (m.values f)
  have hget : ((m.item allValues).get f).toInt64.toInt = cut (m.values f) := by
    rw [Int32.toInt_toInt64, PageMapItem.get, Int64.toInt_toInt32, item_of_counted hf (by omega)]
    rfl
  rw [PageMapItem.combine, if_pos hmain, Int64.toInt_add, hget]
  exact Int.bmod_eq_of_le (by omega) (by omega)

/-- What a mapping makes of the item under its key. -/
def collect (allValues : Bool) (item : Option PageMapItem) (m : Mapping platform) :
    Option PageMapItem :=
  match item with
  | none => some (m.item allValues)
  | some old => some (old.combine allValues (m.item allValues))

/-- A mapping is counted under its name. -/
theorem valueFor_count (map : PageMap) (m : Mapping platform) (key : UInt32) :
    (map.count allValues (bkdrHash m.word) (m.item allValues)).valueFor key =
      if bkdrHash m.word = key then collect allValues (map.valueFor key) m else map.valueFor key := by
  unfold PageMap.count
  by_cases hkey : bkdrHash m.word = key
  · subst hkey
    rw [if_pos rfl]
    cases map.valueFor (bkdrHash m.word) with
    | none => exact PageMap.valueFor_add_self map _ _
    | some old => exact PageMap.valueFor_add_self map _ _
  · rw [if_neg hkey]
    cases map.valueFor (bkdrHash m.word) with
    | none => exact PageMap.valueFor_add_ne map _ (Ne.symm hkey)
    | some old => exact PageMap.valueFor_add_ne map _ (Ne.symm hkey)

/-- The item under a key is made by the mappings under it. -/
theorem valueFor_itemMap (ms : List (Mapping platform)) (key : UInt32) :
    (itemMap allValues ms).valueFor key = (under ms key).foldl (collect allValues) none := by
  have hrun (map : PageMap) : (ms.foldl (fun map m =>
      map.count allValues (bkdrHash m.word) (m.item allValues)) map).valueFor key =
      (under ms key).foldl (collect allValues) (map.valueFor key) := by
    induction ms generalizing map with
    | nil => rfl
    | cons m ms ih =>
      rw [List.foldl_cons, ih, valueFor_count]
      unfold under
      by_cases hkey : bkdrHash m.word = key
      · rw [if_pos hkey, List.filter_cons_of_pos (by simpa using hkey), List.foldl_cons]
      · rw [if_neg hkey, List.filter_cons_of_neg (by simpa using hkey)]
  exact hrun []

theorem foldl_collect {old : PageMapItem} (hf : f ∈ countedFields platform allValues)
    (hfits : (old f).toInt.natAbs + total l f < 2 ^ 63) :
    ∃ item, l.foldl (collect allValues) (some old) = some item ∧
      (item f).toInt = (old f).toInt + (l.map fun m => cut (m.values f)).sum := by
  induction l generalizing old with
  | nil => exact ⟨old, rfl, by simp⟩
  | cons m l ih =>
    rw [total, List.map_cons, List.sum_cons] at hfits
    have hcombine : (old.combine allValues (m.item allValues) f).toInt =
        (old f).toInt + cut (m.values f) := combine_of_counted hf (by omega)
    have hcut := natAbs_cut (m.values f)
    have hrest : (old.combine allValues (m.item allValues) f).toInt.natAbs + total l f < 2 ^ 63 := by
      rw [hcombine]
      unfold total
      omega
    obtain ⟨item, hitem, hvalue⟩ := ih hrest
    refine ⟨item, hitem, ?_⟩
    rw [hvalue, hcombine, List.map_cons, List.sum_cons]
    omega

theorem total_sublist (h : l.Sublist ms) (f : Field) : total l f ≤ total ms f :=
  List.Sublist.sum_le_sum (h.map (·.values f)) fun _ _ => Nat.zero_le _

/-- There is an item for a key exactly when there are mappings under it, and it has what is
kept of them. -/
theorem itemMap_none : (itemMap allValues ms).valueFor key = none ↔ under ms key = [] := by
  rw [valueFor_itemMap]
  have hsome (l : List (Mapping platform)) (old : PageMapItem) :
      l.foldl (collect allValues) (some old) ≠ none := by
    induction l generalizing old with
    | nil => exact Option.some_ne_none old
    | cons m l ih => exact ih _
  cases under ms key with
  | nil => exact iff_of_true rfl rfl
  | cons m l => exact iff_of_false (hsome l _) (List.cons_ne_nil m l)

/-- What is under a name in the end. -/
theorem itemMap_some {item : PageMapItem} (hf : f ∈ countedFields platform allValues)
    (hfits : total ms f < 2 ^ 63) (hitem : (itemMap allValues ms).valueFor key = some item) :
    (item f).toInt = kept (under ms key) f := by
  have hunder : total (under ms key) f < 2 ^ 63 :=
    (total_sublist List.filter_sublist f).trans_lt hfits
  rw [valueFor_itemMap] at hitem
  cases hms : under ms key with
  | nil =>
    rw [hms] at hitem
    cases hitem
  | cons m l =>
    rw [hms] at hitem hunder
    rw [total, List.map_cons, List.sum_cons] at hunder
    have hfirst : (m.item allValues f).toInt = m.values f := item_of_counted hf (by omega)
    have hrest : (m.item allValues f).toInt.natAbs + total l f < 2 ^ 63 := by
      rw [hfirst]
      unfold total
      omega
    obtain ⟨item', hitem', hvalue⟩ := foldl_collect hf hrest
    obtain rfl : item' = item := Option.some.inj (hitem'.symm.trans hitem)
    rw [hvalue, hfirst]
    rfl

/-- What is in the sum of all. -/
theorem itemSums_of_counted (hf : f ∈ countedFields platform allValues)
    (hfits : total ms f < 2 ^ 63) :
    (PageMapItem.init allValues (itemSums allValues ms) f).toInt = total ms f := by
  have hrun (sums : PageMapItem) (hsums : (sums f).toInt.natAbs + total ms f < 2 ^ 63) :
      ((ms.foldl (fun sums m f => sums f + m.collected allValues platform.order f) sums) f).toInt =
        (sums f).toInt + total ms f := by
    clear hfits
    induction ms generalizing sums with
    | nil => simp [total]
    | cons m ms ih =>
      rw [total, List.map_cons, List.sum_cons] at hsums
      have hadd : (sums f + m.collected allValues platform.order f).toInt =
          (sums f).toInt + m.values f := by
        rw [Int64.toInt_add, collected_of_counted hf (by omega)]
        exact Int.bmod_eq_of_le (by omega) (by omega)
      rw [List.foldl_cons, ih _ (by rw [hadd]; unfold total; omega), hadd, total, total, List.map_cons,
        List.sum_cons]
      omega
  rw [init_of_counted hf, itemSums, hrun _ (by simpa using hfits)]
  simp

end Item

/-! ## The map -/

section Map

variable {allValues : Bool} {ms : List (Mapping platform)}

theorem vss_mem_countedFields : .vss ∈ countedFields platform allValues := by
  cases platform <;> cases allValues <;> decide

/-- The items of the mappings, with the total behind them. -/
theorem exact_iff :
    Exact allValues ms ((itemMap allValues ms).add (bkdrHash totalMemory)
      (.init allValues (itemSums allValues ms))) ↔ Kept allValues ms := by
  have hother {key : UInt32} (hne : key ≠ bkdrHash totalMemory) :=
    PageMap.valueFor_add_ne (itemMap allValues ms) (.init allValues (itemSums allValues ms)) hne
  have hself := PageMap.valueFor_add_self (itemMap allValues ms) (bkdrHash totalMemory)
    (.init allValues (itemSums allValues ms))
  constructor
  · intro hexact
    obtain ⟨hnames, htotal⟩ := hexact
    have hfits : ∀ f ∈ countedFields platform allValues, total ms f < 2 ^ 63 := by
      intro f hf
      obtain ⟨item, -, hvalue⟩ := htotal f hf
      have hlt := Int64.toInt_lt (item f)
      omega
    refine ⟨hfits, fun m hm hne => ⟨fun hnil => ?_, fun f hf => ?_⟩, fun m hm heq f hf => ?_⟩
    · obtain ⟨item, hitem, -⟩ := hnames m hm .vss vss_mem_countedFields
      rw [hother hne, itemMap_none.mpr hnil] at hitem
      cases hitem
    · obtain ⟨item, hitem, hvalue⟩ := hnames m hm f hf
      rw [hother hne] at hitem
      rw [← itemMap_some hf (hfits f hf) hitem, hvalue]
    · obtain ⟨item, hitem, hvalue⟩ := hnames m hm f hf
      rw [heq, hself] at hitem
      cases hitem
      rw [itemSums_of_counted hf (hfits f hf)] at hvalue
      exact_mod_cast hvalue.symm
  · intro hkept
    obtain ⟨hfits, hapart, hreplaced⟩ := hkept
    refine ⟨fun m hm f hf => ?_, fun f hf => ⟨_, hself, itemSums_of_counted hf (hfits f hf)⟩⟩
    by_cases heq : bkdrHash m.label = bkdrHash totalMemory
    · refine ⟨_, by rw [heq]; exact hself, ?_⟩
      rw [itemSums_of_counted hf (hfits f hf), hreplaced m hm heq f hf]
    · obtain ⟨hne, hkept⟩ := hapart m hm heq
      cases hitem : (itemMap allValues ms).valueFor (bkdrHash m.label) with
      | none => exact absurd (itemMap_none.mp hitem) hne
      | some item =>
        refine ⟨item, by rw [hother heq, hitem], ?_⟩
        rw [itemMap_some hf (hfits f hf) hitem, hkept f hf]

/-! ## Plain names -/

/-- A sum, by two parts. -/
theorem total_filter_add {p q : Mapping platform → Bool} (hqp : ∀ m ∈ ms, q m = true → p m = true)
    (f : Field) : total (ms.filter p) f =
      total (ms.filter q) f + total (ms.filter fun m => p m && ! q m) f := by
  induction ms with
  | nil => rfl
  | cons m ms ih =>
    have hrest := ih fun m' hm' => hqp m' (List.mem_cons_of_mem m hm')
    have hm := hqp m List.mem_cons_self
    unfold total at hrest ⊢
    cases hq : q m with
    | true =>
      simp only [List.filter_cons, hm hq, hq, Bool.not_true, Bool.and_false, Bool.false_eq_true,
        if_true, if_false, List.map_cons, List.sum_cons]
      omega
    | false =>
      cases hp : p m with
      | true =>
        simp only [List.filter_cons, hp, hq, Bool.not_false, Bool.and_true, Bool.false_eq_true,
          if_true, if_false, List.map_cons, List.sum_cons]
        omega
      | false =>
        simp only [List.filter_cons, hp, hq, Bool.not_false, Bool.and_true, Bool.false_eq_true,
          if_false]
        exact hrest

/-- More mappings have the same sum exactly when the others have nothing. -/
theorem total_filter_eq_iff {p q : Mapping platform → Bool} (hqp : ∀ m ∈ ms, q m = true → p m = true)
    (f : Field) : total (ms.filter p) f = total (ms.filter q) f ↔
      ∀ m ∈ ms, p m = true → q m = false → m.values f = 0 := by
  rw [total_filter_add hqp, Nat.add_eq_left, total, List.sum_eq_zero_iff]
  constructor
  · intro h m hm hp hq
    refine h _ (List.mem_map_of_mem (List.mem_filter.mpr ⟨hm, ?_⟩))
    rw [hp, hq]
    rfl
  · intro h v hv
    obtain ⟨m, hm, rfl⟩ := List.mem_map.mp hv
    obtain ⟨hm, hpq⟩ := List.mem_filter.mp hm
    obtain ⟨hp, hq⟩ := Bool.and_eq_true_iff.mp hpq
    exact h m hm hp (by simpa using hq)

/-- Nothing is cut where all values are small. -/
theorem kept_of_lt {l : List (Mapping platform)} {f : Field} (hint : ∀ m ∈ l, m.values f < 2 ^ 31) :
    kept l f = total l f := by
  cases l with
  | nil => rfl
  | cons m l =>
    have hcut : (l.map fun m => cut (m.values f)).sum = total l f := by
      replace hint : ∀ m' ∈ l, m'.values f < 2 ^ 31 := fun m' hm' =>
        hint m' (List.mem_cons_of_mem m hm')
      induction l with
      | nil => rfl
      | cons m' l ih =>
        rw [List.map_cons, List.sum_cons, cut_of_lt (hint m' List.mem_cons_self),
          ih fun other hother => hint other (List.mem_cons_of_mem m' hother), total, total,
          List.map_cons, List.sum_cons, Nat.cast_add]
    rw [kept, hcut, total, total, List.map_cons, List.sum_cons, Nat.cast_add]

/-- With plain names and values, mappings that are counted under the key of another name,
or whose key is that of the total, have nothing that is counted. -/
theorem kept_iff_of_plain (hword : ∀ m ∈ ms, m.word = m.label)
    (hint : ∀ m ∈ ms, ∀ f ∈ countedFields platform allValues, m.values f < 2 ^ 31) :
    Kept allValues ms ↔ (∀ f ∈ countedFields platform allValues, total ms f < 2 ^ 63) ∧
      ∀ m ∈ ms, ∀ other ∈ ms, other.label ≠ m.label →
        bkdrHash other.label = bkdrHash m.label ∨ bkdrHash m.label = bkdrHash totalMemory →
        ∀ f ∈ countedFields platform allValues, other.values f = 0 := by
  have hunder (m : Mapping platform) (f : Field) (hf : f ∈ countedFields platform allValues) :
      kept (under ms (bkdrHash m.label)) f = total (named ms m.label) f ↔
        ∀ other ∈ ms, bkdrHash other.label = bkdrHash m.label → other.label ≠ m.label →
          other.values f = 0 := by
    have hsame : under ms (bkdrHash m.label) =
        ms.filter fun other => bkdrHash other.label = bkdrHash m.label :=
      List.filter_congr fun other hother => by rw [hword other hother]
    have hkept : kept (under ms (bkdrHash m.label)) f = total (under ms (bkdrHash m.label)) f :=
      kept_of_lt fun other hother => hint other (List.mem_of_mem_filter hother) f hf
    rw [hkept, hsame, Nat.cast_inj, named, total_filter_eq_iff (fun other _ hlabel => by
        rw [of_decide_eq_true hlabel]; exact decide_eq_true rfl)]
    simp only [decide_eq_true_eq, decide_eq_false_iff_not, ne_eq]
  have htotal (m : Mapping platform) (f : Field) : total (named ms m.label) f = total ms f ↔
      ∀ other ∈ ms, other.label ≠ m.label → other.values f = 0 := by
    have hall : ms.filter (fun _ => true) = ms := List.filter_eq_self.mpr fun _ _ => rfl
    have hiff : total (ms.filter fun _ => true) f = total (named ms m.label) f ↔ _ :=
      total_filter_eq_iff (fun _ _ _ => rfl) f
    rw [hall] at hiff
    rw [eq_comm, hiff]
    simp only [forall_const, decide_eq_false_iff_not, ne_eq]
  constructor
  · intro hkept
    obtain ⟨hfits, hapart, hreplaced⟩ := hkept
    refine ⟨hfits, fun m hm other hother hne hkey f hf => ?_⟩
    by_cases heq : bkdrHash m.label = bkdrHash totalMemory
    · exact (htotal m f).mp (hreplaced m hm heq f hf) other hother hne
    · exact (hunder m f hf).mp ((hapart m hm heq).2 f hf) other hother (hkey.resolve_right heq) hne
  · intro hplain
    obtain ⟨hfits, hzero⟩ := hplain
    refine ⟨hfits, fun m hm _ => ⟨?_, fun f hf => ?_⟩, fun m hm heq f hf => ?_⟩
    · refine List.ne_nil_of_mem (List.mem_filter.mpr ⟨hm, ?_⟩)
      rw [hword m hm]
      exact decide_eq_true rfl
    · exact (hunder m f hf).mpr fun other hother hkey hne => hzero m hm other hother hne (.inl hkey) f hf
    · exact (htotal m f).mpr fun other hother hne => hzero m hm other hother hne (.inr heq) f hf

end Map

/-! ## The text -/

/-- Lines that are read at once have no later pieces. -/
theorem quiet_of_short {allValues : Bool} {m : Mapping platform} (hheader : m.header.length < 255)
    (hlines : ∀ key rest, .other key rest ∈ m.lines → key.length + rest.length < 254) :
    m.Quiet allValues := by
  have hlater {line : CString} (hfree : '\n' ∉ line) (hshort : line.length < 255) :
      laterPieces line = [] := by
    rw [laterPieces, readLines_short hfree (by rw [List.length_nil]; omega)]
    rfl
  have hquiet (lines : List BodyLine) (hmem : ∀ line ∈ lines, line ∈ m.lines) (ts : List CheckType) :
      QuietLines allValues m.values ts lines := by
    induction lines generalizing ts with
    | nil => trivial
    | cons line lines ih =>
      have hrest := ih fun l hl => hmem l (List.mem_cons_of_mem line hl)
      cases line with
      | count t n => exact hrest ts.tail
      | other key rest =>
        have hline := hmem _ List.mem_cons_self
        have hshort := hlines key rest hline
        refine ⟨fun piece hpiece => ?_, hrest ts⟩
        rw [hlater (other_free (m.others key rest hline))
          (by rw [List.length_append, List.length_cons]; omega)] at hpiece
        exact absurd hpiece List.not_mem_nil
  refine ⟨fun piece hpiece => ?_, hquiet m.lines (fun _ h => h) platform.order⟩
  rw [hlater (header_free m) hheader] at hpiece
  exact absurd hpiece List.not_mem_nil

/-- For every text of the kernel where no rest of a long line is taken for a line of its
own: the items of all names, and the total, have the sums of their mappings exactly when
they are kept apart. -/
theorem smaps_iff {allValues : Bool} {ms : List (Mapping platform)}
    (hquiet : ∀ m ∈ ms, m.Quiet allValues) :
    Exact allValues ms (getProcessPageMapItems platform allValues (some (smaps ms))) ↔
      Kept allValues ms := by
  rw [getProcessPageMapItems_smaps hquiet]
  exact exact_iff

def sampleRegion : Region where
  start := "8000".toList
  stop := "9000".toList
  perms := "r-xp".toList
  offset := "0".toList
  dev := "fd:03".toList
  inode := "7".toList
  start_hex := ⟨List.cons_ne_nil _ _, List.all_eq_true.mp rfl⟩
  stop_hex := ⟨List.cons_ne_nil _ _, List.all_eq_true.mp rfl⟩
  perms_word := isWord_of_all (List.cons_ne_nil _ _) rfl
  offset_hex := ⟨List.cons_ne_nil _ _, List.all_eq_true.mp rfl⟩
  dev_word := isWord_of_all (List.cons_ne_nil _ _) rfl
  inode_decimal := ⟨List.cons_ne_nil _ _, List.all_eq_true.mp rfl⟩

/-- A mapping without other lines, all of whose values are the same. -/
def sampleMapping (name : CString) (v : Nat) (hname : '\n' ∉ name) (hv : v < 2 ^ 64) :
    Mapping .none where
  region := sampleRegion
  blanks := 1
  name := name
  values := fun _ => v
  lines := Platform.none.order.map fun t => .count t 1
  blanks_pos := Nat.one_pos
  region_short := by decide
  name_free := hname
  values_lt := fun _ => hv
  order := rfl
  blanks_short := by
    intro t n h
    obtain ⟨_, _, heq⟩ := List.mem_map.mp h
    cases heq
    decide
  others := by
    intro key rest h
    obtain ⟨_, _, heq⟩ := List.mem_map.mp h
    cases heq

theorem sample_quiet {name : CString} {v : Nat} (hname : '\n' ∉ name) (hv : v < 2 ^ 64)
    (hshort : name.length < 100) : (sampleMapping name v hname hv).Quiet false := by
  refine quiet_of_short ?_ fun key rest h => ?_
  · show (sampleRegion.text ++ (List.replicate 1 ' ' ++ name)).length < 255
    rw [List.length_append, List.length_append, show sampleRegion.text.length = 24 from rfl,
      List.length_replicate]
    omega
  · obtain ⟨_, _, heq⟩ := List.mem_map.mp h
    cases heq

/-- Two mappings of one name, and an unnamed one. -/
theorem smaps_iff_shared :
    let ms := [sampleMapping "/ab".toList 1 (by decide) (by decide),
      sampleMapping [] 4 (by decide) (by decide),
      sampleMapping "/ab".toList 2 (by decide) (by decide)]
    Exact false ms (getProcessPageMapItems .none false (some (smaps ms))) ↔ Kept false ms := by
  intro ms
  refine smaps_iff fun m hm => ?_
  simp only [ms, List.mem_cons, List.not_mem_nil, or_false] at hm
  rcases hm with rfl | rfl | rfl
  · exact sample_quiet _ _ (by decide)
  · exact sample_quiet _ _ (by decide)
  · exact sample_quiet _ _ (by decide)

/-- Two names with the same characters. -/
theorem smaps_fails_anagram :
    let ms := [sampleMapping "/ab".toList 1 (by decide) (by decide),
      sampleMapping "/ba".toList 2 (by decide) (by decide)]
    ¬ Exact false ms (getProcessPageMapItems .none false (some (smaps ms))) := by
  intro ms h
  have hquiet : ∀ m ∈ ms, m.Quiet false := by
    intro m hm
    simp only [ms, List.mem_cons, List.not_mem_nil, or_false] at hm
    rcases hm with rfl | rfl
    · exact sample_quiet _ _ (by decide)
    · exact sample_quiet _ _ (by decide)
  rw [getProcessPageMapItems_smaps hquiet, exact_iff] at h
  have hkept := (h.apart _ List.mem_cons_self (by decide)).2 .vss (by decide)
  exact absurd hkept (by decide)

end AndroidLearn.Memutils
