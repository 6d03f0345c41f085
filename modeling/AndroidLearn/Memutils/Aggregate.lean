import Mathlib.Algebra.Order.BigOperators.Group.List
import AndroidLearn.Memutils.Smaps

/-!
# The sums of `smaps`

Over the text of a mapping `getProcessPageMapItems` of `MemoryMeasureHelper.cpp` collects
the values of the mapping, and counts them under the hash of its name. This module follows
the loop from one mapping to the next: what `checkFlag` waits for while the lines of a
mapping are read (the invariant is on those that are still to come), what they add to the
item, and what is combined into the map at the last of them.

A mapping whose text has no line that could be taken for another's is read on its own; the
map is then a sum over the mappings, under their hashes. That an item has the sums of the
mappings with one name, and for which texts, is in `Sums` (`smaps_iff`): the hash adds up
the characters of a name, so that it is the same for all names with the same characters in
another order.
-/

namespace AndroidLearn.Memutils

open Conf

variable {platform : Platform}

/-! ## The order of the values -/

/-- The values that are counted; `locked` is, with all values. -/
def counts (allValues : Bool) (t : CheckType) : Bool :=
  awaits allValues t && (allValues || t ≠ .locked)

/-- The fields that are counted. -/
def countedFields (platform : Platform) (allValues : Bool) : List Field :=
  (platform.order.filter (counts allValues)).map CheckType.field

section Order

variable {allValues : Bool} {t : CheckType} {ts done : List CheckType}

/-- Which value is looked for next. -/
theorem order_tails (platform : Platform) (allValues : Bool) : ∀ l ∈ platform.order.tails,
    ∀ t ∈ l.head?, (awaits allValues t = true →
        nextFlag platform allValues t = (l.tail.filter (awaits allValues)).head?) ∧
      (t = .locked ↔ l.tail = []) ∧ (t = .locked ∨ .locked ∈ l.tail) := by
  cases platform <;> cases allValues <;> decide

theorem order_tail (allValues : Bool) (h : done ++ t :: ts = platform.order) :
    (awaits allValues t = true →
        nextFlag platform allValues t = (ts.filter (awaits allValues)).head?) ∧
      (t = .locked ↔ ts = []) ∧ (t = .locked ∨ .locked ∈ ts) :=
  order_tails platform allValues (t :: ts) ((List.mem_tails _ _).mpr ⟨done, h⟩) t rfl

theorem fields_nodup (platform : Platform) : (platform.order.map CheckType.field).Nodup := by
  cases platform <;> decide

theorem keys_nodup (platform : Platform) : (platform.order.map CheckType.key).Nodup := by
  cases platform <;> decide

theorem key_ne {t k : CheckType} (ht : t ∈ platform.order) (hk : k ∈ platform.order) (hne : k ≠ t) :
    k.key ≠ t.key := fun h =>
  hne (List.inj_on_of_nodup_map (keys_nodup platform) hk ht h)

theorem countedFields_main : ∀ f ∈ countedFields platform false, f ∈ mainFields := by
  cases platform <;> decide

end Order

/-! ## One mapping -/

/-- A piece that is not taken for what is waited for. -/
def QuietPiece (flag : Option CheckType) (piece : CString) : Prop :=
  match flag with
  | none => readHeader piece = none
  | some t => t.read piece = none

/-- The pieces of a line behind the first. -/
def laterPieces (line : CString) : List CString := (readLines [] (line ++ ['\n'])).tail

/-- The rest of each line that is not read at once is ignored. -/
def QuietLines (allValues : Bool) (values : Field → Nat) :
    List CheckType → List BodyLine → Prop
  | _, [] => True
  | ts, .count _ _ :: lines => QuietLines allValues values ts.tail lines
  | ts, .other key rest :: lines =>
    (∀ piece ∈ laterPieces (key ++ ':' :: rest),
      QuietPiece (ts.filter (awaits allValues)).head? piece) ∧
    QuietLines allValues values ts lines

/-- No line of a mapping is taken for something it is not. -/
def Mapping.Quiet (allValues : Bool) (m : Mapping platform) : Prop :=
  (∀ piece ∈ laterPieces m.header, CheckType.vss.read piece = none) ∧
    QuietLines allValues m.values platform.order m.lines

/-- What has been read of a mapping, once these values are through. -/
def Mapping.collected (allValues : Bool) (m : Mapping platform) (done : List CheckType) :
    PageMapItem := fun f =>
  if f ∈ (done.filter (counts allValues)).map CheckType.field then storeLong (m.values f) else 0

/-- The record of a mapping. -/
def Mapping.item (allValues : Bool) (m : Mapping platform) : PageMapItem :=
  .init allValues (m.collected allValues platform.order)

/-- The reader in a mapping: these values are through, and those are still to come. -/
def Mapping.reader (allValues : Bool) (m : Mapping platform) (r : Reader) (done ts : List CheckType) :
    Reader :=
  { checkFlag := (ts.filter (awaits allValues)).head?
    name := m.word
    values := m.collected allValues done
    sums := fun f => r.sums f + m.collected allValues done f
    map := if ts = [] then r.map.count allValues (bkdrHash m.word) (m.item allValues) else r.map }

section Mapping

variable {allValues : Bool} {m : Mapping platform} {r : Reader} {t : CheckType}
  {ts done : List CheckType} {lines : List BodyLine} {pieces : List CString} {key rest : CString}
  {n : Nat}

/-- Lines that say nothing are passed over. -/
theorem foldl_quiet (h : ∀ piece ∈ pieces, QuietPiece r.checkFlag piece) :
    pieces.foldl (step platform allValues) r = r := by
  induction pieces with
  | nil => rfl
  | cons piece pieces ih =>
    have hpiece := h piece List.mem_cons_self
    have hstep : step platform allValues r piece = r := by
      unfold step
      cases hflag : r.checkFlag with
      | none =>
        rw [hflag] at hpiece
        dsimp only
        rw [show readHeader piece = none from hpiece]
      | some t =>
        rw [hflag] at hpiece
        dsimp only
        rw [show t.read piece = none from hpiece]
        exact ite_self r
    rw [List.foldl_cons, hstep]
    exact ih fun p hp => h p (List.mem_cons_of_mem piece hp)

/-- A value that is counted is collected. -/
theorem collected_append_of_counts (hcounts : counts allValues t = true) (f : Field) :
    m.collected allValues (done ++ [t]) f =
      if f = t.field then storeLong (m.values t.field) else m.collected allValues done f := by
  unfold Mapping.collected
  rw [List.filter_append, List.filter_singleton, hcounts, List.map_append]
  by_cases hf : f = t.field
  · subst hf
    rw [if_pos rfl, if_pos (by simp)]
  · rw [if_neg hf]
    refine if_congr ?_ rfl rfl
    simp [hf]

/-- One that is not is passed over. -/
theorem collected_append_of_not (hcounts : counts allValues t = false) :
    m.collected allValues (done ++ [t]) = m.collected allValues done := by
  unfold Mapping.collected
  rw [List.filter_append, List.filter_singleton, hcounts, cond_false, List.append_nil]

/-- A value comes only once. -/
theorem collected_fresh (h : done ++ t :: ts = platform.order) :
    m.collected allValues done t.field = 0 := by
  refine if_neg fun hmem => ?_
  obtain ⟨k, hk, hfield⟩ := List.mem_map.mp hmem
  have hnodup := fields_nodup platform
  rw [← h, List.map_append, List.map_cons, List.nodup_append] at hnodup
  exact hnodup.2.2 _ (List.mem_map_of_mem (List.mem_of_mem_filter hk)) _ List.mem_cons_self hfield

theorem reader_map (hne : ts ≠ []) : (m.reader allValues r done ts).map = r.map := by
  unfold Mapping.reader
  dsimp only
  rw [if_neg hne]

/-- What becomes of a value. -/
theorem store_eq (platform : Platform) (allValues : Bool) (r : Reader) (t : CheckType) (value : Int64) :
    r.store platform allValues t value =
      let values : PageMapItem :=
        if allValues ∨ t ≠ .locked then fun f => if f = t.field then value else r.values f
        else r.values
      { checkFlag := nextFlag platform allValues t
        name := r.name
        values := values
        sums := if allValues ∨ t ≠ .locked then
            fun f => if f = t.field then r.sums f + value else r.sums f
          else r.sums
        map := if t = .locked then r.map.count allValues (bkdrHash r.name) (.init allValues values)
          else r.map } := by
  unfold Reader.store
  split_ifs <;> rfl

/-- A value brings the reader one value further. -/
theorem store_reader (h : done ++ t :: ts = platform.order) (hawaits : awaits allValues t = true) :
    (m.reader allValues r done (t :: ts)).store platform allValues t (storeLong (m.values t.field)) =
      m.reader allValues r (done ++ [t]) ts := by
  obtain ⟨hnext, hlast, -⟩ := order_tail allValues h
  have hcounts : counts allValues t = true ↔ (allValues = true ∨ t ≠ .locked) := by
    rw [counts, hawaits]
    simp
  have hvalues : (if allValues = true ∨ t ≠ .locked then fun f => if f = t.field then
      storeLong (m.values t.field) else m.collected allValues done f
      else m.collected allValues done) = m.collected allValues (done ++ [t]) := by
    by_cases hcount : allValues = true ∨ t ≠ .locked
    · rw [if_pos hcount]
      exact funext fun f => (collected_append_of_counts (hcounts.mpr hcount) f).symm
    · rw [if_neg hcount]
      exact (collected_append_of_not (by simpa using mt hcounts.mp hcount)).symm
  rw [store_eq]
  refine Reader.ext (hnext hawaits) rfl hvalues ?_ ?_
  · show (if allValues = true ∨ t ≠ .locked then fun f => if f = t.field then
        r.sums f + m.collected allValues done f + storeLong (m.values t.field)
        else r.sums f + m.collected allValues done f
        else fun f => r.sums f + m.collected allValues done f) =
      fun f => r.sums f + m.collected allValues (done ++ [t]) f
    by_cases hcount : allValues = true ∨ t ≠ .locked
    · rw [if_pos hcount]
      funext f
      rw [collected_append_of_counts (hcounts.mpr hcount) f]
      split
      · next hf =>
        rw [hf, collected_fresh h, Int64.add_zero]
      · rfl
    · rw [if_neg hcount, collected_append_of_not (by simpa using mt hcounts.mp hcount)]
  · show (if t = .locked then (m.reader allValues r done (t :: ts)).map.count allValues
        (bkdrHash m.word) (.init allValues (if allValues = true ∨ t ≠ .locked then fun f =>
          if f = t.field then storeLong (m.values t.field) else m.collected allValues done f
          else m.collected allValues done))
        else (m.reader allValues r done (t :: ts)).map) =
      if ts = [] then r.map.count allValues (bkdrHash m.word) (m.item allValues) else r.map
    rw [reader_map (List.cons_ne_nil t ts), hvalues]
    by_cases hlocked : t = .locked
    · have hnil := hlast.mp hlocked
      rw [if_pos hlocked, if_pos hnil, Mapping.item, ← h, hnil]
    · rw [if_neg hlocked, if_neg (mt hlast.mpr hlocked)]

/-- The line of a value, whether it is waited for or not. -/
theorem step_count (h : done ++ t :: ts = platform.order) (n : Nat) :
    step platform allValues (m.reader allValues r done (t :: ts))
      ((BodyLine.count t n).text m.values ++ ['\n']) = m.reader allValues r (done ++ [t]) ts := by
  obtain ⟨-, hlast, hlocked⟩ := order_tail allValues h
  have horder {k : CheckType} (hk : k ∈ t :: ts) : k ∈ platform.order := by
    rw [← h]
    exact List.mem_append_right done hk
  by_cases hawaits : awaits allValues t = true
  · have hread : t.read ((BodyLine.count t n).text m.values ++ ['\n']) =
        some (m.values t.field : Int) := by
      have hcount := read_count t n (m.values t.field) ['\n']
      simp only [BodyLine.text, List.append_assoc, List.cons_append] at hcount ⊢
      exact hcount
    have hflag : (m.reader allValues r done (t :: ts)).checkFlag = some t := by
      rw [Mapping.reader, List.filter_cons_of_pos hawaits]
      rfl
    rw [step, hflag]
    dsimp only
    rw [if_pos hawaits, hread]
    exact store_reader h hawaits
  · -- another value is waited for
    have hne : ts ≠ [] := fun hnil => hawaits (by rw [hlast.mpr hnil]; cases allValues <;> rfl)
    have hmem : .locked ∈ ts.filter (awaits allValues) :=
      List.mem_filter.mpr ⟨hlocked.resolve_left (mt hlast.mp hne), by cases allValues <;> rfl⟩
    obtain ⟨k, hk⟩ : ∃ k, (ts.filter (awaits allValues)).head? = some k := by
      cases hfilter : ts.filter (awaits allValues) with
      | nil =>
        rw [hfilter] at hmem
        exact absurd hmem List.not_mem_nil
      | cons k ks => exact ⟨k, rfl⟩
    obtain ⟨hkts, hkawaits⟩ := List.mem_filter.mp (List.mem_of_mem_head? hk)
    have hkt : k ≠ t := fun heq => hawaits (heq ▸ hkawaits)
    have hread : k.read ((BodyLine.count t n).text m.values ++ ['\n']) = none := by
      simp only [BodyLine.text, List.append_assoc, List.cons_append]
      exact read_other (colon_not_mem_key t)
        (key_ne (horder List.mem_cons_self) (horder (List.mem_cons_of_mem t hkts)) hkt)
    have hflag : (m.reader allValues r done (t :: ts)).checkFlag = some k := by
      rw [Mapping.reader, List.filter_cons_of_neg hawaits]
      exact hk
    have hcounts : counts allValues t = false := by
      rw [counts, show awaits allValues t = false by simpa using hawaits]
      rfl
    rw [step, hflag]
    dsimp only
    rw [if_pos hkawaits, hread]
    refine Reader.ext ?_ rfl ?_ ?_ ?_
    · exact congrArg List.head? (List.filter_cons_of_neg hawaits)
    · exact (collected_append_of_not hcounts).symm
    · show (fun f => r.sums f + m.collected allValues done f) = fun f => r.sums f + _
      rw [collected_append_of_not hcounts]
    · exact (reader_map (List.cons_ne_nil t ts)).trans (reader_map hne).symm

theorem newline_not_mem_key (t : CheckType) : '\n' ∉ t.key ∧ t.key.length ≤ 14 := by
  cases t <;> decide

/-- The line of a value is read at once. -/
theorem readLines_count (hn : n ≤ 32) (hvalue : m.values t.field < 2 ^ 64) :
    readLines [] ((BodyLine.count t n).text m.values ++ ['\n']) =
      [(BodyLine.count t n).text m.values ++ ['\n']] := by
  obtain ⟨hkey, hkeyLength⟩ := newline_not_mem_key t
  have hdigits : (Nat.toDigits 10 (m.values t.field)).length ≤ 20 := by
    rw [Nat.length_toDigits_le_iff (by omega) (by omega)]
    omega
  have hnewline : '\n' ∉ Nat.toDigits 10 (m.values t.field) := fun hmem =>
    absurd (Nat.isDigit_of_mem_toDigits (by omega) (by omega) hmem) (by decide)
  refine readLines_short ?_ ?_
  · simp only [BodyLine.text, List.mem_append, List.mem_cons, List.mem_replicate]
    intro hmem
    rcases hmem with hmem | hmem | hmem | hmem | hmem
    · exact hkey hmem
    · exact absurd hmem (by decide)
    · exact absurd hmem.2 (by decide)
    · exact hnewline hmem
    · exact absurd hmem (by decide)
  · simp only [BodyLine.text, List.length_append, List.length_cons, List.length_replicate,
      List.length_nil, show " kB".toList.length = 3 from rfl]
    omega

theorem other_free (hother : OtherLine platform key rest) : '\n' ∉ key ++ ':' :: rest := by
  simp only [List.mem_append, List.mem_cons]
  intro hmem
  rcases hmem with hmem | hmem | hmem
  · exact (hother.key_free _ hmem).2.2 rfl
  · exact absurd hmem (by decide)
  · exact hother.rest_free hmem

/-- Another line is passed over, with all its pieces. -/
theorem foldl_other (hother : OtherLine platform key rest) (h : done ++ ts = platform.order)
    (hquiet : ∀ piece ∈ laterPieces (key ++ ':' :: rest),
      QuietPiece (ts.filter (awaits allValues)).head? piece) :
    (readLines [] (key ++ ':' :: rest ++ ['\n'])).foldl (step platform allValues)
      (m.reader allValues r done ts) = m.reader allValues r done ts := by
  have hfree := other_free hother
  have hshort := hother.short
  refine foldl_quiet fun piece hpiece => ?_
  obtain ⟨later, hlater⟩ : ∃ later, readLines [] (key ++ ':' :: rest ++ ['\n']) =
      ([] ++ (key ++ ':' :: rest ++ ['\n']).take 255) :: later := readLines_first (by simp) hfree
  rw [laterPieces, hlater] at hquiet
  rw [hlater] at hpiece
  rcases List.mem_cons.mp hpiece with rfl | hpiece
  · -- the first piece has the key
    obtain ⟨x, hx⟩ : ∃ x, (key ++ ':' :: rest ++ ['\n']).take 255 = key ++ ':' :: x := by
      obtain ⟨k, hk⟩ : ∃ k, 255 - key.length = k + 1 := ⟨254 - key.length, by omega⟩
      refine ⟨(rest ++ ['\n']).take k, ?_⟩
      rw [List.append_assoc, List.take_append, List.take_of_length_le (by omega), hk]
      rfl
    rw [List.nil_append, hx]
    show QuietPiece (ts.filter (awaits allValues)).head? (key ++ ':' :: x)
    cases hflag : (ts.filter (awaits allValues)).head? with
    | none => exact readHeader_other hother x
    | some k =>
      have hk : k ∈ platform.order := by
        rw [← h]
        exact List.mem_append_right done (List.mem_of_mem_filter (List.mem_of_mem_head? hflag))
      exact read_other (fun hmem => (hother.key_free _ hmem).1 rfl) (hother.key_new k hk)
  · exact hquiet piece hpiece

/-- Over the lines of a mapping all values come through. -/
theorem foldl_lines (h : done ++ ts = platform.order) (hcheck : lines.filterMap BodyLine.check = ts)
    (hmem : ∀ line ∈ lines, line ∈ m.lines)
    (hquiet : QuietLines allValues m.values ts lines) :
    (lines.flatMap fun line => readLines [] (line.text m.values ++ ['\n'])).foldl
      (step platform allValues) (m.reader allValues r done ts) =
      m.reader allValues r platform.order [] := by
  induction lines generalizing done ts with
  | nil =>
    obtain rfl : [] = ts := hcheck
    rw [List.append_nil] at h
    rw [h]
    rfl
  | cons line lines ih =>
    have hline := hmem line List.mem_cons_self
    have hlines : ∀ l ∈ lines, l ∈ m.lines := fun l hl => hmem l (List.mem_cons_of_mem line hl)
    rw [List.flatMap_cons, List.foldl_append]
    cases line with
    | count t n =>
      obtain rfl : t :: lines.filterMap BodyLine.check = ts := hcheck
      rw [readLines_count (m.blanks_short t n hline) (m.values_lt t.field), List.foldl_cons,
        List.foldl_nil, step_count h]
      exact ih (by rw [List.append_assoc]; exact h) rfl hlines hquiet
    | other key rest =>
      rw [show (BodyLine.other key rest).text m.values = key ++ ':' :: rest from rfl,
        foldl_other (m.others key rest hline) h hquiet.1]
      exact ih h hcheck hlines hquiet.2

/-- The lines of a mapping, one after the other. -/
theorem readLines_flatMap (lines : List BodyLine) (values : Field → Nat) (rest : CString) :
    readLines [] ((lines.flatMap fun line => line.text values ++ ['\n']) ++ rest) =
      (lines.flatMap fun line => readLines [] (line.text values ++ ['\n'])) ++ readLines [] rest := by
  induction lines with
  | nil => rfl
  | cons line lines ih =>
    rw [List.flatMap_cons, List.flatMap_cons, List.append_assoc, List.append_assoc,
      List.append_assoc, List.singleton_append, readLines_append, ih]

theorem region_free (region : Region) : '\n' ∉ region.text := by
  unfold Region.text
  simp only [List.mem_append, List.mem_cons]
  have hminus : '\n' ≠ '-' := by decide
  have hblank : '\n' ≠ ' ' := by decide
  simp [region.start_hex.newline_free, region.stop_hex.newline_free, region.perms_word.newline_free,
    region.offset_hex.newline_free, region.dev_word.newline_free, region.inode_decimal.newline_free]

theorem header_free (m : Mapping platform) : '\n' ∉ m.header := by
  unfold Mapping.header
  rw [List.mem_append, List.mem_append]
  intro hmem
  rcases hmem with hmem | hmem | hmem
  · exact region_free m.region hmem
  · exact newline_notMem_blanks _ hmem
  · exact m.name_free hmem

/-- Over the text of a mapping its values are added to the sums, and its item is counted
under its name. -/
theorem foldl_mapping (hquiet : m.Quiet allValues) (hflag : r.checkFlag = none) (rest : CString) :
    (readLines [] (m.text ++ rest)).foldl (step platform allValues) r =
      (readLines [] rest).foldl (step platform allValues) (m.reader allValues r platform.order []) := by
  have hfree := header_free m
  obtain ⟨later, hlater⟩ : ∃ later, readLines [] (m.header ++ ['\n']) =
      ([] ++ (m.header ++ ['\n']).take 255) :: later := readLines_first (by simp) hfree
  obtain ⟨hheader, hlines⟩ := hquiet
  rw [laterPieces, hlater] at hheader
  -- the first line
  have hstep : step platform allValues r ((m.header ++ ['\n']).take 255) =
      m.reader allValues r [] platform.order := by
    rw [step, hflag]
    dsimp only
    rw [readHeader_header]
    dsimp only
    have hhead : (platform.order.filter (awaits allValues)).head? = some .vss := by
      cases platform <;> cases allValues <;> rfl
    have hne : platform.order ≠ [] := by
      cases platform <;> exact List.cons_ne_nil _ _
    refine Reader.ext hhead.symm rfl rfl ?_ (reader_map hne).symm
    exact funext fun f => (Int64.add_zero _).symm
  have hrest : later.foldl (step platform allValues) (m.reader allValues r [] platform.order) =
      m.reader allValues r [] platform.order := by
    refine foldl_quiet fun piece hpiece => ?_
    have hvss : (m.reader allValues r [] platform.order).checkFlag = some .vss := by
      cases platform <;> cases allValues <;> rfl
    rw [hvss]
    exact hheader piece hpiece
  rw [Mapping.text, List.append_assoc, List.cons_append, readLines_append, hlater,
    readLines_flatMap, List.foldl_append, List.foldl_append, List.foldl_cons, List.nil_append,
    hstep, hrest, foldl_lines (List.nil_append _) m.order (fun _ h => h) hlines]

end Mapping

/-! ## All mappings -/

/-- The map that the mappings leave. -/
def itemMap (allValues : Bool) (ms : List (Mapping platform)) : PageMap :=
  ms.foldl (fun map m => map.count allValues (bkdrHash m.word) (m.item allValues)) []

/-- Their sums. -/
def itemSums (allValues : Bool) (ms : List (Mapping platform)) : PageMapItem :=
  ms.foldl (fun sums m f => sums f + m.collected allValues platform.order f) fun _ => 0

/-- The page map of a quiet text: a record for each mapping, and their sum. -/
theorem getProcessPageMapItems_smaps {allValues : Bool} {ms : List (Mapping platform)}
    (hquiet : ∀ m ∈ ms, m.Quiet allValues) :
    getProcessPageMapItems platform allValues (some (smaps ms)) =
      (itemMap allValues ms).add (bkdrHash totalMemory) (.init allValues (itemSums allValues ms)) := by
  have hrun (r : Reader) (hflag : r.checkFlag = none) :
      let r' := (readLines [] (smaps ms)).foldl (step platform allValues) r
      r'.map = ms.foldl (fun map m => map.count allValues (bkdrHash m.word) (m.item allValues)) r.map ∧
        r'.sums = ms.foldl (fun sums m f => sums f + m.collected allValues platform.order f) r.sums := by
    induction ms generalizing r with
    | nil => exact ⟨rfl, rfl⟩
    | cons m ms ih =>
      rw [smaps, List.flatMap_cons, foldl_mapping (hquiet m List.mem_cons_self) hflag]
      exact ih (fun m' hm' => hquiet m' (List.mem_cons_of_mem m hm')) _ rfl
  obtain ⟨hmap, hsums⟩ := hrun ⟨none, [], fun _ => 0, fun _ => 0, []⟩ rfl
  unfold getProcessPageMapItems
  dsimp only
  rw [hmap, hsums]
  rfl

end AndroidLearn.Memutils
