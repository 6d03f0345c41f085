import AndroidLearn.Lib.Scanf
import Mathlib.Algebra.GroupWithZero.Nat

/-!
# Looking a partition up in `/proc/mtd`

`find_partition_path` of `mtd.c` reads the list of the kernel once, 511 bytes of it at
most, and scans it line by line for a name. A name that the buffer ends in, that has a
quote or more than 63 characters is read short, and an empty one is not read at all.

The list is what the kernel writes: a heading, and a line for each partition with its
number, its sizes in hexadecimal digits and its name between quotes. It is read by one
`read`, which gives all of it that the buffer has room for. `sscanf` is that of
`Lib.Scanf`.

Theorem: `findsPartition_iff` says for which lists and names the lookup is right for all
that: each line up to the first of the name has to be `ReadAs` it if it has it, and only
then. For plain names `readAs_iff_of_plain` says what this is: the name ends within the
buffer.
-/

namespace AndroidLearn.Mtd

open Scanf

/-! ## The lookup -/

/-- What `find_partition_path` fills in. -/
structure FoundPartition where
  deviceIndex : Int32
  size : UInt32
  eraseSize : UInt32
  path : List Char
  deriving DecidableEq, Repr

/-- `sizeof (buf)` -/
def bufSize : Nat := 512

/-- `sizeof (mtdname)` -/
def mtdnameSize : Nat := 64

/-- `"mtd%d: %x %x \"%63[^\"]"`; the width of the last conversion says how much of it is
stored. -/
def lineFormat : List Directive :=
  "mtd".toList.map .literal ++ .assign (.int 10) :: .literal ':' :: .space ::
    .assign (.int 16) :: .space :: .assign (.int 16) :: .space ::
      .literal '"' :: [.assign (.set fun c => c ≠ '"')]

/-- The values of a line where `sscanf` returns 4. -/
def scanLine (ptr : List Char) : Option (Int × Int × Int × List Char) :=
  match (scan lineFormat ptr).values with
  | [.int mtdnum, .int mtdsize, .int mtderasesize, .text mtdname] =>
    some (mtdnum, mtdsize, mtderasesize, mtdname.take (mtdnameSize - 1))
  | _ => none

/-- `%d` -/
def printInt (n : Int) : List Char :=
  if 0 ≤ n then Nat.toDigits 10 n.toNat else '-' :: Nat.toDigits 10 (-n).toNat

/-- The device of a partition. -/
def partitionPath (mtdnum : Int) : List Char := "/dev/mtd/mtd".toList ++ printInt mtdnum

/-- What is stored for the four values. -/
def FoundPartition.store (mtdnum mtdsize mtderasesize : Int) : FoundPartition :=
  let deviceIndex := Int32.ofInt mtdnum
  ⟨deviceIndex, UInt32.ofInt mtdsize, UInt32.ofInt mtderasesize, partitionPath deviceIndex.toInt⟩

/-- "Eat the line." -/
def eatLine (ptr : List Char) : List Char := (ptr.dropWhile (· ≠ '\n')).tail

/-- What is done with the line at `ptr`. -/
def matchLine (partitionName ptr : List Char) : Option FoundPartition :=
  match scanLine ptr with
  | none => none
  | some (mtdnum, mtdsize, mtderasesize, mtdname) =>
    if mtdname = partitionName then some (.store mtdnum mtdsize mtderasesize) else none

/-- The loop over the lines of the buffer. -/
def scanLines (partitionName : List Char) : List Char → Option FoundPartition
  | [] => none
  | c :: ptr =>
    match matchLine partitionName (c :: ptr) with
    | some found => some found
    | none => scanLines partitionName (eatLine (c :: ptr))
  termination_by ptr => ptr.length
  decreasing_by
    unfold eatLine
    rw [List.length_tail, List.length_cons]
    have hle := (List.dropWhile_sublist (· ≠ '\n') (l := c :: ptr)).length_le
    rw [List.length_cons] at hle
    omega

/-- `find_partition_path`; the file opens, and the one `read` of it gives what fits the
buffer. -/
def findPartitionPath (content partitionName : List Char) : Option FoundPartition :=
  scanLines partitionName (content.take (bufSize - 1))

/-! ## The list of the kernel -/

/-- A line of the list, with the texts of its hexadecimal numbers. -/
structure Entry where
  index : Nat
  size : List Char
  eraseSize : List Char
  name : List Char
  size_digits : size ≠ [] ∧ ∀ c ∈ size, isDigit 16 c = true
  eraseSize_digits : eraseSize ≠ [] ∧ ∀ c ∈ eraseSize, isDigit 16 c = true
  /-- the name is a string, on one line -/
  name_chars : '\n' ∉ name ∧ '\x00' ∉ name

/-- What is in front of the name. -/
def Entry.numbers (e : Entry) : List Char :=
  "mtd".toList ++ (Nat.toDigits 10 e.index ++ (": ".toList ++
    (e.size ++ (' ' :: (e.eraseSize ++ [' '])))))

/-- What stands in front of the name. -/
def Entry.head (e : Entry) : List Char := e.numbers ++ ['"']

/-- The line about a partition. -/
def Entry.line (e : Entry) : List Char := e.head ++ (e.name ++ ['"', '\n'])

/-- The first line. -/
def header : List Char := "dev:    size   erasesize  name\n".toList

/-- The partitions, each with its own number. -/
structure PartitionList where
  entries : List Entry
  distinct : (entries.map Entry.index).Nodup
  index_lt : ∀ e ∈ entries, e.index < 2 ^ 31

/-- `/proc/mtd` -/
def PartitionList.content (l : PartitionList) : List Char :=
  header ++ l.entries.flatMap Entry.line

/-- The partition of a name: that of the first line that has it. -/
def PartitionList.find (l : PartitionList) (name : List Char) : Option Entry :=
  l.entries.find? fun e => e.name = name

/-- The number of a device, and its path. -/
def deviceOf (index : Nat) : Int × List Char :=
  (index, "/dev/mtd/mtd".toList ++ Nat.toDigits 10 index)

/-- The lookup succeeds for the names of the list, with the device of the first line. -/
def FindsPartition (l : PartitionList) (name : List Char) : Prop :=
  (findPartitionPath l.content name).map (fun found => (found.deviceIndex.toInt, found.path)) =
    (l.find name).map fun e => deviceOf e.index

/-- Where a line behind `front` begins. -/
def lineStart (front : List Entry) : Nat :=
  header.length + (front.map fun e => e.line.length).sum

/-- What the buffer holds of the name of a line that begins at `start`, up to a quote. -/
def Entry.seen (e : Entry) (start : Nat) : List Char :=
  (e.name.takeWhile (· ≠ '"')).take (bufSize - 1 - (start + e.head.length))

/-- The line passes for one of the name: 63 characters at most of what is seen are it. -/
def Entry.ReadAs (e : Entry) (start : Nat) (name : List Char) : Prop :=
  name ≠ [] ∧ name = (e.seen start).take (mtdnameSize - 1)

/-- Up to the first line of the name, the lines pass for it that have it. -/
def ReadsRight (l : PartitionList) (name : List Char) : Prop :=
  ∀ front e back, l.entries = front ++ e :: back → (∀ f ∈ front, f.name ≠ name) →
    (e.ReadAs (lineStart front) name ↔ e.name = name)

/-! ## One line -/

section Line

variable {e : Entry} {name : List Char}

instance (e : Entry) (start : Nat) (name : List Char) : Decidable (e.ReadAs start name) :=
  inferInstanceAs (Decidable (_ ∧ _))

/-- What is stored of a partition. -/
def Entry.found (e : Entry) : FoundPartition :=
  .store e.index (ofDigits 16 e.size) (ofDigits 16 e.eraseSize)

/-- In front of the name there is no quote, and no line end. -/
theorem notMem_numbers {c : Char} (e : Entry) (hc : c = '"' ∨ c = '\n') : c ∉ e.numbers := by
  have hdecimal : isDigit 10 c = false := by rcases hc with rfl | rfl <;> rfl
  have hdigit : isDigit 16 c = false := by rcases hc with rfl | rfl <;> rfl
  have hother : c ∉ "mtd".toList ∧ c ∉ ": ".toList ∧ c ≠ ' ' := by
    rcases hc with rfl | rfl <;> decide
  have hindex : c ∉ Nat.toDigits 10 e.index := fun hmem => by
    rw [isDigit_toDigits e.index c hmem] at hdecimal
    exact Bool.false_ne_true hdecimal.symm
  have hhex {digits : List Char} (h : ∀ c ∈ digits, isDigit 16 c = true) : c ∉ digits :=
    fun hmem => by
      rw [h c hmem] at hdigit
      exact Bool.false_ne_true hdigit.symm
  unfold Entry.numbers
  simp only [List.mem_append, List.mem_cons, List.not_mem_nil, or_false, not_or]
  exact ⟨hother.1, hindex, hother.2.1, hhex e.size_digits.2, hother.2.2,
    hhex e.eraseSize_digits.2, hother.2.2⟩

/-- A text that ends in front of the quote assigns three values at most. -/
theorem scanLine_noQuote {ptr : List Char} (h : '"' ∉ ptr) : scanLine ptr = none := by
  have hlength : ¬ 3 < (scan lineFormat ptr).values.length := fun hlt => by
    have hformat : lineFormat = ("mtd".toList.map .literal ++ [.assign (.int 10), .literal ':',
        .space, .assign (.int 16), .space, .assign (.int 16), .space]) ++
        .literal '"' :: [.assign (.set fun c => c ≠ '"')] := rfl
    rw [hformat] at hlt
    exact h (mem_of_scan_literal 3 (by decide) hlt)
  unfold scanLine
  split
  · next heq =>
    rw [heq] at hlength
    exact absurd (Nat.lt_succ_self 3) hlength
  · rfl

/-- A hexadecimal number behind a blank. -/
theorem scan_hex {format : List Directive} {digits rest : List Char}
    (h : digits ≠ [] ∧ ∀ c ∈ digits, isDigit 16 c = true) :
    (scan (.space :: .assign (.int 16) :: format) (' ' :: (digits ++ ' ' :: rest))).values =
      .int (ofDigits 16 digits) :: (scan format (' ' :: rest)).values := by
  have hblank : ∀ c ∈ [' '], isSpace c = true := List.forall_mem_singleton.mpr rfl
  have hstop : ∀ c ∈ (' ' :: rest).head?, isSpace c = true ∨ c = '-' := by
    intro c hc
    obtain rfl : ' ' = c := Option.some.inj hc
    exact .inl rfl
  exact scan_space_int hblank h.2 h.1 hstop

/-- What is scanned of a line, as far as its name. -/
theorem scanLine_head (e : Entry) (rest : List Char) :
    scanLine (e.head ++ rest) =
      if rest.takeWhile (· ≠ '"') = [] then none
      else some ((e.index : Int), (ofDigits 16 e.size : Int), (ofDigits 16 e.eraseSize : Int),
        (rest.takeWhile (· ≠ '"')).take (mtdnameSize - 1)) := by
  have hhead : e.head ++ rest = "mtd".toList ++ ([] ++ (Nat.toDigits 10 e.index ++
      (':' :: ' ' :: (e.size ++ ' ' :: (e.eraseSize ++ ' ' :: '"' :: rest))))) := by
    unfold Entry.head Entry.numbers
    simp
  have hcolon : ∀ c ∈ (':' :: ' ' :: (e.size ++ ' ' :: (e.eraseSize ++ ' ' :: '"' :: rest))).head?,
      isDigit 10 c = false ∧ c ≠ 'x' ∧ c ≠ 'X' := by
    intro c hc
    obtain rfl : ':' = c := Option.some.inj hc
    decide
  have hindex := read_int_stop (List.forall_mem_nil _) (isDigit_toDigits e.index)
    Nat.toDigits_ne_nil hcolon
  have hquote : scan [.space, .literal '"', .assign (.set fun c => c ≠ '"')] (' ' :: '"' :: rest) =
      scan [.assign (.set fun c => c ≠ '"')] rest := by
    rw [show ' ' :: '"' :: rest = [' '] ++ '"' :: rest from rfl,
      scan_space_blanks (List.forall_mem_singleton.mpr rfl)
        (fun c hc => by rw [← Option.some.inj hc]; rfl), scan_literal]
  have hvalues : (scan lineFormat (e.head ++ rest)).values =
      .int e.index :: .int (ofDigits 16 e.size) :: .int (ofDigits 16 e.eraseSize) ::
        (scan [.assign (.set fun c => c ≠ '"')] rest).values := by
    rw [hhead, lineFormat, scan_literals, scan_assign hindex, ofDigits_toDigits, scan_literal,
      scan_hex e.size_digits, scan_hex e.eraseSize_digits, hquote]
  unfold scanLine
  rw [hvalues, scan, Conversion.read]
  by_cases hrest : rest = []
  · rw [if_pos hrest, hrest]
    rfl
  · rw [if_neg hrest]
    by_cases hname : rest.takeWhile (· ≠ '"') = []
    · rw [if_pos hname, if_pos hname]
    · rw [if_neg hname, if_neg hname]
      rfl

/-- A line that the buffer ends in is read as far as it goes. -/
theorem scanLine_take (e : Entry) (rest : List Char) (k : Nat) :
    scanLine ((e.line ++ rest).take k) =
      if (e.name.takeWhile (· ≠ '"')).take (k - e.head.length) = [] then none
      else some ((e.index : Int), (ofDigits 16 e.size : Int), (ofDigits 16 e.eraseSize : Int),
        ((e.name.takeWhile (· ≠ '"')).take (k - e.head.length)).take (mtdnameSize - 1)) := by
  have hname : (e.name ++ '"' :: '\n' :: rest).takeWhile (· ≠ '"') = e.name.takeWhile (· ≠ '"') := by
    rw [List.takeWhile_append]
    split
    · next hall =>
      rw [List.takeWhile_cons_of_neg (by simp), List.append_nil]
      exact ((List.takeWhile_prefix _).eq_of_length hall).symm
    · rfl
  have hline : e.line ++ rest = e.head ++ (e.name ++ '"' :: '\n' :: rest) := by
    unfold Entry.line
    simp
  rw [hline, List.take_append]
  by_cases hhead : e.head.length ≤ k
  · rw [List.take_of_length_le hhead, scanLine_head, ← List.take_takeWhile, hname]
  · -- the buffer ends in front of the quote
    have hnone : k - e.head.length = 0 := Nat.sub_eq_zero_of_le (Nat.le_of_not_le hhead)
    rw [hnone, List.take_zero, List.take_zero, List.append_nil, if_pos rfl]
    refine scanLine_noQuote fun hquote => ?_
    have hlength : k ≤ e.numbers.length := by
      rw [Entry.head, List.length_append] at hhead
      exact Nat.le_of_lt_succ (Nat.lt_of_not_le hhead)
    rw [Entry.head, List.take_append_of_le_length hlength] at hquote
    exact notMem_numbers e (.inl rfl) (List.mem_of_mem_take hquote)

/-- The next line begins where the buffer has it. -/
theorem eatLine_take (e : Entry) (rest : List Char) (k : Nat) :
    eatLine ((e.line ++ rest).take k) = rest.take (k - e.line.length) := by
  have hline : e.line = (e.head ++ (e.name ++ ['"'])) ++ ['\n'] := by
    unfold Entry.line
    simp
  have hbody : ∀ c ∈ e.head ++ (e.name ++ ['"']), decide (c ≠ '\n') = true := by
    intro c hc
    rw [decide_eq_true_eq]
    rintro rfl
    rw [Entry.head, List.mem_append, List.mem_append, List.mem_append] at hc
    rcases hc with (hc | hc) | hc | hc
    · exact notMem_numbers e (.inr rfl) hc
    · exact absurd hc (by decide)
    · exact e.name_chars.1 hc
    · exact absurd hc (by decide)
  rw [hline]
  generalize e.head ++ (e.name ++ ['"']) = body at hbody
  rw [List.append_assoc, List.length_append, List.take_append, eatLine]
  by_cases hbodyk : body.length < k
  · obtain ⟨m, hm⟩ : ∃ m, k - body.length = m + 1 := ⟨k - body.length - 1, by omega⟩
    have hrest : k - (body.length + ['\n'].length) = m := by
      rw [List.length_singleton]
      omega
    rw [hrest, hm, List.singleton_append, List.take_succ_cons,
      List.take_of_length_le (Nat.le_of_lt hbodyk), List.dropWhile_append_of_pos hbody,
      List.dropWhile_cons_of_neg (by simp), List.tail_cons]
  · have hend : k - body.length = 0 := by omega
    have hrest : k - (body.length + ['\n'].length) = 0 := by omega
    rw [hend, hrest, List.take_zero, List.take_zero, List.append_nil,
      List.dropWhile_eq_nil_iff.mpr fun c hc => hbody c (List.mem_of_mem_take hc)]
    rfl

/-- A line that begins at `start` is taken for the name if it is read as it. -/
theorem matchLine_take (e : Entry) (rest : List Char) (start : Nat) (name : List Char) :
    matchLine name ((e.line ++ rest).take (bufSize - 1 - start)) =
      if e.ReadAs start name then some e.found else none := by
  have hscan : scanLine ((e.line ++ rest).take (bufSize - 1 - start)) =
      if e.seen start = [] then none
      else some ((e.index : Int), (ofDigits 16 e.size : Int), (ofDigits 16 e.eraseSize : Int),
        (e.seen start).take (mtdnameSize - 1)) := by
    rw [scanLine_take, Nat.sub_sub]
    rfl
  have hempty : (e.seen start).take (mtdnameSize - 1) = [] ↔ e.seen start = [] := by
    rw [List.take_eq_nil_iff]
    exact or_iff_right (by decide)
  unfold matchLine
  rw [hscan]
  by_cases hnil : e.seen start = []
  · rw [if_pos hnil, if_neg]
    rintro ⟨hname, heq⟩
    exact hname (heq.trans (hempty.mpr hnil))
  · rw [if_neg hnil]
    show (if (e.seen start).take (mtdnameSize - 1) = name then some e.found else none) = _
    by_cases heq : (e.seen start).take (mtdnameSize - 1) = name
    · have hname : name ≠ [] := fun h => hnil (hempty.mp (heq.trans h))
      rw [if_pos heq, if_pos ⟨hname, heq.symm⟩]
    · rw [if_neg heq, if_neg fun h => heq h.2.symm]

/-- A name of 63 characters at most, without quotes, that the buffer holds. -/
theorem readAs_iff_of_plain {start : Nat} (hne : e.name ≠ []) (hquote : '"' ∉ e.name)
    (hlength : e.name.length < mtdnameSize)
    (hroom : start + e.head.length + e.name.length < bufSize) :
    e.ReadAs start name ↔ e.name = name := by
  have hall : e.name.takeWhile (· ≠ '"') = e.name := by
    rw [List.takeWhile_eq_self_iff]
    intro c hc
    rw [decide_eq_true_eq]
    exact fun h => hquote (h ▸ hc)
  have hseen : e.seen start = e.name := by
    rw [Entry.seen, hall, List.take_of_length_le]
    omega
  rw [Entry.ReadAs, hseen, List.take_of_length_le (show e.name.length ≤ mtdnameSize - 1 by omega)]
  constructor
  · exact fun h => h.2.symm
  · intro h
    exact ⟨h ▸ hne, h.symm⟩

end Line

/-! ## All lines -/

section Lines

variable {e : Entry} {name : List Char} {start : Nat} {es : List Entry}

/-- A line, and the lines behind it. -/
theorem scanLines_step (name ptr : List Char) :
    scanLines name ptr = (matchLine name ptr).or (scanLines name (eatLine ptr)) := by
  cases ptr with
  | nil =>
    rw [show eatLine [] = [] from rfl, scanLines]
    rfl
  | cons c ptr =>
    rw [scanLines]
    cases matchLine name (c :: ptr) <;> rfl

/-- The first line that is taken for the name. -/
def firstRead (name : List Char) (start : Nat) : List Entry → Option Entry
  | [] => none
  | e :: es => if e.ReadAs start name then some e else firstRead name (start + e.line.length) es

/-- The scan finds what is read first. -/
theorem scanLines_entries (name : List Char) (start : Nat) (es : List Entry) :
    scanLines name ((es.flatMap Entry.line).take (bufSize - 1 - start)) =
      (firstRead name start es).map Entry.found := by
  induction es generalizing start with
  | nil =>
    rw [List.flatMap_nil, List.take_nil, scanLines]
    rfl
  | cons e es ih =>
    rw [List.flatMap_cons, scanLines_step, matchLine_take, eatLine_take, Nat.sub_sub, ih, firstRead]
    split
    · rfl
    · rfl

/-- The lookup as a whole. -/
theorem findPartitionPath_eq (l : PartitionList) (name : List Char) :
    findPartitionPath l.content name =
      (firstRead name header.length l.entries).map Entry.found := by
  rw [findPartitionPath, PartitionList.content, List.take_append,
    List.take_of_length_le (show header.length ≤ bufSize - 1 by decide), scanLines_step]
  -- the columns' names begin with no `mtd`
  have hmatch (rest : List Char) : matchLine name (header ++ rest) = none := rfl
  have heat (rest : List Char) : eatLine (header ++ rest) = rest := rfl
  rw [hmatch, heat, scanLines_entries]
  rfl

/-- From a line that begins at `start` on, up to the first of the name. -/
def ReadsFrom (name : List Char) (start : Nat) (es : List Entry) : Prop :=
  ∀ front e back, es = front ++ e :: back → (∀ f ∈ front, f.name ≠ name) →
    (e.ReadAs (start + (front.map fun e => e.line.length).sum) name ↔ e.name = name)

/-- The lines are read as they are, one by one. -/
theorem readsFrom_cons : ReadsFrom name start (e :: es) ↔
    (e.ReadAs start name ↔ e.name = name) ∧
      (e.name ≠ name → ReadsFrom name (start + e.line.length) es) := by
  constructor
  · intro h
    refine ⟨h [] e es rfl (List.forall_mem_nil _), fun hne front f back hes hfront => ?_⟩
    have hread := h (e :: front) f back (by rw [hes]; rfl) (List.forall_mem_cons.mpr ⟨hne, hfront⟩)
    rw [List.map_cons, List.sum_cons, ← Nat.add_assoc] at hread
    exact hread
  · rintro ⟨hfirst, hrest⟩ front f back hes hfront
    cases front with
    | nil =>
      obtain ⟨rfl, rfl⟩ := List.cons.inj hes
      exact hfirst
    | cons e' front =>
      obtain ⟨rfl, rfl⟩ := List.cons.inj hes
      obtain ⟨hne, hfront⟩ := List.forall_mem_cons.mp hfront
      rw [List.map_cons, List.sum_cons, ← Nat.add_assoc]
      exact hrest hne front f back rfl hfront

/-- What is found is in the list. -/
theorem firstRead_mem (h : firstRead name start es = some e) : e ∈ es := by
  induction es generalizing start with
  | nil => cases h
  | cons f es ih =>
    rw [firstRead] at h
    split at h
    · rw [Option.some.inj h]
      exact List.mem_cons_self
    · exact List.mem_cons_of_mem f (ih h)

/-- With distinct numbers, the lookup finds the number of the first line of the name
exactly when it reads the lines up to it right. -/
theorem firstRead_eq_iff (hnd : (es.map Entry.index).Nodup) :
    (firstRead name start es).map Entry.index = (es.find? fun e => e.name = name).map Entry.index ↔
      ReadsFrom name start es := by
  induction es generalizing start with
  | nil =>
    refine iff_of_true rfl fun front e back hes => ?_
    exact absurd hes.symm (List.append_ne_nil_of_right_ne_nil front (List.cons_ne_nil e back))
  | cons e es ih =>
    obtain ⟨hhead, htail⟩ := List.nodup_cons.mp hnd
    have hother {found : Option Entry} (hmem : ∀ f ∈ found, f ∈ es) :
        found.map Entry.index ≠ some e.index := by
      intro heq
      obtain ⟨f, hf, hindex⟩ := Option.map_eq_some_iff.mp heq
      exact hhead (List.mem_map.mpr ⟨f, hmem f hf, hindex⟩)
    rw [readsFrom_cons, firstRead]
    by_cases hread : e.ReadAs start name
    · rw [if_pos hread]
      by_cases hname : e.name = name
      · rw [List.find?_cons_of_pos (by simpa using hname)]
        exact iff_of_true rfl ⟨iff_of_true hread hname, fun h => absurd hname h⟩
      · rw [List.find?_cons_of_neg (by simpa using hname)]
        refine iff_of_false (fun heq => ?_) fun h => hname (h.1.mp hread)
        exact hother (fun f hf => List.mem_of_find?_eq_some hf) heq.symm
    · rw [if_neg hread]
      by_cases hname : e.name = name
      · rw [List.find?_cons_of_pos (by simpa using hname)]
        refine iff_of_false (fun heq => ?_) fun h => hread (h.1.mpr hname)
        exact hother (fun f hf => firstRead_mem hf) heq
      · rw [List.find?_cons_of_neg (by simpa using hname), ih htail]
        exact ⟨fun h => ⟨iff_of_false hread hname, fun _ => h⟩, fun h => h.2 hname⟩

theorem found_device {e : Entry} (h : e.index < 2 ^ 31) :
    (e.found.deviceIndex.toInt, e.found.path) = deviceOf e.index := by
  have hindex : (Int32.ofInt e.index).toInt = e.index :=
    Int32.toInt_ofInt_of_le (by omega) (by omega)
  unfold Entry.found FoundPartition.store partitionPath printInt deviceOf
  dsimp only
  rw [hindex, if_pos (Int.natCast_nonneg _), Int.toNat_natCast]

end Lines

/-- The device of a partition is found, or that there is none, exactly when each line up to
the first of the name is taken for one of the name if it is one, and only then. -/
theorem findsPartition_iff (l : PartitionList) (name : List Char) :
    FindsPartition l name ↔ ReadsRight l name := by
  have hdevice {found : Option Entry} (hmem : ∀ e ∈ found, e ∈ l.entries) :
      (found.map Entry.found).map (fun found => (found.deviceIndex.toInt, found.path)) =
        (found.map Entry.index).map deviceOf := by
    cases found with
    | none => rfl
    | some e => exact congrArg some (found_device (l.index_lt e (hmem e rfl)))
  have hinjective : Function.Injective deviceOf := fun i j h =>
    Int.ofNat_inj.mp (Prod.mk.inj h).1
  have hfind : (l.find name).map (fun e => deviceOf e.index) =
      ((l.find name).map Entry.index).map deviceOf := by
    rw [Option.map_map]
    rfl
  rw [FindsPartition, findPartitionPath_eq, hdevice fun e he => firstRead_mem he, hfind,
    (Option.map_injective hinjective).eq_iff]
  exact firstRead_eq_iff l.distinct

def smallEntry (i : Nat) : Entry where
  index := i
  size := "00080000".toList
  eraseSize := "00020000".toList
  name := if i = 17 then "user".toList else "boot".toList
  size_digits := ⟨List.cons_ne_nil _ _, List.all_eq_true.mp rfl⟩
  eraseSize_digits := ⟨List.cons_ne_nil _ _, List.all_eq_true.mp rfl⟩
  name_chars := by split <;> decide

def eighteenPartitions : PartitionList where
  entries := (List.range 18).map smallEntry
  distinct := by
    rw [List.map_map, show Entry.index ∘ smallEntry = id from rfl, List.map_id]
    exact List.nodup_range
  index_lt := by
    intro e he
    obtain ⟨i, hi, rfl⟩ := List.mem_map.mp he
    have hlt := List.mem_range.mp hi
    show i < 2 ^ 31
    omega

/-- The line of the last of eighteen partitions, `user`, is behind what the buffer takes. -/
theorem finds_fails_long : ¬ ∀ (l : PartitionList) (name : List Char), FindsPartition l name := by
  intro h
  have hfinds := h eighteenPartitions "user".toList
  have hread : firstRead "user".toList header.length eighteenPartitions.entries = none := by
    rw [← Option.isNone_iff_eq_none]
    decide
  rw [FindsPartition, findPartitionPath_eq, hread] at hfinds
  have hnone : ((eighteenPartitions.find "user".toList).map fun e => deviceOf e.index).isNone := by
    rw [← hfinds]
    rfl
  rw [Option.isNone_map] at hnone
  exact absurd hnone (by decide)

end AndroidLearn.Mtd
