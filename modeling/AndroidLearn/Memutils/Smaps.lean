import AndroidLearn.Lib.Framing
import AndroidLearn.Lib.Scanf
import AndroidLearn.Memutils.PageMap

/-!
# Reading `smaps`

`getProcessPageMapItems` of `MemoryMeasureHelper.cpp`, with `PageMapItem::init`,
`PageMapItem::combine` and `combineMainValues`. It goes through the lines of a process'
`smaps`, and keeps in `checkFlag` what it waits for: the first line of a mapping, or the
line of the next value that it counts.

Then comes the text as the kernel writes it: a mapping has a first line with its
addresses, its rights and its name, and lines of values behind it, in the kernel's order;
each platform counts some of these. What `sscanf` makes of each kind of line is a lemma of
its own, over `Lib.Scanf`. The file opens, it is read by `fgets` into a buffer that cuts
long lines, and a value is scanned as a `long`.

The module ends where the text is gone through line by line; the sums over the mappings
are in `Aggregate` and `Sums`.
-/

namespace AndroidLearn.Memutils

open Conf

/-! ## The reader -/

/-- `CheckTypeEnum`, without `PAGEMAP_NAME` -/
inductive CheckType
  | vss | rss | pss | sharedClean | sharedDirty | privateClean | privateDirty
  | referenced | anonymous | anonHugePages | swap | swapPss | pSwap
  | kernelPageSize | mmuPageSize | locked
  deriving DecidableEq, Repr

/-- The variable that the value is stored in. -/
def CheckType.field : CheckType → Field
  | vss => .vss
  | rss => .rss
  | pss => .pss
  | sharedClean => .sharedClean
  | sharedDirty => .sharedDirty
  | privateClean => .privateClean
  | privateDirty => .privateDirty
  | referenced => .referenced
  | anonymous => .anonymous
  | anonHugePages => .anonHugePages
  | swap => .swap
  | swapPss => .pSwap
  | pSwap => .pSwap
  | kernelPageSize => .kernelPageSize
  | mmuPageSize => .mmuPageSize
  | locked => .locked

/-- The word in front of the colon. -/
def CheckType.key : CheckType → CString
  | vss => "Size".toList
  | rss => "Rss".toList
  | pss => "Pss".toList
  | sharedClean => "Shared_Clean".toList
  | sharedDirty => "Shared_Dirty".toList
  | privateClean => "Private_Clean".toList
  | privateDirty => "Private_Dirty".toList
  | referenced => "Referenced".toList
  | anonymous => "Anonymous".toList
  | anonHugePages => "AnonHugePages".toList
  | swap => "Swap".toList
  | swapPss => "SwapPss".toList
  | pSwap => "PSwap".toList
  | kernelPageSize => "KernelPageSize".toList
  | mmuPageSize => "MMUPageSize".toList
  | locked => "Locked".toList

/-- `"Size: %ld kB"` and the others -/
def CheckType.format (t : CheckType) : List Scanf.Directive :=
  (t.key ++ [':']).map .literal ++
    [.space, .assign (.int 10), .space, .literal 'k', .literal 'B']

/-- `"%*lx-%*lx %*s %*lx %*s %*d %s"` -/
def headerFormat : List Scanf.Directive :=
  [.skip (.int 16), .literal '-', .skip (.int 16), .space, .skip .word, .space,
    .skip (.int 16), .space, .skip .word, .space, .skip (.int 10), .space, .assign .word]

/-- The name of a mapping that has none. -/
def anonymousName : CString := "[anonymous]".toList

/-- The name, if the line is the first of a mapping: `count` is 1, or -1 without a name. -/
def readHeader (line : CString) : Option CString :=
  let scan := Scanf.scan headerFormat line
  match scan.values with
  | [.text name] => some name
  | _ => if scan.count = -1 then some anonymousName else none

/-- The value, if `sscanf` returns 1. -/
def CheckType.read (t : CheckType) (line : CString) : Option Int :=
  match (Scanf.scan t.format line).values with
  | [.int value] => some value
  | _ => none

/-- `%ld` -/
def storeLong (n : Int) : Int64 := (max (-(2 ^ 63)) (min n (2 ^ 63 - 1))).toInt64

/-- The flags that are waited for. -/
def awaits (allValues : Bool) (t : CheckType) : Bool :=
  allValues || [.vss, .rss, .pss, .swap, .swapPss, .pSwap, .locked].contains t

/-- What is waited for behind a value. -/
def nextFlag (platform : Platform) (allValues : Bool) : CheckType → Option CheckType
  | .vss => some .rss
  | .rss => some .pss
  | .pss => some (if allValues then .sharedClean else .swap)
  | .sharedClean => some .sharedDirty
  | .sharedDirty => some .privateClean
  | .privateClean => some .privateDirty
  | .privateDirty => some .referenced
  | .referenced => some .anonymous
  | .anonymous => some .anonHugePages
  | .anonHugePages => some .swap
  | .swap =>
    match platform with
    | .qct => some .swapPss
    | .mtk => some .pSwap
    | _ => some (if allValues then .kernelPageSize else .locked)
  | .swapPss => some (if allValues then .kernelPageSize else .locked)
  | .pSwap => some (if allValues then .kernelPageSize else .locked)
  | .kernelPageSize => some .mmuPageSize
  | .mmuPageSize => some .locked
  | .locked => none

/-- The fields that are counted for performance. -/
def mainFields : List Field := [.vss, .rss, .pss, .swap, .pSwap]

/-- `init`, with all values or with the main ones -/
def PageMapItem.init (allValues : Bool) (values : PageMapItem) : PageMapItem := fun f =>
  if allValues ∨ f ∈ mainFields then values f else 0

/-- `combine` and `combineMainValues` -/
def PageMapItem.combine (allValues : Bool) (item other : PageMapItem) : PageMapItem := fun f =>
  if allValues ∨ f ∈ mainFields then item f + (other.get f).toInt64 else item f

/-- Counts an item under its key. -/
def PageMap.count (allValues : Bool) (map : PageMap) (key : UInt32) (item : PageMapItem) : PageMap :=
  match map.valueFor key with
  | none => map.add key item
  | some old => map.add key (old.combine allValues item)

/-- The local variables of the loop over the lines. -/
@[ext]
structure Reader where
  /-- `PAGEMAP_NAME` is `none` -/
  checkFlag : Option CheckType
  name : CString
  /-- `vss`, `rss` and the others -/
  values : PageMapItem
  /-- `sum_vss`, `sum_rss` and the others -/
  sums : PageMapItem
  map : PageMap

/-- A value that has been read. -/
def Reader.store (platform : Platform) (allValues : Bool) (r : Reader) (t : CheckType) (value : Int64) :
    Reader :=
  -- `locked` is counted only with all values
  let r :=
    if allValues ∨ t ≠ .locked then
      { r with
        values := fun f => if f = t.field then value else r.values f
        sums := fun f => if f = t.field then r.sums f + value else r.sums f }
    else r
  let r := { r with checkFlag := nextFlag platform allValues t }
  -- `finishPageMap`
  if t = .locked then
    { r with map := r.map.count allValues (bkdrHash r.name) (.init allValues r.values) }
  else r

/-- The turn of a line: it begins a mapping, or it may be the value that is looked for. -/
def step (platform : Platform) (allValues : Bool) (r : Reader) (line : CString) : Reader :=
  match r.checkFlag with
  | none =>
    match readHeader line with
    | some name => { r with checkFlag := some .vss, name := name, values := fun _ => 0 }
    | none => r
  | some t =>
    -- without all values, `Locked` is looked for in lines with an `L` only, which it has
    if awaits allValues t then
      match t.read line with
      | some value => r.store platform allValues t (storeLong value)
      | none => r
    else r

/-- What `fgets (line, 256, file)` reads until the end of the file, behind what it has
read of a line. -/
def readLines (line : CString) : CString → List CString
  | [] => if line = [] then [] else [line]
  | c :: text =>
    if c = '\n' ∨ line.length + 1 = 255 then (line ++ [c]) :: readLines [] text
    else readLines (line ++ [c]) text

/-- The page map of a process, and an empty one if its file cannot be opened. -/
def getProcessPageMapItems (platform : Platform) (allValues : Bool) : Option CString → PageMap
  | none => []
  | some text =>
    let r := (readLines [] text).foldl (step platform allValues)
      ⟨none, [], fun _ => 0, fun _ => 0, []⟩
    r.map.add (bkdrHash totalMemory) (.init allValues r.sums)

/-! ## The text -/

/-- The values of a mapping, in the order of `show_smap`, with the line for which the reader
waits on the platform behind `Swap`. -/
def Platform.order (platform : Platform) : List CheckType :=
  [.vss, .rss, .pss, .sharedClean, .sharedDirty, .privateClean, .privateDirty, .referenced,
    .anonymous, .anonHugePages, .swap] ++
  (match platform with
    | .qct => [.swapPss]
    | .mtk => [.pSwap]
    | _ => []) ++
  [.kernelPageSize, .mmuPageSize, .locked]

/-- What `%d` and `%lx` take whole, in this base. -/
structure IsNumber (base : Nat) (s : CString) : Prop where
  ne_nil : s ≠ []
  digits : ∀ c ∈ s, Scanf.isDigit base c = true

/-- What `%s` takes whole. -/
structure IsWord (s : CString) : Prop where
  ne_nil : s ≠ []
  no_space : ∀ c ∈ s, Scanf.isSpace c = false

/-- What is said of a mapping in front of its name. -/
structure Region where
  start : CString
  stop : CString
  perms : CString
  offset : CString
  dev : CString
  inode : CString
  start_hex : IsNumber 16 start
  stop_hex : IsNumber 16 stop
  perms_word : IsWord perms
  offset_hex : IsNumber 16 offset
  dev_word : IsWord dev
  inode_decimal : IsNumber 10 inode

/-- `"%08lx-%08lx %c%c%c%c %08llx %02x:%02x %lu"` -/
def Region.text (r : Region) : CString :=
  r.start ++ ('-' :: r.stop ++ (' ' :: r.perms ++ (' ' :: r.offset ++
    (' ' :: r.dev ++ (' ' :: r.inode)))))

/-- A line below the header of a mapping, as the kernel prints it. -/
inductive BodyLine
  /-- the line of a value, with blanks behind the colon -/
  | count (t : CheckType) (blanks : Nat)
  /-- another line, such as `VmFlags` -/
  | other (key rest : CString)

/-- The value a line is for. -/
def BodyLine.check : BodyLine → Option CheckType
  | count t _ => some t
  | other _ _ => none

/-- A line as it is printed, without the line end. -/
def BodyLine.text (values : Field → Nat) : BodyLine → CString
  | count t blanks =>
    t.key ++ (':' :: (List.replicate blanks ' ' ++ (Nat.toDigits 10 (values t.field) ++ " kB".toList)))
  | other key rest => key ++ (':' :: rest)

/-- A line that is none of the values. -/
structure OtherLine (platform : Platform) (key rest : CString) : Prop where
  upper : ∃ c ∈ key.head?, c.isUpper = true
  short : key.length ≤ 32
  key_free : ∀ c ∈ key, c ≠ ':' ∧ c ≠ '-' ∧ c ≠ '\n'
  key_new : ∀ t ∈ platform.order, t.key ≠ key
  rest_free : '\n' ∉ rest

/-- A mapping, as `show_smap` writes it. The name is empty where there is none; it can
have blanks, and be longer than a line of the reader. -/
structure Mapping (platform : Platform) where
  region : Region
  blanks : Nat
  name : CString
  values : Field → Nat
  lines : List BodyLine
  blanks_pos : 0 < blanks
  region_short : region.text.length + blanks < 255
  name_free : '\n' ∉ name
  values_lt : ∀ f, values f < 2 ^ 64
  order : lines.filterMap BodyLine.check = platform.order
  blanks_short : ∀ t n, .count t n ∈ lines → n ≤ 32
  others : ∀ key rest, .other key rest ∈ lines → OtherLine platform key rest

variable {platform : Platform}

/-- The header: the region, blanks, and the name. -/
def Mapping.header (m : Mapping platform) : CString :=
  m.region.text ++ (List.replicate m.blanks ' ' ++ m.name)

/-- What the kernel prints about one mapping. -/
def Mapping.text (m : Mapping platform) : CString :=
  m.header ++ ('\n' :: m.lines.flatMap fun line => line.text m.values ++ ['\n'])

/-- What the kernel prints about a process. -/
def smaps (ms : List (Mapping platform)) : CString := ms.flatMap Mapping.text

/-- The name that a mapping is to be counted under. -/
def Mapping.label (m : Mapping platform) : CString :=
  if m.name = [] then anonymousName else m.name

/-- The name that `sscanf` finds: the first word in what `fgets` has read of the name. -/
def Mapping.word (m : Mapping platform) : CString :=
  let word := Scanf.firstWord (m.name.take (255 - (m.region.text.length + m.blanks)))
  if word = [] then anonymousName else word

/-! ## The pieces of a line -/

section Pieces

variable {line s x rest : CString}

/-- The first line, and the lines behind it. -/
theorem readLines_append (line s rest : CString) :
    readLines line (s ++ '\n' :: rest) = readLines line (s ++ ['\n']) ++ readLines [] rest := by
  induction s generalizing line with
  | nil =>
    rw [List.nil_append, List.nil_append, readLines, readLines, if_pos (.inl rfl),
      if_pos (.inl rfl)]
    rfl
  | cons c s ih =>
    rw [List.cons_append, List.cons_append, readLines, readLines]
    split
    · rw [ih]
      rfl
    · exact ih (line ++ [c])

/-- The first piece of a line: what fits. -/
theorem readLines_first (hline : line.length < 255) (hs : '\n' ∉ s) :
    ∃ rest, readLines line (s ++ ['\n']) =
      (line ++ (s ++ ['\n']).take (255 - line.length)) :: rest := by
  induction s generalizing line with
  | nil =>
    obtain ⟨n, hn⟩ : ∃ n, 255 - line.length = n + 1 := ⟨254 - line.length, by omega⟩
    refine ⟨[], ?_⟩
    rw [List.nil_append, readLines, if_pos (.inl rfl), hn, List.take_succ_cons, List.take_nil]
    rfl
  | cons c s ih =>
    have hc : c ≠ '\n' := fun h => hs (h ▸ List.mem_cons_self)
    have hs' : '\n' ∉ s := fun h => hs (List.mem_cons_of_mem c h)
    obtain ⟨n, hn⟩ : ∃ n, 255 - line.length = n + 1 := ⟨254 - line.length, by omega⟩
    rw [List.cons_append, readLines, hn, List.take_succ_cons]
    by_cases hfull : line.length + 1 = 255
    · obtain rfl : n = 0 := by omega
      rw [if_pos (.inr hfull)]
      exact ⟨_, rfl⟩
    · rw [if_neg (not_or.mpr ⟨hc, hfull⟩)]
      have hlonger : (line ++ [c]).length < 255 := by
        rw [List.length_append, List.length_singleton]
        omega
      obtain ⟨rest, hrest⟩ := ih hlonger hs'
      refine ⟨rest, ?_⟩
      rw [hrest, List.length_append, List.length_singleton,
        show 255 - (line.length + 1) = n by omega, List.append_assoc]
      rfl

/-- A line that is short enough is read at once. -/
theorem readLines_short (hs : '\n' ∉ s) (hshort : line.length + s.length < 255) :
    readLines line (s ++ ['\n']) = [line ++ (s ++ ['\n'])] := by
  induction s generalizing line with
  | nil =>
    rw [List.nil_append, readLines, if_pos (.inl rfl)]
    rfl
  | cons c s ih =>
    have hc : c ≠ '\n' := fun h => hs (h ▸ List.mem_cons_self)
    rw [List.length_cons] at hshort
    rw [List.cons_append, readLines, if_neg (not_or.mpr ⟨hc, by omega⟩),
      ih (fun h => hs (List.mem_cons_of_mem c h))
        (by rw [List.length_append, List.length_singleton]; omega), List.append_assoc]
    rfl

end Pieces

/-! ## What `sscanf` makes of a line -/

section Scan

variable {m : Mapping platform} {t : CheckType} {key x rest : CString} {n : Nat}

theorem blanks_space (n : Nat) : ∀ c ∈ List.replicate n ' ', Scanf.isSpace c = true := by
  intro c hc
  obtain rfl := List.eq_of_mem_replicate hc
  rfl

/-- A number has no blank. -/
theorem IsNumber.no_space {base : Nat} {s : CString} (h : IsNumber base s) :
    ∀ c ∈ s, Scanf.isSpace c = false := by
  intro c hc
  by_contra hspace
  have hdigit := h.digits c hc
  rw [Scanf.not_isDigit_of_special (.inl (by simpa using hspace))] at hdigit
  exact Bool.false_ne_true hdigit

theorem newline_notMem {s : CString} (h : ∀ c ∈ s, Scanf.isSpace c = false) : '\n' ∉ s :=
  fun hmem => Bool.false_ne_true (h _ hmem).symm

theorem IsNumber.newline_free {base : Nat} {s : CString} (h : IsNumber base s) : '\n' ∉ s :=
  newline_notMem h.no_space

theorem IsWord.newline_free {s : CString} (h : IsWord s) : '\n' ∉ s := newline_notMem h.no_space

theorem newline_notMem_blanks (n : Nat) : '\n' ∉ List.replicate n ' ' := fun hmem =>
  absurd (List.eq_of_mem_replicate hmem) (by decide)

theorem isWord_of_all {s : CString} (hne : s ≠ []) (h : s.all (fun c => ! Scanf.isSpace c) = true) :
    IsWord s :=
  ⟨hne, fun c hc => by simpa using List.all_eq_true.mp h c hc⟩

/-- A word does not begin with a blank. -/
theorem head_no_space {s : CString} (hne : s ≠ []) (h : ∀ c ∈ s, Scanf.isSpace c = false) :
    ∀ c ∈ (s ++ rest).head?, Scanf.isSpace c = false := by
  obtain ⟨d, ds, rfl⟩ := List.exists_cons_of_ne_nil hne
  intro c hc
  obtain rfl : d = c := Option.some.inj hc
  exact h d List.mem_cons_self

/-- What stands in front of the name is skipped. -/
theorem scan_region (r : Region) (hn : 0 < n) (x : CString) :
    Scanf.scan headerFormat (r.text ++ (List.replicate n ' ' ++ x)) =
      Scanf.scan [.space, .assign .word] (List.replicate n ' ' ++ x) := by
  have hnone : ∀ c ∈ ([] : CString), Scanf.isSpace c = true := List.forall_mem_nil _
  have hone : ∀ c ∈ [' '], Scanf.isSpace c = true := blanks_space 1
  have hbehind : ∀ c ∈ (List.replicate n ' ' ++ x).head?, Scanf.isSpace c = true := by
    obtain ⟨k, rfl⟩ : ∃ k, n = k + 1 := ⟨n - 1, by omega⟩
    intro c hc
    obtain rfl : ' ' = c := Option.some.inj hc
    rfl
  have hspace (s : CString) : ∀ c ∈ (' ' :: s).head?, Scanf.isSpace c = true := by
    intro c hc
    obtain rfl : ' ' = c := Option.some.inj hc
    rfl
  -- a number or a word, with a blank behind it
  have hint {base : Nat} {s : CString} (h : IsNumber base s) (rest : CString)
      (hrest : ∀ c ∈ rest.head?, Scanf.isSpace c = true ∨ c = '-') (format : List Scanf.Directive) :
      Scanf.scan (.skip (.int base) :: format) (s ++ rest) = Scanf.scan format rest :=
    Scanf.scan_skip (Scanf.read_int hnone h.digits h.ne_nil hrest)
  have hword {s : CString} (h : IsWord s) (rest : CString) (format : List Scanf.Directive) :
      Scanf.scan (.skip .word :: format) (s ++ ' ' :: rest) = Scanf.scan format (' ' :: rest) :=
    Scanf.scan_skip (Scanf.read_word hnone h.no_space h.ne_nil (hspace rest))
  have hblank {s : CString} (hne : s ≠ []) (h : ∀ c ∈ s, Scanf.isSpace c = false)
      (rest : CString) (format : List Scanf.Directive) :
      Scanf.scan (.space :: format) (' ' :: (s ++ rest)) = Scanf.scan format (s ++ rest) :=
    Scanf.scan_space_blanks hone (head_no_space hne h)
  unfold headerFormat Region.text
  simp only [List.append_assoc, List.cons_append]
  have hminus (s : CString) : ∀ c ∈ ('-' :: s).head?, Scanf.isSpace c = true ∨ c = '-' :=
    fun c hc => .inr (Option.some.inj hc).symm
  rw [hint r.start_hex _ (hminus _), Scanf.scan_literal,
    hint r.stop_hex _ (fun c hc => .inl (hspace _ c hc)),
    hblank r.perms_word.ne_nil r.perms_word.no_space, hword r.perms_word,
    hblank r.offset_hex.ne_nil r.offset_hex.no_space,
    hint r.offset_hex _ (fun c hc => .inl (hspace _ c hc)),
    hblank r.dev_word.ne_nil r.dev_word.no_space, hword r.dev_word,
    hblank r.inode_decimal.ne_nil r.inode_decimal.no_space,
    hint r.inode_decimal _ (fun c hc => .inl (hbehind c hc))]

/-- The first piece of the first line has the name, or none. -/
theorem readHeader_header (m : Mapping platform) :
    readHeader ((m.header ++ ['\n']).take 255) = some m.word := by
  have hshort := m.region_short
  have hpiece : (m.header ++ ['\n']).take 255 = m.region.text ++ (List.replicate m.blanks ' ' ++
      (m.name.take (255 - (m.region.text.length + m.blanks)) ++
        ['\n'].take (255 - (m.region.text.length + m.blanks) - m.name.length))) := by
    unfold Mapping.header
    rw [List.append_assoc, List.append_assoc, List.take_append, List.take_append,
      List.take_append, List.take_of_length_le (by omega),
      List.take_of_length_le (by rw [List.length_replicate]; omega), List.length_replicate,
      Nat.sub_sub]
  have hend : ∀ c ∈ ['\n'].take (255 - (m.region.text.length + m.blanks) - m.name.length),
      Scanf.isSpace c = true := by
    intro c hc
    obtain rfl := List.mem_singleton.mp (List.mem_of_mem_take hc)
    rfl
  rw [hpiece, readHeader, scan_region m.region m.blanks_pos, Scanf.scan_word,
    Scanf.firstWord_blanks (blanks_space _), Scanf.firstWord_append hend]
  unfold Mapping.word
  generalize Scanf.firstWord (m.name.take (255 - (m.region.text.length + m.blanks))) = word
  dsimp only
  by_cases hword : word = []
  · rw [if_pos hword, if_pos hword]
    rfl
  · rw [if_neg hword, if_neg hword]

/-- The line of a value gives the value. -/
theorem read_count (t : CheckType) (n v : Nat) (rest : CString) :
    t.read (t.key ++ (':' :: (List.replicate n ' ' ++ (Nat.toDigits 10 v ++ (" kB".toList ++ rest))))) =
      some (v : Int) := by
  have hdigits := Scanf.isDigit_toDigits v
  have hnumber : IsNumber 10 (Nat.toDigits 10 v) := ⟨Nat.toDigits_ne_nil, hdigits⟩
  have hread : (Scanf.Conversion.int 10).read (Nat.toDigits 10 v ++ (" kB".toList ++ rest)) =
      .ok (.int (Scanf.ofDigits 10 (Nat.toDigits 10 v)), " kB".toList ++ rest) :=
    Scanf.read_int (blanks_space 0) hdigits Nat.toDigits_ne_nil
      fun c hc => .inl (by obtain rfl : ' ' = c := Option.some.inj hc; rfl)
  rw [Scanf.ofDigits_toDigits] at hread
  have hvalues : (Scanf.scan t.format (t.key ++ (':' :: (List.replicate n ' ' ++
      (Nat.toDigits 10 v ++ (" kB".toList ++ rest)))))).values = [.int v] := by
    rw [CheckType.format, show t.key ++ (':' :: (List.replicate n ' ' ++ (Nat.toDigits 10 v ++
        (" kB".toList ++ rest)))) = (t.key ++ [':']) ++ (List.replicate n ' ' ++
        (Nat.toDigits 10 v ++ (" kB".toList ++ rest))) by simp, Scanf.scan_literals,
      Scanf.scan_space_blanks (blanks_space n) (head_no_space hnumber.ne_nil hnumber.no_space),
      Scanf.scan_assign hread]
    rfl
  rw [CheckType.read, hvalues]

theorem colon_not_mem_key (t : CheckType) : ':' ∉ t.key := by
  cases t <;> decide

/-- A line with another key gives nothing. -/
theorem read_other (hkey : ':' ∉ key) (hne : t.key ≠ key) : t.read (key ++ ':' :: x) = none := by
  have hprefix : ¬ t.key ++ [':'] <+: key ++ ':' :: x := by
    intro hprefix
    obtain ⟨rest, hrest⟩ := hprefix
    rw [List.append_assoc] at hrest
    have htake := congrArg (List.takeWhile (· ≠ ':')) hrest
    rw [Framing.takeWhile_sep hkey] at htake
    exact hne ((Framing.takeWhile_sep (colon_not_mem_key t) rest).symm.trans htake)
  rw [CheckType.read, CheckType.format, Scanf.scan_literals_ne hprefix]

/-- A capital letter is none of the characters a number may begin with. -/
theorem upper_special {c : Char} (h : c.isUpper = true) :
    Scanf.isSpace c = false ∧ c ≠ '-' ∧ c ≠ '+' ∧ c ≠ '0' := by
  refine ⟨?_, ?_, ?_, ?_⟩
  · by_contra hspace
    unfold Scanf.isSpace at hspace
    simp only [List.contains_eq_mem, List.mem_cons, List.not_mem_nil, or_false,
      decide_eq_false_iff_not, not_not] at hspace
    rcases hspace with rfl | rfl | rfl | rfl | rfl | rfl <;> exact absurd h (by decide)
  · intro heq
    rw [heq] at h
    exact absurd h (by decide)
  · intro heq
    rw [heq] at h
    exact absurd h (by decide)
  · intro heq
    rw [heq] at h
    exact absurd h (by decide)

/-- The key of a line is no region. -/
theorem dropWhile_key (hfree : ∀ c ∈ key, c ≠ '-') (x : CString) :
    ∃ d ds, (key ++ ':' :: x).dropWhile (Scanf.isDigit 16) = d :: ds ∧ d ≠ '-' := by
  induction key with
  | nil => exact ⟨':', x, rfl, by decide⟩
  | cons k ks ih =>
    rw [List.cons_append, List.dropWhile_cons]
    split
    · exact ih fun c hc => hfree c (List.mem_cons_of_mem k hc)
    · exact ⟨k, ks ++ ':' :: x, rfl, hfree k List.mem_cons_self⟩

/-- It is not the first line of a mapping either. -/
theorem readHeader_other (h : OtherLine platform key rest) (x : CString) :
    readHeader (key ++ ':' :: x) = none := by
  obtain ⟨c, hc, hupper⟩ := h.upper
  obtain ⟨key, rfl⟩ : ∃ ks, key = c :: ks := by
    cases key with
    | nil => cases hc
    | cons k ks => exact ⟨ks, by rw [Option.some.inj hc]⟩
  obtain ⟨hspace, hminus, hplus, hzero⟩ := upper_special hupper
  have hread : (Scanf.Conversion.int 16).read (c :: (key ++ ':' :: x)) = _ :=
    Scanf.read_int_cons hspace hminus hplus hzero
  have hscan : Scanf.scan headerFormat (c :: (key ++ ':' :: x)) = ⟨[], some .matching⟩ := by
    unfold headerFormat
    rw [Scanf.scan, hread]
    split
    · next hfail =>
      split at hfail
      · cases hfail
        rfl
      · cases hfail
    · next value s hok =>
      split at hok
      · cases hok
      · obtain ⟨-, rfl⟩ := Prod.mk.inj (Except.ok.inj hok)
        -- what comes behind the digits is no minus
        obtain ⟨d, ds, hds, hd⟩ := dropWhile_key (fun c hc => (h.key_free c hc).2.1) x
        rw [← List.cons_append, hds, Scanf.scan, if_neg (Ne.symm hd)]
  rw [readHeader, List.cons_append, hscan]
  rfl

end Scan

end AndroidLearn.Memutils
