import Mathlib.Algebra.Group.Int.Defs
import Mathlib.Data.List.Perm.Basic
import Mathlib.Data.List.TakeWhile
import Mathlib.Logic.Function.Basic

/-!
# The counters of `readExtraMemInfo`

`readExtraMemInfo` of `MemoryLogUtilAm.java`, with `getValue`. One routine fills all
counters: it goes through `/proc/meminfo` until it has found sixteen lines that it knows,
takes other files where a counter is still 0, and sums up `/proc/vmallocinfo` at the end
of the branch for zram. An exception ends the block that it is thrown in.

The files are what they are during one call: a list of lines, or not to be opened. The
platform says which branches are taken. A counter is named by what it counts, and a `long`
is an `Int64`.

What a counter shows is to depend on its own lines and files only: of two sets of files
that agree in them (`Agree`) it is to show the same.

Theorem: `unaffected_iff` says for which two sets of files with the same lines and files
of a counter it shows the same, and when the figure for vmalloc is the sum of the entries.
-/

namespace AndroidLearn.Memutils.ExtraMemInfo

/-! ## Strings of Java -/

/-- A `String`, of ASCII characters. -/
abbrev JString := List Char

/-- `String.startsWith`. -/
def startsWith (line : JString) (front : String) : Bool := front.toList.isPrefixOf line

/-- `String.toLowerCase`. -/
def toLowerCase (line : JString) : JString := line.map Char.toLower

/-- `String.contains`. -/
def contains (line : JString) (part : String) : Bool := (line.dropInfix? part.toList).isSome

/-- `none` for -1 -/
def indexOf (line : JString) (part : String) : Option Nat :=
  (line.dropInfix? part.toList).map fun found => found.1.length

/-- `substring`; `none` for an exception -/
def substring (line : JString) (start stop : Nat) : Option JString :=
  if start ≤ stop ∧ stop ≤ line.length then some ((line.take stop).drop start) else none

/-- `String.trim`, for which a blank is all up to the space. -/
def trim (line : JString) : JString :=
  ((line.dropWhile fun c => c.toNat ≤ 32).reverse.dropWhile fun c => c.toNat ≤ 32).reverse

/-- `\s` -/
def isBlank (c : Char) : Bool := [' ', '\t', '\n', '\x0b', '\x0c', '\r'].contains c

/-- `split ("\\s+")`: a blank at the beginning makes an empty first string; without blanks
there is one string. -/
def split (line : JString) : List JString :=
  let words := (line.splitOnP isBlank).filter fun word => ! word.isEmpty
  if ! line.any isBlank then [line]
  else if line.head?.any isBlank ∧ words ≠ [] then [] :: words
  else words

/-- `Long.parseLong`; `none` for an exception -/
def parseLong (s : JString) : Option Int64 :=
  let digits := if s.head? = some '-' ∨ s.head? = some '+' then s.tail else s
  if digits = [] ∨ ! digits.all Char.isDigit then none
  else
    let n : Int := Nat.ofDigitChars 10 digits 0
    let n := if s.head? = some '-' then -n else n
    if -(2 ^ 63) ≤ n ∧ n < 2 ^ 63 then some (Int64.ofInt n) else none

/-! ## The counters -/

/-- The counters that are read from the files. -/
inductive Counter
  | kernelStack | pageTables | kgslAlloc | ionTotal | ionInUse | freeCma | totalCma
  | swapTotal | swapFree | zramInUse | swapCached | buffers | shmem | slab | total | free
  | cached | vmallocUsed
  deriving DecidableEq, Repr

/-- `sKernelStack` and the others -/
abbrev Counters := Counter → Int64

/-- A file is the lines that `readLine` returns, if it can be opened. -/
abbrev JFile := Option (List JString)

/-- The files that are read, each of which may be missing. -/
structure Contents where
  /-- `/proc/meminfo` -/
  meminfo : JFile
  /-- `/d/mali0/gpu_memory` -/
  gpuMemory : JFile
  /-- `/proc/pagetypeinfo` -/
  pagetypeinfo : JFile
  /-- `mem_used_total` of `zram0` to `zram3` -/
  zram : Fin 4 → JFile
  /-- `/proc/vmallocinfo` -/
  vmallocinfo : JFile

/-! ### `/proc/meminfo` -/

/-- The counter that a line is for. -/
def counterOf (line : JString) : Option Counter :=
  if startsWith line "KernelStack:" then some .kernelStack
  else if startsWith line "PageTables:" then some .pageTables
  else if startsWith (toLowerCase line) "kgslalloc:" ∨
      startsWith (toLowerCase line) "kgsl_alloc:" then some .kgslAlloc
  else if startsWith line "IonTotal:" ∨ startsWith line "ION_ALLOC:" then some .ionTotal
  else if startsWith (toLowerCase line) "ioninuse:" then some .ionInUse
  else if startsWith line "FreeCma:" ∨ startsWith line "CmaFree:" then some .freeCma
  else if startsWith line "SwapTotal:" then some .swapTotal
  else if startsWith line "SwapFree:" then some .swapFree
  else if startsWith line "ZramAlloc:" then some .zramInUse
  else if startsWith line "SwapCached:" then some .swapCached
  else if startsWith line "Buffers:" then some .buffers
  else if startsWith line "Shmem:" then some .shmem
  else if startsWith line "Slab:" then some .slab
  else if startsWith line "MemTotal:" then some .total
  else if startsWith line "MemFree:" then some .free
  else if startsWith line "Cached:" then some .cached
  else none

/-- `NUM_EXTRAM_MEMINFO` -/
def numExtramMeminfo : Nat := 16

/-- The second word of a line, as a number. -/
def getValue (line : JString) : Option Int64 := (split line)[1]?.bind parseLong

/-- The loop over the lines of `/proc/meminfo`. -/
def readMeminfo (count : Nat) (s : Counters) : List JString → Counters
  | [] => s
  | line :: lines =>
    if count < numExtramMeminfo then
      match counterOf line with
      | none => readMeminfo count s lines
      | some k =>
        match getValue line with
        | none => s
        | some value => readMeminfo (count + 1) (Function.update s k value) lines
    else s

/-! ### The other files -/

/-- The platforms that are told apart. -/
inductive Platform
  | none | nv | qct | brcm | mtkPvr | mtkMali
  deriving DecidableEq, Repr

/-- `tmpKGSLAlloc`, in pages -/
def maliPages : List JString → Option Int64
  | [] => some 0
  | line :: lines =>
    match split (trim line) with
    | [name, pages] => if name = "mali0".toList then parseLong (trim pages) else maliPages lines
    | _ => maliPages lines

/-- The hardware acceleration memory, if it is 0 so far. -/
def readKgsl (platform : Platform) (file : JFile) (kgslAlloc : Int64) : Int64 :=
  if kgslAlloc = 0 ∧ platform = .mtkMali then
    match file.bind maliPages with
    | some pages => if 0 < pages then pages <<< 2 else kgslAlloc
    | none => kgslAlloc
  else kgslAlloc

/-- The local variables of the loop over the lines of `pagetypeinfo`. -/
structure CmaReader where
  isCmaBlock : Bool
  cmaIndex : Option Nat
  tmpFreeCma : Int64
  tmpTotalCma : Int64

/-- The free blocks of each order, eleven of them at most, in pages. -/
def freePages (counts : List Int64) : Int64 :=
  (counts.zipIdx.map fun count => count.1 <<< Int64.ofNat count.2).foldl (· + ·) 0

/-- A line of `/proc/pagetypeinfo`. -/
def CmaReader.read (r : CmaReader) (line : JString) : Option CmaReader :=
  if startsWith line "Number of blocks type" then
    some { r with isCmaBlock := true, cmaIndex := indexOf line "CMA" }
  else if ! r.isCmaBlock then
    match indexOf line "CMA" with
    | none => some { r with cmaIndex := none }
    | some cmaIndex => do
      let rest ← substring line (cmaIndex + 4) line.length
      let counts ← ((split (trim rest)).take 11).mapM fun text => parseLong (trim text)
      some { r with cmaIndex := some cmaIndex, tmpFreeCma := r.tmpFreeCma + freePages counts }
  else
    match r.cmaIndex with
    | none => some r
    | some cmaIndex => do
      let text ← substring line cmaIndex (cmaIndex + 3)
      let blocks ← parseLong (trim text)
      some { r with tmpTotalCma := r.tmpTotalCma + blocks }

/-- `tmpFreeCma` and `tmpTotalCma` at the end, if no exception is thrown. -/
def readPagetypeinfo (file : JFile) : Option (Int64 × Int64) := do
  let lines ← file
  let r ← lines.foldlM CmaReader.read ⟨false, none, 0, 0⟩
  some (r.tmpFreeCma, r.tmpTotalCma)

/-- `sFreeCma` and `sTotalCma` -/
def readCma (file : JFile) (freeCma totalCma : Int64) : Int64 × Int64 :=
  if totalCma = 0 ∨ freeCma = 0 then
    match readPagetypeinfo file with
    | some (tmpFreeCma, tmpTotalCma) =>
      (if freeCma = 0 then tmpFreeCma <<< 2 else freeCma,
        if totalCma = 0 then tmpTotalCma <<< 12 else totalCma)
    | none => (freeCma, totalCma)
  else (freeCma, totalCma)

/-- One `mem_used_total`. -/
def addZram (zramInUse : Int64) : List JString → Int64
  | [] => zramInUse
  | line :: lines =>
    match parseLong (trim line) with
    | none => zramInUse
    | some bytes => addZram (zramInUse + bytes / 1024) lines

/-- The four zram devices, one after the other. -/
def readZram (zram : Fin 4 → JFile) (zramInUse : Int64) : Int64 :=
  [zram 0, zram 1, zram 2, zram 3].foldl (fun sum file => addZram sum (file.getD [])) zramInUse

/-- An entry that is not counted. -/
def isMapped (line : JString) : Bool := contains line "ioremap" || contains line "map_lowmem"

/-- `/proc/vmallocinfo` -/
def addVmalloc (vmallocUsed : Int64) : List JString → Int64
  | [] => vmallocUsed
  | line :: lines =>
    if isMapped line then addVmalloc vmallocUsed lines
    else
      match getValue line with
      | none => vmallocUsed
      | some bytes => addVmalloc (vmallocUsed + bytes / 1024) lines

/-- What is taken from other files, where a counter is still 0. -/
def readOthers (platform : Platform) (c : Contents) (s : Counters) : Counters :=
  let s := Function.update s .kgslAlloc (readKgsl platform c.gpuMemory (s .kgslAlloc))
  let cma := readCma c.pagetypeinfo (s .freeCma) (s .totalCma)
  Function.update (Function.update s .freeCma cma.1) .totalCma cma.2

/-- The last branch. -/
def readZramBranch (c : Contents) (s : Counters) : Counters :=
  if s .zramInUse = 0 then
    Function.update (Function.update s .zramInUse (readZram c.zram (s .zramInUse))) .vmallocUsed
      (addVmalloc (s .vmallocUsed) (c.vmallocinfo.getD []))
  else s

/-- What `readExtraMemInfo` leaves in the counters. -/
def readExtraMemInfo (platform : Platform) (c : Contents) : Counters :=
  readZramBranch c (readOthers platform c (readMeminfo 0 (fun _ => 0) (c.meminfo.getD [])))

/-! ## What a counter is computed from -/

/-- The lines of `/proc/meminfo` for a counter. -/
def Counter.linesIn (k : Counter) (c : Contents) : List JString :=
  (c.meminfo.getD []).filter fun line => counterOf line = some k

/-- The two agree on the lines, in whatever order, and the files of a counter. -/
structure Agree (k : Counter) (a b : Contents) : Prop where
  meminfo : (k.linesIn a).Perm (k.linesIn b)
  gpuMemory : k = .kgslAlloc → a.gpuMemory = b.gpuMemory
  pagetypeinfo : k = .freeCma ∨ k = .totalCma → a.pagetypeinfo = b.pagetypeinfo
  zram : k = .zramInUse → a.zram = b.zram
  vmallocinfo : k = .vmallocUsed → a.vmallocinfo = b.vmallocinfo

/-- What is read of `/proc/meminfo`: the first sixteen lines for a counter, up to one
without a number. -/
def linesRead (c : Contents) : List JString :=
  (((c.meminfo.getD []).filter fun line => (counterOf line).isSome).takeWhile
    fun line => (getValue line).isSome).take numExtramMeminfo

/-- What the last line for the counter says that is read, and 0 without one. -/
def Counter.said (k : Counter) (c : Contents) : Int64 :=
  ((((linesRead c).filter fun line => counterOf line = some k).getLast?).bind getValue).getD 0

/-- What the other files give for a counter that is 0. -/
def Counter.fallback (platform : Platform) (c : Contents) : Counter → Int64
  | kgslAlloc => readKgsl platform c.gpuMemory 0
  | freeCma => (readCma c.pagetypeinfo 0 0).1
  | totalCma => (readCma c.pagetypeinfo 0 0).2
  | zramInUse => readZram c.zram 0
  | _ => 0

/-- The size of an entry of `/proc/vmallocinfo` that is to be counted. -/
def entrySize (line : JString) : Option Int64 := if isMapped line then none else getValue line

/-- The sum of the entries, in kB. -/
def vmallocSum (lines : List JString) : Int64 :=
  ((lines.filterMap entrySize).map (· / 1024)).sum

/-- A line that is not counted, or has a size. -/
def isEntry (line : JString) : Bool := isMapped line || (getValue line).isSome

/-- The entries up to a line that is none. -/
def entriesRead (c : Contents) : List JString := (c.vmallocinfo.getD []).takeWhile isEntry

/-- What is said of a counter in both comes to the same. -/
def SaysAlike (platform : Platform) (k : Counter) (a b : Contents) : Prop :=
  if k = .vmallocUsed then
    (Counter.zramInUse.said a = 0 ↔ Counter.zramInUse.said b = 0) ∨ vmallocSum (entriesRead a) = 0
  else
    k.said a = k.said b ∨ k.said a = 0 ∧ k.said b = k.fallback platform a ∨
      k.said b = 0 ∧ k.said a = k.fallback platform a

/-! ## What is read -/

section Reading

variable {platform : Platform} {c : Contents} {k : Counter} {s : Counters}
  {lines : List JString}

/-- The value of the last line for the counter. -/
def lastValue (k : Counter) (lines : List JString) (value : Int64) : Int64 :=
  (((lines.filter fun line => counterOf line = some k).getLast?).bind getValue).getD value

/-- One line in front. -/
theorem lastValue_cons {line : JString} {value v : Int64} {j : Counter}
    (hline : counterOf line = some j) (hvalue : getValue line = some v)
    (hlines : ∀ l ∈ lines, (getValue l).isSome) :
    lastValue k (line :: lines) value = lastValue k lines (if k = j then v else value) := by
  unfold lastValue
  by_cases hk : k = j
  · rw [if_pos hk, List.filter_cons_of_pos (by rw [hline, hk]; simp), List.getLast?_cons]
    cases hrest : (lines.filter fun line => counterOf line = some k).getLast? with
    | none =>
      rw [Option.getD_none, Option.bind_some, hvalue, Option.getD_some, Option.bind_none,
        Option.getD_none]
    | some l =>
      have hmem := List.mem_of_mem_filter (List.mem_of_getLast? hrest)
      obtain ⟨w, hw⟩ := Option.isSome_iff_exists.mp (hlines l hmem)
      rw [Option.getD_some, Option.bind_some, hw, Option.getD_some, Option.getD_some]
  · have hne : ¬ some j = some k := fun h => hk (Option.some.inj h).symm
    rw [if_neg hk, List.filter_cons_of_neg (by rw [hline]; simpa using hne)]

/-- The loop leaves in each counter what the last line that is read says. -/
theorem readMeminfo_eq (count : Nat) (s : Counters) (lines : List JString) :
    readMeminfo count s lines k =
      lastValue k (((lines.filter fun line => (counterOf line).isSome).takeWhile
        fun line => (getValue line).isSome).take (numExtramMeminfo - count)) (s k) := by
  induction lines generalizing count s with
  | nil =>
    rw [List.filter_nil, List.takeWhile_nil, List.take_nil]
    rfl
  | cons line lines ih =>
    rw [readMeminfo]
    by_cases hcount : count < numExtramMeminfo
    · rw [if_pos hcount]
      cases hline : counterOf line with
      | none =>
        rw [List.filter_cons_of_neg (by rw [hline]; exact Bool.false_ne_true)]
        exact ih count s
      | some j =>
        rw [List.filter_cons_of_pos (by rw [hline]; rfl), List.takeWhile_cons]
        cases hvalue : getValue line with
        | none =>
          rw [Option.isSome_none, if_neg Bool.false_ne_true, List.take_nil]
          rfl
        | some value =>
          obtain ⟨room, hroom⟩ : ∃ room, numExtramMeminfo - count = room + 1 :=
            ⟨numExtramMeminfo - count - 1, by omega⟩
          have hnext : numExtramMeminfo - (count + 1) = room := by omega
          have hall : ∀ l ∈ (((lines.filter fun line => (counterOf line).isSome).takeWhile
              fun line => (getValue line).isSome).take room), (getValue l).isSome = true :=
            fun l hl =>
              List.mem_takeWhile_imp (p := fun line => (getValue line).isSome) (List.mem_of_mem_take hl)
          show readMeminfo (count + 1) (Function.update s j value) lines k = _
          rw [ih, hnext, hroom, Option.isSome_some, if_pos rfl, List.take_succ_cons,
            lastValue_cons hline hvalue hall, Function.update_apply]
    · have hnone : numExtramMeminfo - count = 0 := by omega
      rw [if_neg hcount, hnone, List.take_zero]
      rfl

theorem readMeminfo_said (k : Counter) (c : Contents) :
    readMeminfo 0 (fun _ => 0) (c.meminfo.getD []) k = k.said c :=
  readMeminfo_eq 0 (fun _ => 0) (c.meminfo.getD [])

/-- No line is for these two. -/
theorem said_eq_zero (hk : k = .totalCma ∨ k = .vmallocUsed) : k.said c = 0 := by
  have hbranch {p : Prop} [Decidable p] {x y : Option Counter} (hx : x ≠ some k) (hy : y ≠ some k) :
      (if p then x else y) ≠ some k := by
    split
    · exact hx
    · exact hy
  have hnone : ∀ line, counterOf line ≠ some k := by
    intro line
    unfold counterOf
    rcases hk with rfl | rfl
    · iterate 16 refine hbranch (by decide) ?_
      decide
    · iterate 16 refine hbranch (by decide) ?_
      decide
  have hfilter : (linesRead c).filter (fun line => counterOf line = some k) = [] := by
    rw [List.filter_eq_nil_iff]
    intro line _ h
    exact hnone line (of_decide_eq_true h)
  rw [Counter.said, hfilter]
  rfl

/-- All lines that are known have a number, and there are sixteen of them at most. -/
structure Complete (c : Contents) : Prop where
  numbers : ∀ line ∈ c.meminfo.getD [], (counterOf line).isSome → (getValue line).isSome
  few : ((c.meminfo.getD []).filter fun line => (counterOf line).isSome).length ≤ numExtramMeminfo

/-- What a complete file says of a counter is on its last line. -/
theorem Complete.said_eq (h : Complete c) : k.said c =
    (((k.linesIn c).getLast?).bind getValue).getD 0 := by
  have hall : ((c.meminfo.getD []).filter fun line => (counterOf line).isSome).takeWhile
      (fun line => (getValue line).isSome) =
        (c.meminfo.getD []).filter fun line => (counterOf line).isSome := by
    rw [List.takeWhile_eq_self_iff]
    intro line hline
    obtain ⟨hmem, hknown⟩ := List.mem_filter.mp hline
    exact h.numbers line hmem hknown
  have hread : (linesRead c).filter (fun line => counterOf line = some k) = k.linesIn c := by
    rw [linesRead, hall, List.take_of_length_le h.few, List.filter_filter, Counter.linesIn]
    congr 1
    funext line
    cases hline : counterOf line with
    | none => rfl
    | some j => exact Bool.and_true _
  rw [Counter.said, hread]

/-- One line of a counter says the same wherever it stands, and whatever else is there. -/
theorem said_eq_of_complete {a b : Contents} (ha : Complete a) (hb : Complete b)
    (h : Agree k a b) (hone : (k.linesIn a).length ≤ 1) : k.said a = k.said b := by
  have hlines : k.linesIn a = k.linesIn b := by
    cases hl : k.linesIn a with
    | nil =>
      have hperm := h.meminfo
      rw [hl] at hperm
      exact hperm.nil_eq
    | cons line rest =>
      have hperm := h.meminfo
      rw [hl, List.length_cons] at hone
      obtain rfl : rest = [] := List.length_eq_zero_iff.mp (by omega)
      rw [hl] at hperm
      exact (List.perm_singleton.mp hperm.symm).symm
  rw [ha.said_eq, hb.said_eq, hlines]

end Reading

/-! ## The values -/

section Values

variable {platform : Platform} {a b c : Contents} {k : Counter}

/-- `kgsl` is read when nothing was said of it. -/
theorem readKgsl_eq (platform : Platform) (file : JFile) (kgslAlloc : Int64) :
    readKgsl platform file kgslAlloc =
      if kgslAlloc = 0 then readKgsl platform file 0 else kgslAlloc := by
  by_cases h : kgslAlloc = 0
  · rw [h, if_pos rfl]
  · rw [if_neg h, readKgsl, if_neg fun hand => h hand.1]

theorem readCma_fst (file : JFile) (freeCma : Int64) :
    (readCma file freeCma 0).1 = if freeCma = 0 then (readCma file 0 0).1 else freeCma := by
  by_cases h : freeCma = 0
  · rw [h, if_pos rfl]
  · rw [if_neg h, readCma, if_pos (.inl rfl)]
    cases readPagetypeinfo file with
    | none => rfl
    | some cma => exact if_neg h

/-- It is read in any case for the total. -/
theorem readCma_snd (file : JFile) (freeCma : Int64) :
    (readCma file freeCma 0).2 = (readCma file 0 0).2 := by
  unfold readCma
  rw [if_pos (.inl rfl), if_pos (.inl rfl)]
  cases readPagetypeinfo file <;> rfl

theorem readOthers_zram (s : Counters) : readOthers platform c s .zramInUse = s .zramInUse := by
  unfold readOthers
  rw [Function.update_of_ne (show Counter.zramInUse ≠ .totalCma from nofun),
    Function.update_of_ne (show Counter.zramInUse ≠ .freeCma from nofun),
    Function.update_of_ne (show Counter.zramInUse ≠ .kgslAlloc from nofun)]

/-- What nothing was said of is read from elsewhere. -/
theorem readOthers_eq (s : Counters) (htotal : s .totalCma = 0) (hz : k ≠ .zramInUse) :
    readOthers platform c s k = if s k = 0 then k.fallback platform c else s k := by
  unfold readOthers
  rw [Function.update_of_ne (show Counter.freeCma ≠ .kgslAlloc from nofun),
    Function.update_of_ne (show Counter.totalCma ≠ .kgslAlloc from nofun), htotal]
  by_cases ht : k = .totalCma
  · rw [ht, Function.update_self, readCma_snd, htotal, if_pos rfl]
    rfl
  rw [Function.update_of_ne ht]
  by_cases hf : k = .freeCma
  · rw [hf, Function.update_self, readCma_fst]
    rfl
  rw [Function.update_of_ne hf]
  by_cases hg : k = .kgslAlloc
  · rw [hg, Function.update_self, readKgsl_eq]
    rfl
  rw [Function.update_of_ne hg]
  have hnone : k.fallback platform c = 0 := by
    cases k with
    | totalCma => exact absurd rfl ht
    | freeCma => exact absurd rfl hf
    | kgslAlloc => exact absurd rfl hg
    | zramInUse => exact absurd rfl hz
    | _ => rfl
  rw [hnone]
  split
  · next h => exact h
  · rfl

/-- `zram` is read when nothing was said of it. -/
theorem readZramBranch_zram (s : Counters) : readZramBranch c s .zramInUse =
    if s .zramInUse = 0 then readZram c.zram 0 else s .zramInUse := by
  unfold readZramBranch
  by_cases hz : s .zramInUse = 0
  · rw [if_pos hz, if_pos hz, Function.update_of_ne (show Counter.zramInUse ≠ .vmallocUsed from nofun),
      Function.update_self, hz]
  · rw [if_neg hz, if_neg hz]

theorem readZramBranch_vmalloc (s : Counters) : readZramBranch c s .vmallocUsed =
    if s .zramInUse = 0 then addVmalloc (s .vmallocUsed) (c.vmallocinfo.getD [])
    else s .vmallocUsed := by
  unfold readZramBranch
  by_cases hz : s .zramInUse = 0
  · rw [if_pos hz, if_pos hz, Function.update_self]
  · rw [if_neg hz, if_neg hz]

/-- Nothing else is. -/
theorem readZramBranch_other (s : Counters) (hzram : k ≠ .zramInUse) (hvmalloc : k ≠ .vmallocUsed) :
    readZramBranch c s k = s k := by
  unfold readZramBranch
  split
  · rw [Function.update_of_ne hvmalloc, Function.update_of_ne hzram]
  · rfl

/-- What a counter shows: what is said of it, or what the other files give in its place. -/
theorem value_eq (hk : k ≠ .vmallocUsed) : readExtraMemInfo platform c k =
    if k.said c = 0 then k.fallback platform c else k.said c := by
  have htotal := (readMeminfo_said .totalCma c).trans (said_eq_zero (.inl rfl))
  rw [← readMeminfo_said k c, readExtraMemInfo]
  by_cases hz : k = .zramInUse
  · rw [hz, readZramBranch_zram, readOthers_zram]
    rfl
  · rw [readZramBranch_other _ hz hk, readOthers_eq _ htotal hz]

/-- What is said of `vmalloc` in the end. -/
theorem vmalloc_eq : readExtraMemInfo platform c .vmallocUsed =
    if Counter.zramInUse.said c = 0 then addVmalloc 0 (c.vmallocinfo.getD []) else 0 := by
  have htotal := (readMeminfo_said .totalCma c).trans (said_eq_zero (.inl rfl))
  have hvmalloc := (readMeminfo_said .vmallocUsed c).trans (said_eq_zero (.inr rfl))
  have hothers : readOthers platform c (readMeminfo 0 (fun _ => 0) (c.meminfo.getD []))
      .vmallocUsed = 0 := by
    rw [readOthers_eq _ htotal (show Counter.vmallocUsed ≠ .zramInUse from nofun), if_pos hvmalloc]
    rfl
  rw [← readMeminfo_said .zramInUse c, readExtraMemInfo, readZramBranch_vmalloc, readOthers_zram,
    hothers]

/-- The entries are added up to a line that is none. -/
theorem addVmalloc_eq (sum : Int64) (lines : List JString) :
    addVmalloc sum lines = sum + vmallocSum (lines.takeWhile isEntry) := by
  induction lines generalizing sum with
  | nil => exact (Int64.add_zero sum).symm
  | cons line lines ih =>
    rw [addVmalloc, List.takeWhile_cons]
    by_cases hmapped : isMapped line = true
    · have hentry : isEntry line = true := by
        rw [isEntry, hmapped, Bool.true_or]
      have hsize : entrySize line = none := if_pos hmapped
      rw [if_pos hmapped, if_pos hentry, ih, vmallocSum, vmallocSum, List.filterMap_cons_none hsize]
    · have hsize : entrySize line = getValue line := if_neg hmapped
      have hentry : isEntry line = (getValue line).isSome := by
        rw [isEntry, Bool.eq_false_iff.mpr hmapped, Bool.false_or]
      rw [if_neg hmapped, hentry]
      cases hvalue : getValue line with
      | none =>
        rw [Option.isSome_none, if_neg Bool.false_ne_true]
        exact (Int64.add_zero sum).symm
      | some bytes =>
        rw [hvalue] at hsize
        rw [Option.isSome_some, if_pos rfl, vmallocSum, List.filterMap_cons_some hsize,
          List.map_cons, List.sum_cons, ← Int64.add_assoc]
        exact ih (sum + bytes / 1024)

/-- The sum over some lines and some more. -/
theorem vmallocSum_append (l l' : List JString) :
    vmallocSum (l ++ l') = vmallocSum l + vmallocSum l' := by
  unfold vmallocSum
  rw [List.filterMap_append, List.map_append]
  induction (l.filterMap entrySize).map (· / 1024) with
  | nil => exact (Int64.zero_add _).symm
  | cons x xs ih => rw [List.cons_append, List.sum_cons, List.sum_cons, ih, Int64.add_assoc]

/-- Two values with one for 0 in its place. -/
theorem instead_eq_iff (x y instead : Int64) :
    (if x = 0 then instead else x) = (if y = 0 then instead else y) ↔
      x = y ∨ x = 0 ∧ y = instead ∨ y = 0 ∧ x = instead := by
  by_cases hx : x = 0
  · by_cases hy : y = 0
    · rw [hx, hy]
      exact iff_of_true rfl (.inl rfl)
    · rw [if_pos hx, if_neg hy]
      constructor
      · exact fun h => .inr (.inl ⟨hx, h.symm⟩)
      · rintro (h | ⟨-, h⟩ | ⟨h, -⟩)
        · exact absurd (h.symm.trans hx) hy
        · exact h.symm
        · exact absurd h hy
  · by_cases hy : y = 0
    · rw [if_neg hx, if_pos hy]
      constructor
      · exact fun h => .inr (.inr ⟨hy, h⟩)
      · rintro (h | ⟨h, -⟩ | ⟨-, h⟩)
        · exact absurd (h.trans hy) hx
        · exact absurd h hx
        · exact h
    · rw [if_neg hx, if_neg hy]
      constructor
      · exact .inl
      · rintro (h | ⟨h, -⟩ | ⟨h, -⟩)
        · exact h
        · exact absurd h hx
        · exact absurd h hy

/-- What is read from elsewhere agrees where the files do. -/
theorem Agree.fallback (h : Agree k a b) : k.fallback platform a = k.fallback platform b := by
  cases k with
  | kgslAlloc => rw [Counter.fallback, Counter.fallback, h.gpuMemory rfl]
  | freeCma => rw [Counter.fallback, Counter.fallback, h.pagetypeinfo (.inl rfl)]
  | totalCma => rw [Counter.fallback, Counter.fallback, h.pagetypeinfo (.inr rfl)]
  | zramInUse => rw [Counter.fallback, Counter.fallback, h.zram rfl]
  | _ => rfl

end Values

/-! ## Two sets of files -/

/-- Two sets of files that agree on the lines and files of a counter show the same for it
exactly when what is said of it in both comes to the same. The figure for vmalloc is the
sum of the entries exactly when zram is said to be unused and the entries behind a line
that is none make 0, or the sum is 0. -/
theorem unaffected_iff (platform : Platform) (k : Counter) (a b : Contents) (h : Agree k a b) :
    (readExtraMemInfo platform a k = readExtraMemInfo platform b k ↔ SaysAlike platform k a b) ∧
      (readExtraMemInfo platform a .vmallocUsed = vmallocSum (a.vmallocinfo.getD []) ↔
        if Counter.zramInUse.said a = 0 then vmallocSum ((a.vmallocinfo.getD []).dropWhile isEntry) = 0
        else vmallocSum (a.vmallocinfo.getD []) = 0) := by
  have hvmalloc (c : Contents) : readExtraMemInfo platform c .vmallocUsed =
      if Counter.zramInUse.said c = 0 then vmallocSum (entriesRead c) else 0 := by
    rw [vmalloc_eq, addVmalloc_eq, Int64.zero_add]
    rfl
  constructor
  · by_cases hk : k = .vmallocUsed
    · have hentries : entriesRead a = entriesRead b := by
        unfold entriesRead
        rw [h.vmallocinfo hk]
      rw [hk, hvmalloc, hvmalloc, SaysAlike, if_pos rfl, hentries]
      by_cases ha : Counter.zramInUse.said a = 0
      · by_cases hb : Counter.zramInUse.said b = 0
        · rw [if_pos ha, if_pos hb]
          exact iff_of_true rfl (.inl (iff_of_true ha hb))
        · rw [if_pos ha, if_neg hb]
          exact ⟨.inr, fun h => h.resolve_left fun hiff => hb (hiff.mp ha)⟩
      · by_cases hb : Counter.zramInUse.said b = 0
        · rw [if_neg ha, if_pos hb]
          exact ⟨fun h => .inr h.symm, fun h => (h.resolve_left fun hiff => ha (hiff.mpr hb)).symm⟩
        · rw [if_neg ha, if_neg hb]
          exact iff_of_true rfl (.inl (iff_of_false ha hb))
    · rw [value_eq hk, value_eq hk, SaysAlike, if_neg hk, ← h.fallback]
      exact instead_eq_iff _ _ _
  · have hsum : vmallocSum (a.vmallocinfo.getD []) =
        vmallocSum (entriesRead a) + vmallocSum ((a.vmallocinfo.getD []).dropWhile isEntry) := by
      rw [← vmallocSum_append, entriesRead, List.takeWhile_append_dropWhile]
    rw [hvmalloc]
    by_cases hz : Counter.zramInUse.said a = 0
    · rw [if_pos hz, if_pos hz, hsum]
      exact Int64.left_eq_add
    · rw [if_neg hz, if_neg hz]
      exact eq_comm

/-- Only `/proc/meminfo`, and one entry in `/proc/vmallocinfo`. -/
def onlyMeminfo (lines : List String) : Contents where
  meminfo := some (lines.map String.toList)
  gpuMemory := none
  pagetypeinfo := none
  zram := fun _ => none
  vmallocinfo := some ["0x1-0x2 8192 load_module+0x1/0x2".toList]

/-- With zram in use the entries of `/proc/vmallocinfo` are not read. -/
theorem unaffected_fails_zram : ¬ ∀ (platform : Platform) (k : Counter) (a b : Contents),
    Agree k a b → readExtraMemInfo platform a k = readExtraMemInfo platform b k := by
  intro h
  have hagree : Agree .vmallocUsed (onlyMeminfo ["ZramAlloc: 4 kB"]) (onlyMeminfo []) :=
    ⟨by decide, nofun, nofun, nofun, fun _ => rfl⟩
  have hvalue := h .qct .vmallocUsed _ _ hagree
  rw [vmalloc_eq, vmalloc_eq] at hvalue
  exact absurd hvalue (by decide)

/-- The order of the lines of two counters. -/
theorem unaffected_order :
    readExtraMemInfo .qct (onlyMeminfo ["MemTotal: 8 kB", "MemFree: 4 kB"]) .free =
      readExtraMemInfo .qct (onlyMeminfo ["MemFree: 4 kB", "MemTotal: 8 kB"]) .free := by
  have hagree : Agree .free (onlyMeminfo ["MemTotal: 8 kB", "MemFree: 4 kB"])
      (onlyMeminfo ["MemFree: 4 kB", "MemTotal: 8 kB"]) :=
    ⟨by decide, nofun, fun h => by simp at h, nofun, nofun⟩
  exact (unaffected_iff .qct .free _ _ hagree).1.mpr (.inl (by decide))

end AndroidLearn.Memutils.ExtraMemInfo
