import AndroidLearn.Conf.Lines
import AndroidLearn.Dir.Links
import AndroidLearn.Lib.Strstr

/-!
# The mount table

`dir_get_mount_entry` of `dir.c` reads `/proc/mounts` line by line and takes the first one
in which the mount point stands between two blanks, in whatever field: the pattern has 64
bytes, a line 4096, and what does not fit is cut. The entry has its fields as they are
separated by blanks, and the last one goes on to the end of the line.

The table is a list of lines, each with a device, a mount point, a type and the rest
(`MountLine`), whose fields have no blank or newline in them, as the kernel writes them.
It opens and is read as a whole. `strstr` is that of `Lib.Strstr`, and `mountPattern` is
what `snprintf` leaves of ` %s `.

`Exact` compares this with the lookup of a mount point in the second fields of the lines:
the same line is found, none if there is none, and each field of the entry is that of the
line.

Theorem: `mountEntryExact_iff`, for every table and mount point. A line that only mentions
the mount point must not stand in front of the one that is found, and what is looked for
must fit. It is said for both readings of the last field, with the rest of the line and
without.
-/

namespace AndroidLearn.Dir

open Conf

/-! ## The function -/

/-- `strstr (data, pattern) != NULL` -/
def strstr (data pattern : CString) : Bool := (data.dropInfix? pattern).isSome

/-- `STORAGE_MOUNT_ENTRY`; where the search for a blank ends the rest is not set. -/
structure StorageMountEntry where
  device : CString
  mountpoint : Option CString
  type : Option CString
  options : Option CString
  deriving DecidableEq

/-- `strchr` of a blank, and the two strings that the NUL in its place makes. -/
def splitBlank (s : CString) : Option (CString × CString) :=
  if ' ' ∈ s then some (s.takeWhile (· ≠ ' '), (s.dropWhile (· ≠ ' ')).tail) else none

/-- The four fields of a line of the mount table. -/
def mountEntry (data : CString) : StorageMountEntry :=
  match splitBlank data with
  | none => ⟨data, none, none, none⟩
  | some (device, mountpoint) =>
    match splitBlank mountpoint with
    | none => ⟨device, some mountpoint, none, none⟩
    | some (mountpoint, type) =>
      match splitBlank type with
      | none => ⟨device, some mountpoint, some type, none⟩
      | some (type, options) => ⟨device, some mountpoint, some type, some options⟩

/-- `snprintf (mounts, sizeof (mounts), " %s ", mountpoint)` with `char mounts [64]` -/
def mountPattern (mountpoint : CString) : CString := (' ' :: (mountpoint ++ [' '])).take 63

/-- The loop over the bytes of the file, with the line so far in `data`: the line that is
taken. -/
def mountLoop (pattern : CString) (data : List Char) : List Char → Option CString
  | [] => if strstr (cstring data) pattern then some (cstring data) else none
  | ch :: file =>
    if ch = '\n' then
      if strstr (cstring data) pattern then some (cstring data) else mountLoop pattern [] file
    else mountLoop pattern (if data.length < pathMax - 1 then data ++ [ch] else data) file

/-- What is printed for `%s`. -/
def printed (str : Option CString) : CString := str.getD "(null)".toList

/-- `dir_get_mount_entry`: the entry if it returns 1. `proc` is the file, unless it cannot
be opened. -/
def dirGetMountEntry (active fuseMountpoint : Option CString) (proc : Option (List Char))
    (mountpoint : Option CString) : Option StorageMountEntry := do
  let mountpoint ← mountpoint
  let isfuse := active = some mountpoint
  let file ← proc
  let pattern := mountPattern (if isfuse then printed fuseMountpoint else mountpoint)
  let data ← mountLoop pattern [] file
  some (mountEntry (cut data))

/-! ## The table as the kernel prints it -/

/-- Blanks, newlines and backslashes of a field are printed as octal numbers. -/
def IsField (s : CString) : Prop := ' ' ∉ s ∧ '\n' ∉ s ∧ '\x00' ∉ s

/-- The fields of a line that is as it should be. -/
structure MountLine where
  device : CString
  mountpoint : CString
  type : CString
  options : CString
  device_isField : IsField device
  mountpoint_isField : IsField mountpoint
  type_isField : IsField type
  options_isField : IsField options

/-- The first fields, up to the fourth and what is taken for a part of it. -/
def MountLine.front (line : MountLine) (tail : CString) : CString :=
  line.device ++ ' ' :: (line.mountpoint ++ ' ' :: (line.type ++ ' ' :: (line.options ++ tail)))

/-- The fields behind the fourth are always the same. -/
def lineTail : CString := " 0 0".toList

/-- The line as the kernel prints it. -/
def MountLine.text (line : MountLine) : CString := line.front lineTail

/-- The table as the kernel prints it. -/
def mountTable (lines : List MountLine) : List Char := lines.flatMap fun line => line.text ++ ['\n']

/-! ## The lookup -/

/-- The entry with the four fields of a line. -/
def MountLine.entry (line : MountLine) (tail : CString) : StorageMountEntry :=
  ⟨line.device, some line.mountpoint, some line.type, some (line.options ++ tail)⟩

/-- It is found exactly if some line has the mount point as its second field, and the first
such line is the one whose fields are returned, the fourth with `tail` behind it. -/
structure Exact (active fuseMountpoint : Option CString) (lines : List MountLine)
    (mountpoint tail : CString) : Prop where
  found : (dirGetMountEntry active fuseMountpoint (some (mountTable lines)) (some mountpoint)).isSome =
    true ↔ ∃ line ∈ lines, line.mountpoint = mountpoint
  fields : ∀ line, lines.find? (fun line => line.mountpoint = mountpoint) = some line →
    dirGetMountEntry active fuseMountpoint (some (mountTable lines)) (some mountpoint) =
      some (line.entry tail)

/-- The pattern occurs in what is read of the line. -/
def MountLine.mentions (line : MountLine) (mountpoint : CString) : Bool :=
  strstr (cut line.text) (mountPattern mountpoint)

/-- The first line that has the mount point as its second field, or mentions it. -/
def firstNamed (lines : List MountLine) (mountpoint : CString) : Option MountLine :=
  lines.find? fun line => line.mentions mountpoint || line.mountpoint = mountpoint

section Lookup

variable {active fuseMountpoint : Option CString} {lines front back : List MountLine}
  {line other : MountLine} {mountpoint pattern data tail s t field : CString}

/-- `strstr` finds a pattern that is in the text. -/
theorem strstr_iff : strstr data pattern = true ↔ pattern <:+: data := by
  unfold strstr
  cases h : data.dropInfix? pattern with
  | none => exact iff_of_false Bool.false_ne_true (Strstr.dropInfix_eq_none.mp h)
  | some cut =>
    refine iff_of_true rfl (by_contra fun hnot => ?_)
    rw [Strstr.dropInfix_eq_none.mpr hnot] at h
    cases h

/-! ### Fields -/

/-- A field ends at the first blank. -/
theorem splitBlank_append (hfield : ' ' ∉ field) (t : CString) :
    splitBlank (field ++ ' ' :: t) = some (field, t) := by
  have hall : ∀ c ∈ field, decide (c ≠ ' ') = true := fun c hc =>
    decide_eq_true fun heq => hfield (heq ▸ hc)
  unfold splitBlank
  rw [if_pos (by simp), List.takeWhile_append_of_pos hall, List.dropWhile_append_of_pos hall]
  simp

/-- Where a text is split. -/
theorem splitBlank_eq_some (h : splitBlank s = some (field, t)) :
    s = field ++ ' ' :: t := by
  unfold splitBlank at h
  split at h
  next hmem =>
    obtain ⟨rfl, rfl⟩ := Prod.mk.inj (Option.some.inj h)
    obtain ⟨front, rest, rfl, hfront⟩ := List.eq_append_cons_of_mem hmem
    have hall : ∀ c ∈ front, decide (c ≠ ' ') = true := fun c hc =>
      decide_eq_true fun heq => hfront (heq ▸ hc)
    rw [List.takeWhile_append_of_pos hall, List.dropWhile_append_of_pos hall]
    simp
  next => cases h

/-- An entry with all fields says what the line is. -/
theorem mountEntry_eq_iff (line : MountLine) (tail : CString) :
    mountEntry data = line.entry tail ↔ data = line.front tail := by
  constructor
  · intro h
    unfold mountEntry MountLine.entry at h
    split at h
    · simp at h
    next device rest hdevice =>
      split at h
      · simp at h
      next mountpoint rest' hmountpoint =>
        split at h
        · simp at h
        next type options htype =>
          simp only [StorageMountEntry.mk.injEq, Option.some.injEq] at h
          obtain ⟨rfl, rfl, rfl, rfl⟩ := h
          rw [splitBlank_eq_some hdevice, splitBlank_eq_some hmountpoint, splitBlank_eq_some htype]
          rfl
  · rintro rfl
    unfold mountEntry MountLine.front
    simp only [splitBlank_append line.device_isField.1, splitBlank_append line.mountpoint_isField.1,
      splitBlank_append line.type_isField.1]
    rfl

/-- The text in front of the first blank, and behind it. -/
theorem append_blank_inj (hs : ' ' ∉ s) (ht : ' ' ∉ t) {s' t' : CString}
    (h : s ++ ' ' :: s' = t ++ ' ' :: t') : s = t ∧ s' = t' := by
  have hsplit := congrArg splitBlank h
  rw [splitBlank_append hs, splitBlank_append ht] at hsplit
  exact Prod.mk.inj (Option.some.inj hsplit)

/-! ### Lines -/

theorem text_eq (line : MountLine) : line.text = line.front [] ++ lineTail := by
  unfold MountLine.text MountLine.front
  simp

/-- A part of the line, as far as it goes. -/
theorem front_prefix_text (line : MountLine) (htail : tail <+: lineTail) : line.front tail <+: line.text := by
  obtain ⟨rest, hrest⟩ := htail
  refine ⟨rest, ?_⟩
  unfold MountLine.text MountLine.front
  rw [← hrest]
  simp

theorem notMem_text (line : MountLine) {c : Char} (hc : c ≠ ' ' ∧ c ≠ '0')
    (hfield : c ∉ line.device ∧ c ∉ line.mountpoint ∧ c ∉ line.type ∧ c ∉ line.options) :
    c ∉ line.text := by
  unfold MountLine.text MountLine.front lineTail
  simp [hc.1, hc.2, hfield.1, hfield.2.1, hfield.2.2.1, hfield.2.2.2]

theorem newline_notMem_text (line : MountLine) : '\n' ∉ line.text :=
  notMem_text line (by decide) ⟨line.device_isField.2.1, line.mountpoint_isField.2.1,
    line.type_isField.2.1, line.options_isField.2.1⟩

theorem nul_notMem_text (line : MountLine) : '\x00' ∉ line.text :=
  notMem_text line (by decide) ⟨line.device_isField.2.2, line.mountpoint_isField.2.2,
    line.type_isField.2.2, line.options_isField.2.2⟩

theorem cut_cut (s : CString) : cut (cut s) = cut s := by
  unfold cut
  rw [List.take_take, Nat.min_self]

/-- A pattern begins with a blank. -/
theorem mountPattern_ne_nil (mountpoint : CString) : mountPattern mountpoint ≠ [] := List.cons_ne_nil _ _

/-- One character goes into the buffer as long as there is room. -/
theorem push_eq (data : CString) (ch : Char) :
    (if (cut data).length < pathMax - 1 then cut data ++ [ch] else cut data) = cut (data ++ [ch]) := by
  unfold cut
  rw [List.length_take, List.take_append]
  split
  next hlt =>
    have hroom : [ch].length ≤ pathMax - 1 - data.length := by
      rw [List.length_singleton]
      omega
    rw [List.take_of_length_le hroom]
  next hge =>
    have hsub : pathMax - 1 - data.length = 0 := by omega
    rw [hsub, List.take_zero, List.append_nil]

/-- The loop over one line. -/
theorem mountLoop_line (pattern data : CString) (hnewline : '\n' ∉ s) (hnul : '\x00' ∉ data ++ s) (file : List Char) :
    mountLoop pattern (cut data) (s ++ '\n' :: file) =
      if strstr (cut (data ++ s)) pattern then some (cut (data ++ s))
      else mountLoop pattern [] file := by
  induction s generalizing data with
  | nil =>
    have hfree : '\x00' ∉ cut data := fun hmem => hnul (by simpa using List.mem_of_mem_take hmem)
    rw [List.nil_append, mountLoop, if_pos rfl, cstring_of_noNul hfree, List.append_nil]
  | cons ch s ih =>
    simp only [List.mem_cons, not_or] at hnewline
    rw [List.cons_append, mountLoop, if_neg (Ne.symm hnewline.1), push_eq,
      ih _ hnewline.2 (by simpa using hnul), List.append_assoc, List.singleton_append]

/-- The first line that mentions the mount point is taken. -/
theorem mountLoop_table (lines : List MountLine) (mountpoint : CString) :
    mountLoop (mountPattern mountpoint) [] (mountTable lines) =
      (lines.find? fun line => line.mentions mountpoint).map fun line => cut line.text := by
  induction lines with
  | nil =>
    show (if strstr (cstring []) (mountPattern mountpoint) then _ else none) = none
    rw [if_neg]
    intro h
    exact mountPattern_ne_nil mountpoint (List.infix_nil.mp (strstr_iff.mp h))
  | cons line lines ih =>
    have hloop := mountLoop_line (mountPattern mountpoint) [] (newline_notMem_text line)
      (nul_notMem_text line) (mountTable lines)
    rw [List.nil_append, ih] at hloop
    have hfile : mountTable (line :: lines) = line.text ++ '\n' :: mountTable lines := by
      unfold mountTable
      simp
    rw [hfile]
    refine hloop.trans ?_
    rw [List.find?_cons, MountLine.mentions]
    cases strstr (cut line.text) (mountPattern mountpoint) <;> rfl

/-- Unless it is the active storage. -/
theorem dirGetMountEntry_eq (hactive : active ≠ some mountpoint) (fuseMountpoint : Option CString)
    (lines : List MountLine) :
    dirGetMountEntry active fuseMountpoint (some (mountTable lines)) (some mountpoint) =
      (lines.find? fun line => line.mentions mountpoint).map fun line =>
        mountEntry (cut line.text) := by
  simp only [dirGetMountEntry, Option.bind_eq_bind, Option.bind_some, if_neg hactive, mountLoop_table]
  cases lines.find? fun line => line.mentions mountpoint with
  | none => rfl
  | some line =>
    show some (mountEntry (cut (cut line.text))) = some (mountEntry (cut line.text))
    rw [cut_cut]

/-! ### The first line that counts -/

/-- A line whose second field is read whole mentions it. -/
theorem mentions_of_front (tail : CString) (hmountpoint : line.mountpoint = mountpoint)
    (hcut : line.front tail <+: cut line.text) : line.mentions mountpoint = true := by
  rw [MountLine.mentions, strstr_iff]
  have hwhole : ' ' :: (mountpoint ++ [' ']) <:+: line.front tail := by
    refine ⟨line.device, line.type ++ ' ' :: (line.options ++ tail), ?_⟩
    unfold MountLine.front
    rw [hmountpoint]
    simp
  exact ((List.take_prefix _ _).isInfix.trans hwhole).trans hcut.isInfix

/-- The line that is read says that its second field is another one. -/
theorem mountpoint_of_cut_eq (h : cut other.text = line.front tail) :
    other.mountpoint = line.mountpoint := by
  have hprefix : line.front tail <+: other.text := by
    rw [← h]
    exact List.take_prefix _ _
  obtain ⟨rest, hrest⟩ := hprefix
  have hsame : line.device ++ ' ' :: (line.mountpoint ++ ' ' ::
      (line.type ++ ' ' :: (line.options ++ tail) ++ rest)) = other.text := by
    rw [← hrest]
    unfold MountLine.front
    simp
  obtain ⟨-, hbehind⟩ := append_blank_inj line.device_isField.1 other.device_isField.1 hsame
  exact (append_blank_inj line.mountpoint_isField.1 other.mountpoint_isField.1 hbehind).1.symm

/-- The line that is found is one of the mount point. -/
theorem mountpoint_of_find
    (h : lines.find? (fun line => line.mountpoint = mountpoint) = some line) :
    line.mountpoint = mountpoint := by
  simpa using List.find?_some h

/-- Nothing is in front of a line that satisfies `p`. -/
theorem find?_behind (line : MountLine) (back : List MountLine) {p : MountLine → Bool}
    (hfront : ∀ other ∈ front, p other = false) :
    (front ++ line :: back).find? p = if p line then some line else back.find? p := by
  rw [List.find?_append, List.find?_eq_none.mpr fun other ho => by simp [hfront other ho],
    Option.none_or, List.find?_cons]
  cases p line <;> rfl

/-- No line counts: nothing is found, and nothing is there. -/
theorem exact_of_none (hactive : active ≠ some mountpoint) (hfirst : firstNamed lines mountpoint = none) :
    Exact active fuseMountpoint lines mountpoint tail := by
  have hnone := List.find?_eq_none.mp hfirst
  have hmentions : lines.find? (fun line => line.mentions mountpoint) = none :=
    List.find?_eq_none.mpr fun line hline hmention => hnone line hline (by simp [hmention])
  have hcall := dirGetMountEntry_eq hactive fuseMountpoint lines
  rw [hmentions] at hcall
  constructor
  · rw [hcall]
    refine iff_of_false Bool.false_ne_true ?_
    rintro ⟨line, hline, heq⟩
    exact hnone line hline (by simp [heq])
  · intro line hline
    have heq := mountpoint_of_find hline
    exact absurd (by simp [heq]) (hnone line (List.mem_of_find?_eq_some hline))

/-- The first line that counts has the mount point. -/
theorem exact_iff_named (hactive : active ≠ some mountpoint) (htail : tail <+: lineTail)
    (hmentions : ∀ other ∈ front, other.mentions mountpoint = false)
    (hsecond : ∀ other ∈ front, decide (other.mountpoint = mountpoint) = false)
    (hmountpoint : line.mountpoint = mountpoint) :
    Exact active fuseMountpoint (front ++ line :: back) mountpoint tail ↔
      cut line.text = line.front tail := by
  have hcall := dirGetMountEntry_eq hactive fuseMountpoint (front ++ line :: back)
  rw [find?_behind line back (p := fun line => line.mentions mountpoint) hmentions] at hcall
  have hnamed := find?_behind line back (p := fun line => line.mountpoint = mountpoint) hsecond
  rw [if_pos (decide_eq_true hmountpoint)] at hnamed
  constructor
  · intro h
    have hfields := h.fields line hnamed
    rw [hcall] at hfields
    split at hfields
    · exact (mountEntry_eq_iff line tail).mp (Option.some.inj hfields)
    next hmention =>
      -- a later line with the same text would not be the first to mention it
      obtain ⟨other, -, hentry⟩ := Option.map_eq_some_iff.mp hfields
      have hsame := (mountEntry_eq_iff line tail).mp hentry
      refine absurd (mentions_of_front tail hmountpoint ?_) hmention
      refine List.prefix_of_prefix_length_le (front_prefix_text line htail) (List.take_prefix _ _) ?_
      rw [← hsame, cut, cut, List.length_take, List.length_take]
      have hle := (front_prefix_text line htail).length_le
      rw [← hsame, cut, List.length_take] at hle
      omega
  · intro hcut
    have hmention := mentions_of_front tail hmountpoint (by rw [hcut])
    rw [if_pos hmention] at hcall
    constructor
    · rw [hcall]
      exact iff_of_true rfl ⟨line, by simp, hmountpoint⟩
    · intro l hl
      rw [hnamed] at hl
      obtain rfl := Option.some.inj hl
      rw [hcall]
      exact congrArg some ((mountEntry_eq_iff _ tail).mpr hcut)

/-- The first line that counts only mentions the mount point, in another field or as the
beginning of one. -/
theorem not_exact_of_mentioned (hactive : active ≠ some mountpoint)
    (hmentions : ∀ other ∈ front, other.mentions mountpoint = false)
    (hmention : line.mentions mountpoint = true) (hmountpoint : line.mountpoint ≠ mountpoint) :
    ¬ Exact active fuseMountpoint (front ++ line :: back) mountpoint tail := by
  intro h
  have hcall := dirGetMountEntry_eq hactive fuseMountpoint (front ++ line :: back)
  rw [find?_behind line back (p := fun line => line.mentions mountpoint) hmentions, if_pos hmention] at hcall
  obtain ⟨l, hl, heq⟩ := h.found.mp (by rw [hcall]; rfl)
  obtain ⟨first, hfind⟩ := Option.isSome_iff_exists.mp
    (List.find?_isSome.mpr ⟨l, hl, decide_eq_true heq⟩ :
      ((front ++ line :: back).find? fun line => line.mountpoint = mountpoint).isSome = true)
  have hfields := h.fields first hfind
  rw [hcall] at hfields
  have hcut := (mountEntry_eq_iff first tail).mp (Option.some.inj hfields)
  exact hmountpoint ((mountpoint_of_cut_eq hcut).trans (mountpoint_of_find hfind))

/-- The lookup is exact if the first line that counts has the mount point, and is read up to
the end of its fourth field and the tail. -/
theorem exact_iff_first (hactive : active ≠ some mountpoint) (htail : tail <+: lineTail) :
    Exact active fuseMountpoint lines mountpoint tail ↔
      ∀ line, firstNamed lines mountpoint = some line →
        line.mountpoint = mountpoint ∧ cut line.text = line.front tail := by
  cases hfirst : firstNamed lines mountpoint with
  | none => exact iff_of_true (exact_of_none hactive hfirst) fun line hline => by cases hline
  | some line =>
    obtain ⟨hline, front, back, rfl, hfront⟩ := List.find?_eq_some_iff_append.mp hfirst
    simp only [Bool.not_eq_true', Bool.or_eq_false_iff] at hfront
    simp only [Option.some.injEq, forall_eq']
    by_cases hmountpoint : line.mountpoint = mountpoint
    · rw [exact_iff_named hactive htail (fun other ho => (hfront other ho).1)
        (fun other ho => (hfront other ho).2) hmountpoint]
      exact (and_iff_right hmountpoint).symm
    · have hmention : line.mentions mountpoint = true := by
        simpa [hmountpoint] using hline
      exact iff_of_false (not_exact_of_mentioned hactive (fun other ho => (hfront other ho).1) hmention
        hmountpoint) fun h => hmountpoint h.1

/-- What is read is the whole line. -/
theorem cut_eq_text : cut line.text = line.front lineTail ↔ line.text.length < pathMax := by
  constructor
  · intro h
    have hlength := congrArg List.length h
    rw [cut, List.length_take] at hlength
    have htext : (line.front lineTail).length = line.text.length := rfl
    unfold pathMax at hlength ⊢
    omega
  · exact cut_of_fits

/-- The buffer ends with the fourth field. -/
theorem cut_eq_fields : cut line.text = line.front [] ↔ (line.front []).length = pathMax - 1 := by
  have htext := congrArg List.length (text_eq line)
  rw [List.length_append, show lineTail.length = 4 from rfl] at htext
  constructor
  · intro h
    have hlength := congrArg List.length h
    rw [cut, List.length_take] at hlength
    omega
  · intro h
    rw [cut, text_eq, List.take_left' h]

end Lookup

/-- A mount point that is not the active storage is looked up exactly, with the rest of the
line for the options, if the first line that has it as its second field or mentions it has
it and fits the buffer; and with the fourth field alone if the buffer ends just there. -/
theorem mountEntryExact_iff {active fuseMountpoint : Option CString} {lines : List MountLine}
    {mountpoint : CString} (hactive : active ≠ some mountpoint) :
    (Exact active fuseMountpoint lines mountpoint lineTail ↔
      ∀ line, firstNamed lines mountpoint = some line →
        line.mountpoint = mountpoint ∧ line.text.length < pathMax) ∧
    (Exact active fuseMountpoint lines mountpoint [] ↔
      ∀ line, firstNamed lines mountpoint = some line →
        line.mountpoint = mountpoint ∧ (line.front []).length = pathMax - 1) := by
  constructor
  · rw [exact_iff_first hactive (List.prefix_refl _)]
    simp only [cut_eq_text]
  · rw [exact_iff_first hactive (List.nil_prefix)]
    simp only [cut_eq_fields]

def rootLine : MountLine where
  device := "rootfs".toList
  mountpoint := "/".toList
  type := "rootfs".toList
  options := "ro".toList
  device_isField := by unfold IsField; decide
  mountpoint_isField := by unfold IsField; decide
  type_isField := by unfold IsField; decide
  options_isField := by unfold IsField; decide

/-- A mount point below `/data`. -/
def mediaLine : MountLine where
  device := "/dev/fuse".toList
  mountpoint := "/data/media".toList
  type := "fuse".toList
  options := "rw".toList
  device_isField := by unfold IsField; decide
  mountpoint_isField := by unfold IsField; decide
  type_isField := by unfold IsField; decide
  options_isField := by unfold IsField; decide

def dataLine : MountLine where
  device := "/dev/sda".toList
  mountpoint := "/data".toList
  type := "ext4".toList
  options := "rw".toList
  device_isField := by unfold IsField; decide
  mountpoint_isField := by unfold IsField; decide
  type_isField := by unfold IsField; decide
  options_isField := by unfold IsField; decide

/-- `/data` is found behind two other lines, with ` 0 0` behind its options. -/
theorem exact_data : Exact none none [rootLine, mediaLine, dataLine] "/data".toList lineTail := by
  refine (mountEntryExact_iff (Option.some_ne_none _).symm).1.mpr fun line hline => ?_
  unfold firstNamed at hline
  rw [List.find?_cons_of_neg (by decide), List.find?_cons_of_neg (by decide)] at hline
  obtain rfl := List.mem_singleton.mp (List.mem_of_find?_eq_some hline)
  exact ⟨rfl, by decide⟩

/-- A mount point of 63 characters. -/
def longLine : MountLine where
  device := "tmpfs".toList
  mountpoint := '/' :: List.replicate 62 'a'
  type := "tmpfs".toList
  options := "ro".toList
  device_isField := by unfold IsField; decide
  mountpoint_isField := by unfold IsField; decide
  type_isField := by unfold IsField; decide
  options_isField := by unfold IsField; decide

/-- Its first 62 characters are found too. -/
theorem exact_fails_long :
    ¬ ∀ (lines : List MountLine) (mountpoint : CString), Exact none none lines mountpoint lineTail := by
  intro h
  have hpattern : mountPattern ('/' :: List.replicate 61 'a') = ' ' :: '/' :: List.replicate 61 'a' := by
    decide
  have hmentions : longLine.mentions ('/' :: List.replicate 61 'a') = true := by
    rw [MountLine.mentions, strstr_iff, hpattern, cut_of_fits (by decide)]
    exact ⟨"tmpfs".toList, 'a' :: " tmpfs ro 0 0".toList, by decide⟩
  have hfirst : firstNamed [longLine] ('/' :: List.replicate 61 'a') = some longLine := by
    rw [firstNamed, List.find?_cons, hmentions]
    rfl
  have hexact := (exact_iff_first (Option.some_ne_none _).symm (List.prefix_refl _)).mp
    (h [longLine] ('/' :: List.replicate 61 'a')) longLine hfirst
  exact absurd (congrArg List.length hexact.1) (by decide)

end AndroidLearn.Dir
