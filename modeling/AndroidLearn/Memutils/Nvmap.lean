import AndroidLearn.Lib.KeyedVector
import AndroidLearn.Memutils.Smaps

/-!
# Reading the allocations of `nvmap`

`getNVProcessGraphicsMemory` of `MemoryMeasureHelper.cpp` reads the allocations of all
clients, section by section. It keeps the sizes of the process' own allocations and of
those of surfaceflinger by their handles, and subtracts from the total of the process what
surfaceflinger has too. It stops at the first section behind those it needs, a section of
surfaceflinger and the one of the process.

Then comes the text as the driver writes it, and what the loop makes of it. A section is a
client with its allocations; `sscanf` is that of `Lib.Scanf`, and the map of the sizes
that of `Lib.KeyedVector`. The file opens and is read whole, and its lines fit the buffer.
A `long` is an `Int` here; what a device can allocate is far from its bounds.

`getNVProcessGraphicsMemory_eq` is what the other module goes on with: on a text of the
driver the function is a loop over the sections.
-/

namespace AndroidLearn.Memutils

open Conf

/-! ## The reader -/

/-- `CheckFlagEnum` -/
inductive CheckFlag
  | targetPid | surfaceflinger | others
  deriving DecidableEq, Repr

/-- What the loop of `getNVProcessGraphicsMemory` keeps from one line to the next. -/
structure NvReader where
  surfaceflingerMemMap : KeyedVector Int Int
  procMemMap : KeyedVector Int Int
  surfaceFound : Bool
  targetPidFound : Bool
  curFlag : CheckFlag
  procGraphicsMem : Int

/-- The first field is an integer. -/
def startsWithInt (line : CString) : Bool := (Scanf.scan [.assign (.int 10)] line).count = 1

/-- `"%d %ld %lx %lx"` -/
def allocationFormat : List Scanf.Directive :=
  [.assign (.int 10), .space, .assign (.int 10), .space, .assign (.int 16), .space,
    .assign (.int 16)]

/-- The handle and the size, if `sscanf` returns 4. -/
def readAllocation (line : CString) : Option (Int × Int) :=
  match (Scanf.scan allocationFormat line).values with
  | [.int _, .int size, .int _, .int handle] => some (handle, size)
  | _ => none

/-- `"%s %s %d %ld"` -/
def clientFormat : List Scanf.Directive :=
  [.assign .word, .space, .assign .word, .space, .assign (.int 10), .space, .assign (.int 10)]

/-- `procName`, `getPid` and `size`, if `sscanf` returns 4. -/
def readClient (line : CString) : Option (CString × Int × Int) :=
  match (Scanf.scan clientFormat line).values with
  | [.text _, .text procName, .int getPid, .int size] => some (procName, getPid, size)
  | _ => none

/-- A line that begins with an integer. -/
def NvReader.allocation (r : NvReader) (line : CString) : NvReader :=
  match r.curFlag, readAllocation line with
  | .surfaceflinger, some (handle, size) =>
    { r with surfaceflingerMemMap := r.surfaceflingerMemMap.add handle size }
  | .targetPid, some (handle, size) => { r with procMemMap := r.procMemMap.add handle size }
  | _, _ => r

/-- The client whose handles are shared. -/
def surfaceflingerName : CString := "surfaceflinger".toList

/-- Another line, which may begin a section. -/
def NvReader.client (pid : Int) (r : NvReader) (line : CString) : NvReader :=
  match readClient line with
  | none => r
  | some (procName, getPid, size) =>
    if procName = surfaceflingerName then
      { r with surfaceFound := true, curFlag := .surfaceflinger }
    else if getPid = pid then
      { r with targetPidFound := true, curFlag := .targetPid, procGraphicsMem := size }
    else { r with curFlag := .others }

/-- "get all need info" -/
def NvReader.done (r : NvReader) : Prop := r.surfaceFound = true ∧ r.targetPidFound = true

instance (r : NvReader) : Decidable r.done := inferInstanceAs (Decidable (_ ∧ _))

/-- The loop over the lines. -/
def NvReader.run (pid : Int) (r : NvReader) : List CString → NvReader
  | [] => r
  | line :: lines =>
    if line = [] then r.run pid lines
    else if startsWithInt line then (r.allocation line).run pid lines
    else if r.done then r
    else (r.client pid line).run pid lines

/-- A handle of surfaceflinger is looked for in the process' own vector. -/
def addShared (procMemMap : KeyedVector Int Int) (sum handle : Int) : Int :=
  match procMemMap.lookup handle with
  | some size => sum + size
  | none => sum

/-- What is computed when the file has been read. -/
def NvReader.result (r : NvReader) : Int :=
  let procGraphicsMemInSurfaceflinger :=
    r.surfaceflingerMemMap.keys.foldl (addShared r.procMemMap) 0
  -- `<< 10`
  (r.procGraphicsMem - procGraphicsMemInSurfaceflinger) * 2 ^ 10

/-- Nothing was read yet. -/
def NvReader.init : NvReader := ⟨.empty, .empty, false, false, .others, 0⟩

/-- The whole function; without the file it returns 0. -/
def getNVProcessGraphicsMemory (pid : Int) : Option CString → Int
  | none => 0
  | some text => (NvReader.init.run pid (readLines [] text)).result

/-! ## The text

`"%-18s %-18s %8u %10u %8x %8x\n"`, with the columns that a line has -/

/-- `%-*s` -/
def padRight (width : Nat) (s : CString) : CString := s ++ List.replicate (width - s.length) ' '

/-- `%*s` -/
def padLeft (width : Nat) (s : CString) : CString := List.replicate (width - s.length) ' ' ++ s

/-- A line of an allocation, field by field as it is printed. -/
structure Allocation where
  pidText : CString
  sizeText : CString
  flagText : CString
  handleText : CString
  pid_decimal : IsNumber 10 pidText
  size_decimal : IsNumber 10 sizeText
  flag_hex : IsNumber 16 flagText
  handle_hex : IsNumber 16 handleText
  short : pidText.length ≤ 10 ∧ sizeText.length ≤ 10 ∧ flagText.length ≤ 10 ∧ handleText.length ≤ 10

/-- The size that the text says. -/
def Allocation.size (a : Allocation) : Nat := Scanf.ofDigits 10 a.sizeText

/-- The handle that the text says, in hexadecimal digits. -/
def Allocation.handle (a : Allocation) : Nat := Scanf.ofDigits 16 a.handleText

/-- The line about an allocation. -/
def Allocation.text (a : Allocation) : CString :=
  padRight 18 [] ++ ' ' :: (padRight 18 [] ++ ' ' :: (padLeft 8 a.pidText ++ ' ' ::
    (padLeft 10 a.sizeText ++ ' ' :: (padLeft 8 a.flagText ++ ' ' :: padLeft 8 a.handleText))))

/-- A line that is no allocation and begins no section: the titles of the columns, a blank
line, the total. -/
structure PlainLine where
  text : CString
  newline_free : '\n' ∉ text
  short : text.length < 255
  no_int : startsWithInt (text ++ ['\n']) = false
  no_client : readClient (text ++ ['\n']) = none
  /-- what `sscanf` finds for `type` and `procName` fits them -/
  words_short : ∀ t, .text t ∈ (Scanf.scan clientFormat (text ++ ['\n'])).values → t.length ≤ 18

/-- A section. -/
structure Client where
  type : CString
  procName : CString
  pidText : CString
  totalText : CString
  allocations : List Allocation
  others : List PlainLine
  type_word : IsWord type
  procName_word : IsWord procName
  pid_decimal : IsNumber 10 pidText
  total_decimal : IsNumber 10 totalText
  /-- the first column is not taken for an integer -/
  type_head : ∀ c ∈ type.head?, Scanf.isDigit 10 c = false ∧ c ≠ '-' ∧ c ≠ '+'
  short : type.length ≤ 18 ∧ procName.length ≤ 18 ∧ pidText.length ≤ 10 ∧ totalText.length ≤ 10

/-- The number of the process. -/
def Client.pid (c : Client) : Nat := Scanf.ofDigits 10 c.pidText

/-- What the driver says that the client has, all in all. -/
def Client.total (c : Client) : Nat := Scanf.ofDigits 10 c.totalText

/-- Is it the client whose handles are shared? -/
def Client.isSurfaceflinger (c : Client) : Bool := c.procName = surfaceflingerName

/-- The line about a client. -/
def Client.header (c : Client) : CString :=
  padRight 18 c.type ++ ' ' :: (padRight 18 c.procName ++ ' ' :: (padLeft 8 c.pidText ++ ' ' ::
    padLeft 10 c.totalText))

/-- A section: the client, and its allocations with the lines that are none. -/
def Client.lines (c : Client) : List CString :=
  c.header :: (c.allocations.map Allocation.text ++ c.others.map PlainLine.text)

/-- The whole text, with the titles in front. -/
def nvmap (titles : List PlainLine) (clients : List Client) : CString :=
  (titles.map PlainLine.text ++ clients.flatMap Client.lines).flatMap (· ++ ['\n'])

/-! ## What is read of a line -/

section Lines

variable {c : Client} {a : Allocation} {s rest : CString}

/-- What stands in front of a column that is padded on the left. -/
def gap (n : Nat) : CString := ' ' :: List.replicate n ' '

/-- The same behind one that is padded on the right. -/
def wideGap (m n : Nat) : CString := List.replicate m ' ' ++ gap n

theorem gap_blank (n : Nat) : ∀ c ∈ gap n, Scanf.isSpace c = true := by
  refine List.forall_mem_cons.mpr ⟨rfl, fun c hc => ?_⟩
  rw [List.eq_of_mem_replicate hc]
  rfl

theorem wideGap_blank (m n : Nat) : ∀ c ∈ wideGap m n, Scanf.isSpace c = true := by
  refine List.forall_mem_append.mpr ⟨fun c hc => ?_, gap_blank n⟩
  rw [List.eq_of_mem_replicate hc]
  rfl

/-- Behind a word or a number there is a blank. -/
theorem blank_behind {blanks : CString} (hblanks : ∀ c ∈ blanks, Scanf.isSpace c = true)
    (hne : blanks ≠ []) (rest : CString) :
    ∀ c ∈ (blanks ++ rest).head?, Scanf.isSpace c = true := by
  obtain ⟨b, bs, rfl⟩ := List.exists_cons_of_ne_nil hne
  intro c hc
  obtain rfl : b = c := Option.some.inj hc
  exact hblanks b List.mem_cons_self

/-- A number ends at the blank behind it. -/
theorem number_behind {blanks : CString} (hblanks : ∀ c ∈ blanks, Scanf.isSpace c = true)
    (hne : blanks ≠ []) (rest : CString) :
    ∀ c ∈ (blanks ++ rest).head?, Scanf.isSpace c = true ∨ c = '-' := fun c hc =>
  .inl (blank_behind hblanks hne rest c hc)

theorem wideGap_ne_nil (m n : Nat) : wideGap m n ≠ [] :=
  List.append_ne_nil_of_right_ne_nil _ (List.cons_ne_nil _ _)

theorem newline_behind : ∀ c ∈ ['\n'].head?, Scanf.isSpace c = true ∨ c = '-' := by
  intro c hc
  obtain rfl : '\n' = c := Option.some.inj hc
  exact .inl rfl

/-- The line, with its blanks in the places where they are read. -/
theorem Client.header_eq (c : Client) : c.header ++ ['\n'] =
    [] ++ (c.type ++ (wideGap (18 - c.type.length) 0 ++ (c.procName ++
      (wideGap (18 - c.procName.length) (8 - c.pidText.length) ++ (c.pidText ++
        (gap (10 - c.totalText.length) ++ (c.totalText ++ ['\n']))))))) := by
  unfold Client.header padRight padLeft wideGap gap
  simp only [List.append_assoc, List.cons_append, List.nil_append, List.replicate_zero]

/-- The line about a client is read as it was printed. -/
theorem readClient_header (c : Client) :
    readClient (c.header ++ ['\n']) = some (c.procName, (c.pid : Int), (c.total : Int)) := by
  have htype := Scanf.read_word (List.forall_mem_nil _) c.type_word.no_space c.type_word.ne_nil
    (blank_behind (wideGap_blank (18 - c.type.length) 0) (wideGap_ne_nil _ _) (c.procName ++
      (wideGap (18 - c.procName.length) (8 - c.pidText.length) ++ (c.pidText ++
        (gap (10 - c.totalText.length) ++ (c.totalText ++ ['\n']))))))
  have hvalues : (Scanf.scan clientFormat (c.header ++ ['\n'])).values =
      [.text c.type, .text c.procName, .int c.pid, .int c.total] := by
    rw [c.header_eq, clientFormat, Scanf.scan_assign htype,
      Scanf.scan_space_word (wideGap_blank _ _) c.procName_word.no_space c.procName_word.ne_nil
        (blank_behind (wideGap_blank _ _) (wideGap_ne_nil _ _) _),
      Scanf.scan_space_int (wideGap_blank _ _) c.pid_decimal.digits c.pid_decimal.ne_nil
        (number_behind (gap_blank _) (List.cons_ne_nil _ _) _),
      Scanf.scan_space_int (gap_blank _) c.total_decimal.digits c.total_decimal.ne_nil
        newline_behind]
    rfl
  unfold readClient
  rw [hvalues]

/-- It is not taken for one about an allocation. -/
theorem startsWithInt_header (c : Client) : startsWithInt (c.header ++ ['\n']) = false := by
  rw [c.header_eq]
  obtain ⟨d, ds, htype⟩ := List.exists_cons_of_ne_nil c.type_word.ne_nil
  have hd := c.type_head d (by rw [htype]; rfl)
  have hspace : Scanf.isSpace d = false := c.type_word.no_space d (by rw [htype]; exact List.mem_cons_self)
  have hzero : d ≠ '0' := by
    rintro rfl
    exact absurd hd.1 (by decide)
  have hdigits (s : CString) : (d :: s).takeWhile (Scanf.isDigit 10) = [] :=
    List.takeWhile_cons_of_neg (by rw [hd.1]; exact Bool.false_ne_true)
  unfold startsWithInt
  rw [htype, List.nil_append, List.cons_append, Scanf.scan,
    Scanf.read_int_cons hspace hd.2.1 hd.2.2 hzero, if_pos (hdigits _)]
  rfl

/-- The line about an allocation, with its blanks. -/
theorem Allocation.text_eq (a : Allocation) : a.text ++ ['\n'] =
    (wideGap 18 18 ++ gap (8 - a.pidText.length)) ++ (a.pidText ++
      (gap (10 - a.sizeText.length) ++ (a.sizeText ++ (gap (8 - a.flagText.length) ++
        (a.flagText ++ (gap (8 - a.handleText.length) ++ (a.handleText ++ ['\n']))))))) := by
  unfold Allocation.text padRight padLeft wideGap gap
  simp only [List.append_assoc, List.cons_append, List.nil_append, List.length_nil, Nat.sub_zero]

/-- What is read of the front of an allocation. -/
theorem read_pid (a : Allocation) (rest : CString) (n : Nat) :
    (Scanf.Conversion.int 10).read ((wideGap 18 18 ++ gap (8 - a.pidText.length)) ++ (a.pidText ++
      (gap n ++ rest))) = .ok (.int (Scanf.ofDigits 10 a.pidText), gap n ++ rest) :=
  Scanf.read_int (List.forall_mem_append.mpr ⟨wideGap_blank _ _, gap_blank _⟩)
    a.pid_decimal.digits a.pid_decimal.ne_nil (number_behind (gap_blank n) (List.cons_ne_nil _ _) rest)

/-- It is read as it was printed. -/
theorem readAllocation_text (a : Allocation) :
    readAllocation (a.text ++ ['\n']) = some ((a.handle : Int), (a.size : Int)) := by
  have hvalues : (Scanf.scan allocationFormat (a.text ++ ['\n'])).values =
      [.int (Scanf.ofDigits 10 a.pidText), .int a.size, .int (Scanf.ofDigits 16 a.flagText),
        .int a.handle] := by
    rw [a.text_eq, allocationFormat, Scanf.scan_assign (read_pid a _ _),
      Scanf.scan_space_int (gap_blank _) a.size_decimal.digits a.size_decimal.ne_nil
        (number_behind (gap_blank _) (List.cons_ne_nil _ _) _),
      Scanf.scan_space_int (gap_blank _) a.flag_hex.digits a.flag_hex.ne_nil
        (number_behind (gap_blank _) (List.cons_ne_nil _ _) _),
      Scanf.scan_space_int (gap_blank _) a.handle_hex.digits a.handle_hex.ne_nil newline_behind]
    rfl
  unfold readAllocation
  rw [hvalues]

/-- It is told by its first word. -/
theorem startsWithInt_text (a : Allocation) : startsWithInt (a.text ++ ['\n']) = true := by
  unfold startsWithInt
  rw [a.text_eq, Scanf.scan, read_pid]
  rfl

/-- A line that `fgets` reads at once. -/
structure FitsLine (line : CString) : Prop where
  newline_free : '\n' ∉ line
  short : line.length < 255

theorem fits_header (c : Client) : FitsLine c.header := by
  obtain ⟨htype, hname, hpid, htotal⟩ := c.short
  constructor
  · unfold Client.header padRight padLeft
    simp only [List.mem_append, List.mem_cons, newline_notMem_blanks, c.type_word.newline_free,
      c.procName_word.newline_free, c.pid_decimal.newline_free,
      c.total_decimal.newline_free, or_false]
    decide
  · unfold Client.header padRight padLeft
    simp only [List.length_append, List.length_cons, List.length_replicate]
    omega

theorem fits_text (a : Allocation) : FitsLine a.text := by
  obtain ⟨hpid, hsize, hflag, hhandle⟩ := a.short
  constructor
  · unfold Allocation.text padRight padLeft
    simp only [List.mem_append, List.mem_cons, newline_notMem_blanks, List.not_mem_nil,
      a.pid_decimal.newline_free, a.size_decimal.newline_free,
      a.flag_hex.newline_free, a.handle_hex.newline_free, or_false]
    decide
  · unfold Allocation.text padRight padLeft
    simp only [List.length_append, List.length_cons, List.length_replicate, List.length_nil]
    omega

/-- Lines that fit are read whole. -/
theorem readLines_lines {lines : List CString} (h : ∀ line ∈ lines, FitsLine line) :
    readLines [] (lines.flatMap (· ++ ['\n'])) = lines.map (· ++ ['\n']) := by
  induction lines with
  | nil => rfl
  | cons line lines ih =>
    obtain ⟨hline, hlines⟩ := List.forall_mem_cons.mp h
    have hshort := readLines_short hline.newline_free
      (show ([] : CString).length + line.length < 255 by
        rw [List.length_nil, Nat.zero_add]; exact hline.short)
    rw [List.flatMap_cons, List.append_assoc, List.singleton_append, readLines_append, hshort,
      ih hlines]
    rfl

/-- All lines of the file fit. -/
theorem fits_lines (titles : List PlainLine) (clients : List Client) :
    ∀ line ∈ titles.map PlainLine.text ++ clients.flatMap Client.lines, FitsLine line := by
  have hplain (plain : List PlainLine) : ∀ line ∈ plain.map PlainLine.text, FitsLine line := by
    intro line hline
    obtain ⟨p, -, rfl⟩ := List.mem_map.mp hline
    exact ⟨p.newline_free, p.short⟩
  refine List.forall_mem_append.mpr ⟨hplain titles, fun line hline => ?_⟩
  obtain ⟨c, -, hline⟩ := List.mem_flatMap.mp hline
  rcases List.mem_cons.mp hline with rfl | hline
  · exact fits_header c
  · rcases List.mem_append.mp hline with hline | hline
    · obtain ⟨a, -, rfl⟩ := List.mem_map.mp hline
      exact fits_text a
    · exact hplain c.others line hline

end Lines

/-! ## The loop, section by section -/

section Run

variable {pid : Int} {r : NvReader} {c : Client} {rest : List CString}

/-- What the header of a section does. -/
def NvReader.enter (pid : Int) (r : NvReader) (c : Client) : NvReader :=
  if c.isSurfaceflinger then { r with surfaceFound := true, curFlag := .surfaceflinger }
  else if (c.pid : Int) = pid then
    { r with targetPidFound := true, curFlag := .targetPid, procGraphicsMem := c.total }
  else { r with curFlag := .others }

/-- The handles with their sizes. -/
def Client.entries (c : Client) : List (Int × Int) :=
  c.allocations.map fun a => ((a.handle : Int), (a.size : Int))

/-- What the allocations of a section do. -/
def NvReader.keep (r : NvReader) (entries : List (Int × Int)) : NvReader :=
  match r.curFlag with
  | .others => r
  | .surfaceflinger =>
    { r with surfaceflingerMemMap := r.surfaceflingerMemMap.addAll entries }
  | .targetPid => { r with procMemMap := r.procMemMap.addAll entries }

/-- Titles are passed over. -/
theorem run_plain (hr : ¬ r.done) (plain : List PlainLine) :
    r.run pid (plain.map (fun p => p.text ++ ['\n']) ++ rest) = r.run pid rest := by
  induction plain with
  | nil => rfl
  | cons p plain ih =>
    have hclient : r.client pid (p.text ++ ['\n']) = r := by
      unfold NvReader.client
      rw [p.no_client]
    rw [List.map_cons, List.cons_append, NvReader.run, if_neg (by simp), if_neg (by
      rw [p.no_int]
      exact Bool.false_ne_true), if_neg hr, hclient, ih]

theorem run_done (hr : r.done) {line : CString} (hint : startsWithInt line = false)
    (hne : line ≠ []) : r.run pid (line :: rest) = r := by
  rw [NvReader.run, if_neg hne, if_neg (by rw [hint]; exact Bool.false_ne_true), if_pos hr]

/-- A client is entered. -/
theorem run_header (hr : ¬ r.done) :
    r.run pid ((c.header ++ ['\n']) :: rest) = (r.enter pid c).run pid rest := by
  have hclient : r.client pid (c.header ++ ['\n']) = r.enter pid c := by
    unfold NvReader.client NvReader.enter Client.isSurfaceflinger
    rw [readClient_header]
    simp only [decide_eq_true_eq]
  rw [NvReader.run, if_neg (by simp), if_neg (by
    rw [startsWithInt_header]
    exact Bool.false_ne_true), if_neg hr, hclient]

theorem run_allocations (allocations : List Allocation) :
    r.run pid (allocations.map (fun a => a.text ++ ['\n']) ++ rest) =
      (r.keep (allocations.map fun a => ((a.handle : Int), (a.size : Int)))).run pid rest := by
  induction allocations generalizing r with
  | nil =>
    have hkeep : r.keep [] = r := by
      cases r with
      | mk surfaceflingerMemMap procMemMap surfaceFound targetPidFound curFlag procGraphicsMem =>
        cases curFlag <;> rfl
    rw [List.map_nil, List.map_nil, hkeep]
    rfl
  | cons a allocations ih =>
    have hkeep : (r.allocation (a.text ++ ['\n'])).keep
        (allocations.map fun a => ((a.handle : Int), (a.size : Int))) =
        r.keep ((a :: allocations).map fun a => ((a.handle : Int), (a.size : Int))) := by
      unfold NvReader.allocation NvReader.keep
      rw [readAllocation_text]
      cases hflag : r.curFlag with
      | others =>
        dsimp only
        rw [hflag]
      | surfaceflinger => rfl
      | targetPid => rfl
    rw [List.map_cons, List.cons_append, NvReader.run, if_neg (by simp),
      if_pos (startsWithInt_text a), ih, hkeep]

/-- The loop over the sections. -/
def NvReader.runClients (pid : Int) (r : NvReader) : List Client → NvReader
  | [] => r
  | c :: clients => if r.done then r else ((r.enter pid c).keep c.entries).runClients pid clients

/-- All clients, one after the other. -/
theorem run_clients (clients : List Client) :
    r.run pid ((clients.flatMap Client.lines).map (· ++ ['\n'])) = r.runClients pid clients := by
  induction clients generalizing r with
  | nil => rfl
  | cons c clients ih =>
    have hlines : ((c :: clients).flatMap Client.lines).map (· ++ ['\n']) =
        (c.header ++ ['\n']) :: (c.allocations.map (fun a => a.text ++ ['\n']) ++
          (c.others.map (fun p => p.text ++ ['\n']) ++
            (clients.flatMap Client.lines).map (· ++ ['\n']))) := by
      rw [List.flatMap_cons, Client.lines]
      simp only [List.map_append, List.map_cons, List.map_map, List.cons_append, List.append_assoc]
      rfl
    rw [hlines, NvReader.runClients]
    by_cases hr : r.done
    · rw [if_pos hr, run_done hr (startsWithInt_header c) (by simp)]
    · rw [if_neg hr, run_header hr, run_allocations]
      show ((r.enter pid c).keep c.entries).run pid _ = _
      generalize (r.enter pid c).keep c.entries = next
      by_cases hnext : next.done
      · -- another line ends the loop, as the next section would
        have hstop : next.runClients pid clients = next := by
          cases clients with
          | nil => rfl
          | cons d clients => rw [NvReader.runClients, if_pos hnext]
        cases hothers : c.others with
        | nil =>
          rw [List.map_nil, List.nil_append, ih]
        | cons p others =>
          rw [List.map_cons, List.cons_append, run_done hnext p.no_int (by simp), hstop]
      · rw [run_plain hnext, ih]

/-- The result is that of a walk over the clients. -/
theorem getNVProcessGraphicsMemory_eq (pid : Int) (titles : List PlainLine) (clients : List Client) :
    getNVProcessGraphicsMemory pid (some (nvmap titles clients)) =
      (NvReader.init.runClients pid clients).result := by
  have hinit : ¬ NvReader.init.done := by decide
  have hmap : (titles.map PlainLine.text ++ clients.flatMap Client.lines).map (· ++ ['\n']) =
      titles.map (fun p => p.text ++ ['\n']) ++ (clients.flatMap Client.lines).map (· ++ ['\n']) := by
    rw [List.map_append, List.map_map]
    rfl
  unfold getNVProcessGraphicsMemory nvmap
  dsimp only
  rw [readLines_lines (fits_lines titles clients), hmap, run_plain hinit, run_clients]

theorem addAll_addAll (v : KeyedVector Int Int) (l l' : List (Int × Int)) :
    (v.addAll l).addAll l' = v.addAll (l ++ l') :=
  List.foldl_append.symm

/-- In front of the client's section those of surfaceflinger are kept. -/
theorem runClients_front {front : List Client} (hr : r.targetPidFound = false)
    (hfront : ∀ d ∈ front, (d.pid : Int) ≠ pid) (clients : List Client) :
    ∃ flag, r.runClients pid (front ++ clients) = NvReader.runClients pid
      { r with
        surfaceflingerMemMap := r.surfaceflingerMemMap.addAll
          ((front.filter Client.isSurfaceflinger).flatMap Client.entries)
        surfaceFound := r.surfaceFound || front.any Client.isSurfaceflinger
        curFlag := flag } clients := by
  induction front generalizing r with
  | nil => exact ⟨r.curFlag, by rw [List.any_nil, Bool.or_false]; rfl⟩
  | cons d front ih =>
    obtain ⟨hd, hfront⟩ := List.forall_mem_cons.mp hfront
    have hnot : ¬ r.done := fun h => by
      rw [h.2] at hr
      cases hr
    rw [List.cons_append, NvReader.runClients, if_neg hnot]
    cases hsf : d.isSurfaceflinger with
    | true =>
      have henter : r.enter pid d = { r with surfaceFound := true, curFlag := .surfaceflinger } := by
        rw [NvReader.enter, hsf, if_pos rfl]
      rw [henter]
      obtain ⟨flag, hrun⟩ := @ih ((NvReader.mk r.surfaceflingerMemMap r.procMemMap true
        r.targetPidFound .surfaceflinger r.procGraphicsMem).keep d.entries) hr hfront
      refine ⟨flag, hrun.trans ?_⟩
      rw [List.filter_cons_of_pos hsf, List.flatMap_cons, ← addAll_addAll, List.any_cons, hsf,
        Bool.true_or, Bool.or_true]
      rfl
    | false =>
      have henter : r.enter pid d = { r with curFlag := .others } := by
        rw [NvReader.enter, hsf, if_neg Bool.false_ne_true, if_neg hd]
      rw [henter]
      obtain ⟨flag, hrun⟩ := @ih { r with curFlag := .others } hr hfront
      refine ⟨flag, hrun.trans ?_⟩
      rw [List.filter_cons_of_neg (by rw [hsf]; exact Bool.false_ne_true), List.any_cons, hsf,
        Bool.false_or]

/-- Behind it, only the first of surfaceflinger is kept, if there was none. -/
theorem runClients_back {back : List Client} (hr : r.targetPidFound = true)
    (hback : ∀ d ∈ back, (d.pid : Int) ≠ pid) :
    ∃ found flag, r.runClients pid back =
      { r with
        surfaceflingerMemMap := r.surfaceflingerMemMap.addAll
          (if r.surfaceFound then []
            else (back.find? Client.isSurfaceflinger).toList.flatMap Client.entries)
        surfaceFound := found
        curFlag := flag } := by
  by_cases hfound : r.surfaceFound = true
  · refine ⟨true, r.curFlag, ?_⟩
    have hstop : r.runClients pid back = r := by
      cases back with
      | nil => rfl
      | cons d back => rw [NvReader.runClients, if_pos ⟨hfound, hr⟩]
    rw [hstop, if_pos hfound, ← hfound]
    rfl
  · rw [if_neg hfound]
    induction back generalizing r with
    | nil => exact ⟨r.surfaceFound, r.curFlag, rfl⟩
    | cons d back ih =>
      obtain ⟨hd, hback⟩ := List.forall_mem_cons.mp hback
      have hnot : ¬ r.done := fun h => hfound h.1
      rw [NvReader.runClients, if_neg hnot]
      cases hsf : d.isSurfaceflinger with
      | true =>
        have henter : r.enter pid d = { r with surfaceFound := true, curFlag := .surfaceflinger } := by
          rw [NvReader.enter, hsf, if_pos rfl]
        rw [henter, List.find?_cons_of_pos hsf]
        refine ⟨true, .surfaceflinger, ?_⟩
        have hkeep : (NvReader.mk r.surfaceflingerMemMap r.procMemMap true r.targetPidFound
            .surfaceflinger r.procGraphicsMem).keep d.entries = NvReader.mk
              (r.surfaceflingerMemMap.addAll d.entries) r.procMemMap true r.targetPidFound
                .surfaceflinger r.procGraphicsMem := rfl
        rw [hkeep]
        have hsingle : (some d).toList.flatMap Client.entries = d.entries := List.append_nil _
        rw [hsingle]
        cases back with
        | nil => rfl
        | cons e back => rw [NvReader.runClients, if_pos ⟨rfl, hr⟩]
      | false =>
        have henter : r.enter pid d = { r with curFlag := .others } := by
          rw [NvReader.enter, hsf, if_neg Bool.false_ne_true, if_neg hd]
        rw [henter, List.find?_cons_of_neg (by rw [hsf]; exact Bool.false_ne_true)]
        obtain ⟨found, flag, hrun⟩ := @ih { r with curFlag := .others } hr hback hfound
        exact ⟨found, flag, hrun⟩

end Run

end AndroidLearn.Memutils
