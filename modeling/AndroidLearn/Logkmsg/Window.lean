import AndroidLearn.Logkmsg.Capture

/-!
# The pointers of a scan

`Capture` scans a window as a list. Here it is what it is in the rounds of `thread_main`
in the two copies of `logkmsg.c`: `kbuf`, a NUL behind the bytes that were read, and
pointers that go forwards to the new text and back to the last line. A pointer that is
looked through must be at one of the bytes or at the NUL, else the scan is `outside`; what
else is in `kbuf` is of no use to it.

The sources a round may read (the kernel, the services) differ in how much room they leave
behind their bytes and in whether NULs are blanked (`Source`).

The loops that skip line ends and go back over them have a lemma each (`skip_eq`,
`back_eq`), and `findLine_eq` is the search; `scanKbuf_eq` puts them together.

Theorems: `scan_iff` says which reads keep the scan inside, for both copies and each
source, and `scan_text` that it finds what `Capture` says it does.
-/

namespace AndroidLearn.Logkmsg

open Conf Strstr

/-- `sizeof (kbuf)` -/
def kbufSize : Nat := 192000

/-- Where a round reads, in one copy of the code and in the other. -/
inductive Source
  | logkmsgHtcDk | logkmsgKlogctl
  | klogcatHtcDk | klogcatHtcDlk | klogcatLastkmsg | klogcatKlogctl

/-- The size that is given to the read. -/
def Source.room : Source → Nat
  | .klogcatLastkmsg => kbufSize
  | _ => kbufSize - 1

/-- `logkmsg` puts blanks for NULs. -/
def Source.clean : Source → Char → Char
  | .logkmsgHtcDk => blankNul
  | .logkmsgKlogctl => blankNul
  | _ => id

/-- What a read has returned. -/
structure Window (source : Source) where
  bytes : CString
  fits : bytes.length ≤ source.room

/-- What the scan of a window comes to. -/
inductive Scan
  | outside
  /-- nothing new, or nothing read; the round ends -/
  | nothing
  /-- `head`, `ptr` behind the line ends at the end, and `ptr` at the start of the last line, as
  offsets in `kbuf` -/
  | records (head trimmed line : Nat)

/-- `for (; *ptr && p (*ptr); ptr ++)`, with what is from `ptr` on. -/
def skip (p : Char → Bool) : CString → Nat → Option Nat
  | [], _ => none
  | c :: rest, ptr => if c ≠ '\x00' ∧ p c = true then skip p rest (ptr + 1) else some ptr

/-- `for (; (ptr != head) && p (*ptr); ptr --)` -/
def back (p : Char → Bool) (kbuf : CString) (head : Nat) : Nat → Option Nat
  | 0 =>
    if 0 = head then some 0
    else
      match kbuf[0]? with
      | none => none
      -- and then in front of `kbuf`
      | some c => if p c then none else some 0
  | ptr + 1 =>
    if ptr + 1 = head then some (ptr + 1)
    else
      match kbuf[ptr + 1]? with
      | none => none
      | some c => if p c then back p kbuf head ptr else some (ptr + 1)

/-- The same from any pointer: one in front of `kbuf` is not `head`, and is looked through. -/
def backFrom (p : Char → Bool) (kbuf : CString) (head : Nat) : Int → Option Nat
  | .ofNat ptr => back p kbuf head ptr
  | .negSucc _ => none

/-- From `head` on: `ptr` is at the last byte, and is taken back to the last line. -/
def findLine (kbuf : CString) (count head : Nat) : Scan :=
  let found := (backFrom isEol kbuf head ((count : Int) - 1)).bind fun trimmed =>
    (back (fun c => !isEol c) kbuf head trimmed).map fun ptr => (trimmed, ptr)
  match found with
  | none => .outside
  | some (trimmed, ptr) => .records head trimmed (if ptr ≠ head then ptr + 1 else ptr)

/-- The scan of a window, the NUL behind it, for the line `last`. -/
def scanKbuf (last window : CString) : Scan :=
  let kbuf := window ++ ['\x00']
  if last = [] then findLine kbuf window.length 0
  else
    match (kbuf.takeWhile (· ≠ '\x00')).dropInfix? last with
    | none => if window.length = 0 then .nothing else findLine kbuf window.length 0
    | some (before, _) =>
      let ptr := (skip (fun c => !isEol c) (kbuf.drop before.length) before.length).bind fun ptr =>
        skip isEol (kbuf.drop ptr) ptr
      match ptr with
      | none => .outside
      | some ptr =>
        if kbuf[ptr]? = some '\x00' then .nothing else findLine kbuf window.length ptr

/-- `kbuf [count] = 0;`, and the scan -/
def scan (source : Source) (last : CString) (w : Window source) : Scan :=
  if kbufSize ≤ w.bytes.length then .outside else scanKbuf last (w.bytes.map source.clean)

/-- The pointers of a scan are among the `count` bytes that were read. -/
def Scan.Inside (count : Nat) : Scan → Prop
  | .outside => False
  | .nothing => True
  | .records head trimmed line => head ≤ line ∧ line ≤ trimmed ∧ trimmed < count

/-! ## The pointers -/

/-- A walk ahead, up to the null byte. -/
theorem skip_eq (p : Char → Bool) {s : CString} (rest : CString) (ptr : Nat) (h : '\x00' ∉ s) :
    skip p (s ++ '\x00' :: rest) ptr = some (ptr + (s.takeWhile p).length) := by
  induction s generalizing ptr with
  | nil => rfl
  | cons c s ih =>
    obtain ⟨hc, hs⟩ := List.ne_and_not_mem_of_not_mem_cons h
    rw [List.cons_append, skip]
    cases hp : p c with
    | false =>
      rw [if_neg (by simp), List.takeWhile_cons_of_neg (by simp [hp])]
      rfl
    | true =>
      rw [if_pos ⟨hc.symm, rfl⟩, ih _ hs, List.takeWhile_cons_of_pos hp, List.length_cons]
      congr 1
      omega

/-- Going back in the text from `head` on, the pointer stays there. -/
theorem back_eq (p : Char → Bool) (front text rest : CString) {k : Nat} (hk : k < text.length) :
    back p (front ++ text ++ rest) front.length (front.length + k) =
      some (front.length + skipBack p text k) := by
  induction k with
  | zero =>
    cases front with
    | nil => rfl
    | cons c front => exact if_pos rfl
  | succ k ih =>
    have hget : (front ++ text ++ rest)[front.length + k + 1]? =
        some (text.getD (k + 1) '\x00') := by
      rw [List.append_assoc, List.getElem?_append_right (by omega),
        List.getElem?_append_left (by omega), List.getElem?_eq_getElem (by omega),
        List.getD_eq_getElem?_getD]
      have hindex : front.length + k + 1 - front.length = k + 1 := by omega
      simp only [hindex, List.getElem?_eq_getElem hk, Option.getD_some]
    rw [← Nat.add_assoc, back, if_neg (by omega), hget, skipBack]
    dsimp only
    split
    · exact ih (by omega)
    · rfl

/-- A walk back goes back. -/
theorem skipBack_le_self (p : Char → Bool) (text : CString) (k : Nat) : skipBack p text k ≤ k := by
  induction k with
  | zero => exact Nat.le_refl 0
  | succ k ih =>
    rw [skipBack]
    split
    · omega
    · exact Nat.le_refl _

/-- Going back from a line end one comes to another character, or to the start. -/
theorem skipBack_stops (p : Char → Bool) (text : CString) (k : Nat) :
    skipBack p text k = 0 ∨ p (text.getD (skipBack p text k) '\x00') = false := by
  induction k with
  | zero => exact .inl rfl
  | succ k ih =>
    rw [skipBack]
    split
    next => exact ih
    next hp => exact .inr (by simpa using hp)

/-- The start of the last line is not behind the place where the line ends are behind it. -/
theorem findLine_eq (front : CString) {text : CString} (rest : CString) (hne : text ≠ []) :
    findLine (front ++ text ++ rest) (front.length + text.length) front.length =
      .records front.length (front.length + skipBack isEol text (text.length - 1))
        (front.length + lastLineStart text) := by
  have hpos := List.length_pos_iff.mpr hne
  have hptr : ((front.length + text.length : Nat) : Int) - 1 =
      ((front.length + (text.length - 1) : Nat) : Int) := by omega
  have htrimmed := skipBack_le_self isEol text (text.length - 1)
  rw [findLine, hptr]
  show (match ((back isEol _ _ _).bind fun trimmed => _ : Option (Nat × Nat)) with
    | none => _ | some (trimmed, ptr) => _) = _
  rw [back_eq isEol front text rest (by omega), Option.bind_some,
    back_eq _ front text rest (by omega), Option.map_some]
  dsimp only
  congr 1
  unfold lastLineStart
  dsimp only
  split_ifs <;> omega

/-- The last line begins in front of the line ends behind it. -/
theorem lastLineStart_le_trimmed (text : CString) :
    lastLineStart text ≤ skipBack isEol text (text.length - 1) := by
  have hle := skipBack_le_self (fun c => !isEol c) text (skipBack isEol text (text.length - 1))
  have hfirst := skipBack_stops isEol text (text.length - 1)
  have hsecond := skipBack_stops (fun c => !isEol c) text (skipBack isEol text (text.length - 1))
  unfold lastLineStart
  dsimp only
  split_ifs with hne
  · -- the second loop stops at a line end, and the first one does not
    rcases Nat.lt_or_ge (skipBack (fun c => !isEol c) text (skipBack isEol text (text.length - 1)))
      (skipBack isEol text (text.length - 1)) with hlt | hge
    · omega
    · have hsame := Nat.le_antisymm hle hge
      have hend := hsecond.resolve_left hne
      rw [hsame] at hend hne
      rw [hfirst.resolve_left hne] at hend
      exact absurd hend (by simp)
  · omega

/-! ## The scan -/

variable {source : Source} {last : CString} {window : CString}

/-- The string in `kbuf` is the window up to its first NUL. -/
theorem kbuf_split (window : CString) : ∃ rest, window ++ ['\x00'] =
    window.takeWhile (· ≠ '\x00') ++ '\x00' :: rest := by
  induction window with
  | nil => exact ⟨[], rfl⟩
  | cons c window ih =>
    by_cases hc : c = '\x00'
    · subst hc
      exact ⟨window ++ ['\x00'], rfl⟩
    · obtain ⟨rest, hrest⟩ := ih
      refine ⟨rest, ?_⟩
      rw [List.takeWhile_cons_of_pos (by simpa using hc), List.cons_append, hrest, List.cons_append]

theorem nul_notMem_takeWhile (window : CString) : '\x00' ∉ window.takeWhile (· ≠ '\x00') := by
  intro h
  simpa using List.mem_takeWhile_imp h

/-- The string in the buffer. -/
theorem takeWhile_kbuf (window : CString) :
    (window ++ ['\x00']).takeWhile (· ≠ '\x00') = window.takeWhile (· ≠ '\x00') := by
  induction window with
  | nil => rfl
  | cons c window ih => rw [List.cons_append, List.takeWhile_cons, List.takeWhile_cons, ih]

/-- What is behind the first part. -/
theorem drop_length_takeWhile (p : Char → Bool) (s rest : CString) :
    (s ++ rest).drop (s.takeWhile p).length = s.dropWhile p ++ rest := by
  have hsplit : s ++ rest = s.takeWhile p ++ (s.dropWhile p ++ rest) := by
    rw [← List.append_assoc, List.takeWhile_append_dropWhile]
  rw [hsplit, List.drop_left]

/-- Where the text behind the line begins, of which `behind` is in the string. -/
theorem skip_line (before line rest : CString) (hnul : '\x00' ∉ line) :
    ((skip (fun c => !isEol c) ((before ++ line ++ '\x00' :: rest).drop before.length)
      before.length).bind fun ptr =>
        skip isEol ((before ++ line ++ '\x00' :: rest).drop ptr) ptr) =
      some ((before ++ line).length -
        ((line.dropWhile fun c => !isEol c).dropWhile isEol).length) := by
  have hbehind : '\x00' ∉ line.dropWhile fun c => !isEol c :=
    fun h => hnul ((List.dropWhile_sublist _).subset h)
  have hfirst := congrArg List.length
    (List.takeWhile_append_dropWhile (p := fun c => !isEol c) (l := line))
  have hsecond := congrArg List.length
    (List.takeWhile_append_dropWhile (p := isEol) (l := line.dropWhile fun c => !isEol c))
  rw [List.length_append] at hfirst hsecond
  rw [List.append_assoc, List.drop_left, skip_eq _ _ _ hnul, Option.bind_some, ← List.drop_drop,
    List.drop_left, drop_length_takeWhile, skip_eq _ _ _ hbehind, List.length_append]
  congr 1
  omega

/-- What a scan comes to that finds text to write. -/
def Scan.ofText (count : Nat) (text : CString) : Scan :=
  .records (count - text.length) (count - text.length + skipBack isEol text (text.length - 1))
    (count - text.length + lastLineStart text)

/-- The last line of what is left to look at. -/
theorem findLine_suffix {text : CString} (h : text <:+ window) (hne : text ≠ []) :
    findLine (window ++ ['\x00']) window.length (window.length - text.length) =
      .ofText window.length text := by
  obtain ⟨front, rfl⟩ := h
  have hfront : (front ++ text).length - text.length = front.length := by
    rw [List.length_append]
    omega
  rw [Scan.ofText, hfront, List.length_append, findLine_eq front _ hne]

/-- The scan when nothing is remembered. -/
theorem scanKbuf_all (hne : window ≠ []) :
    findLine (window ++ ['\x00']) window.length 0 = .ofText window.length window := by
  have h := findLine_suffix (List.suffix_refl window) hne
  rwa [Nat.sub_self] at h

/-- What stands behind the line ends that `ptr` was taken over. -/
theorem getElem?_behind {line dd : CString} (before rest : CString) (h : dd <:+ line) :
    (before ++ line ++ rest)[(before ++ line).length - dd.length]? = (dd ++ rest)[0]? := by
  obtain ⟨front, rfl⟩ := h
  have hindex : (before ++ (front ++ dd)).length - dd.length = (before ++ front).length := by
    rw [← List.append_assoc, List.length_append]
    omega
  rw [hindex, ← List.append_assoc, List.append_assoc (before ++ front),
    List.getElem?_append_right (Nat.le_refl _), Nat.sub_self]

/-- A line that is found, and the text behind it. -/
theorem scanKbuf_found {before rest : CString} (hlast : last ≠ [])
    (hfind : (window.takeWhile (· ≠ '\x00')).dropInfix? last = some (before, rest)) :
    scanKbuf last window =
      if klogcatScan last window = [] then .nothing
      else .ofText window.length (klogcatScan last window) := by
  have hkbuf := (dropInfix_eq_some.mp hfind).1
  rw [List.append_assoc] at hkbuf
  obtain ⟨behind, hsplit⟩ := kbuf_split window
  have hnul := nul_notMem_takeWhile window
  have hprefix := List.takeWhile_prefix (l := window) (· ≠ '\x00')
  rw [scanKbuf, if_neg hlast, takeWhile_kbuf, klogcatScan, if_neg hlast]
  simp only [hfind]
  rw [hkbuf] at hnul hsplit hprefix ⊢
  generalize hdd : ((last ++ rest).dropWhile fun c => !isEol c).dropWhile isEol = dd
  have hline : '\x00' ∉ last ++ rest := fun h => hnul (List.mem_append_right _ h)
  have hptr := skip_line before (last ++ rest) behind hline
  have hsuffix : dd <:+ last ++ rest := by
    rw [← hdd]
    exact (List.dropWhile_suffix _).trans (List.dropWhile_suffix _)
  rw [hdd, ← hsplit] at hptr
  have hget := getElem?_behind before ('\x00' :: behind) hsuffix
  rw [← hsplit] at hget
  rw [hptr]
  dsimp only
  rw [hget]
  cases dd with
  | nil => rfl
  | cons c dd =>
    have hc : c ≠ '\x00' := by
      rintro rfl
      exact hline (hsuffix.subset List.mem_cons_self)
    have hlt : (before ++ (last ++ rest)).length - (c :: dd).length < window.length := by
      have hle := hprefix.length_le
      have hpos := hsuffix.length_le
      rw [List.length_cons] at hpos ⊢
      rw [List.length_append] at hle ⊢
      omega
    have hne : window.drop ((before ++ (last ++ rest)).length - (c :: dd).length) ≠ [] := by
      rw [ne_eq, List.drop_eq_nil_iff]
      omega
    have hfound := findLine_suffix (List.drop_suffix _ window) hne
    rw [List.length_drop, Nat.sub_sub_self hlt.le] at hfound
    rw [if_neg (by simpa using hc), if_neg (List.cons_ne_nil c dd), if_neg hne, hfound]

/-- The scan on addresses is that on texts. -/
theorem scanKbuf_eq (last window : CString) :
    scanKbuf last window =
      if last = [] ∧ window = [] then .outside
      else if klogcatScan last window = [] then .nothing
      else .ofText window.length (klogcatScan last window) := by
  by_cases hlast : last = []
  · rw [scanKbuf, klogcatScan, if_pos hlast, if_pos hlast]
    by_cases hempty : window = []
    · rw [if_pos ⟨hlast, hempty⟩, hempty]
      rfl
    · rw [if_neg (fun h => hempty h.2), if_neg hempty, scanKbuf_all hempty]
  · rw [if_neg (fun h => hlast h.1)]
    cases hfind : (window.takeWhile (· ≠ '\x00')).dropInfix? last with
    | none =>
      rw [scanKbuf, klogcatScan, if_neg hlast, if_neg hlast, takeWhile_kbuf, hfind]
      dsimp only
      by_cases hempty : window = []
      · rw [if_pos (List.length_eq_zero_iff.mpr hempty), if_pos hempty]
      · rw [if_neg (fun h => hempty (List.eq_nil_of_length_eq_zero h)), if_neg hempty,
          scanKbuf_all hempty]
    | some found => exact scanKbuf_found hlast hfind

/-- What is new is at the end. -/
theorem klogcatScan_suffix (last window : CString) : klogcatScan last window <:+ window := by
  unfold klogcatScan
  dsimp only
  split_ifs
  · exact List.suffix_refl window
  · split
    · exact List.suffix_refl window
    · split_ifs
      · exact List.nil_suffix
      · exact List.drop_suffix _ window

/-- The pointers are at the text that a round writes and at the line that it remembers. -/
theorem scan_text {w : Window source} {head trimmed line : Nat}
    (h : scan source last w = .records head trimmed line) :
    (w.bytes.map source.clean).drop head = klogcatScan last (w.bytes.map source.clean) ∧
      line = head + lastLineStart (klogcatScan last (w.bytes.map source.clean)) := by
  unfold scan at h
  split_ifs at h
  rw [scanKbuf_eq] at h
  split_ifs at h
  obtain ⟨front, hsplit⟩ := klogcatScan_suffix last (w.bytes.map source.clean)
  cases h
  refine ⟨?_, rfl⟩
  have hlen := congrArg List.length hsplit
  rw [List.length_append] at hlen
  have hhead : (w.bytes.map source.clean).length -
      (klogcatScan last (w.bytes.map source.clean)).length = front.length := by omega
  rw [hhead]
  conv_lhs => rw [← hsplit]
  exact List.drop_left

/-- The pointers stay inside except in a read of nothing while no line is remembered, and in one
that fills all of `kbuf`. -/
theorem scan_iff (source : Source) (last : CString) (w : Window source) :
    (scan source last w).Inside w.bytes.length ↔
      ¬ (last = [] ∧ w.bytes = []) ∧ w.bytes.length < kbufSize := by
  have hnil : w.bytes.map source.clean = [] ↔ w.bytes = [] := List.map_eq_nil_iff
  unfold scan
  split_ifs with hfull
  · exact ⟨False.elim, fun h => by omega⟩
  · rw [scanKbuf_eq, List.length_map]
    by_cases hnothing : last = [] ∧ w.bytes = []
    · rw [if_pos ⟨hnothing.1, hnil.mpr hnothing.2⟩]
      exact ⟨False.elim, fun h => h.1 hnothing⟩
    · rw [if_neg fun h => hnothing ⟨h.1, hnil.mp h.2⟩]
      refine ⟨fun _ => ⟨hnothing, by omega⟩, fun _ => ?_⟩
      split_ifs with hempty
      · trivial
      · generalize hscan : klogcatScan last (w.bytes.map source.clean) = text at hempty
        have hlen := (klogcatScan_suffix last (w.bytes.map source.clean)).length_le
        rw [hscan, List.length_map] at hlen
        have hpos := List.length_pos_iff.mpr hempty
        have htrimmed := skipBack_le_self isEol text (text.length - 1)
        have hline := lastLineStart_le_trimmed text
        show _ ≤ _ ∧ _ ≤ _ ∧ _ < _
        omega

/-- The first read of a thread returns nothing. -/
theorem scan_fails_empty :
    ¬ (scan .logkmsgKlogctl [] ⟨[], Nat.zero_le _⟩).Inside 0 := by
  intro h
  exact h

end AndroidLearn.Logkmsg
