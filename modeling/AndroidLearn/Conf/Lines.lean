import AndroidLearn.Conf.File

/-!
# The lines of a configuration file

`conf_load_from_file` of `conf.c` takes what `fgets` puts into its buffer of 512 bytes for
a line. A longer line comes in pieces, and each of them is trimmed, looked at for a `#`
and split at its first `=` as if it were a line; `conf_save_to_file` writes lines of any
length.

`LoadsLines` compares this with a reader that splits the file at its newlines, trims,
skips blank lines and comments, and splits the rest at the first `=` (`lineText`,
`pairOf`, `mapOfLines`). Both the map and the texts that get past the test for comments
are compared: no part of a line is to be read as a line of its own. What a NUL cuts off is
`cstring`.

The argument goes over the reads of one line (`textsRead_line`, `textsRead_eq`): what the
loader sees of a line are its pieces of 511 bytes, each up to its first NUL, and the line
is read as a whole if and only if at most one of them shows anything (`firstShown`).

Theorem: `loadsLines_iff` says for which files the two do the same: every line has to be
`Whole`. Lines of at most 511 bytes without NUL are (`whole_of_fits`).
-/

namespace AndroidLearn.Conf

/-! ## What is parsed -/

/-- The text of a line that is split at its `=`: none for a blank line or a comment. -/
def lineText (line : CString) : Option CString :=
  let line := strtrim line
  if line = [] ∨ line.head? = some '#' then none else some line

/-- The string in a buffer, up to its first NUL. -/
def cstring (buffer : List Char) : CString := buffer.takeWhile (· ≠ '\x00')

/-- What `fgets` puts into the buffer, one after the other. -/
def reads : List Char → List (List Char)
  | [] => []
  | c :: file =>
    (fgets (bufferSize - 1) (c :: file)).1 :: reads (fgets (bufferSize - 1) (c :: file)).2
  termination_by file => file.length
  decreasing_by exact fgets_rest_length 510 c file

/-- The texts that the loop takes for lines and parses. -/
def textsRead (file : List Char) : List CString :=
  (reads file).filterMap fun buffer => lineText (cstring buffer)

/-- A text is split, and its value set. -/
def setText (conf : PairList) (text : CString) : PairList :=
  match splitEqual text with
  | none => conf
  | some (name, value) => (confSet .all conf (some (strtrim name)) (some (strtrim value))).2

/-! ## A reader of lines -/

/-- The lines, without the ones that say nothing. -/
def lineTexts (file : List Char) : List CString := (file.splitOn '\n').filterMap lineText

/-- The name and the value, around the first `=`. -/
def pairOf (text : CString) : Option ConfPair :=
  if '=' ∈ text then
    some ⟨strtrim (text.takeWhile (· ≠ '=')), strtrim (text.dropWhile (· ≠ '=')).tail⟩
  else none

/-- The value of one name is changed. -/
def ConfMap.set (map : ConfMap) (p : ConfPair) : ConfMap := Function.update map p.name (some p.value)

/-- The map of a file: each line that has a pair sets it, in the order of the file. -/
def mapOfLines (file : List Char) : ConfMap :=
  ((lineTexts file).filterMap pairOf).foldl ConfMap.set fun _ => none

/-- The file is read line by line. -/
structure LoadsLines (file : List Char) : Prop where
  map : ∀ name, valueOf (confLoadFromFile file) name = mapOfLines file name
  /-- no part of a line is parsed as a line of its own -/
  texts : textsRead file = lineTexts file

/-- A line as it comes into the buffer. -/
def pieces : CString → List CString
  | [] => []
  | c :: line =>
    (c :: line).take (bufferSize - 1) :: pieces ((c :: line).drop (bufferSize - 1))
  termination_by line => line.length
  decreasing_by
    rw [List.length_drop, bufferSize]
    exact Nat.sub_lt (Nat.succ_pos _) (by omega)

/-- The pieces of a line say what it says. -/
structure Whole (line : CString) : Prop where
  /-- a comment, or a blank line -/
  skipped : lineText line = none → ∀ piece ∈ pieces line, lineText (cstring piece) = none
  parsed : lineText line ≠ none →
    '\x00' ∉ line ∧ ∃ piece ∈ pieces line, strtrim piece = strtrim line

/-! ## Trimming -/

section Trim

variable {line l l' : CString} {c : Char} {text : CString}

/-- The first character that is not blank. -/
def firstShown (line : CString) : Option Char := line.find? fun c => ! isspace c

/-- How many characters are not blank. -/
def shown (line : CString) : Nat := line.countP fun c => ! isspace c

/-- A line is what is left of it, between blanks. -/
theorem strtrim_split (line : CString) : ∃ front back, line = front ++ (strtrim line ++ back) ∧
    (∀ c ∈ front, isspace c = true) ∧ ∀ c ∈ back, isspace c = true := by
  refine ⟨(line.rdropWhile isspace).takeWhile isspace, line.rtakeWhile isspace, ?_,
    fun c hc => List.mem_takeWhile_imp hc, fun c hc => List.mem_rtakeWhile_imp hc⟩
  rw [strtrim, ← List.append_assoc, List.takeWhile_append_dropWhile,
    List.rdropWhile_append_rtakeWhile]

/-- Trimming takes no character that shows. -/
theorem mem_strtrim (hc : c ∈ line) (hshown : isspace c = false) : c ∈ strtrim line := by
  obtain ⟨front, back, hline, hfront, hback⟩ := strtrim_split line
  have hblank : ¬ isspace c = true := by
    rw [hshown]
    exact Bool.false_ne_true
  rw [hline] at hc
  rcases List.mem_append.mp hc with hc | hc
  · exact absurd (hfront c hc) hblank
  · exact (List.mem_append.mp hc).resolve_right fun hc => hblank (hback c hc)

theorem strtrim_subset : strtrim line ⊆ line := by
  obtain ⟨front, back, hline, -, -⟩ := strtrim_split line
  intro c hc
  rw [hline]
  exact List.mem_append_right _ (List.mem_append_left _ hc)

theorem shown_blanks (h : ∀ c ∈ l, isspace c = true) : shown l = 0 := by
  rw [shown, List.countP_eq_zero]
  intro c hc
  rw [h c hc]
  exact Bool.false_ne_true

theorem shown_append (l l' : CString) : shown (l ++ l') = shown l + shown l' :=
  List.countP_append

/-- Trimming takes nothing that shows. -/
theorem shown_strtrim (line : CString) : shown (strtrim line) = shown line := by
  obtain ⟨front, back, hline, hfront, hback⟩ := strtrim_split line
  have hsum : shown line = shown front + (shown (strtrim line) + shown back) := by
    rw [← shown_append, ← shown_append, ← hline]
  rw [hsum, shown_blanks hfront, shown_blanks hback, Nat.zero_add, Nat.add_zero]

theorem firstShown_append (l l' : CString) :
    firstShown (l ++ l') = (firstShown l).or (firstShown l') :=
  List.find?_append

theorem firstShown_eq_none_iff : firstShown l = none ↔ shown l = 0 := by
  rw [firstShown, List.find?_eq_none, shown, List.countP_eq_zero]

/-- The first character that shows comes first. -/
theorem head?_strtrim (line : CString) : (strtrim line).head? = firstShown line := by
  have hdrop (l : CString) : (l.dropWhile isspace).head? = firstShown l := by
    induction l with
    | nil => rfl
    | cons c l ih =>
      unfold firstShown at ih ⊢
      rw [List.dropWhile_cons, List.find?_cons]
      cases isspace c with
      | true => exact ih
      | false => rfl
  have hback : firstShown (line.rtakeWhile isspace) = none :=
    firstShown_eq_none_iff.mpr (shown_blanks fun c hc => List.mem_rtakeWhile_imp hc)
  have hline := firstShown_append (line.rdropWhile isspace) (line.rtakeWhile isspace)
  rw [List.rdropWhile_append_rtakeWhile, hback, Option.or_none] at hline
  rw [strtrim, hdrop, hline]

/-- Whether a line is parsed is decided by the first character that shows. -/
theorem lineText_eq_none_iff : lineText line = none ↔ ∀ c ∈ firstShown line, c = '#' := by
  unfold lineText
  dsimp only
  rw [← head?_strtrim]
  cases strtrim line with
  | nil => simp
  | cons c rest => simp [eq_comm]

/-- A text is a trimmed line. -/
theorem lineText_eq_some (h : lineText line = some text) : text = strtrim line := by
  unfold lineText at h
  dsimp only at h
  split at h
  · cases h
  · exact (Option.some.inj h).symm

theorem lineText_of_ne_none (h : lineText line ≠ none) : lineText line = some (strtrim line) := by
  obtain ⟨text, htext⟩ := Option.ne_none_iff_exists'.mp h
  rw [htext, lineText_eq_some htext]

/-- A line of blanks has no text. -/
theorem lineText_of_blank (h : shown line = 0) : lineText line = none := by
  rw [lineText_eq_none_iff, firstShown_eq_none_iff.mpr h]
  intro c hc
  cases hc

theorem lineText_congr (h : strtrim l = strtrim l') : lineText l = lineText l' := by
  unfold lineText
  rw [h]

theorem cstring_of_noNul (h : '\x00' ∉ l) : cstring l = l := by
  rw [cstring, List.takeWhile_eq_self_iff]
  intro c hc
  have hne : c ≠ '\x00' := fun heq => h (heq ▸ hc)
  simpa using hne

/-- Text without a NUL runs on into what follows. -/
theorem cstring_append (h : '\x00' ∉ l) (l' : List Char) : cstring (l ++ l') = l ++ cstring l' := by
  have hall : ∀ c ∈ l, decide (c ≠ '\x00') = true := fun c hc =>
    decide_eq_true fun heq => h (heq ▸ hc)
  exact List.takeWhile_append_of_pos hall

/-- A C string has no NUL. -/
theorem nul_notMem_cstring (l : List Char) : '\x00' ∉ cstring l := by
  intro h
  have hne := List.mem_takeWhile_imp h
  simp at hne

end Trim

/-! ## The loop, line by line -/

section Reads

variable {line : CString} {file : List Char} {conf : PairList}

/-- The texts that are parsed of one line. -/
def textsOf (line : CString) : List CString :=
  (pieces line).filterMap fun piece => lineText (cstring piece)

/-- A buffer is its text, if it has one. -/
theorem loadBuffer_eq (conf : PairList) (buffer : List Char) :
    loadBuffer conf buffer = (lineText (cstring buffer)).elim conf (setText conf) := by
  unfold loadBuffer lineText setText cstring
  dsimp only
  split
  · rfl
  · rfl

/-- The loop sets the texts that are read, in order. -/
theorem loadLoop_eq (conf : PairList) (file : List Char) :
    loadLoop conf file = (textsRead file).foldl setText conf := by
  induction conf, file using loadLoop.induct with
  | case1 conf =>
    rw [loadLoop, textsRead, reads]
    rfl
  | case2 conf c file ih =>
    rw [loadLoop, ih, loadBuffer_eq, textsRead, textsRead, reads, List.filterMap_cons]
    cases lineText (cstring (fgets (bufferSize - 1) (c :: file)).1) <;> rfl

/-- A last line that does not fit is read in pieces. -/
theorem fgets_last (room : Nat) (h : '\n' ∉ line) :
    fgets room line = (line.take room, line.drop room) := by
  induction line generalizing room with
  | nil => cases room <;> rfl
  | cons c line ih =>
    simp only [List.mem_cons, not_or] at h
    obtain ⟨hc, hline⟩ := h
    cases room with
    | zero => rfl
    | succ room => rw [fgets, if_neg (Ne.symm hc), ih room hline, List.take_succ_cons,
        List.drop_succ_cons]

/-- The next read, and the reads after it. -/
theorem textsRead_cons (hne : file ≠ []) :
    textsRead file = (lineText (cstring (fgets (bufferSize - 1) file).1)).toList ++
      textsRead (fgets (bufferSize - 1) file).2 := by
  cases file with
  | nil => exact absurd rfl hne
  | cons c file =>
    rw [textsRead, reads, List.filterMap_cons, textsRead]
    cases lineText (cstring (fgets (bufferSize - 1) (c :: file)).1) <;> rfl

/-- The next piece of a line, and the pieces after it. -/
theorem textsOf_cons (hne : line ≠ []) :
    textsOf line = (lineText (cstring (line.take (bufferSize - 1)))).toList ++
      textsOf (line.drop (bufferSize - 1)) := by
  cases line with
  | nil => exact absurd rfl hne
  | cons c line =>
    rw [textsOf, pieces, List.filterMap_cons, textsOf]
    cases lineText (cstring ((c :: line).take (bufferSize - 1))) <;> rfl

theorem textsOf_nil : textsOf [] = [] := by
  rw [textsOf, pieces, List.filterMap_nil]

/-- A line that fits is one piece. -/
theorem textsOf_short (hshort : line.length ≤ bufferSize - 1) :
    textsOf line = (lineText (cstring line)).toList := by
  by_cases hne : line = []
  · rw [hne, textsOf_nil]
    rfl
  · rw [textsOf_cons hne, List.take_of_length_le hshort, List.drop_eq_nil_of_le hshort, textsOf_nil,
      List.append_nil]

/-- The newline behind a piece is trimmed, or stands behind a NUL. -/
theorem lineText_newline (l : CString) : lineText (cstring (l ++ ['\n'])) = lineText (cstring l) := by
  by_cases hnul : '\x00' ∈ l
  · have hstop : ¬ ∀ c ∈ l, decide (c ≠ '\x00') = true := fun h => by
      simpa using h _ hnul
    unfold cstring
    rw [List.takeWhile_append, if_neg]
    intro hlength
    have hall := List.takeWhile_eq_self_iff.mp
      ((List.takeWhile_prefix _).eq_of_length hlength)
    exact hstop hall
  · have hnewline : '\x00' ∉ l ++ ['\n'] := by simpa using hnul
    rw [cstring_of_noNul hnul, cstring_of_noNul hnewline]
    exact lineText_congr (strtrim_concat (by decide))

/-- Without a line end the reads are the pieces of the last line. -/
theorem textsRead_last (h : '\n' ∉ line) : textsRead line = textsOf line := by
  induction line using pieces.induct with
  | case1 =>
    rw [textsRead, reads, textsOf, pieces]
  | case2 c line ih =>
    have hrest : '\n' ∉ (c :: line).drop (bufferSize - 1) := fun hmem => h (List.mem_of_mem_drop hmem)
    rw [textsRead_cons (List.cons_ne_nil c line), fgets_last _ h, ih hrest,
      ← textsOf_cons (List.cons_ne_nil c line)]

/-- The texts of a line come before those of the lines behind it. -/
theorem textsRead_line (h : '\n' ∉ line) (rest : List Char) :
    textsRead (line ++ '\n' :: rest) = textsOf line ++ textsRead rest := by
  induction hn : line.length using Nat.strong_induction_on generalizing line with
  | _ n ih =>
    subst hn
    rw [textsRead_cons (by simp), fgets_line _ h]
    by_cases hroom : line.length < bufferSize - 1
    · rw [if_pos hroom, lineText_newline, ← textsOf_short (Nat.le_of_lt hroom)]
    · have hne : line ≠ [] := by
        rintro rfl
        exact hroom (by decide)
      have hrest : '\n' ∉ line.drop (bufferSize - 1) := fun hmem => h (List.mem_of_mem_drop hmem)
      have hlength : (line.drop (bufferSize - 1)).length < line.length := by
        rw [List.length_drop]
        unfold bufferSize at hroom ⊢
        omega
      rw [if_neg hroom, ih _ hlength hrest rfl, ← List.append_assoc, ← textsOf_cons hne]

/-- What is parsed of a file is what is parsed of its lines. -/
theorem textsRead_eq (file : List Char) : textsRead file = (file.splitOn '\n').flatMap textsOf := by
  induction hn : file.length using Nat.strong_induction_on generalizing file with
  | _ n ih =>
    subst hn
    by_cases hmem : '\n' ∈ file
    · obtain ⟨line, rest, rfl, hline⟩ := List.eq_append_cons_of_mem hmem
      have hlength : rest.length < (line ++ '\n' :: rest).length := by
        rw [List.length_append, List.length_cons]
        omega
      rw [textsRead_line hline, List.splitOn_append_cons_self_of_not_mem hline, List.flatMap_cons,
        ih _ hlength rest rfl]
    · rw [textsRead_last hmem, List.splitOn_eq_singleton hmem, List.flatMap_singleton]

end Reads

/-! ## One line -/

section Line

variable {line piece : CString} {text : CString}

/-- The pieces of a line are the line. -/
theorem pieces_flatten (line : CString) : (pieces line).flatten = line := by
  induction line using pieces.induct with
  | case1 =>
    rw [pieces]
    rfl
  | case2 c line ih => rw [pieces, List.flatten_cons, ih, List.take_append_drop]

theorem subset_of_mem_pieces (h : piece ∈ pieces line) : piece ⊆ line := by
  intro c hc
  rw [← pieces_flatten line]
  exact List.mem_flatten_of_mem h hc

/-- The pieces around one that shows as much as the line show nothing. -/
theorem pieces_around (hpiece : piece ∈ pieces line) (hshown : shown piece = shown line) :
    ∃ front back, pieces line = front ++ piece :: back ∧ (∀ p ∈ front, shown p = 0) ∧
      ∀ p ∈ back, shown p = 0 := by
  have hflatten (ps : List CString) : shown ps.flatten = (ps.map shown).sum := by
    induction ps with
    | nil => rfl
    | cons p ps ih => rw [List.flatten_cons, shown_append, ih, List.map_cons, List.sum_cons]
  obtain ⟨front, back, hsplit⟩ := List.append_of_mem hpiece
  have hsum : shown line = (front.map shown).sum + (shown piece + (back.map shown).sum) := by
    rw [← pieces_flatten line, hflatten, hsplit, List.map_append, List.sum_append, List.map_cons,
      List.sum_cons]
  have hzero : (front.map shown).sum = 0 ∧ (back.map shown).sum = 0 := by omega
  refine ⟨front, back, hsplit, fun p hp => ?_, fun p hp => ?_⟩
  · exact List.sum_eq_zero_iff_forall_eq_nat.mp hzero.1 _ (List.mem_map_of_mem hp)
  · exact List.sum_eq_zero_iff_forall_eq_nat.mp hzero.2 _ (List.mem_map_of_mem hp)

/-- A line that is read whole has its own text. -/
theorem textsOf_of_whole (h : Whole line) : textsOf line = (lineText line).toList := by
  by_cases hnone : lineText line = none
  · rw [hnone, textsOf]
    exact List.filterMap_eq_nil_iff.mpr (h.skipped hnone)
  · obtain ⟨hnul, piece, hpiece, htrim⟩ := h.parsed hnone
    have hstring : ∀ p ∈ pieces line, cstring p = p := fun p hp =>
      cstring_of_noNul fun hmem => hnul (subset_of_mem_pieces hp hmem)
    have hshown : shown piece = shown line := by
      rw [← shown_strtrim piece, htrim, shown_strtrim]
    obtain ⟨front, back, hsplit, hfront, hback⟩ := pieces_around hpiece hshown
    have hblank (ps : List CString) (hps : ps ⊆ pieces line) (hzero : ∀ p ∈ ps, shown p = 0) :
        ps.filterMap (fun p => lineText (cstring p)) = [] := by
      rw [List.filterMap_eq_nil_iff]
      intro p hp
      rw [hstring p (hps hp)]
      exact lineText_of_blank (hzero p hp)
    have hfirst := hblank front (by rw [hsplit]; simp) hfront
    have hlast := hblank back (by rw [hsplit]; intro p hp; simp [hp]) hback
    have hfound : lineText (cstring piece) = some (strtrim line) := by
      rw [hstring piece hpiece, lineText_congr htrim, lineText_of_ne_none hnone]
    rw [textsOf, hsplit, List.filterMap_append, hfirst, List.filterMap_cons, hfound, hlast,
      lineText_of_ne_none hnone]
    rfl

/-- A line that is not read whole has other texts. -/
theorem whole_of_textsOf (h : textsOf line = (lineText line).toList) : Whole line := by
  refine ⟨fun hnone => ?_, fun hsome => ?_⟩
  · rw [hnone] at h
    exact List.filterMap_eq_nil_iff.mp h
  · have hmem : strtrim line ∈ textsOf line := by
      rw [h, lineText_of_ne_none hsome]
      exact List.mem_singleton_self _
    obtain ⟨piece, hpiece, htext⟩ := List.mem_filterMap.mp hmem
    have htrim := lineText_eq_some htext
    have hnul : '\x00' ∉ line := fun hmem => by
      have htrimmed : '\x00' ∈ strtrim (cstring piece) := htrim ▸ mem_strtrim hmem rfl
      exact nul_notMem_cstring piece (strtrim_subset htrimmed)
    have hstring : cstring piece = piece :=
      cstring_of_noNul fun hmem => hnul (subset_of_mem_pieces hpiece hmem)
    rw [hstring] at htrim
    exact ⟨hnul, piece, hpiece, htrim.symm⟩

/-- A line that has a text is parsed somehow. -/
theorem textsOf_ne_nil (hnul : '\x00' ∉ line) (h : lineText line ≠ none) : textsOf line ≠ [] := by
  induction line using pieces.induct with
  | case1 => exact absurd (lineText_of_blank rfl) h
  | case2 c line ih =>
    have hsplit := firstShown_append ((c :: line).take (bufferSize - 1))
      ((c :: line).drop (bufferSize - 1))
    rw [List.take_append_drop] at hsplit
    have htake : '\x00' ∉ (c :: line).take (bufferSize - 1) := fun hmem =>
      hnul (List.mem_of_mem_take hmem)
    rw [textsOf_cons (List.cons_ne_nil c line), cstring_of_noNul htake]
    by_cases hblank : firstShown ((c :: line).take (bufferSize - 1)) = none
    · -- the first piece is blank, and the line has the text of the rest
      rw [hblank, Option.none_or] at hsplit
      have hrest : lineText ((c :: line).drop (bufferSize - 1)) ≠ none := by
        rw [Ne, lineText_eq_none_iff, ← hsplit, ← lineText_eq_none_iff]
        exact h
      exact List.append_ne_nil_of_right_ne_nil _
        (ih (fun hmem => hnul (List.mem_of_mem_drop hmem)) hrest)
    · obtain ⟨d, hd⟩ := Option.ne_none_iff_exists'.mp hblank
      rw [hd, Option.some_or] at hsplit
      have hfirst : lineText ((c :: line).take (bufferSize - 1)) ≠ none := by
        rw [Ne, lineText_eq_none_iff, hd, ← hsplit, ← lineText_eq_none_iff]
        exact h
      rw [lineText_of_ne_none hfirst]
      exact List.cons_ne_nil _ _

/-- A line that fits the buffer is whole. -/
theorem whole_of_fits (hfits : line.length < bufferSize) (hnul : '\x00' ∉ line) : Whole line := by
  refine whole_of_textsOf ?_
  rw [textsOf_short (Nat.le_pred_of_lt hfits), cstring_of_noNul hnul]

end Line

/-! ## All lines -/

section File

variable {file : List Char} {conf : PairList} {map : ConfMap}

/-- `setText` is the update of the map. -/
theorem setText_eq (conf : PairList) (text : CString) :
    setText conf text =
      (pairOf text).elim conf fun p => (confSet .all conf (some p.name) (some p.value)).2 := by
  have hsplit (text : CString) : splitEqual text =
      if '=' ∈ text then some (text.takeWhile (· ≠ '='), (text.dropWhile (· ≠ '=')).tail) else none := by
    induction text with
    | nil => rfl
    | cons c text ih =>
      unfold splitEqual
      by_cases hc : c = '='
      · simp [hc]
      · rw [if_neg hc, ih]
        by_cases hmem : '=' ∈ text
        · simp [hc, hmem]
        · simp [hmem, Ne.symm hc]
  unfold setText pairOf
  rw [hsplit]
  by_cases hmem : '=' ∈ text
  · rw [if_pos hmem, if_pos hmem]
    rfl
  · rw [if_neg hmem, if_neg hmem]
    rfl

/-- The list after these texts, against the map after these pairs. -/
theorem foldl_setText (texts : List CString) (hnd : (namesOf conf).Nodup)
    (hmap : ∀ name, valueOf conf name = map name) (name : CString) :
    valueOf (texts.foldl setText conf) name =
      ((texts.filterMap pairOf).foldl ConfMap.set map) name := by
  induction texts generalizing conf map with
  | nil => exact hmap name
  | cons text texts ih =>
    rw [List.foldl_cons, setText_eq]
    cases hpair : pairOf text with
    | none =>
      rw [List.filterMap_cons_none hpair]
      exact ih hnd hmap
    | some p =>
      rw [List.filterMap_cons_some hpair, List.foldl_cons]
      obtain ⟨hset, hvalue⟩ := confSet_all hnd p
      refine ih hset fun n => ?_
      rw [Option.elim_some, hvalue, ConfMap.set, Function.update_apply, hmap]

/-- Where every line that counts is read somehow and as much is read as there are lines,
each is read as it is. -/
theorem eq_toList_of_flatMap_eq {α β : Type} {lines : List α} {read : α → List β}
    {say : α → Option β} (hsome : ∀ line ∈ lines, say line ≠ none → read line ≠ [])
    (heq : lines.flatMap read = lines.filterMap say) :
    ∀ line ∈ lines, read line = (say line).toList := by
  have hle (line : α) (hread : say line ≠ none → read line ≠ []) :
      (say line).toList.length ≤ (read line).length := by
    cases hsay : say line with
    | none => exact Nat.zero_le _
    | some b => exact List.length_pos_iff.mpr (hread (by rw [hsay]; exact Option.some_ne_none b))
  have hcons (line : α) (lines : List α) :
      (line :: lines).filterMap say = (say line).toList ++ lines.filterMap say := by
    rw [List.filterMap_cons]
    cases say line <;> rfl
  have hsum (lines : List α) (hread : ∀ line ∈ lines, say line ≠ none → read line ≠ []) :
      (lines.filterMap say).length ≤ (lines.flatMap read).length := by
    induction lines with
    | nil => exact Nat.le_refl 0
    | cons line lines ih =>
      rw [hcons, List.flatMap_cons, List.length_append, List.length_append]
      have hfirst := hle line (hread line List.mem_cons_self)
      have hrest := ih fun l hl => hread l (List.mem_cons_of_mem line hl)
      omega
  induction lines with
  | nil => exact List.forall_mem_nil _
  | cons line lines ih =>
    rw [List.flatMap_cons, hcons] at heq
    have hrest := fun l hl => hsome l (List.mem_cons_of_mem line hl)
    have hlength : (read line).length = (say line).toList.length := by
      have htotal := congrArg List.length heq
      rw [List.length_append, List.length_append] at htotal
      have hfirst := hle line (hsome line List.mem_cons_self)
      have hothers := hsum lines hrest
      omega
    obtain ⟨hfirst, hothers⟩ := List.append_inj heq hlength
    exact List.forall_mem_cons.mpr ⟨hfirst, ih hrest hothers⟩

end File

/-- A configuration file is read line by line exactly when each of its lines is whole:
its comments come in pieces that are comments, and what shows of another line, which has
no NUL, is in one piece. -/
theorem loadsLines_iff (file : List Char) :
    LoadsLines file ↔ ∀ line ∈ file.splitOn '\n', Whole line := by
  constructor
  · intro h line hline
    have htexts := h.texts
    rw [textsRead_eq, lineTexts] at htexts
    refine whole_of_textsOf (eq_toList_of_flatMap_eq (fun l hl hsome => ?_) htexts line hline)
    have hmem : strtrim l ∈ (file.splitOn '\n').flatMap textsOf := by
      rw [htexts]
      exact List.mem_filterMap.mpr ⟨l, hl, lineText_of_ne_none hsome⟩
    obtain ⟨other, -, htext⟩ := List.mem_flatMap.mp hmem
    obtain ⟨piece, -, hpiece⟩ := List.mem_filterMap.mp htext
    -- a NUL would show in the text
    have hnul : '\x00' ∉ l := fun hnul => by
      have htrimmed := mem_strtrim hnul rfl
      rw [lineText_eq_some hpiece] at htrimmed
      exact nul_notMem_cstring piece (strtrim_subset htrimmed)
    exact textsOf_ne_nil hnul hsome
  · intro h
    have htexts : textsRead file = lineTexts file := by
      rw [textsRead_eq, lineTexts]
      generalize file.splitOn '\n' = lines at h
      induction lines with
      | nil => rfl
      | cons line lines ih =>
        obtain ⟨hline, hlines⟩ := List.forall_mem_cons.mp h
        rw [List.flatMap_cons, ih hlines, textsOf_of_whole hline, List.filterMap_cons]
        cases lineText line <;> rfl
    refine ⟨fun name => ?_, htexts⟩
    rw [confLoadFromFile, loadLoop_eq, htexts, mapOfLines]
    exact foldl_setText _ (show (namesOf []).Nodup from List.nodup_nil) (fun _ => rfl) name

/-- What follows behind 511 characters of a comment sets a value. -/
theorem loads_fails_comment :
    ¬ ∀ (file : List Char) (name : CString),
      valueOf (confLoadFromFile file) name = mapOfLines file name := by
  intro h
  have hmap := h (List.replicate 511 '#' ++ ['a', '=', 'b']) ['a']
  have hnewline : '\n' ∉ List.replicate 511 '#' ++ ['a', '=', 'b'] := by
    rw [List.mem_append, List.mem_replicate]
    decide
  have hnul : '\x00' ∉ List.replicate 511 '#' := by
    rw [List.mem_replicate]
    decide
  have htake : (List.replicate 511 '#' ++ ['a', '=', 'b']).take (bufferSize - 1) =
      List.replicate 511 '#' := List.take_left' List.length_replicate
  have hdrop : (List.replicate 511 '#' ++ ['a', '=', 'b']).drop (bufferSize - 1) =
      ['a', '=', 'b'] := List.drop_left' List.length_replicate
  have hcomment (rest : CString) : lineText (List.replicate 511 '#' ++ rest) = none := by
    rw [lineText_eq_none_iff]
    intro c hc
    exact (Option.some.inj hc).symm
  have hfirst := hcomment []
  rw [List.append_nil] at hfirst
  have htexts : textsRead (List.replicate 511 '#' ++ ['a', '=', 'b']) = [['a', '=', 'b']] := by
    rw [textsRead_last hnewline, textsOf_cons (List.append_ne_nil_of_right_ne_nil _ (by simp)),
      htake, hdrop, cstring_of_noNul hnul, hfirst, textsOf_short (by decide)]
    rfl
  have hlines : lineTexts (List.replicate 511 '#' ++ ['a', '=', 'b']) = [] := by
    rw [lineTexts, List.splitOn_eq_singleton hnewline, List.filterMap_cons_none (hcomment _)]
    rfl
  rw [confLoadFromFile, loadLoop_eq, htexts, mapOfLines, hlines] at hmap
  cases hmap

end AndroidLearn.Conf
