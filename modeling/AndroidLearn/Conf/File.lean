import AndroidLearn.Conf.Conf
import Mathlib.Data.List.DropRight

/-!
# The file of a `CONF`

`conf_save_to_file` and `conf_load_from_file` of `conf.c`, with the `strtrim` of `str.c`.
The first writes a line for each pair, in the order of the list; the second reads the file
in pieces of `fgets`, cuts the blanks off, passes over comments, splits what is left at
its first `=`, and sets what it finds.

A file is its bytes; it is taken to open, every byte is written, and memory suffices while
the file is loaded. `fgets` returns up to 511 bytes and no more than to the next newline.
The loop over the file is on the number of bytes that are left (`fgets_rest_length`).

Theorem: `confLoad_save`, a store whose names and values a line can carry comes back the
same. `ConfPair.Savable` says what a line can carry: no newline or NUL, no blanks at the
ends, a name that is not empty, has no `=` and does not begin with `#`, and a line that
fits the buffer. `ConfPair.Named` asks less, and `loaded_named` says what comes back then.
-/

namespace AndroidLearn.Conf

/-! ## `strtrim` -/

/-- `isspace`, in the C locale -/
def isspace (c : Char) : Bool :=
  c = ' ' || c = '\t' || c = '\n' || c = '\x0b' || c = '\x0c' || c = '\r'

/-- `strtrim`. On an empty string its first loop looks at the byte before (behind an `=`
that is the NUL put in its place); the string stays empty. -/
def strtrim (str : CString) : CString := (str.rdropWhile isspace).dropWhile isspace

/-- There is nothing to strip. -/
structure Trimmed (str : CString) : Prop where
  head : ∀ c ∈ str.head?, isspace c = false
  last : ∀ c ∈ str.getLast?, isspace c = false

section Strtrim

variable {str l : CString} {c : Char}

/-- Nothing is cut in front of a character that is no blank. -/
theorem dropWhile_of_head (h : ∀ c ∈ str.head?, isspace c = false) :
    str.dropWhile isspace = str := by
  cases str with
  | nil => rfl
  | cons c str =>
    have hc : isspace c = false := h c (by simp)
    simp [hc]

/-- Nothing is cut behind a character that is no blank. -/
theorem rdropWhile_of_last (h : ∀ c ∈ str.getLast?, isspace c = false) :
    str.rdropWhile isspace = str := by
  rw [List.rdropWhile_eq_self_iff]
  intro hne hlast
  have hc := h (str.getLast hne) (by rw [List.getLast?_eq_some_getLast hne]; rfl)
  rw [hc] at hlast
  exact absurd hlast (by simp)

theorem Trimmed.strtrim (h : Trimmed str) : strtrim str = str := by
  unfold Conf.strtrim
  rw [rdropWhile_of_last h.last, dropWhile_of_head h.head]

theorem strtrim_concat (hc : isspace c = true) : strtrim (str ++ [c]) = strtrim str := by
  unfold strtrim
  rw [List.rdropWhile_concat_pos _ _ _ hc]

/-- A blank in front is cut. -/
theorem Trimmed.strtrim_cons (h : Trimmed str) (hc : isspace c = true) :
    Conf.strtrim (c :: str) = str := by
  unfold Conf.strtrim
  cases hne : str with
  | nil => simp [List.rdropWhile_singleton, hc]
  | cons d rest =>
    have hlast : ∀ x ∈ (c :: d :: rest).getLast?, isspace x = false := by
      rw [List.getLast?_cons_cons, ← hne]
      exact h.last
    rw [rdropWhile_of_last hlast, List.dropWhile_cons_of_pos hc, ← hne, dropWhile_of_head h.head]

/-- What was trimmed is trimmed. -/
theorem trimmed_strtrim (str : CString) : Trimmed (Conf.strtrim str) := by
  unfold Conf.strtrim
  constructor
  · intro c hc
    cases hdrop : (str.rdropWhile isspace).dropWhile isspace with
    | nil => simp [hdrop] at hc
    | cons d rest =>
      obtain rfl : d = c := by simpa [hdrop] using hc
      have hhead := List.head_dropWhile_not (l := str.rdropWhile isspace) isspace (by simp [hdrop])
      simpa [hdrop] using hhead
  · intro c hc
    obtain ⟨front, hfront⟩ := List.dropWhile_suffix (l := str.rdropWhile isspace) isspace
    have hlast : (str.rdropWhile isspace).getLast? = some c := by
      rw [← hfront, List.getLast?_append, hc]
      rfl
    have hne : str.rdropWhile isspace ≠ [] := by
      rintro hnil
      simp [hnil] at hlast
    have hnot := List.rdropWhile_last_not isspace str hne
    rw [List.getLast?_eq_some_getLast hne] at hlast
    rw [Option.some.inj hlast] at hnot
    exact Bool.eq_false_iff.mpr hnot

end Strtrim

/-! ## Saving -/

/-- `fprintf` of `"%s = %s\n"`, without the newline. -/
def ConfPair.line (p : ConfPair) : CString := p.name ++ " = ".toList ++ p.value

/-- What `conf_save_to_file` writes. -/
def confSaveToFile (conf : PairList) : List Char := conf.flatMap fun p => p.line ++ ['\n']

/-! ## Loading -/

/-- `sizeof (buffer)` -/
def bufferSize : Nat := 512

/-- `fgets` of at most `room` bytes: the bytes read, and those left in the file. -/
def fgets : Nat → List Char → List Char × List Char
  | 0, file => ([], file)
  | _ + 1, [] => ([], [])
  | room + 1, c :: file =>
    if c = '\n' then ([c], file)
    else
      let (buffer, rest) := fgets room file
      (c :: buffer, rest)

/-- `strchr` of `=`, and the two strings that the NUL in its place makes. -/
def splitEqual : CString → Option (CString × CString)
  | [] => none
  | c :: str =>
    if c = '=' then some ([], str)
    else (splitEqual str).map fun (name, value) => (c :: name, value)

/-- The body of the loop; the buffer is a string up to its first NUL. -/
def loadBuffer (conf : PairList) (buffer : List Char) : PairList :=
  let buffer := strtrim (buffer.takeWhile (· ≠ '\x00'))
  if buffer = [] ∨ buffer.head? = some '#' then conf
  else
    match splitEqual buffer with
    | none => conf
    | some (name, value) => (confSet .all conf (some (strtrim name)) (some (strtrim value))).2

/-- A read gets on in the file. -/
theorem fgets_rest_length (room : Nat) (c : Char) (file : List Char) :
    (fgets (room + 1) (c :: file)).2.length < (c :: file).length := by
  have hle : ∀ (room : Nat) (file : List Char), (fgets room file).2.length ≤ file.length := by
    intro room file
    induction file generalizing room with
    | nil => cases room <;> simp [fgets]
    | cons c file ih =>
      cases room with
      | zero => simp [fgets]
      | succ room =>
        unfold fgets
        split
        · simp
        · exact Nat.le_succ_of_le (ih room)
  unfold fgets
  split
  · simp
  · exact Nat.lt_succ_of_le (hle room file)

/-- The loop of `conf_load_from_file`. -/
def loadLoop (conf : PairList) : List Char → PairList
  | [] => conf
  | c :: file =>
    loadLoop (loadBuffer conf (fgets (bufferSize - 1) (c :: file)).1)
      (fgets (bufferSize - 1) (c :: file)).2
  termination_by file => file.length
  decreasing_by exact fgets_rest_length 510 c file

/-- `conf_load_from_file`, on a file that was opened. -/
def confLoadFromFile (file : List Char) : PairList := loadLoop [] file

/-! ## One line -/

section Line

variable {conf : PairList} {l : CString}

/-- A line that fits is read whole, and a longer one in pieces. -/
theorem fgets_line (room : Nat) (hl : '\n' ∉ l) (rest : List Char) :
    fgets room (l ++ '\n' :: rest) =
      if l.length < room then (l ++ ['\n'], rest) else (l.take room, l.drop room ++ '\n' :: rest) := by
  induction l generalizing room with
  | nil =>
    cases room with
    | zero => simp [fgets]
    | succ room => simp [fgets]
  | cons c l ih =>
    simp only [List.mem_cons, not_or] at hl
    obtain ⟨hc, hl⟩ := hl
    cases room with
    | zero => simp [fgets]
    | succ room =>
      simp only [List.cons_append, fgets, if_neg (Ne.symm hc), ih room hl, List.length_cons,
        Nat.succ_lt_succ_iff]
      split <;> simp

/-- The line end does not matter. -/
theorem loadBuffer_newline (hl : '\x00' ∉ l) :
    loadBuffer conf (l ++ ['\n']) = loadBuffer conf l := by
  have htake : ∀ x : List Char, '\x00' ∉ x → x.takeWhile (· ≠ '\x00') = x := by
    intro x hx
    rw [List.takeWhile_eq_self_iff]
    intro c hc
    have hne : c ≠ '\x00' := fun h => hx (h ▸ hc)
    simpa using hne
  have hnul : '\x00' ∉ l ++ ['\n'] := by simpa using hl
  unfold loadBuffer
  rw [htake _ hnul, htake _ hl, strtrim_concat (by decide)]

/-- A line that fits the buffer is loaded by itself. Where it fills the buffer, the
next `fgets` gets its newline, which is skipped. -/
theorem loadLoop_line (hl : '\n' ∉ l) (hnul : '\x00' ∉ l) (hfit : l.length < bufferSize)
    (rest : List Char) :
    loadLoop conf (l ++ '\n' :: rest) = loadLoop (loadBuffer conf l) rest := by
  have hone : ∀ (conf : PairList) (l : CString) (rest : List Char), '\n' ∉ l →
      loadLoop conf (l ++ '\n' :: rest) =
        loadLoop (loadBuffer conf (fgets 511 (l ++ '\n' :: rest)).1)
          (fgets 511 (l ++ '\n' :: rest)).2 := by
    intro conf l rest _
    cases l with
    | nil => rw [List.nil_append, loadLoop]; rfl
    | cons c l => rw [List.cons_append, loadLoop]; rfl
  rw [hone conf l rest hl, fgets_line 511 hl]
  by_cases hroom : l.length < 511
  · rw [if_pos hroom, loadBuffer_newline hnul]
  · have hlen : l.length = 511 := by
      unfold bufferSize at hfit
      omega
    rw [if_neg hroom, ← hlen, List.take_length, List.drop_length, List.nil_append]
    have hskip : loadLoop (loadBuffer conf l) ([] ++ '\n' :: rest) =
        loadLoop (loadBuffer conf l) rest := by
      rw [hone _ [] rest (by simp), fgets_line 511 (by simp)]
      rfl
    exact hskip

/-- The first `=` splits the line. -/
theorem splitEqual_append {name : CString} (h : '=' ∉ name) (value : CString) :
    splitEqual (name ++ '=' :: value) = some (name, value) := by
  induction name with
  | nil => simp [splitEqual]
  | cons c name ih =>
    simp only [List.mem_cons, not_or] at h
    obtain ⟨hc, hname⟩ := h
    simp [splitEqual, Ne.symm hc, ih hname]

end Line

/-! ## Round trip -/

/-- A pair that its line can carry. -/
structure ConfPair.Savable (p : ConfPair) : Prop where
  nameBytes : '\n' ∉ p.name ∧ '\x00' ∉ p.name
  valueBytes : '\n' ∉ p.value ∧ '\x00' ∉ p.value
  nameTrimmed : Trimmed p.name
  valueTrimmed : Trimmed p.value
  nameNonempty : p.name ≠ []
  noEqual : '=' ∉ p.name
  noComment : p.name.head? ≠ some '#'
  /-- with the terminating NUL -/
  fits : p.line.length < bufferSize

/-- Its line is read as a pair of its name, with the value up to the blanks around it. -/
structure ConfPair.Named (p : ConfPair) : Prop where
  nameBytes : '\n' ∉ p.name ∧ '\x00' ∉ p.name
  valueBytes : '\n' ∉ p.value ∧ '\x00' ∉ p.value
  nameTrimmed : Trimmed p.name
  nameNonempty : p.name ≠ []
  noEqual : '=' ∉ p.name
  noComment : p.name.head? ≠ some '#'
  fits : p.line.length < bufferSize

theorem ConfPair.Savable.named {p : ConfPair} (h : p.Savable) : p.Named :=
  ⟨h.nameBytes, h.valueBytes, h.nameTrimmed, h.nameNonempty, h.noEqual, h.noComment, h.fits⟩

/-- What is read of its line. -/
def ConfPair.reread (p : ConfPair) : ConfPair := ⟨p.name, strtrim (' ' :: p.value)⟩

/-- A store holds each name once, whatever was done to it. -/
structure Store where
  conf : PairList
  nodup : (namesOf conf).Nodup

/-- No pair at all. -/
def Store.empty : Store := ⟨[], List.nodup_nil⟩

/-- A call on a store, which keeps its names distinct. -/
def Store.exec (s : Store) (compare : Option CompareFunc) (op : Op) : Store where
  conf := (op.exec ⟨s.conf, compare⟩).2.conf
  nodup :=
    (Refines.exec (s := (⟨s.conf, compare⟩, valueOf s.conf)) ⟨s.nodup, fun _ => rfl⟩ op).nodup

section RoundTrip

variable {conf : PairList} {p : ConfPair}

theorem ConfPair.Named.line_bytes (h : p.Named) : '\n' ∉ p.line ∧ '\x00' ∉ p.line := by
  unfold ConfPair.line
  simp [h.nameBytes, h.valueBytes]

/-- What ends in a character that is no blank is not cut. -/
theorem rdropWhile_append {l : CString} {c : Char} (hc : isspace c = false) (str : CString) :
    ((l ++ [c]) ++ str).rdropWhile isspace = (l ++ [c]) ++ str.rdropWhile isspace := by
  induction str using List.reverseRecOn with
  | nil =>
    rw [List.append_nil, List.rdropWhile_nil, List.append_nil]
    exact List.rdropWhile_concat_neg _ _ _ (by simp [hc])
  | append_singleton str d ih =>
    rw [← List.append_assoc]
    by_cases hd : isspace d = true
    · rw [List.rdropWhile_concat_pos _ _ _ hd, List.rdropWhile_concat_pos _ _ _ hd, ih]
    · rw [List.rdropWhile_concat_neg _ _ _ hd, List.rdropWhile_concat_neg _ _ _ hd,
        List.append_assoc]

/-- The blanks at the end of the value go with those of the line. -/
theorem ConfPair.Named.strtrim_line (h : p.Named) :
    Conf.strtrim p.line = p.name ++ ' ' :: '=' :: (' ' :: p.value).rdropWhile isspace := by
  have hline : p.line = ((p.name ++ [' ']) ++ ['=']) ++ ' ' :: p.value := by
    simp [ConfPair.line]
  have hhead : ∀ rest : CString, ∀ c ∈ (p.name ++ rest).head?, isspace c = false := by
    intro rest c hc
    rw [List.head?_append_of_ne_nil _ h.nameNonempty] at hc
    exact h.nameTrimmed.head c hc
  rw [hline, strtrim, rdropWhile_append (by decide), List.append_assoc, List.append_assoc,
    dropWhile_of_head (hhead _)]
  rfl

/-- A saved line is loaded as a `conf_set` of its name. -/
theorem ConfPair.Named.loadBuffer_line (h : p.Named) :
    loadBuffer conf p.line = (confSet .all conf (some p.name) (some p.reread.value)).2 := by
  have htake : p.line.takeWhile (· ≠ '\x00') = p.line := by
    rw [List.takeWhile_eq_self_iff]
    intro c hc
    have hne : c ≠ '\x00' := fun heq => h.line_bytes.2 (heq ▸ hc)
    simpa using hne
  have hname : strtrim (p.name ++ [' ']) = p.name := by
    rw [strtrim_concat (by decide), h.nameTrimmed.strtrim]
  have hvalue : strtrim ((' ' :: p.value).rdropWhile isspace) = p.reread.value := by
    show _ = strtrim (' ' :: p.value)
    rw [strtrim, strtrim, List.rdropWhile_idempotent]
  have hnoEqual : '=' ∉ p.name ++ [' '] := by simp [h.noEqual]
  have hsplit : splitEqual (strtrim p.line) =
      some (p.name ++ [' '], (' ' :: p.value).rdropWhile isspace) := by
    rw [h.strtrim_line, ← splitEqual_append hnoEqual]
    simp
  have hskip : ¬ (strtrim p.line = [] ∨ (strtrim p.line).head? = some '#') := by
    rw [h.strtrim_line, List.head?_append_of_ne_nil _ h.nameNonempty]
    simp [h.nameNonempty, h.noComment]
  unfold loadBuffer
  rw [htake]
  dsimp only
  rw [if_neg hskip, hsplit]
  dsimp only
  rw [hname, hvalue]

/-- Loading the saved pairs is setting them one after the other. -/
theorem loadLoop_save (conf pairs : PairList) (h : ∀ p ∈ pairs, p.Named) :
    loadLoop conf (confSaveToFile pairs) = (pairs.map ConfPair.reread).foldl
      (fun conf p => (confSet .all conf (some p.name) (some p.value)).2) conf := by
  induction pairs generalizing conf with
  | nil => rw [confSaveToFile, List.flatMap_nil, loadLoop, List.map_nil, List.foldl_nil]
  | cons p pairs ih =>
    have hp := h p (by simp)
    have hsave : confSaveToFile (p :: pairs) = p.line ++ '\n' :: confSaveToFile pairs := by
      simp [confSaveToFile]
    rw [hsave, loadLoop_line hp.line_bytes.1 hp.line_bytes.2 hp.fits, hp.loadBuffer_line,
      ih _ (fun q hq => h q (by simp [hq])), List.map_cons, List.foldl_cons]
    rfl

/-- Setting a pair, where memory does not run out. -/
theorem confSet_all (hnd : (namesOf conf).Nodup) (p : ConfPair) :
    (namesOf (confSet .all conf (some p.name) (some p.value)).2).Nodup ∧
      ∀ n, valueOf (confSet .all conf (some p.name) (some p.value)).2 n =
        if n = p.name then some p.value else valueOf conf n := by
  rcases @confSet_spec _ p.name p.value .all hnd with ⟨hfew, -⟩ | ⟨-, -, hset⟩
  · -- with memory there is no failure
    exact absurd hfew (by cases (valueOf conf p.name).isSome <;> decide)
  · exact hset

/-- However the file looks, a name is loaded once. -/
theorem confLoadFromFile_nodup (file : List Char) : (namesOf (confLoadFromFile file)).Nodup := by
  have hbuffer : ∀ (conf : PairList) (buffer : List Char), (namesOf conf).Nodup →
      (namesOf (loadBuffer conf buffer)).Nodup := by
    intro conf buffer hnd
    unfold loadBuffer
    dsimp only
    split
    · exact hnd
    · split
      next => exact hnd
      next name value _ => exact (confSet_all hnd ⟨strtrim name, strtrim value⟩).1
  have hloop : ∀ (conf : PairList) (file : List Char), (namesOf conf).Nodup →
      (namesOf (loadLoop conf file)).Nodup := by
    intro conf file hnd
    induction conf, file using loadLoop.induct with
    | case1 conf =>
      rw [loadLoop]
      exact hnd
    | case2 conf c file ih =>
      rw [loadLoop]
      exact ih (hbuffer _ _ hnd)
  exact hloop [] file List.nodup_nil

/-- Setting pairs of distinct names gives each its value. -/
theorem foldl_confSet (pairs : PairList) (hconf : (namesOf conf).Nodup)
    (hpairs : (namesOf pairs).Nodup) :
    let loaded := pairs.foldl (fun conf p => (confSet .all conf (some p.name) (some p.value)).2) conf
    (namesOf loaded).Nodup ∧ ∀ n, valueOf loaded n = (valueOf pairs n).or (valueOf conf n) := by
  induction pairs generalizing conf with
  | nil => exact ⟨hconf, fun n => by simp⟩
  | cons p pairs ih =>
    obtain ⟨hhead, htail⟩ := List.nodup_cons.mp hpairs
    obtain ⟨hnd, hset⟩ := confSet_all hconf p
    obtain ⟨hloaded, hlookup⟩ := ih hnd htail
    refine ⟨hloaded, fun n => (hlookup n).trans ?_⟩
    rw [hset, lookup_cons]
    by_cases hn : n = p.name
    · have hnone : valueOf pairs n = none := by
        rw [lookup_eq_none_iff, hn]
        exact hhead
      rw [hnone, if_pos hn, if_pos hn]
      rfl
    · rw [if_neg hn, if_neg hn]

/-- What is read of the line of a name. -/
theorem lookup_read (pairs : PairList) (n : CString) :
    valueOf (pairs.map ConfPair.reread) n =
      (valueOf pairs n).map fun v => strtrim (' ' :: v) := by
  induction pairs with
  | nil => rfl
  | cons p pairs ih =>
    rw [List.map_cons, lookup_cons, lookup_cons, ih]
    show (if n = p.name then some p.reread.value else _) = _
    split <;> rfl

/-- Loading what was saved of pairs with distinct names. -/
theorem loaded_named {pairs : PairList} (hnd : (namesOf pairs).Nodup) (h : ∀ p ∈ pairs, p.Named) :
    (namesOf (confLoadFromFile (confSaveToFile pairs))).Nodup ∧
      ∀ n, valueOf (confLoadFromFile (confSaveToFile pairs)) n =
        (valueOf pairs n).map fun v => strtrim (' ' :: v) := by
  have hnames : (namesOf (pairs.map ConfPair.reread)).Nodup := by
    rw [namesOf, List.map_map]
    exact hnd
  unfold confLoadFromFile
  rw [loadLoop_save [] pairs h]
  obtain ⟨hloaded, hlookup⟩ := @foldl_confSet [] _ List.nodup_nil hnames
  refine ⟨hloaded, fun n => (hlookup n).trans ?_⟩
  rw [lookup_nil, Option.or_none, lookup_read]

end RoundTrip

/-- What `conf_save_to_file` writes of a store, `conf_load_from_file` reads as a store
with the same map. -/
theorem confLoad_save (s : Store) (h : ∀ p ∈ s.conf, p.Savable) :
    (namesOf (confLoadFromFile (confSaveToFile s.conf))).Nodup ∧
      ∀ n, valueOf (confLoadFromFile (confSaveToFile s.conf)) n = valueOf s.conf n := by
  obtain ⟨hloaded, hlookup⟩ := loaded_named s.nodup fun p hp => (h p hp).named
  refine ⟨hloaded, fun n => (hlookup n).trans ?_⟩
  cases hv : valueOf s.conf n with
  | none => rfl
  | some v =>
    have hmem := (lookup_eq_some_iff s.nodup).mp hv
    exact congrArg some ((h _ hmem).valueTrimmed.strtrim_cons (by decide))

/-- A value that is empty, and one that holds an `=` and a `#`. -/
theorem confLoad_save_example :
    let s := (Store.empty.exec none (.set .all (some "Logger".toList) (some "a=#b".toList))).exec none
      (.set .all (some "Path".toList) (some []))
    (namesOf (confLoadFromFile (confSaveToFile s.conf))).Nodup ∧
      ∀ n, valueOf (confLoadFromFile (confSaveToFile s.conf)) n = valueOf s.conf n := by
  intro s
  have hs : s.conf = [⟨"Path".toList, []⟩, ⟨"Logger".toList, "a=#b".toList⟩] := by decide
  refine confLoad_save s ?_
  rw [hs]
  intro p hp
  simp only [List.mem_cons, List.not_mem_nil, or_false] at hp
  rcases hp with rfl | rfl
  · exact ⟨by decide, by decide, ⟨by simp [isspace], by simp [isspace]⟩,
      ⟨by simp [isspace], by simp [isspace]⟩, by decide, by decide, by decide, by decide⟩
  · exact ⟨by decide, by decide, ⟨by simp [isspace], by simp [isspace]⟩,
      ⟨by simp [isspace], by simp [isspace]⟩, by decide, by decide, by decide, by decide⟩

end AndroidLearn.Conf
