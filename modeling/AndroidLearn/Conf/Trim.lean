import AndroidLearn.Conf.Lines
import AndroidLearn.Lib.CMemory

/-!
# The bytes that `strtrim` touches

`strtrim` of `str.c`, and its calls in `conf_load_from_file` of `conf.c`. It looks for the
end of what is left from the last byte of the string on, at `str + strlen (str) - 1`. An
empty string has no last byte: this is the address below it, and the loop never meets
`str` on its way down.

A memory gives a byte for each address, below the string as well, and each loop returns
the addresses it has read, so that an access below the string is seen as such.
`TrimsWithin` says that all accesses are to the string and its NUL, and that what is left
is the string without the blanks at its ends. The loops have fuel, as the one that goes
down need not end.

Theorems:
- `trimsWithin_iff`: the empty string is the only one that is not trimmed within its
  bounds, for any memory around it;
- `loaderTrims_iff`: the loader has an empty string where it reads a NUL first, and where
  nothing stands on one side of the first `=` of a line;
- `trims_iff`: both, for every string and every file.
-/

namespace AndroidLearn.Conf

open CMemory

/-! ## The function -/

/-- Memory by address. -/
abbrev Mem := Int → Char

/-- The loop from the last byte down, in at most `fuel` rounds: where it stops, and what it
reads. -/
def scanDown (mem : Mem) (str : Int) : Nat → Int → Option (Int × List Int)
  | 0, _ => none
  | fuel + 1, ptr =>
    if ptr = str then some (ptr, [])
    else if isspace (mem ptr) then
      (scanDown mem str fuel (ptr - 1)).map fun (stop, reads) => (stop, ptr :: reads)
    else some (ptr, [ptr])

/-- The loop from the first byte up. -/
def scanUp (mem : Mem) : Nat → Int → Option (Int × List Int)
  | 0, _ => none
  | fuel + 1, ptr =>
    if mem ptr ≠ '\x00' ∧ isspace (mem ptr) then
      (scanUp mem fuel (ptr + 1)).map fun (stop, reads) => (stop, ptr :: reads)
    else some (ptr, [ptr])

/-- `strtrim` of a pointer that is not `NULL`: the memory behind it, and the addresses that
it reads or writes. -/
def strtrimAt (mem : Mem) (fuel : Nat) (str : Int) : Option (Mem × List Int) := do
  let (len, reads) ← strlen '\x00' mem fuel str
  let (ptr, down) ← scanDown mem str fuel (str + len - 1)
  let stop := if isspace (mem ptr) then ptr else ptr + 1
  let mem := Function.update mem stop '\x00'
  let (ptr', up) ← scanUp mem fuel str
  let touched := reads ++ down ++ [ptr, stop] ++ up
  if mem ptr' ≠ '\x00' ∧ ptr' ≠ str then
    let (len, reads) ← strlen '\x00' mem fuel ptr'
    some (memmove mem str ptr' (len + 1),
      touched ++ reads ++ range ptr' (len + 1) ++ range str (len + 1))
  else some (mem, touched)

/-- The string is trimmed, and no other byte is read or written. -/
def TrimsWithin (mem : Mem) (str : Int) (s : CString) : Prop :=
  ∃ mem' touched, (∀ fuel, s.length < fuel → strtrimAt mem fuel str = some (mem', touched)) ∧
    (∀ a ∈ touched, Within str s a) ∧ StringAt '\x00' mem' str (strtrim s)

/-! ## A string that is not empty -/

section Trims

variable {mem : Mem} {str : Int} {s : CString}

/-- The loop stops at the last byte that stays, or at the first one if none does. -/
theorem scanDown_eq (hs : s ≠ []) (h : BytesAt mem str s) :
    ∃ reads, (∀ fuel, s.length < fuel → scanDown mem str fuel (str + s.length - 1) =
        some (str + ((s.rdropWhile isspace).length - 1 : Nat), reads)) ∧
      ∀ a ∈ reads, Within str s a := by
  induction s using List.reverseRecOn with
  | nil => exact absurd rfl hs
  | append_singleton s c ih =>
    obtain ⟨hbytes, hlast⟩ := bytesAt_append.mp h
    rw [bytesAt_singleton] at hlast
    have hlength : (s ++ [c]).length = s.length + 1 := List.length_append
    have hptr : str + ((s ++ [c]).length : Nat) - 1 = str + s.length := by omega
    have hwithin : Within str (s ++ [c]) (str + s.length) := by
      unfold Within
      omega
    rw [hptr]
    by_cases hs : s = []
    · -- the first byte is not looked at here
      have hstop : ((s ++ [c]).rdropWhile isspace).length - 1 = 0 := by
        have hle := (List.rdropWhile_prefix isspace (s ++ [c])).length_le
        have hnil : s.length = 0 := List.length_eq_zero_iff.mpr hs
        omega
      refine ⟨[], fun fuel hfuel => ?_, List.forall_mem_nil _⟩
      obtain ⟨fuel, rfl⟩ := Nat.exists_eq_succ_of_ne_zero (Nat.ne_of_gt (Nat.zero_lt_of_lt hfuel))
      rw [hstop, hs, List.length_nil, scanDown, Int.natCast_zero, Int.add_zero, if_pos rfl]
    · have hpos := List.length_pos_iff.mpr hs
      have hne : str + (s.length : Int) ≠ str := by omega
      by_cases hc : isspace c = true
      · obtain ⟨reads, hscan, hreads⟩ := ih hs hbytes
        refine ⟨(str + s.length) :: reads, fun fuel hfuel => ?_,
          List.forall_mem_cons.mpr ⟨hwithin, fun a ha => ?_⟩⟩
        · obtain ⟨fuel, rfl⟩ := Nat.exists_eq_succ_of_ne_zero (Nat.ne_of_gt (Nat.zero_lt_of_lt hfuel))
          rw [scanDown, if_neg hne, hlast, if_pos hc, hscan fuel (by omega),
            List.rdropWhile_concat_pos _ _ _ hc]
          rfl
        · obtain ⟨hle, hlt⟩ := hreads a ha
          exact ⟨hle, by omega⟩
      · refine ⟨[str + s.length], fun fuel hfuel => ?_, List.forall_mem_singleton.mpr hwithin⟩
        obtain ⟨fuel, rfl⟩ := Nat.exists_eq_succ_of_ne_zero (Nat.ne_of_gt (Nat.zero_lt_of_lt hfuel))
        rw [scanDown, if_neg hne, hlast, if_neg hc, List.rdropWhile_concat_neg _ _ _ hc, hlength,
          Nat.add_sub_cancel]

/-- The NUL goes behind what stays. -/
theorem cut_eq (hs : s ≠ []) (h : StringAt '\x00' mem str s) :
    let ptr := str + ((s.rdropWhile isspace).length - 1 : Nat)
    (if isspace (mem ptr) then ptr else ptr + 1) = str + (s.rdropWhile isspace).length := by
  intro ptr
  obtain ⟨back, hback⟩ := List.rdropWhile_prefix isspace s
  by_cases hnil : s.rdropWhile isspace = []
  · -- all bytes are blank, so the first one is
    have hall := List.rdropWhile_eq_nil_iff.mp hnil
    obtain ⟨c, rest, rfl⟩ := List.exists_cons_of_ne_nil hs
    have hptr : ptr = str := by
      show str + (((c :: rest).rdropWhile isspace).length - 1 : Nat) = str
      rw [hnil]
      simp
    rw [hptr, (bytesAt_cons.mp h.bytes).1, if_pos (hall c List.mem_cons_self), hnil]
    simp
  · have hlast := List.rdropWhile_last_not isspace s hnil
    have hlength := List.length_pos_iff.mpr hnil
    have hbytes : BytesAt mem str (s.rdropWhile isspace ++ back) := by
      rw [hback]
      exact h.bytes
    have hbyte : mem ptr = (s.rdropWhile isspace).getLast hnil := by
      refine (bytesAt_append.mp hbytes).1 _ _ ?_
      rw [← List.getLast?_eq_getElem?, List.getLast?_eq_some_getLast hnil]
    rw [hbyte, if_neg hlast]
    omega

/-- The scan stops behind the blanks in front, and reads the string only. -/
theorem scanUp_eq (h : StringAt '\x00' mem str s) :
    ∃ reads, (∀ fuel, s.length < fuel → scanUp mem fuel str =
        some (str + (s.takeWhile isspace).length, reads)) ∧ ∀ a ∈ reads, Within str s a := by
  induction s generalizing str with
  | nil =>
    have hend := h.ends
    rw [List.length_nil, Int.natCast_zero, Int.add_zero] at hend
    refine ⟨[str], fun fuel hfuel => ?_, List.forall_mem_singleton.mpr ⟨Int.le_refl _, by simp⟩⟩
    obtain ⟨fuel, rfl⟩ := Nat.exists_eq_succ_of_ne_zero (Nat.ne_of_gt hfuel)
    rw [scanUp, if_neg fun hand => hand.1 hend, List.takeWhile_nil, List.length_nil,
      Int.natCast_zero, Int.add_zero]
  | cons c s ih =>
    have hbyte : mem str = c := (bytesAt_cons.mp h.bytes).1
    have hne : c ≠ '\x00' := fun hc => h.free (hc ▸ List.mem_cons_self)
    have htail : StringAt '\x00' mem (str + 1) s := StringAt.of_append (s := [c]) h
    have hlength : (c :: s).length = s.length + 1 := List.length_cons
    have hwithin : Within str (c :: s) str := ⟨Int.le_refl _, by omega⟩
    by_cases hc : isspace c = true
    · obtain ⟨reads, hscan, hreads⟩ := ih htail
      refine ⟨str :: reads, fun fuel hfuel => ?_,
        List.forall_mem_cons.mpr ⟨hwithin, fun a ha => ?_⟩⟩
      · obtain ⟨fuel, rfl⟩ := Nat.exists_eq_succ_of_ne_zero (Nat.ne_of_gt (Nat.zero_lt_of_lt hfuel))
        have hstop : str + 1 + (s.takeWhile isspace).length =
            str + ((s.takeWhile isspace).length + 1 : Nat) := by omega
        rw [scanUp, hbyte, if_pos ⟨hne, hc⟩, hscan fuel (by omega), List.takeWhile_cons_of_pos hc,
          List.length_cons, Option.map_some, hstop]
      · obtain ⟨hle, hlt⟩ := hreads a ha
        exact ⟨by omega, by omega⟩
    · refine ⟨[str], fun fuel hfuel => ?_, List.forall_mem_singleton.mpr hwithin⟩
      obtain ⟨fuel, rfl⟩ := Nat.exists_eq_succ_of_ne_zero (Nat.ne_of_gt (Nat.zero_lt_of_lt hfuel))
      rw [scanUp, hbyte, if_neg fun hand => hc hand.2, List.takeWhile_cons_of_neg hc,
        List.length_nil, Int.natCast_zero, Int.add_zero]

/-- What is left in front of the NUL has to be moved unless it begins with what stays. -/
theorem moves_iff (h : StringAt '\x00' mem str (s.rdropWhile isspace)) :
    let ptr := str + ((s.rdropWhile isspace).takeWhile isspace).length
    (mem ptr ≠ '\x00' ∧ ptr ≠ str) ↔ (s.rdropWhile isspace).takeWhile isspace ≠ [] := by
  intro ptr
  constructor
  · rintro ⟨-, hne⟩ hnil
    refine hne ?_
    show str + (((s.rdropWhile isspace).takeWhile isspace).length : Int) = str
    rw [hnil, List.length_nil, Int.natCast_zero, Int.add_zero]
  · intro hblank
    have hpos := List.length_pos_iff.mpr hblank
    refine ⟨?_, by omega⟩
    -- the last byte is not blank, so there is one behind the blanks
    have hne : s.rdropWhile isspace ≠ [] := by
      intro hnil
      rw [hnil] at hblank
      exact hblank rfl
    have hlast := List.rdropWhile_last_not isspace s hne
    have hstrtrim : strtrim s ≠ [] := by
      intro hnil
      exact hlast (List.dropWhile_eq_nil_iff.mp hnil _ (List.getLast_mem hne))
    obtain ⟨c, rest, hrest⟩ := List.exists_cons_of_ne_nil hstrtrim
    have hstring := h
    rw [← List.takeWhile_append_dropWhile (p := isspace) (l := s.rdropWhile isspace)] at hstring
    have hbehind : StringAt '\x00' mem ptr (strtrim s) := hstring.of_append
    rw [hrest] at hbehind
    rw [(bytesAt_cons.mp hbehind.bytes).1]
    exact fun hc => hbehind.free (hc ▸ List.mem_cons_self)

/-- The parts of a string, and its NUL, are within it. -/
theorem within_range {a : Int} {n k : Nat} (hfits : k + n ≤ s.length)
    (ha : a ∈ range (str + k) (n + 1)) : Within str s a := by
  obtain ⟨hle, hlt⟩ := mem_range.mp ha
  exact ⟨by omega, by omega⟩

/-- The string without its blank end. -/
theorem cut_string (h : StringAt '\x00' mem str s) :
    StringAt '\x00' (Function.update mem (str + (s.rdropWhile isspace).length) '\x00') str
      (s.rdropWhile isspace) := by
  obtain ⟨back, hback⟩ := List.rdropWhile_prefix isspace s
  have hstring := h
  rw [← hback] at hstring
  exact hstring.cut

/-- Up to the test in front of `memmove`. -/
theorem strtrimAt_cut (hs : s ≠ []) (h : StringAt '\x00' mem str s) {mem' : Mem} {ptr : Int}
    (hmem' : mem' = Function.update mem (str + (s.rdropWhile isspace).length) '\x00')
    (hptr : ptr = str + ((s.rdropWhile isspace).takeWhile isspace).length) :
    ∃ touched, (∀ a ∈ touched, Within str s a) ∧ ∀ fuel, s.length < fuel →
      strtrimAt mem fuel str =
        if mem' ptr ≠ '\x00' ∧ ptr ≠ str then do
          let (len, reads) ← strlen '\x00' mem' fuel ptr
          some (memmove mem' str ptr (len + 1),
            touched ++ reads ++ range ptr (len + 1) ++ range str (len + 1))
        else some (mem', touched) := by
  have hshort := (List.rdropWhile_prefix isspace s).length_le
  obtain ⟨down, hdown, hdownWithin⟩ := scanDown_eq hs h.bytes
  obtain ⟨up, hup, hupWithin⟩ := scanUp_eq (cut_string h)
  rw [← hmem', ← hptr] at hup
  refine ⟨range str (s.length + 1) ++ down ++
    [str + ((s.rdropWhile isspace).length - 1 : Nat), str + (s.rdropWhile isspace).length] ++ up,
    fun a ha => ?_, fun fuel hfuel => ?_⟩
  · simp only [List.mem_append, List.mem_cons, List.not_mem_nil, or_false] at ha
    rcases ha with ((ha | ha) | rfl | rfl) | ha
    · obtain ⟨hle, hlt⟩ := mem_range.mp ha
      exact ⟨hle, by omega⟩
    · exact hdownWithin a ha
    · exact ⟨by omega, by omega⟩
    · exact ⟨by omega, by omega⟩
    · obtain ⟨hle, hlt⟩ := hupWithin a ha
      exact ⟨hle, by omega⟩
  · unfold strtrimAt
    simp only [Option.bind_eq_bind, h.strlen hfuel, Option.bind_some, hdown fuel hfuel, cut_eq hs h,
      ← hmem', hup fuel (by omega)]

/-- A string with a byte in it is trimmed within its bounds. -/
theorem trimsWithin_of_ne_nil (hs : s ≠ []) (h : StringAt '\x00' mem str s) :
    TrimsWithin mem str s := by
  have hsplit : (s.rdropWhile isspace).takeWhile isspace ++ strtrim s = s.rdropWhile isspace :=
    List.takeWhile_append_dropWhile
  have hshort := (List.rdropWhile_prefix isspace s).length_le
  have hlength := congrArg List.length hsplit
  rw [List.length_append] at hlength
  obtain ⟨mem', hmem'⟩ : ∃ mem', mem' =
      Function.update mem (str + (s.rdropWhile isspace).length) '\x00' := ⟨_, rfl⟩
  obtain ⟨ptr, hptr⟩ : ∃ ptr, ptr = str + ((s.rdropWhile isspace).takeWhile isspace).length :=
    ⟨_, rfl⟩
  have hcut := cut_string h
  have hmoves := moves_iff hcut
  rw [← hmem'] at hcut hmoves
  obtain ⟨touched, hwithin, hrun⟩ := strtrimAt_cut hs h hmem' hptr
  by_cases hblank : (s.rdropWhile isspace).takeWhile isspace = []
  · refine ⟨mem', touched, fun fuel hfuel => ?_, hwithin, ?_⟩
    · rw [hrun fuel hfuel, hptr]
      exact if_neg fun hand => hmoves.mp hand hblank
    · rw [hblank, List.nil_append] at hsplit
      rw [hsplit]
      exact hcut
  · rw [← hsplit] at hcut
    refine ⟨_, touched ++ range ptr ((strtrim s).length + 1) ++ range ptr ((strtrim s).length + 1) ++
      range str ((strtrim s).length + 1), fun fuel hfuel => ?_, ?_, hcut.memmove⟩
    · rw [hrun fuel hfuel, hptr, if_pos (hmoves.mpr hblank), hcut.of_append.strlen (by omega)]
      rfl
    · intro a ha
      rw [hptr] at ha
      simp only [List.mem_append] at ha
      rcases ha with ((ha | ha) | ha) | ha
      · exact hwithin a ha
      · exact within_range (by omega) ha
      · exact within_range (by omega) ha
      · exact within_range (k := 0) (n := (strtrim s).length) (by omega) (by simpa using ha)

/-- An empty string is not: the byte below it is read. -/
theorem not_trimsWithin_nil (h : StringAt '\x00' mem str []) : ¬ TrimsWithin mem str [] := by
  intro htrims
  obtain ⟨mem', touched, hrun, hwithin, -⟩ := htrims
  have hbelow : str - 1 ∈ touched := by
    have hone := hrun 1 (Nat.lt_succ_self 0)
    have hptr : str + (([] : CString).length : Nat) - 1 = str - 1 := by
      rw [List.length_nil, Int.natCast_zero, Int.add_zero]
    have hne : str - 1 ≠ str := by omega
    unfold strtrimAt at hone
    simp only [Option.bind_eq_bind, h.strlen (Nat.lt_succ_self 0), Option.bind_some, hptr, scanDown,
      if_neg hne] at hone
    obtain ⟨⟨ptr, down⟩, hscan, hrest⟩ := Option.bind_eq_some_iff.mp hone
    split at hscan
    next => exact absurd hscan (by simp)
    next hbyte =>
      obtain ⟨rfl, rfl⟩ := Prod.mk.inj (Option.some.inj hscan)
      obtain ⟨⟨ptr', up⟩, -, hrest⟩ := Option.bind_eq_some_iff.mp hrest
      simp only [hbyte, Bool.false_eq_true, if_false] at hrest
      split at hrest
      · obtain ⟨⟨len, reads⟩, -, hsome⟩ := Option.bind_eq_some_iff.mp hrest
        obtain ⟨-, rfl⟩ := Prod.mk.inj (Option.some.inj hsome)
        simp
      · obtain ⟨-, rfl⟩ := Prod.mk.inj (Option.some.inj hrest)
        simp
  obtain ⟨hle, -⟩ := hwithin _ hbelow
  omega

/-- Trimmed within its bounds is every string but the empty one. -/
theorem trimsWithin_iff (h : StringAt '\x00' mem str s) : TrimsWithin mem str s ↔ s ≠ [] := by
  constructor
  · rintro htrims rfl
    exact not_trimsWithin_nil h htrims
  · exact fun hs => trimsWithin_of_ne_nil hs h

end Trims

/-! ## The strings that the loader trims -/

/-- What is given to `strtrim` for one buffer: the buffer, and both sides of the first `=`. -/
def bufferTrims (buffer : List Char) : List CString :=
  cstring buffer ::
    match (lineText (cstring buffer)).bind splitEqual with
    | none => []
    | some (name, value) => [name, value]

/-- Each of them is trimmed within its bounds, wherever it is in memory. -/
def LoaderTrims (file : List Char) : Prop :=
  ∀ buffer ∈ reads file, ∀ s ∈ bufferTrims buffer, ∀ mem str,
    StringAt '\x00' mem str s → TrimsWithin mem str s

/-- Nothing that is read begins with a NUL, and the first `=` of a line that is parsed has
something on both sides. -/
structure BothSides (file : List Char) : Prop where
  noNul : ∀ buffer ∈ reads file, buffer.head? ≠ some '\x00'
  sides : ∀ buffer ∈ reads file, ∀ name value,
    lineText (cstring buffer) = some (name ++ '=' :: value) → '=' ∉ name → name ≠ [] ∧ value ≠ []

/-- Where a text is split. -/
theorem splitEqual_eq_some {text name value : CString} :
    splitEqual text = some (name, value) ↔ text = name ++ '=' :: value ∧ '=' ∉ name := by
  constructor
  · intro h
    induction text generalizing name with
    | nil => cases h
    | cons c text ih =>
      unfold splitEqual at h
      split at h
      next hc =>
        obtain ⟨rfl, rfl⟩ := Prod.mk.inj (Option.some.inj h)
        rw [hc]
        exact ⟨rfl, List.not_mem_nil⟩
      next hc =>
        obtain ⟨⟨front, back⟩, hsplit, heq⟩ := Option.map_eq_some_iff.mp h
        obtain ⟨rfl, rfl⟩ := Prod.mk.inj heq
        obtain ⟨rfl, hfront⟩ := ih hsplit
        refine ⟨rfl, fun hmem => ?_⟩
        rcases List.mem_cons.mp hmem with heq | hmem
        · exact hc heq.symm
        · exact hfront hmem
  · rintro ⟨rfl, hname⟩
    exact splitEqual_append hname value

/-- A read gives something. -/
theorem reads_ne_nil {file buffer : List Char} (h : buffer ∈ reads file) : buffer ≠ [] := by
  induction file using reads.induct with
  | case1 =>
    rw [reads] at h
    cases h
  | case2 c file ih =>
    rw [reads, List.mem_cons] at h
    rcases h with rfl | h
    · -- there is room for the first character
      rw [bufferSize, fgets]
      split
      · exact List.cons_ne_nil _ _
      · exact List.cons_ne_nil _ _
    · exact ih h

/-- A string without a NUL can be anywhere, so it may not be empty. -/
theorem forall_trimsWithin_iff {s : CString} (hfree : '\x00' ∉ s) :
    (∀ mem str, StringAt '\x00' mem str s → TrimsWithin mem str s) ↔ s ≠ [] := by
  constructor
  · rintro hall rfl
    have hempty : StringAt '\x00' (fun _ => '\x00') 0 [] := ⟨bytesAt_nil, hfree, rfl⟩
    exact not_trimsWithin_nil hempty (hall _ _ hempty)
  · exact fun hs mem str h => trimsWithin_of_ne_nil hs h

/-- A read is an empty string if a NUL comes first. -/
theorem cstring_ne_nil_iff {buffer : List Char} (h : buffer ≠ []) :
    cstring buffer ≠ [] ↔ buffer.head? ≠ some '\x00' := by
  obtain ⟨c, rest, rfl⟩ := List.exists_cons_of_ne_nil h
  rw [cstring, List.head?_cons]
  by_cases hc : c = '\x00'
  · simp [hc]
  · simp [hc]

/-- The sides of the first `=` have no NUL, as the buffer has none in front of its end. -/
theorem nul_notMem_sides {buffer : List Char} {name value : CString}
    (h : lineText (cstring buffer) = some (name ++ '=' :: value)) :
    '\x00' ∉ name ∧ '\x00' ∉ value := by
  have hfree : '\x00' ∉ name ++ '=' :: value := fun hmem => by
    rw [lineText_eq_some h] at hmem
    exact nul_notMem_cstring buffer (strtrim_subset hmem)
  exact ⟨fun hmem => hfree (List.mem_append_left _ hmem),
    fun hmem => hfree (List.mem_append_right _ (List.mem_cons_of_mem _ hmem))⟩

/-- What is trimmed of a buffer: its text, and the two parts it is split into. -/
theorem mem_bufferTrims {buffer : List Char} {s : CString} :
    s ∈ bufferTrims buffer ↔ s = cstring buffer ∨ ∃ name value,
      lineText (cstring buffer) = some (name ++ '=' :: value) ∧ '=' ∉ name ∧
        (s = name ∨ s = value) := by
  rw [bufferTrims, List.mem_cons]
  refine or_congr_right ?_
  cases hsplit : (lineText (cstring buffer)).bind splitEqual with
  | none =>
    refine iff_of_false List.not_mem_nil ?_
    rintro ⟨name, value, htext, hname, -⟩
    rw [htext, Option.bind_some, splitEqual_append hname] at hsplit
    cases hsplit
  | some sides =>
    obtain ⟨name, value⟩ := sides
    obtain ⟨text, htext, hsides⟩ := Option.bind_eq_some_iff.mp hsplit
    obtain ⟨rfl, hname⟩ := splitEqual_eq_some.mp hsides
    constructor
    · intro hs
      refine ⟨name, value, htext, hname, ?_⟩
      simpa using hs
    · rintro ⟨name', value', htext', hname', hs⟩
      rw [htext', Option.bind_some, splitEqual_append hname'] at hsplit
      obtain ⟨rfl, rfl⟩ := Prod.mk.inj (Option.some.inj hsplit)
      simpa using hs

/-- The loader stays within its strings exactly for the files where no string is empty. -/
theorem loaderTrims_iff (file : List Char) : LoaderTrims file ↔ BothSides file := by
  constructor
  · intro h
    constructor
    · intro buffer hbuffer
      rw [← cstring_ne_nil_iff (reads_ne_nil hbuffer)]
      exact (forall_trimsWithin_iff (nul_notMem_cstring buffer)).mp
        (h buffer hbuffer _ (mem_bufferTrims.mpr (Or.inl rfl)))
    · intro buffer hbuffer name value htext hname
      obtain ⟨hfree, hfree'⟩ := nul_notMem_sides htext
      constructor
      · exact (forall_trimsWithin_iff hfree).mp (h buffer hbuffer _
          (mem_bufferTrims.mpr (Or.inr ⟨name, value, htext, hname, Or.inl rfl⟩)))
      · exact (forall_trimsWithin_iff hfree').mp (h buffer hbuffer _
          (mem_bufferTrims.mpr (Or.inr ⟨name, value, htext, hname, Or.inr rfl⟩)))
  · intro h buffer hbuffer s hs mem str hstring
    refine trimsWithin_of_ne_nil ?_ hstring
    rcases mem_bufferTrims.mp hs with rfl | ⟨name, value, htext, hname, rfl | rfl⟩
    · exact (cstring_ne_nil_iff (reads_ne_nil hbuffer)).mpr (h.noNul buffer hbuffer)
    · exact (h.sides buffer hbuffer _ _ htext hname).1
    · exact (h.sides buffer hbuffer _ _ htext hname).2

/-- A string is trimmed within its bounds unless it is empty, and so are the strings of a
file unless one of them is. -/
theorem trims_iff {mem : Mem} {str : Int} {s : CString} (h : StringAt '\x00' mem str s)
    (file : List Char) :
    (TrimsWithin mem str s ↔ s ≠ []) ∧ (LoaderTrims file ↔ BothSides file) :=
  ⟨trimsWithin_iff h, loaderTrims_iff file⟩

/-- A blank in front of a letter is trimmed. -/
theorem trims_blank :
    TrimsWithin (fun a => if a = 0 then ' ' else if a = 1 then 'a' else '\x00') 0 [' ', 'a'] ∧
      LoaderTrims [' ', 'a'] := by
  have hstring : StringAt '\x00'
      (fun a : Int => if a = 0 then ' ' else if a = 1 then 'a' else '\x00') 0 [' ', 'a'] := by
    refine ⟨bytesAt_cons.mpr ⟨rfl, bytesAt_cons.mpr ⟨rfl, bytesAt_nil⟩⟩, ?_, rfl⟩
    simp
  have hfile : reads [' ', 'a'] = [[' ', 'a']] := by
    rw [reads, show fgets (bufferSize - 1) [' ', 'a'] = ([' ', 'a'], []) from rfl, reads]
  refine ⟨(trims_iff hstring []).1.mpr (List.cons_ne_nil _ _), (trims_iff hstring _).2.mpr ?_⟩
  constructor
  · rw [hfile]
    exact List.forall_mem_singleton.mpr (by simp)
  · rw [hfile]
    refine List.forall_mem_singleton.mpr fun name value htext _ => ?_
    have htrimmed : lineText (cstring [' ', 'a']) = some ['a'] := rfl
    have hmem : '=' ∈ ['a'] := by
      rw [htrimmed] at htext
      rw [Option.some.inj htext]
      simp
    simp at hmem

/-- The value of `a=` is not trimmed within its bounds. -/
theorem trims_fails_value :
    ¬ ((∀ mem str s, StringAt '\x00' mem str s → TrimsWithin mem str s) ∧
      LoaderTrims ['a', '=']) := by
  rintro ⟨-, hloader⟩
  have hfile : reads ['a', '='] = [['a', '=']] := by
    rw [reads, show fgets (bufferSize - 1) ['a', '='] = (['a', '='], []) from rfl, reads]
  have hsides := ((loaderTrims_iff _).mp hloader).sides ['a', '='] (by simp [hfile]) ['a'] [] rfl
    (by simp)
  exact hsides.2 rfl

end AndroidLearn.Conf
