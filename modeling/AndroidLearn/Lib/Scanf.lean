import Mathlib.Data.List.TakeWhile

/-!
# Scanning a text by a format

A format is a list of directives: blanks, a literal character, or a conversion of a
decimal or hexadecimal number, of a word or of a set, which may be suppressed. Each takes
what it matches from the front of the text, up to the first one that fails; `sscanf`
returns how many values it has assigned, or -1 if the text ends before the first
(`Scan.count`).

There is a lemma for each directive, on a text that begins with what it matches
(`scan_literal`, `scan_space_blanks`, `read_int`, `read_word` and so on), and they are
applied from the front of the text to its end. A number that is printed is read back
(`ofDigits_toDigits`). What is left is always a suffix of the text (`read_suffix`).

Widths, values that do not fit their type, and the other conversions are not here.
-/

namespace AndroidLearn.Scanf

/-- The conversions that are used here. -/
inductive Conversion
  /-- `%d` and `%ld` (10), `%lx` (16) -/
  | int (base : Nat)
  /-- `%s` -/
  | word
  /-- `%[..]` -/
  | set (accepts : Char → Bool)

/-- A part of a format. -/
inductive Directive
  /-- any white space, or none -/
  | space
  | literal (c : Char)
  | assign (conversion : Conversion)
  /-- `%*` -/
  | skip (conversion : Conversion)

/-- What a conversion gives. -/
inductive Value
  | int (n : Int)
  | text (s : List Char)
  deriving DecidableEq, Repr

/-- Why a scan ended before its format did. -/
inductive Failure
  | matching
  /-- the text has ended -/
  | input
  deriving DecidableEq, Repr

/-- `isspace` -/
def isSpace (c : Char) : Bool := [' ', '\t', '\n', '\x0b', '\x0c', '\r'].contains c

/-- The value of a digit, up to that of `f`. -/
def digitValue (c : Char) : Option Nat :=
  if c.isDigit then some (c.toNat - '0'.toNat)
  else if 'a' ≤ c ∧ c ≤ 'f' then some (c.toNat - 'a'.toNat + 10)
  else if 'A' ≤ c ∧ c ≤ 'F' then some (c.toNat - 'A'.toNat + 10)
  else none

/-- Is it a digit in this base? -/
def isDigit (base : Nat) (c : Char) : Bool := (digitValue c).any (· < base)

/-- The number that digits stand for. -/
def ofDigits (base : Nat) (digits : List Char) : Nat :=
  digits.foldl (fun n c => base * n + (digitValue c).getD 0) 0

/-- What is behind a sign, if there is one. -/
def dropSign (s : List Char) : List Char :=
  if s.head? = some '-' ∨ s.head? = some '+' then s.tail else s

/-- `0x`, which may stand before the digits of a hexadecimal number. -/
def dropHexPrefix (base : Nat) : List Char → List Char
  | '0' :: x :: c :: s =>
    if base = 16 ∧ (x = 'x' ∨ x = 'X') ∧ isDigit base c then c :: s else '0' :: x :: c :: s
  | s => s

/-- What a conversion takes from the front of a text. -/
def Conversion.read : Conversion → List Char → Except Failure (Value × List Char)
  | .int base, s =>
    let s := s.dropWhile isSpace
    if s = [] then .error .input
    else
      let negative := s.head? = some '-'
      let s := dropHexPrefix base (dropSign s)
      let digits := s.takeWhile (isDigit base)
      if digits = [] then .error .matching
      else
        let n := ofDigits base digits
        .ok (.int (if negative then -n else n), s.dropWhile (isDigit base))
  | .word, s =>
    let s := s.dropWhile isSpace
    if s = [] then .error .input
    else .ok (.text (s.takeWhile fun c => ! isSpace c), s.dropWhile fun c => ! isSpace c)
  | .set accepts, s =>
    if s = [] then .error .input
    else if s.takeWhile accepts = [] then .error .matching
    else .ok (.text (s.takeWhile accepts), s.dropWhile accepts)

/-- What a scan gives: the values that were assigned, and how it ended. -/
structure Scan where
  values : List Value
  failure : Option Failure
  deriving DecidableEq, Repr

/-- A scan of a text by a format, from the front. -/
def scan : List Directive → List Char → Scan
  | [], _ => ⟨[], none⟩
  | .space :: format, s => scan format (s.dropWhile isSpace)
  | .literal _ :: _, [] => ⟨[], some .input⟩
  | .literal c :: format, d :: s => if c = d then scan format s else ⟨[], some .matching⟩
  | .assign conversion :: format, s =>
    match conversion.read s with
    | .error failure => ⟨[], some failure⟩
    | .ok (value, s) =>
      let rest := scan format s
      { rest with values := value :: rest.values }
  | .skip conversion :: format, s =>
    match conversion.read s with
    | .error failure => ⟨[], some failure⟩
    | .ok (_, s) => scan format s

/-- What `sscanf` returns. -/
def Scan.count (scan : Scan) : Int :=
  if scan.values = [] ∧ scan.failure = some .input then -1 else scan.values.length

/-- The first word of a text, without the white space in front of it. -/
def firstWord (s : List Char) : List Char :=
  (s.dropWhile isSpace).takeWhile fun c => ! isSpace c

variable {base : Nat} {c : Char} {s rest t blanks digits lits : List Char}
  {format : List Directive} {conversion : Conversion} {value : Value}

/-! ## What is left of a text is an end of it -/

/-- What is behind a sign is an end of the text. -/
theorem dropSign_suffix (s : List Char) : dropSign s <:+ s := by
  unfold dropSign
  split
  · exact List.tail_suffix s
  · exact List.suffix_refl s

/-- What is behind `0x` is an end of the text. -/
theorem dropHexPrefix_suffix (base : Nat) (s : List Char) : dropHexPrefix base s <:+ s := by
  unfold dropHexPrefix
  split
  · split
    · exact ⟨[_, _], rfl⟩
    · exact List.suffix_refl _
  · exact List.suffix_refl s

/-- What a conversion leaves is an end of the text. -/
theorem read_suffix (h : conversion.read s = .ok (value, rest)) : rest <:+ s := by
  have hblank := List.dropWhile_suffix isSpace (l := s)
  cases conversion with
  | int base =>
    simp only [Conversion.read] at h
    split at h
    · cases h
    split at h
    · cases h
    obtain ⟨-, rfl⟩ := Prod.mk.inj (Except.ok.inj h)
    exact ((List.dropWhile_suffix _).trans (dropHexPrefix_suffix base _)).trans
      ((dropSign_suffix _).trans hblank)
  | word =>
    simp only [Conversion.read] at h
    split at h
    · cases h
    obtain ⟨-, rfl⟩ := Prod.mk.inj (Except.ok.inj h)
    exact (List.dropWhile_suffix _).trans hblank
  | set accepts =>
    simp only [Conversion.read] at h
    split at h
    · cases h
    split at h
    · cases h
    obtain ⟨-, rfl⟩ := Prod.mk.inj (Except.ok.inj h)
    exact List.dropWhile_suffix _

/-- It gives no more than the text has. -/
theorem read_length (h : conversion.read s = .ok (value, rest)) :
    rest.length ≤ s.length ∧ ∀ t, value = .text t → t.length ≤ s.length := by
  refine ⟨(read_suffix h).length_le, fun t ht => ?_⟩
  cases conversion with
  | int base =>
    simp only [Conversion.read] at h
    split at h
    · cases h
    split at h
    · cases h
    obtain ⟨rfl, -⟩ := Prod.mk.inj (Except.ok.inj h)
    cases ht
  | word =>
    simp only [Conversion.read] at h
    split at h
    · cases h
    obtain ⟨rfl, -⟩ := Prod.mk.inj (Except.ok.inj h)
    cases ht
    exact (List.takeWhile_sublist _).length_le.trans (List.dropWhile_sublist isSpace).length_le
  | set accepts =>
    simp only [Conversion.read] at h
    split at h
    · cases h
    split at h
    · cases h
    obtain ⟨rfl, -⟩ := Prod.mk.inj (Except.ok.inj h)
    cases ht
    exact (List.takeWhile_sublist _).length_le

/-- A text that is read is no longer than the one it is read from. -/
theorem scan_text_length (h : .text t ∈ (scan format s).values) : t.length ≤ s.length := by
  induction format generalizing s with
  | nil => exact absurd h List.not_mem_nil
  | cons directive format ih =>
    cases directive with
    | space => exact (ih h).trans (List.dropWhile_sublist _).length_le
    | literal c =>
      cases s with
      | nil => exact absurd h List.not_mem_nil
      | cons d s =>
        rw [scan] at h
        split at h
        · exact (ih h).trans (Nat.le_succ _)
        · exact absurd h List.not_mem_nil
    | assign conversion =>
      rw [scan] at h
      split at h
      · exact absurd h List.not_mem_nil
      next hread =>
        rcases List.mem_cons.mp h with rfl | h
        · exact (read_length hread).2 _ rfl
        · exact (ih h).trans (read_length hread).1
    | skip conversion =>
      rw [scan] at h
      split at h
      · exact absurd h List.not_mem_nil
      next hread => exact (ih h).trans (read_length hread).1

/-! ## White space and literals -/

theorem dropWhile_blanks (hblanks : ∀ c ∈ blanks, isSpace c = true) (s : List Char) :
    (blanks ++ s).dropWhile isSpace = s.dropWhile isSpace :=
  List.dropWhile_append_of_pos hblanks

/-- Blanks are dropped once. -/
theorem dropWhile_idem (s : List Char) :
    (s.dropWhile isSpace).dropWhile isSpace = s.dropWhile isSpace := by
  induction s with
  | nil => rfl
  | cons c s ih =>
    by_cases hc : isSpace c = true
    · rw [List.dropWhile_cons_of_pos hc, ih]
    · rw [List.dropWhile_cons_of_neg hc, List.dropWhile_cons_of_neg hc]

/-- Blanks in front do not matter to the first word. -/
theorem firstWord_blanks (hblanks : ∀ c ∈ blanks, isSpace c = true) (s : List Char) :
    firstWord (blanks ++ s) = firstWord s := by
  rw [firstWord, dropWhile_blanks hblanks]
  rfl

/-- The word ends with the text, or at white space. -/
theorem firstWord_append (hblanks : ∀ c ∈ blanks, isSpace c = true) (s : List Char) :
    firstWord (s ++ blanks) = firstWord s := by
  induction s with
  | nil =>
    rw [List.nil_append, firstWord, List.dropWhile_eq_nil_iff.mpr hblanks]
    rfl
  | cons c s ih =>
    unfold firstWord at ih ⊢
    rw [List.cons_append]
    by_cases hc : isSpace c = true
    · rw [List.dropWhile_cons_of_pos hc, List.dropWhile_cons_of_pos hc, ih]
    · rw [List.dropWhile_cons_of_neg hc, List.dropWhile_cons_of_neg hc, ← List.cons_append]
      induction c :: s with
      | nil =>
        cases blanks with
        | nil => rfl
        | cons b blanks =>
          rw [List.nil_append, List.takeWhile_cons_of_neg]
          · rfl
          · rw [hblanks b List.mem_cons_self]
            exact Bool.false_ne_true
      | cons d s ih =>
        rw [List.cons_append, List.takeWhile_cons, List.takeWhile_cons, ih]

/-- Nothing is left behind the blanks when there is no word. -/
theorem dropWhile_eq_nil_iff_firstWord : s.dropWhile isSpace = [] ↔ firstWord s = [] := by
  unfold firstWord
  constructor
  · intro h
    rw [h]
    rfl
  · intro h
    cases hs : s.dropWhile isSpace with
    | nil => rfl
    | cons c rest =>
      have hc : ¬ isSpace c = true := by
        have hhead := List.head?_dropWhile_not isSpace s
        rw [hs] at hhead
        simpa using hhead
      rw [hs, List.takeWhile_cons_of_pos (by simpa using hc)] at h
      cases h

/-- A blank of the format takes all blanks. -/
theorem scan_space_blanks (hblanks : ∀ c ∈ blanks, isSpace c = true)
    (hs : ∀ c ∈ s.head?, isSpace c = false) : scan (.space :: format) (blanks ++ s) = scan format s := by
  rw [scan, dropWhile_blanks hblanks]
  cases s with
  | nil => rfl
  | cons c s => rw [List.dropWhile_cons_of_neg (by rw [hs c rfl]; exact Bool.false_ne_true)]

theorem scan_skip (h : conversion.read s = .ok (value, rest)) :
    scan (.skip conversion :: format) s = scan format rest := by
  rw [scan, h]

theorem scan_assign (h : conversion.read s = .ok (value, rest)) :
    (scan (.assign conversion :: format) s).values = value :: (scan format rest).values := by
  rw [scan, h]

theorem scan_literal (c : Char) (s : List Char) :
    scan (.literal c :: format) (c :: s) = scan format s := by
  rw [scan, if_pos rfl]

/-- Literals take themselves. -/
theorem scan_literals (lits s : List Char) :
    scan (lits.map .literal ++ format) (lits ++ s) = scan format s := by
  induction lits with
  | nil => rfl
  | cons c lits ih =>
    rw [List.map_cons, List.cons_append, List.cons_append, scan_literal, ih]

/-- Nothing is assigned behind a literal that does not match. -/
theorem scan_literals_ne (h : ¬ lits <+: s) :
    (scan (lits.map .literal ++ format) s).values = [] := by
  induction lits generalizing s with
  | nil => exact absurd List.nil_prefix h
  | cons c lits ih =>
    cases s with
    | nil => rfl
    | cons d s =>
      rw [List.map_cons, List.cons_append, scan]
      split
      · next heq =>
        subst heq
        exact ih fun hprefix => h ((List.prefix_cons_inj c).mpr hprefix)
      · rfl

/-- Where more is assigned than in front of a literal, the literal is in the text. -/
theorem mem_of_scan_literal {front : List Directive} (n : Nat)
    (hfront : (front.filter fun d => d matches .assign _).length ≤ n)
    (h : n < (scan (front ++ .literal c :: format) s).values.length) : c ∈ s := by
  induction front generalizing s n with
  | nil =>
    cases s with
    | nil => exact absurd h (Nat.not_lt_zero n)
    | cons d s =>
      rw [List.nil_append, scan] at h
      split at h
      · next heq =>
        rw [heq]
        exact List.mem_cons_self
      · exact absurd h (Nat.not_lt_zero n)
  | cons directive front ih =>
    rw [List.cons_append] at h
    cases directive with
    | space => exact (List.dropWhile_suffix _).subset (ih n hfront h)
    | literal e =>
      cases s with
      | nil => exact absurd h (Nat.not_lt_zero n)
      | cons d s =>
        rw [scan] at h
        split at h
        · exact List.mem_cons_of_mem d (ih n hfront h)
        · exact absurd h (Nat.not_lt_zero n)
    | assign conversion =>
      rw [List.filter_cons_of_pos rfl, List.length_cons] at hfront
      obtain ⟨m, rfl⟩ : ∃ m, n = m + 1 := ⟨n - 1, by omega⟩
      rw [scan] at h
      split at h
      · exact absurd h (Nat.not_lt_zero _)
      · next hread =>
        exact (read_suffix hread).subset
          (ih m (Nat.le_of_succ_le_succ hfront) (Nat.lt_of_succ_lt_succ h))
    | skip conversion =>
      rw [scan] at h
      split at h
      · exact absurd h (Nat.not_lt_zero n)
      · next hread => exact (read_suffix hread).subset (ih n hfront h)

/-! ## Numbers and words -/

/-- A blank, a sign, a colon and an `x` are no digits. -/
theorem digitValue_special
    (h : isSpace c = true ∨ c = '-' ∨ c = '+' ∨ c = ':' ∨ c = 'x' ∨ c = 'X') :
    digitValue c = none := by
  unfold isSpace at h
  simp only [List.contains_eq_mem, List.mem_cons, List.not_mem_nil, or_false,
    decide_eq_true_eq] at h
  rcases h with (rfl | rfl | rfl | rfl | rfl | rfl) | rfl | rfl | rfl | rfl | rfl <;> rfl

theorem not_isDigit_of_special
    (h : isSpace c = true ∨ c = '-' ∨ c = '+' ∨ c = ':' ∨ c = 'x' ∨ c = 'X') :
    isDigit base c = false := by
  rw [isDigit, digitValue_special h]
  rfl

theorem dropSign_of_ne (hminus : c ≠ '-') (hplus : c ≠ '+') : dropSign (c :: s) = c :: s := by
  unfold dropSign
  rw [List.head?_cons, if_neg]
  simp [hminus, hplus]

theorem dropHexPrefix_of_ne (h : ∀ x ∈ s.tail.head?, x ≠ 'x' ∧ x ≠ 'X') :
    dropHexPrefix base s = s := by
  unfold dropHexPrefix
  split
  · next x d s' =>
    have hx := h x rfl
    rw [if_neg]
    intro hmarked
    rcases hmarked.2.1 with hlower | hupper
    · exact hx.1 hlower
    · exact hx.2 hupper
  · rfl

/-- A number with white space in front of it, up to what is no part of it. -/
theorem read_int_stop (hblanks : ∀ c ∈ blanks, isSpace c = true)
    (hdigits : ∀ c ∈ digits, isDigit base c = true) (hne : digits ≠ [])
    (hrest : ∀ c ∈ rest.head?, isDigit base c = false ∧ c ≠ 'x' ∧ c ≠ 'X') :
    (Conversion.int base).read (blanks ++ (digits ++ rest)) =
      .ok (.int (ofDigits base digits), rest) := by
  obtain ⟨d, ds, rfl⟩ := List.exists_cons_of_ne_nil hne
  have hspecial {x : Char} (hx : isDigit base x = true) :
      ¬ (isSpace x = true ∨ x = '-' ∨ x = '+' ∨ x = ':' ∨ x = 'x' ∨ x = 'X') := fun h => by
    rw [not_isDigit_of_special h] at hx
    exact Bool.false_ne_true hx
  have hd := not_or.mp (hspecial (hdigits d List.mem_cons_self))
  have htake : (d :: ds ++ rest).takeWhile (isDigit base) = d :: ds := by
    rw [List.takeWhile_append_of_pos hdigits]
    cases rest with
    | nil => simp
    | cons c rest =>
      rw [List.takeWhile_cons_of_neg (by rw [(hrest c rfl).1]; exact Bool.false_ne_true),
        List.append_nil]
  have hdrop : (d :: ds ++ rest).dropWhile (isDigit base) = rest := by
    rw [List.dropWhile_append_of_pos hdigits]
    cases rest with
    | nil => rfl
    | cons c rest =>
      rw [List.dropWhile_cons_of_neg (by rw [(hrest c rfl).1]; exact Bool.false_ne_true)]
  have hprefix : dropHexPrefix base (d :: ds ++ rest) = d :: ds ++ rest := by
    refine dropHexPrefix_of_ne fun x hx => ?_
    cases ds with
    | nil => exact (hrest x hx).2
    | cons e ds =>
      obtain rfl : e = x := Option.some.inj hx
      have hx := hspecial (hdigits e (by simp))
      exact not_or.mp fun h => hx (.inr (.inr (.inr (.inr h))))
  unfold Conversion.read
  dsimp only
  rw [dropWhile_blanks hblanks, List.cons_append,
    List.dropWhile_cons_of_neg hd.1, if_neg (List.cons_ne_nil _ _),
    dropSign_of_ne (fun h => hd.2 (.inl h)) (fun h => hd.2 (.inr (.inl h))),
    ← List.cons_append, hprefix, htake, hdrop, if_neg (List.cons_ne_nil _ _), List.cons_append,
    List.head?_cons, if_neg]
  intro h
  exact hd.2 (.inl (Option.some.inj h))

/-- A number with white space in front of it, and no digit behind it. -/
theorem read_int (hblanks : ∀ c ∈ blanks, isSpace c = true)
    (hdigits : ∀ c ∈ digits, isDigit base c = true) (hne : digits ≠ [])
    (hrest : ∀ c ∈ rest.head?, isSpace c = true ∨ c = '-') :
    (Conversion.int base).read (blanks ++ (digits ++ rest)) =
      .ok (.int (ofDigits base digits), rest) := by
  refine read_int_stop hblanks hdigits hne fun c hc => ?_
  have hstop := hrest c hc
  refine ⟨not_isDigit_of_special (hstop.imp_right .inl), ?_, ?_⟩
  · rintro rfl
    exact absurd hstop (by decide)
  · rintro rfl
    exact absurd hstop (by decide)

/-- Behind a number without sign and prefix there is no digit. -/
theorem read_int_cons (hspace : isSpace c = false) (hminus : c ≠ '-') (hplus : c ≠ '+')
    (hzero : c ≠ '0') : (Conversion.int base).read (c :: s) =
      if (c :: s).takeWhile (isDigit base) = [] then .error .matching
      else .ok (.int (ofDigits base ((c :: s).takeWhile (isDigit base))),
        (c :: s).dropWhile (isDigit base)) := by
  have hprefix : dropHexPrefix base (c :: s) = c :: s := by
    unfold dropHexPrefix
    split
    · next heq => exact absurd (List.cons.inj heq).1 hzero
    · rfl
  unfold Conversion.read
  dsimp only
  rw [List.dropWhile_cons_of_neg (by rw [hspace]; exact Bool.false_ne_true),
    if_neg (List.cons_ne_nil _ _), dropSign_of_ne hminus hplus, hprefix]
  split
  · rfl
  · rw [List.head?_cons, if_neg]
    intro h
    exact hminus (Option.some.inj h)

/-- A word is read up to the blank behind it. -/
theorem read_word (hblanks : ∀ c ∈ blanks, isSpace c = true)
    (ht : ∀ c ∈ t, isSpace c = false) (hne : t ≠ [])
    (hrest : ∀ c ∈ rest.head?, isSpace c = true) :
    Conversion.word.read (blanks ++ (t ++ rest)) = .ok (.text t, rest) := by
  obtain ⟨d, ds, rfl⟩ := List.exists_cons_of_ne_nil hne
  have hpos : ∀ c ∈ d :: ds, (! isSpace c) = true := fun c hc => by rw [ht c hc]; rfl
  have hd : ¬ isSpace d = true := by
    rw [ht d List.mem_cons_self]
    exact Bool.false_ne_true
  unfold Conversion.read
  dsimp only
  rw [dropWhile_blanks hblanks, List.cons_append, List.dropWhile_cons_of_neg hd,
    if_neg (List.cons_ne_nil _ _), ← List.cons_append, List.takeWhile_append_of_pos hpos,
    List.dropWhile_append_of_pos hpos]
  cases rest with
  | nil => simp
  | cons c rest =>
    have hc : ¬ (! isSpace c) = true := by simp [hrest c rfl]
    rw [List.takeWhile_cons_of_neg (p := fun a => ! isSpace a) hc,
      List.dropWhile_cons_of_neg (p := fun a => ! isSpace a) hc, List.append_nil]

theorem not_isSpace_of_isDigit (h : isDigit base c = true) : isSpace c = false := by
  by_contra hspace
  rw [not_isDigit_of_special (.inl (Bool.of_not_eq_false hspace))] at h
  exact Bool.false_ne_true h

/-- A number behind white space, in a format. -/
theorem scan_space_int (hblanks : ∀ c ∈ blanks, isSpace c = true)
    (hdigits : ∀ c ∈ digits, isDigit base c = true) (hne : digits ≠ [])
    (hrest : ∀ c ∈ rest.head?, isSpace c = true ∨ c = '-') :
    (scan (.space :: .assign (.int base) :: format) (blanks ++ (digits ++ rest))).values =
      .int (ofDigits base digits) :: (scan format rest).values := by
  have hhead : ∀ c ∈ (digits ++ rest).head?, isSpace c = false := by
    obtain ⟨d, ds, rfl⟩ := List.exists_cons_of_ne_nil hne
    intro c hc
    obtain rfl : d = c := Option.some.inj hc
    exact not_isSpace_of_isDigit (hdigits d List.mem_cons_self)
  rw [scan_space_blanks hblanks hhead]
  exact scan_assign (read_int (List.forall_mem_nil _) hdigits hne hrest)

/-- A word behind white space, in a format. -/
theorem scan_space_word (hblanks : ∀ c ∈ blanks, isSpace c = true)
    (ht : ∀ c ∈ t, isSpace c = false) (hne : t ≠ [])
    (hrest : ∀ c ∈ rest.head?, isSpace c = true) :
    (scan (.space :: .assign .word :: format) (blanks ++ (t ++ rest))).values =
      .text t :: (scan format rest).values := by
  have hhead : ∀ c ∈ (t ++ rest).head?, isSpace c = false := by
    obtain ⟨d, ds, rfl⟩ := List.exists_cons_of_ne_nil hne
    intro c hc
    obtain rfl : d = c := Option.some.inj hc
    exact ht d List.mem_cons_self
  rw [scan_space_blanks hblanks hhead]
  exact scan_assign (read_word (List.forall_mem_nil _) ht hne hrest)

/-- A word at the end of a format. -/
theorem scan_word (s : List Char) : scan [.space, .assign .word] s =
    if firstWord s = [] then ⟨[], some .input⟩ else ⟨[.text (firstWord s)], none⟩ := by
  rw [scan, scan, Conversion.read]
  dsimp only
  rw [dropWhile_idem]
  by_cases hnone : s.dropWhile isSpace = []
  · rw [if_pos hnone, if_pos (dropWhile_eq_nil_iff_firstWord.mp hnone)]
  · rw [if_neg hnone, if_neg (mt dropWhile_eq_nil_iff_firstWord.mpr hnone)]
    rfl

/-- The digits of a number stand for it. -/
theorem ofDigits_toDigits (n : Nat) : ofDigits 10 (Nat.toDigits 10 n) = n := by
  have hdigits : ∀ c ∈ Nat.toDigits 10 n, c.isDigit = true := fun c hc =>
    Nat.isDigit_of_mem_toDigits (by omega) (by omega) hc
  have hfold (l : List Char) (hl : ∀ c ∈ l, c.isDigit = true) (init : Nat) :
      l.foldl (fun n c => 10 * n + (digitValue c).getD 0) init = Nat.ofDigitChars 10 l init := by
    induction l generalizing init with
    | nil => rfl
    | cons c l ih =>
      rw [List.foldl_cons, Nat.ofDigitChars_cons, digitValue, if_pos (hl c List.mem_cons_self),
        ih fun d hd => hl d (List.mem_cons_of_mem c hd)]
      rfl
  rw [ofDigits, hfold _ hdigits, Nat.ofDigitChars_ten_toDigits]

/-- They are digits. -/
theorem isDigit_toDigits (n : Nat) : ∀ c ∈ Nat.toDigits 10 n, isDigit 10 c = true := by
  intro c hc
  have hdigit : c.isDigit = true := Nat.isDigit_of_mem_toDigits (by omega) (by omega) hc
  rw [isDigit, digitValue, if_pos hdigit]
  have hbounds := Char.isDigit_iff_toNat.mp hdigit
  simp only [Option.any_some, decide_eq_true_eq]
  rw [show '9'.toNat = 57 from rfl] at hbounds
  show c.toNat - 48 < 10
  omega

end AndroidLearn.Scanf
