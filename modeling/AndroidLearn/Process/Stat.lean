import AndroidLearn.Dir.Mounts
import AndroidLearn.Logctl.Decimal
import AndroidLearn.Touchtest.Panel

/-!
# The readers of `/proc/<pid>/stat`

The functions of `process.c` that read a line of the kernel: `get_pid_stat`,
`get_pid_name`, `find_all_pids`, `find_all_pids_of_bin`, `get_ppid` and `getpppid`. A line
has the name of the program in parentheses, whatever the name is made of. `get_pid_stat`
takes `) ` for the end of it, `get_pid_name`, `find_all_pids` and `getpppid` the first
`)`, `get_ppid` counts blanks, and `find_all_pids_of_bin` looks for the name anywhere in
its buffer, in which bytes from before can stand behind the line.

A line is a number, a name, a letter and the numbers behind it, as the kernel prints them;
a name is any bytes without a NUL. The file opens, and one `read` gives as much of the
line as the buffer has room for. What was in the buffer before is a parameter.

Theorem: `parses_iff` says for which names they all return what the line says, for every
line, content of the buffer and length.
-/

namespace AndroidLearn.Process

open Conf Strstr
open Logctl (atoi decimal)
open Touchtest (strtok)
open Dir (pathMax cut strstr)

/-! ## The functions -/

/-- `strchr (s, c)`: what stands in front of the first one, and behind it. -/
def strchr (s : CString) (c : Char) : Option (CString × CString) :=
  if c ∈ s then some (s.takeWhile (· ≠ c), (s.dropWhile (· ≠ c)).tail) else none

/-- The `n` bytes that `strncpy` writes. -/
def strncpy (src : CString) (n : Nat) : List Char := (src ++ List.replicate n '\x00').take n

/-- The string in a buffer of `PATH_MAX` bytes into which `stat` is read, over what was
there. -/
def readOver (stale stat : List Char) : CString := cstring (cut (stat ++ stale.drop stat.length))

/-- `find_all_pids_of_bin`: the line is one of the program's. -/
def hasBin (stale stat : List Char) (binName : CString) : Bool :=
  strstr (readOver stale stat) (cut (' ' :: '(' :: (binName ++ [')', ' '])))

/-- `PID_INFO`, without the number it is looked up under -/
structure PidInfo where
  ppid : Int32
  bin : CString
  deriving DecidableEq

/-- What `find_all_pids` takes of a line. -/
def pidInfo (stale stat : List Char) : PidInfo :=
  let buffer := readOver stale stat
  let (front, ppid) :=
    match strchr buffer ')' with
    | none => (buffer, 0)
    | some (front, rest) => (front, atoi ((rest.drop 3).takeWhile Char.isDigit))
  let bin :=
    match strchr front '(' with
    | none => front
    | some (_, bin) => bin
  ⟨ppid, bin.take 63⟩

/-- The loop of `get_pid_stat`, and the byte that it returns. -/
def statAt : CString → Char
  | [] => '\x00'
  | c :: p => if c = ')' ∧ p.head? = some ' ' then p.tail.headD '\x00' else statAt p

/-- `get_pid_stat` of a process, or of none. -/
def getPidStat (stat : Option CString) : Char :=
  match stat with
  | none => '?'
  | some stat => statAt (cut stat)

/-- The room in `char path [256]`. -/
def pathRoom : Nat := 255

/-- `get_pid_name`: what it returns, and the bytes in the buffer. -/
def getPidName (stat : CString) (buflen : Nat) : Int × List Char :=
  let empty := (-1, strncpy [] 1)
  match strchr (stat.take pathRoom) '(' with
  | none => empty
  | some (_, ph) =>
    match strchr ph ')' with
    | none => empty
    | some (name, _) => (0, strncpy name buflen)

/-- `BUFSIZ` -/
def bufsiz : Nat := 1024

/-- `get_ppid`: the fourth token, if there is one. -/
def getPpid (stale stat : List Char) : Option Int32 :=
  (strtok ((stat ++ stale.drop stat.length).take bufsiz))[3]?.map atoi

/-- `getpppid`, of the line of the parent. -/
def getpppid (stat : CString) : Int32 :=
  match strchr (stat.take pathRoom) ')' with
  | none => -1
  | some (_, rest) =>
    let ph := ((rest.drop 1).dropWhile fun c => ! c.isDigit).takeWhile Char.isDigit
    if ph = [] then -1 else atoi ph

/-! ## A line -/

/-- The fields of a process, in the kernel's format. What follows behind the number of the
parent are numbers. -/
structure StatLine where
  pid : Int32
  name : CString
  state : Char
  ppid : Int32
  rest : CString
  pid_nonneg : 0 ≤ pid.toInt
  name_length : name.length < 64
  name_free : '\x00' ∉ name
  state_isAlpha : state.isAlpha = true
  ppid_nonneg : 0 ≤ ppid.toInt
  rest_free : '\x00' ∉ rest ∧ ')' ∉ rest

/-- Up to the number of the parent. -/
def StatLine.head (line : StatLine) : CString :=
  decimal line.pid ++ ' ' :: '(' :: (line.name ++ ')' :: ' ' :: line.state :: ' ' :: decimal line.ppid)

/-- The line as the kernel prints it. -/
def StatLine.text (line : StatLine) : CString := line.head ++ ' ' :: line.rest

/-- The bytes behind the line, up to the first NUL, as far as the buffer goes. -/
def StatLine.behind (line : StatLine) (stale : List Char) : CString :=
  (cstring (stale.drop line.text.length)).take (pathMax - 1 - line.text.length)

/-- Every reader returns what the line says. -/
structure Parses (line : StatLine) (stale : List Char) (buflen : Nat) : Prop where
  state : getPidStat (some line.text) = line.state
  /-- with a NUL behind it -/
  name : ∃ junk, getPidName line.text buflen = (0, line.name ++ '\x00' :: junk)
  info : pidInfo stale line.text = ⟨line.ppid, line.name⟩
  bin : ∀ binName, hasBin stale line.text binName = true ↔ binName = line.name
  ppid : getPpid stale line.text = some line.ppid
  pppid : getpppid line.text = line.ppid

section Line

variable {line : StatLine} {stale : List Char} {buflen : Nat} {s t more : CString} {c : Char}

/-! ### Strings -/

/-- The first place of a character. -/
theorem strchr_append (hs : c ∉ s) (t : CString) : strchr (s ++ c :: t) c = some (s, t) := by
  have hall : ∀ d ∈ s, decide (d ≠ c) = true := fun d hd => decide_eq_true fun heq => hs (heq ▸ hd)
  unfold strchr
  rw [if_pos (by simp), List.takeWhile_append_of_pos hall, List.dropWhile_append_of_pos hall]
  simp

/-- What `strncpy` leaves is a string only if it fits. -/
theorem strncpy_eq_iff (hs : '\x00' ∉ s) (ht : '\x00' ∉ t) :
    (∃ junk, strncpy s buflen = t ++ '\x00' :: junk) ↔ s = t ∧ t.length < buflen := by
  unfold strncpy
  constructor
  · rintro ⟨junk, heq⟩
    have hlength := congrArg List.length heq
    simp only [List.length_take, List.length_append, List.length_replicate, List.length_cons] at hlength
    have hfits : t.length < buflen := by omega
    refine ⟨?_, hfits⟩
    by_cases hle : s.length < buflen
    · obtain ⟨n, hn⟩ := Nat.exists_eq_add_of_lt hle
      rw [List.take_append, List.take_of_length_le (Nat.le_of_lt hle), List.take_replicate] at heq
      have hpad : min (buflen - s.length) buflen = n + 1 := by omega
      rw [hpad, List.replicate_succ] at heq
      -- both end at the first NUL
      have hsplit := congrArg (strchr · '\x00') heq
      simp only [strchr_append hs, strchr_append ht, Option.some.injEq, Prod.mk.injEq] at hsplit
      exact hsplit.1
    · have hnul : '\x00' ∈ (s ++ List.replicate buflen '\x00').take buflen := by
        rw [heq]
        simp
      rw [List.take_append_of_le_length (Nat.le_of_not_lt hle)] at hnul
      exact absurd (List.mem_of_mem_take hnul) hs
  · rintro ⟨rfl, hfits⟩
    obtain ⟨n, hn⟩ := Nat.exists_eq_add_of_lt hfits
    refine ⟨List.replicate n '\x00', ?_⟩
    have hpad : min (buflen - s.length) buflen = n + 1 := by omega
    rw [List.take_append, List.take_of_length_le (Nat.le_of_lt hfits), List.take_replicate, hpad,
      List.replicate_succ]

theorem isDigit_decimal {n : Int32} (hn : 0 ≤ n.toInt) : ∀ c ∈ decimal n, c.isDigit = true := by
  intro c hc
  rw [Logctl.decimal_eq, if_pos hn] at hc
  exact Nat.isDigit_of_mem_toDigits (by omega) (by omega) hc

theorem notMem_decimal {n : Int32} (hn : 0 ≤ n.toInt) (hc : c.isDigit = false) : c ∉ decimal n := by
  intro hmem
  rw [isDigit_decimal hn c hmem] at hc
  cases hc

theorem decimal_ne_nil {n : Int32} (hn : 0 ≤ n.toInt) : decimal n ≠ [] := by
  rw [Logctl.decimal_eq, if_pos hn]
  exact Nat.toDigits_ne_nil

/-- A number ends at what is no digit. -/
theorem takeWhile_decimal {n : Int32} (hn : 0 ≤ n.toInt) (hc : c.isDigit = false) (s : CString) :
    (decimal n ++ c :: s).takeWhile Char.isDigit = decimal n := by
  rw [List.takeWhile_append_of_pos (isDigit_decimal hn), List.takeWhile_cons_of_neg (by simp [hc]),
    List.append_nil]

/-! ### The beginning of the line -/

theorem not_isDigit_of_isAlpha (h : c.isAlpha = true) : c.isDigit = false := by
  -- the letters are behind the digits
  have hbehind : '9'.val < c.val := by
    rcases Bool.or_eq_true_iff.mp h with hupper | hlower
    · have hge : 'A'.val ≤ c.val := (of_decide_eq_true hupper).1
      exact Nat.lt_of_lt_of_le (by decide) hge
    · have hge : 'a'.val ≤ c.val := of_decide_eq_true (Bool.and_eq_true_iff.mp hlower).1
      exact Nat.lt_of_lt_of_le (by decide) hge
  show (decide ('0'.val ≤ c.val) && decide (c.val ≤ '9'.val)) = false
  rw [decide_eq_false (UInt32.not_le.mpr hbehind), Bool.and_false]

theorem state_ne (line : StatLine) (hc : c.isAlpha = false) : line.state ≠ c := by
  intro heq
  have halpha := line.state_isAlpha
  rw [heq, hc] at halpha
  cases halpha

/-- What is in front of the numbers is short. -/
theorem head_length (line : StatLine) : line.head.length < 100 := by
  have hpid := Logctl.decimal_length line.pid
  have hppid := Logctl.decimal_length line.ppid
  have hname := line.name_length
  unfold StatLine.head
  simp only [List.length_append, List.length_cons]
  omega

/-- The head is read by every reader. -/
theorem take_text (line : StatLine) {n : Nat} (hn : 100 ≤ n) (stale : List Char) :
    (line.text ++ stale).take n =
      line.head ++ ' ' :: (line.rest ++ stale).take (n - line.head.length - 1) := by
  have hlength := head_length line
  obtain ⟨k, hk⟩ := Nat.exists_eq_add_of_lt (Nat.lt_of_lt_of_le hlength hn)
  have hroom : n - line.head.length = k + 1 := by omega
  have hsub : n - line.head.length - 1 = k := by omega
  rw [hsub, StatLine.text, List.append_assoc, List.take_append, List.take_of_length_le (by omega),
    hroom]
  rfl

theorem text_free (line : StatLine) : '\x00' ∉ line.text := by
  have hpid := notMem_decimal line.pid_nonneg (c := '\x00') rfl
  have hppid := notMem_decimal line.ppid_nonneg (c := '\x00') rfl
  have hstate := state_ne line (c := '\x00') rfl
  unfold StatLine.text StatLine.head
  simp [hpid, hppid, line.name_free, line.rest_free.1, Ne.symm hstate]

/-- Cutting a string cuts what is read of it. -/
theorem cstring_take (s : List Char) (n : Nat) : cstring (s.take n) = (cstring s).take n := by
  unfold cstring
  induction s generalizing n with
  | nil => simp
  | cons c s ih =>
    cases n with
    | zero => rfl
    | succ n =>
      rw [List.take_succ_cons, List.takeWhile_cons, List.takeWhile_cons]
      split
      · rw [List.take_succ_cons, ih]
      · rfl

/-- What is in the buffer when the line is read over another. -/
theorem readOver_eq (line : StatLine) (stale : List Char) : readOver stale line.text =
    line.head ++ ' ' :: (line.rest ++ cstring (stale.drop line.text.length)).take
      (pathMax - 1 - line.head.length - 1) := by
  rw [readOver, cut, cstring_take, cstring_append (text_free line), take_text line (by decide)]

/-! ### The readers, for a name without `)` -/

/-- The state is behind the parenthesis. -/
theorem statAt_append (hs : ')' ∉ s) : statAt (s ++ ')' :: ' ' :: c :: t) = c := by
  induction s with
  | nil =>
    rw [List.nil_append, statAt, if_pos ⟨rfl, rfl⟩]
    rfl
  | cons d s ih =>
    simp only [List.mem_cons, not_or] at hs
    rw [List.cons_append, statAt, if_neg fun h => hs.1 h.1.symm]
    exact ih hs.2

/-- In front of the end of the name. -/
theorem head_eq (line : StatLine) (more : CString) : line.head ++ ' ' :: more =
    (decimal line.pid ++ ' ' :: '(' :: line.name) ++
      ')' :: ' ' :: line.state :: ' ' :: (decimal line.ppid ++ ' ' :: more) := by
  unfold StatLine.head
  simp

theorem notMem_front (hname : ')' ∉ line.name) : ')' ∉ decimal line.pid ++ ' ' :: '(' :: line.name := by
  have hpid := notMem_decimal line.pid_nonneg (c := ')') rfl
  simp [hpid, hname]

/-- The state, if the name has no parenthesis. -/
theorem getPidStat_eq (hname : ')' ∉ line.name) : getPidStat (some line.text) = line.state := by
  have htext := take_text line (n := pathMax - 1) (by decide) []
  rw [List.append_nil] at htext
  rw [getPidStat, cut, htext, head_eq, statAt_append (notMem_front hname)]

/-- The first `(` is in front of the name. -/
theorem strchr_open (line : StatLine) (more : CString) :
    strchr (line.head ++ ' ' :: more) '(' = some (decimal line.pid ++ [' '],
      line.name ++ ')' :: ' ' :: line.state :: ' ' :: (decimal line.ppid ++ ' ' :: more)) := by
  have hpid := notMem_decimal line.pid_nonneg (c := '(') rfl
  have hfront : '(' ∉ decimal line.pid ++ [' '] := by simp [hpid]
  rw [← strchr_append hfront]
  unfold StatLine.head
  simp

/-- The parent, in the same case. -/
theorem getpppid_eq (hname : ')' ∉ line.name) : getpppid line.text = line.ppid := by
  have htext := take_text line (n := pathRoom) (by decide) []
  rw [List.append_nil] at htext
  have hstate := not_isDigit_of_isAlpha line.state_isAlpha
  obtain ⟨d, digits, hdigits⟩ := List.exists_cons_of_ne_nil (decimal_ne_nil line.ppid_nonneg)
  have hd : d.isDigit = true := isDigit_decimal line.ppid_nonneg d (by rw [hdigits]; simp)
  unfold getpppid
  rw [htext, head_eq, strchr_append (notMem_front hname)]
  have hskip : ((line.state :: ' ' :: (decimal line.ppid ++ ' ' :: (line.rest ++ []).take
      (pathRoom - line.head.length - 1))).dropWhile fun c => ! c.isDigit) =
      decimal line.ppid ++ ' ' :: (line.rest ++ []).take (pathRoom - line.head.length - 1) := by
    rw [List.dropWhile_cons_of_pos (by simp [hstate]), List.dropWhile_cons_of_pos (by decide), hdigits,
      List.cons_append, List.dropWhile_cons_of_neg (by simp [hd])]
  simp only [List.drop_succ_cons, List.drop_zero, hskip, takeWhile_decimal line.ppid_nonneg
    (show ' '.isDigit = false from rfl), decimal_ne_nil line.ppid_nonneg, if_false,
    Logctl.atoi_decimal]

/-- The parent and the name, in the same case. -/
theorem pidInfo_eq (hname : ')' ∉ line.name) : pidInfo stale line.text = ⟨line.ppid, line.name⟩ := by
  have hpid := notMem_decimal line.pid_nonneg (c := '(') rfl
  have hopen : strchr (decimal line.pid ++ ' ' :: '(' :: line.name) '(' =
      some (decimal line.pid ++ [' '], line.name) := by
    have hfront : '(' ∉ decimal line.pid ++ [' '] := by simp [hpid]
    rw [← strchr_append hfront]
    simp
  have htake : line.name.take 63 = line.name :=
    List.take_of_length_le (Nat.le_of_lt_succ line.name_length)
  unfold pidInfo
  rw [readOver_eq, head_eq]
  simp only [strchr_append (notMem_front hname), hopen, htake, List.drop_succ_cons, List.drop_zero,
    takeWhile_decimal line.ppid_nonneg (show ' '.isDigit = false from rfl), Logctl.atoi_decimal]

/-! ### A name with a `)` -/

/-- A name that has one, cut at the first. -/
theorem mem_name_split (h : ')' ∈ line.name) :
    ∃ front back, line.name = front ++ ')' :: back ∧ ')' ∉ front := by
  obtain ⟨front, back, hname, hfront⟩ := List.eq_append_cons_of_mem h
  exact ⟨front, back, hname, hfront⟩

/-- The name is taken to be shorter. -/
theorem getPidName_iff (line : StatLine) (buflen : Nat) :
    (∃ junk, getPidName line.text buflen = (0, line.name ++ '\x00' :: junk)) ↔
      ')' ∉ line.name ∧ line.name.length < buflen := by
  have htext := take_text line (n := pathRoom) (by decide) []
  rw [List.append_nil] at htext
  by_cases hname : ')' ∈ line.name
  · obtain ⟨front, back, hsplit, hfront⟩ := mem_name_split hname
    have hnul : '\x00' ∉ front := fun hmem =>
      line.name_free (hsplit ▸ List.mem_append_left _ hmem)
    have hcall : getPidName line.text buflen = (0, strncpy front buflen) := by
      unfold getPidName
      rw [htext, strchr_open]
      simp only [hsplit, List.append_assoc, List.cons_append, strchr_append hfront]
    refine iff_of_false ?_ fun h => h.1 hname
    rintro ⟨junk, hjunk⟩
    rw [hcall] at hjunk
    have heq := ((strncpy_eq_iff hnul line.name_free).mp ⟨junk, (Prod.mk.inj hjunk).2⟩).1
    rw [heq] at hfront
    exact hfront hname
  · have hcall : getPidName line.text buflen = (0, strncpy line.name buflen) := by
      unfold getPidName
      rw [htext, strchr_open]
      simp only [strchr_append hname]
    rw [hcall]
    simp only [Prod.mk.injEq, true_and, strncpy_eq_iff line.name_free line.name_free, hname,
      not_false_eq_true]

/-! ### The tokens -/

theorem strtok_append (s t : CString) : strtok (s ++ ' ' :: t) = strtok s ++ strtok t := by
  rw [strtok, List.splitOn_append_cons_self, List.filter_append]
  rfl

theorem strtok_singleton (hs : ' ' ∉ s) (hne : s ≠ []) : strtok s = [s] := by
  rw [strtok, List.splitOn_eq_singleton hs]
  simp [hne]

/-- A token that begins with a character has one. -/
theorem strtok_ne_nil (hc : c ≠ ' ') (s : CString) : strtok (c :: s) ≠ [] := by
  have hbeq : (c == ' ') = false := beq_eq_false_iff_ne.mpr hc
  obtain ⟨piece, pieces, hpieces⟩ := List.exists_cons_of_ne_nil (List.splitOn_ne_nil ' ' s)
  rw [strtok, List.splitOn_cons_eq_if_modifyHead, hbeq, hpieces]
  simp

/-- The name with its parentheses, and the state. -/
def StatLine.nameState (line : StatLine) : CString := '(' :: (line.name ++ [')', ' ', line.state])

/-- The fourth token is the number of the parent, unless there is a third one of the name and
the state. -/
theorem getPpid_iff (line : StatLine) (stale : List Char) :
    getPpid stale line.text = some line.ppid ↔
      ∀ token, (strtok line.nameState)[2]? = some token → atoi token = line.ppid := by
  have hblank (n : Int32) (hn : 0 ≤ n.toInt) : strtok (decimal n) = [decimal n] :=
    strtok_singleton (notMem_decimal hn rfl) (decimal_ne_nil hn)
  have hstate : strtok [line.state] = [[line.state]] :=
    strtok_singleton (by simpa using (state_ne line (c := ' ') rfl).symm) (List.cons_ne_nil _ _)
  have hnameState : line.nameState = ('(' :: (line.name ++ [')'])) ++ ' ' :: [line.state] := by
    unfold StatLine.nameState
    simp
  have hhead (more : CString) : line.head ++ ' ' :: more = decimal line.pid ++ ' ' ::
      (line.nameState ++ ' ' :: (decimal line.ppid ++ ' ' :: more)) := by
    unfold StatLine.head StatLine.nameState
    simp
  obtain ⟨first, tokens, htokens⟩ :=
    List.exists_cons_of_ne_nil (strtok_ne_nil (show '(' ≠ ' ' by decide) (line.name ++ [')']))
  unfold getPpid
  rw [take_text line (by decide), hhead, strtok_append, strtok_append, strtok_append,
    hblank _ line.pid_nonneg, hblank _ line.ppid_nonneg, hnameState, strtok_append, hstate, htokens]
  -- the name has one token or more
  cases tokens with
  | nil => simp [Logctl.atoi_decimal]
  | cons second tokens =>
    cases tokens with
    | nil => simp
    | cons third tokens => simp

/-! ### The search for a name -/

/-- What stands behind the number of the parent has a `) ` only if the bytes behind the line
have. -/
theorem pair_behind (line : StatLine) (stale : List Char) :
    [')', ' '] <:+: (line.rest ++ cstring (stale.drop line.text.length)).take
        (pathMax - 1 - line.head.length - 1) ↔ [')', ' '] <:+: line.behind stale := by
  have hlength : line.text.length = line.head.length + 1 + line.rest.length := by
    rw [StatLine.text, List.length_append, List.length_cons]
    omega
  have hroom : pathMax - 1 - line.head.length - 1 - line.rest.length =
      pathMax - 1 - line.text.length := by omega
  rw [List.take_append, hroom, pair_infix_append fun hmem => line.rest_free.2 (List.mem_of_mem_take hmem)]
  rfl

/-- A name that is cut is longer than the text, which begins with a digit. -/
theorem hasBin_eq (line : StatLine) (stale : List Char) (binName : CString) :
    hasBin stale line.text binName = true ↔
      ' ' :: '(' :: (binName ++ [')', ' ']) <:+: readOver stale line.text := by
  have hshort : (readOver stale line.text).length ≤ pathMax - 1 := by
    unfold readOver cstring cut
    exact Nat.le_trans (List.takeWhile_sublist _).length_le (List.length_take_le _ _)
  rw [hasBin, Dir.strstr_iff]
  by_cases hlong : (' ' :: '(' :: (binName ++ [')', ' '])).length < pathMax
  · rw [Dir.cut_of_fits hlong]
  · refine iff_of_false (fun h => ?_) fun h => ?_
    · have hcut : (cut (' ' :: '(' :: (binName ++ [')', ' ']))).length = pathMax - 1 := by
        rw [cut, List.length_take]
        omega
      have heq := h.eq_of_length (Nat.le_antisymm h.length_le (hshort.trans hcut.ge))
      obtain ⟨d, digits, hdigits⟩ := List.exists_cons_of_ne_nil (decimal_ne_nil line.pid_nonneg)
      rw [readOver_eq, StatLine.head, hdigits] at heq
      have hblank : ' ' = d := (List.cons.inj heq).1
      refine notMem_decimal line.pid_nonneg (c := ' ') rfl ?_
      rw [hdigits, hblank]
      exact List.mem_cons_self
    · have hle := h.length_le
      unfold pathMax at hlong hshort
      omega

/-- What is searched, behind the name. -/
def StatLine.behindName (line : StatLine) (stale : List Char) : CString :=
  line.state :: ' ' :: (decimal line.ppid ++ ' ' ::
    (line.rest ++ cstring (stale.drop line.text.length)).take (pathMax - 1 - line.head.length - 1))

/-- The buffer, cut at the end of the name. -/
theorem readOver_split (line : StatLine) (stale : List Char) : readOver stale line.text =
    decimal line.pid ++ ' ' :: '(' :: (line.name ++ ')' :: ' ' :: line.behindName stale) := by
  rw [readOver_eq, head_eq, StatLine.behindName]
  simp

/-- When something behind the name looks like its end. -/
theorem pair_behindName (line : StatLine) (stale : List Char) :
    [')', ' '] <:+: line.behindName stale ↔ [')', ' '] <:+: line.behind stale := by
  have hppid := notMem_decimal line.ppid_nonneg (c := ')') rfl
  have hstate := state_ne line (c := ')') rfl
  rw [← pair_behind]
  have hfields : line.behindName stale = (line.state :: ' ' :: (decimal line.ppid ++ [' '])) ++
      (line.rest ++ cstring (stale.drop line.text.length)).take
        (pathMax - 1 - line.head.length - 1) := by
    unfold StatLine.behindName
    simp
  rw [hfields, pair_infix_append]
  simp [hppid, Ne.symm hstate]

/-- The text that is searched: the end of the name is the last `) ` if none is behind the
line. -/
theorem hasBin_iff (hname : ')' ∉ line.name) :
    (∀ binName, hasBin stale line.text binName = true ↔ binName = line.name) ↔
      ¬ [' ', '('] <:+: line.name ∧ ¬ [')', ' '] <:+: line.behind stale := by
  simp only [hasBin_eq, readOver_split, ← pair_behindName]
  constructor
  · intro h
    constructor
    · -- the end of the name, from the blank in it on, is found too
      rintro ⟨front, back, hsplit⟩
      have hlength := congrArg List.length hsplit
      rw [(h back).mp ⟨decimal line.pid ++ ' ' :: '(' :: front, line.behindName stale,
        by rw [← hsplit]; simp⟩] at hlength
      simp only [List.length_append, List.length_cons] at hlength
      omega
    · -- and so is the name with what is in front of the other `) `
      rintro ⟨front, back, hsplit⟩
      have hlength := congrArg List.length ((h (line.name ++ ')' :: ' ' :: front)).mp
        ⟨decimal line.pid, back, by rw [← hsplit]; simp⟩)
      simp only [List.length_append, List.length_cons] at hlength
      omega
  · rintro ⟨hopen, hclose⟩ binName
    constructor
    · rintro ⟨front, back, hsplit⟩
      have hat : (front ++ ' ' :: '(' :: binName) ++ ')' :: ' ' :: back =
          (decimal line.pid ++ ' ' :: '(' :: line.name) ++
            ')' :: ' ' :: line.behindName stale := by
        rw [List.append_assoc (decimal line.pid)]
        refine Eq.trans ?_ hsplit
        simp
      obtain ⟨hfront, -⟩ := pair_unique (by decide) (notMem_front hname) hclose hat
      exact (pair_unique (by decide) (notMem_decimal line.pid_nonneg rfl) hopen hfront).2
    · rintro rfl
      exact ⟨decimal line.pid, line.behindName stale, by simp⟩

end Line

/-- All readers return what the line says exactly if the name has no `)`, fits the buffer,
has no blank in front of a `(`, and no third token with the state (or one that reads as the
number of the parent), and no `) ` stands behind the line in the buffer. -/
theorem parses_iff (line : StatLine) (stale : List Char) (buflen : Nat) :
    Parses line stale buflen ↔
      (')' ∉ line.name ∧ line.name.length < buflen) ∧
        (¬ [' ', '('] <:+: line.name ∧ ¬ [')', ' '] <:+: line.behind stale) ∧
          ∀ token, (strtok line.nameState)[2]? = some token → atoi token = line.ppid := by
  constructor
  · intro h
    have hname := (getPidName_iff line buflen).mp h.name
    exact ⟨hname, (hasBin_iff hname.1).mp h.bin, (getPpid_iff line stale).mp h.ppid⟩
  · rintro ⟨hname, hbin, hppid⟩
    exact ⟨getPidStat_eq hname.1, (getPidName_iff line buflen).mpr hname, pidInfo_eq hname.1,
      (hasBin_iff hname.1).mpr hbin, (getPpid_iff line stale).mpr hppid, getpppid_eq hname.1⟩

/-- A stopped program `a) b`, whose parent is `init`. -/
def parenLine : StatLine where
  pid := 7
  name := "a) b".toList
  state := 'T'
  ppid := 1
  rest := "7 7 0".toList
  pid_nonneg := by decide
  name_length := by decide
  name_free := by decide
  state_isAlpha := rfl
  ppid_nonneg := by decide
  rest_free := by decide

/-- Its state is read as `b`. -/
theorem parses_fails_paren : ¬ ∀ line stale buflen, Parses line stale buflen := by
  intro h
  have hstate := (h parenLine [] 64).state
  have htext : parenLine.text = "7 (a) b) T 1 7 7 0".toList := rfl
  rw [htext] at hstate
  have hchar : getPidStat (some "7 (a) b) T 1 7 7 0".toList) = 'b' := rfl
  rw [hchar] at hstate
  cases hstate

end AndroidLearn.Process
