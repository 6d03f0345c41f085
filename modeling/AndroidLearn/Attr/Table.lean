import AndroidLearn.Conf.Conf
import AndroidLearn.Lib.Strstr

/-!
# Attribute tables

`table_get` and `table_put` of `attr_table_switch.c`, and `enable_usb_serial` of `usb.c`,
which calls them. `table_get` switches on the attributes of a table and saves what they
were; `table_put` is to count down and, at the last put, to write the saved values back.
An attribute is a property, which holds a list of words, or a file of the kernel.

The line `*ref_count --` moves the pointer, and leaves the count as it is: what is then
compared with 0 is the `int` in front of the count. A put has this `int` as an argument,
`below`, since it belongs to whatever the linker has put there.

A property can be read and written whenever it is asked for (`Attrs`). A file is there or
not; what it holds after a write is the kernel's affair (`Kernel.store`). The bytes in
memory behind `on` are a field of the entry, because as many of it as a pointer has are
written.

Theorems:
- `balance_iff`: over a sequence of gets and puts the count is balanced only if there was
  no get;
- `usbUndone_iff`: when `enable_usb_serial (0)` undoes `enable_usb_serial (1)`;
- `tableBalance_iff`: both, over every table and every sequence.
-/

namespace AndroidLearn.Attr

open Conf Strstr

/-- `PROPERTY_VALUE_MAX` -/
def propertyValueMax : Nat := 92

/-! ## Attributes -/

/-- The properties and files that a table can be about. -/
structure Attrs where
  /-- the value of a property; a property without one is empty -/
  property : CString → CString
  short : ∀ name, (property name).length < propertyValueMax
  /-- the content of a file of the kernel, if it can be opened; to open one for
  writing does not change it -/
  file : CString → Option CString

/-- What is up to the device. -/
structure Kernel where
  /-- what a file holds after a write to it -/
  store : CString → CString → List Char → CString
  /-- `get_board_name` -/
  board : CString

/-- `property_set` of a buffer, whose last byte is 0. -/
def Attrs.propertySet (a : Attrs) (name buffer : CString) : Attrs where
  property := Function.update a.property name (buffer.take (propertyValueMax - 1))
  short n := by
    by_cases h : n = name
    · rw [h, Function.update_self, List.length_take]
      exact Nat.lt_of_le_of_lt (Nat.min_le_left _ _) (by decide)
    · rw [Function.update_of_ne h]
      exact a.short n
  file := a.file

/-- A write to a file that can be opened. -/
def Attrs.write (k : Kernel) (a : Attrs) (path : CString) (bytes : List Char) : Attrs :=
  let stored := (a.file path).map fun content => k.store path content bytes
  { a with file := Function.update a.file path stored }

/-! ## Lists of words -/

/-- The list with `on` appended. -/
def addWord (on buffer : CString) : CString :=
  match buffer.dropInfix? on with
  | some _ => buffer
  | none => ((if buffer = [] then [] else buffer ++ [',']) ++ on).take (propertyValueMax - 1)

/-- `if ((ptr > buffer) && (*(ptr - 1) == ',')) ptr --` -/
def dropComma (front : CString) : CString :=
  if front.getLast? = some ',' then front.dropLast else front

/-- The list without the first `on` in it, and the comma before it; a comma behind it
goes as well. -/
def removeWord (on buffer : CString) : CString :=
  match buffer.dropInfix? on with
  | none => buffer
  | some (front, rest) =>
    match rest with
    | [] => dropComma front
    | ',' :: rest => dropComma front ++ rest
    | _ => buffer

/-! ## The table -/

/-- `ATTR_TABLE`; the entry with an empty node ends a table and is not in the list. -/
structure AttrEntry where
  node : CString
  nonempty : node ≠ []
  on : CString
  /-- the bytes in memory behind `on` -/
  behind : List Char
  needBoardParam : Bool
  /-- all the bytes of the array -/
  save : List Char

/-- An entry whose node is no path is a property. -/
def AttrEntry.isProperty (uc : AttrEntry) : Bool := uc.node.head? != some '/'

/-- `save [0] != 0` -/
def AttrEntry.saved (uc : AttrEntry) : Bool := uc.save.head? != some '\x00'

/-- The file of the entry, as `snprintf` puts it into the buffer. -/
def AttrEntry.path (k : Kernel) (uc : AttrEntry) : CString :=
  if uc.needBoardParam then (uc.node ++ k.board).take (propertyValueMax - 1) else uc.node

/-- The `sizeof (uc->on)` bytes at `on`: as many as a pointer has. -/
def AttrEntry.onBytes (uc : AttrEntry) : List Char := (uc.on ++ '\x00' :: uc.behind).take 8

/-- Save bytes over those that are there, unless there is a value already. -/
def AttrEntry.keep (uc : AttrEntry) (bytes : List Char) : AttrEntry :=
  if uc.saved then uc
  else
    let save := bytes.take propertyValueMax ++ uc.save.drop (bytes.take propertyValueMax).length
    { uc with save := save.set (propertyValueMax - 1) '\x00' }

/-- The entry's turn in `table_get`. -/
def AttrEntry.get (k : Kernel) (uc : AttrEntry) (a : Attrs) : AttrEntry × Attrs :=
  if uc.isProperty then
    let buffer := a.property uc.node
    -- `strncpy` fills the rest of the array with zeros
    let uc := uc.keep (buffer ++ List.replicate (propertyValueMax - buffer.length) '\x00')
    match buffer.dropInfix? uc.on with
    | some _ => (uc, a)
    | none => (uc, a.propertySet uc.node (addWord uc.on buffer))
  else
    match a.file (uc.path k) with
    | none => (uc, a)
    | some content => (uc.keep content, a.write k (uc.path k) uc.onBytes)

/-- The entry's turn in `table_put`. -/
def AttrEntry.put (k : Kernel) (uc : AttrEntry) (a : Attrs) : AttrEntry × Attrs :=
  let cleared := { uc with save := uc.save.set 0 '\x00' }
  if uc.isProperty then
    let buffer := a.property uc.node
    match buffer.dropInfix? uc.on with
    | none => (cleared, a)
    | some _ => (cleared, a.propertySet uc.node (removeWord uc.on buffer))
  else
    match a.file (uc.path k) with
    | none => (uc, a)
    | some _ => (cleared, a.write k (uc.path k) (uc.save.take (propertyValueMax - 1)))

/-- A loop over the table. -/
def tableLoop (turn : AttrEntry → Attrs → AttrEntry × Attrs) :
    List AttrEntry → Attrs → List AttrEntry × Attrs
  | [], a => ([], a)
  | uc :: table, a =>
    let (uc, a) := turn uc a
    let (table, a) := tableLoop turn table a
    (uc :: table, a)

/-- The count of a table, its entries, and the attributes. -/
structure TableState where
  refCount : Int
  table : List AttrEntry
  attrs : Attrs

/-- `table_get`: what it returns, and the state behind it. -/
def tableGet (k : Kernel) (s : TableState) : Int × TableState :=
  let (table, attrs) := tableLoop (AttrEntry.get k) s.table s.attrs
  (s.refCount + 1, ⟨s.refCount + 1, table, attrs⟩)

/-- `below` is the `int` in front of the count, which `ref_count` points to after the
first line. -/
def tablePut (k : Kernel) (below : Int) (s : TableState) : Int × TableState :=
  if below = 0 then
    let (table, attrs) := tableLoop (AttrEntry.put k) s.table s.attrs
    (below, ⟨s.refCount, table, attrs⟩)
  else (below, s)

/-! ## Sequences of gets and puts -/

/-- A call by one of the users of the table. -/
inductive TableCall
  | get
  | put (below : Int)

/-- What a call leaves of the table. -/
def TableCall.exec (k : Kernel) (s : TableState) : TableCall → TableState
  | get => (tableGet k s).2
  | put below => (tablePut k below s).2

def TableCall.isGet : TableCall → Bool
  | get => true
  | put _ => false

/-- How many of the calls are `table_get`. -/
def gets (calls : List TableCall) : Nat := calls.countP TableCall.isGet

/-- How many of the calls are `table_put`. -/
def puts (calls : List TableCall) : Nat := calls.countP fun c => !c.isGet

/-- The table after these calls. -/
def tableRun (k : Kernel) (s : TableState) (calls : List TableCall) : TableState :=
  calls.foldl (TableCall.exec k) s

/-- The put writes saved values back. -/
def Restores (s : TableState) (below : Int) : Prop := below = 0 ∧ s.table ≠ []

/-- Gets and puts balance: whenever as many puts as gets are done, the count and the
attributes are what they were, and no earlier put writes a saved value back. -/
structure Balance (k : Kernel) (s : TableState) (calls : List TableCall) : Prop where
  counted : ∀ p, p <+: calls → gets p = puts p → (tableRun k s p).refCount = s.refCount
  restored : ∀ p, p <+: calls → gets p = puts p → (tableRun k s p).attrs = s.attrs
  notEarlier : ∀ p below, p ++ [.put below] <+: calls → gets p ≠ puts p + 1 →
    ¬ Restores (tableRun k s p) below

/-- No put is the one to restore the attributes, and the `int` in front of the count
does not make one do it. -/
structure NothingDue (s : TableState) (calls : List TableCall) : Prop where
  unmatched : ∀ p, p <+: calls → gets p = puts p → p = []
  nonzero : ∀ p below, p ++ [.put below] <+: calls → s.table = [] ∨ below ≠ 0

section Run

variable {k : Kernel} {s : TableState} {calls : List TableCall}

theorem tableLoop_length (turn : AttrEntry → Attrs → AttrEntry × Attrs) (table : List AttrEntry)
    (a : Attrs) : (tableLoop turn table a).1.length = table.length := by
  induction table generalizing a with
  | nil => rfl
  | cons uc table ih => simp [tableLoop, ih]

theorem exec_table_length (s : TableState) (c : TableCall) :
    (c.exec k s).table.length = s.table.length := by
  cases c with
  | get => exact tableLoop_length _ _ _
  | put below =>
    unfold TableCall.exec tablePut
    dsimp only
    split
    · exact tableLoop_length _ _ _
    · rfl

/-- No call makes an entry or takes one away. -/
theorem run_table_eq_nil (s : TableState) (calls : List TableCall) :
    (tableRun k s calls).table = [] ↔ s.table = [] := by
  rw [← List.length_eq_zero_iff, ← List.length_eq_zero_iff]
  induction calls generalizing s with
  | nil => rfl
  | cons c calls ih =>
    rw [tableRun, List.foldl_cons]
    exact (ih _).trans (by rw [exec_table_length])

/-- Only gets count. -/
theorem run_refCount (s : TableState) (calls : List TableCall) :
    (tableRun k s calls).refCount = s.refCount + gets calls := by
  induction calls generalizing s with
  | nil => simp [tableRun, gets]
  | cons c calls ih =>
    rw [tableRun, List.foldl_cons]
    refine (ih _).trans ?_
    unfold gets
    rw [List.countP_cons]
    cases c with
    | get =>
      simp only [TableCall.exec, tableGet, TableCall.isGet, if_true]
      push_cast
      omega
    | put below =>
      simp only [TableCall.exec, tablePut, TableCall.isGet]
      split <;> simp

/-- The gets and puts balance exactly where nothing is due: no put matches the first
get, and none restores the attributes by chance. -/
theorem balance_iff : Balance k s calls ↔ NothingDue s calls := by
  constructor
  · intro h
    have hunmatched : ∀ p, p <+: calls → gets p = puts p → p = [] := by
      intro p hp hbalanced
      have hcount := h.counted p hp hbalanced
      rw [run_refCount] at hcount
      have hgets : gets p = 0 := by omega
      have hputs : puts p = 0 := by omega
      -- a call is a get or a put
      refine List.eq_nil_iff_forall_not_mem.mpr fun c hc => ?_
      unfold gets at hgets
      unfold puts at hputs
      rw [List.countP_eq_zero] at hgets hputs
      exact hputs c hc (by simpa using hgets c hc)
    refine ⟨hunmatched, fun p below hp => ?_⟩
    by_cases hdue : gets p = puts p + 1
    · have hbalanced : gets (p ++ [.put below]) = puts (p ++ [.put below]) := by
        simpa [gets, puts, TableCall.isGet] using hdue
      exact absurd (hunmatched _ hp hbalanced) (by simp)
    · have hnot := h.notEarlier p below hp hdue
      rw [Restores, ne_eq, run_table_eq_nil] at hnot
      tauto
  · intro h
    refine ⟨fun p hp hbalanced => ?_, fun p hp hbalanced => ?_, fun p below hp _ hrestores => ?_⟩
    · rw [h.unmatched p hp hbalanced]
      rfl
    · rw [h.unmatched p hp hbalanced]
      rfl
    · rcases h.nonzero p below hp with htable | hne
      · exact hrestores.2 ((run_table_eq_nil s p).mpr htable)
      · exact hne hrestores.1

end Run

/-! ## `enable_usb_serial` -/

/-- The node that older devices have in place of the property. -/
def attrPathFserialIcs : CString := "/sys/class/android_usb/f_serial/on".toList

/-- The property. -/
def sysUsbConfig : CString := "sys.usb.config".toList

/-- The function that is switched on and off in it. -/
def serial : CString := "serial".toList

/-- The entry of `local_table`; the string after the literal is of no account here. -/
def localEntry : AttrEntry where
  node := sysUsbConfig
  nonempty := by decide
  on := serial
  behind := []
  needBoardParam := false
  save := List.replicate propertyValueMax '\x00'

/-- `enable_usb_serial`; the count and the table are local to each call, and `below` is
what lies in front of the count there. -/
def enableUsbSerial (k : Kernel) (below : Int) (enable : Bool) (a : Attrs) : Attrs :=
  match a.file attrPathFserialIcs with
  | some _ => a.write k attrPathFserialIcs [if enable then '1' else '0']
  | none =>
    let s : TableState := ⟨256, [localEntry], a⟩
    if enable then (tableGet k s).2.attrs else (tablePut k below s).2.attrs

/-- The first `on` in the list is its last word, or a comma follows it. -/
def removes (on buffer : CString) : Bool :=
  match buffer.dropInfix? on with
  | none => false
  | some (_, []) => true
  | some (_, c :: _) => c = ','

section Words

variable {on buffer : CString}

theorem dropComma_length (front : CString) : (dropComma front).length ≤ front.length := by
  unfold dropComma
  split
  · rw [List.length_dropLast]
    omega
  · exact Nat.le_refl _

/-- Taking a word out does not lengthen the property. -/
theorem removeWord_length (on buffer : CString) : (removeWord on buffer).length ≤ buffer.length := by
  unfold removeWord
  split
  · exact Nat.le_refl _
  next front rest hfind =>
    have hbuffer := (dropInfix_eq_some.mp hfind).1
    have hfront := dropComma_length front
    split
    · rw [hbuffer]
      simp only [List.length_append]
      omega
    · rw [hbuffer]
      simp only [List.length_append, List.length_cons]
      omega
    · exact Nat.le_refl _

/-- A word is removed, or the list stays as it is. -/
theorem removeWord_eq_iff (hne : on ≠ []) : removeWord on buffer = buffer ↔ removes on buffer = false := by
  have hpos := List.length_pos_iff.mpr hne
  unfold removeWord removes
  cases hfind : buffer.dropInfix? on with
  | none => simp
  | some cut =>
    obtain ⟨front, rest⟩ := cut
    have hlen := congrArg List.length (dropInfix_eq_some.mp hfind).1
    have hfront := dropComma_length front
    simp only [List.length_append] at hlen
    cases rest with
    | nil =>
      simp only [Bool.true_eq_false, iff_false]
      intro heq
      rw [heq] at hfront
      omega
    | cons c rest =>
      by_cases hc : c = ','
      · subst hc
        simp only [decide_true, Bool.true_eq_false, iff_false]
        intro heq
        have heqlen := congrArg List.length heq
        simp only [List.length_append, List.length_cons] at heqlen hlen
        omega
      · simp [hc]

/-- A word that is there already is not added again. -/
theorem addWord_of_within (h : on <:+: buffer) : addWord on buffer = buffer := by
  unfold addWord
  split
  · rfl
  next hfind => exact absurd h (dropInfix_eq_none.mp hfind)

/-- A word that is not there is added at the end, as far as the property takes it. -/
theorem addWord_of_not_within (h : ¬ on <:+: buffer) :
    addWord on buffer =
      ((if buffer = [] then [] else buffer ++ [',']) ++ on).take (propertyValueMax - 1) := by
  rw [addWord, dropInfix_eq_none.mpr h]

/-- There is room for the word, and for the comma that an earlier one needs. -/
def HasRoom (on buffer : CString) : Prop :=
  (if buffer = [] then 0 else buffer.length + 1) + on.length < propertyValueMax

/-- With room, removing the added word gives the list back. -/
theorem removeWord_addWord (hcomma : ',' ∉ on) (hne : on ≠ []) (h : ¬ on <:+: buffer)
    (hroom : HasRoom on buffer) : removeWord on (addWord on buffer) = buffer := by
  unfold HasRoom at hroom
  rw [addWord_of_not_within h, List.take_of_length_le]
  · by_cases hnil : buffer = []
    · have hfind : ([] ++ on : CString).dropInfix? on = some ([], []) :=
        dropInfix_eq_some.mpr ⟨by simp, fun _ _ _ => Nat.zero_le _⟩
      rw [if_pos hnil, removeWord, hfind, hnil]
      rfl
    · have happ : buffer ++ [','] ++ on = buffer ++ ',' :: on := by simp
      rw [if_neg hnil, happ, removeWord, dropInfix_behind hcomma hne h]
      simp [dropComma]
  · split at hroom
    next hnil =>
      rw [if_pos hnil, List.nil_append]
      omega
    next hnil =>
      rw [if_neg hnil]
      simp only [List.length_append, List.length_cons, List.length_nil]
      omega

/-- Without room, the word is cut off, and not found again. -/
theorem removeWord_addWord_full (hcomma : ',' ∉ on) (h : ¬ on <:+: buffer)
    (hshort : on.length < propertyValueMax) (hroom : ¬ HasRoom on buffer) :
    removeWord on (addWord on buffer) = addWord on buffer := by
  unfold HasRoom at hroom
  have hnil : buffer ≠ [] := by
    intro hnil
    rw [if_pos hnil] at hroom
    omega
  rw [if_neg hnil] at hroom
  have hnot : ¬ on <:+: addWord on buffer := by
    rw [addWord_of_not_within h, if_neg hnil, List.append_assoc, List.take_append]
    intro hwithin
    cases hleft : propertyValueMax - 1 - buffer.length with
    | zero =>
      rw [hleft, List.take_zero, List.append_nil] at hwithin
      exact h (hwithin.trans (List.take_prefix _ _).isInfix)
    | succ n =>
      rw [hleft, List.singleton_append, List.take_succ_cons] at hwithin
      rcases infix_separated hcomma hwithin with hfront | hback
      · exact h (hfront.trans (List.take_prefix _ _).isInfix)
      · have hle := hback.length_le
        rw [List.length_take] at hle
        omega
  rw [removeWord, dropInfix_eq_none.mpr hnot]

/-- Adding a word changes nothing when the word is there, or when no room is left for it. -/
theorem addWord_eq_iff (hne : on ≠ []) (hbuffer : buffer.length < propertyValueMax) :
    addWord on buffer = buffer ↔ on <:+: buffer ∨ buffer.length + 1 = propertyValueMax := by
  by_cases h : on <:+: buffer
  · simp [addWord_of_within h, h]
  · have hpos := List.length_pos_iff.mpr hne
    rw [addWord_of_not_within h, or_iff_right h]
    constructor
    · intro heq
      have hlen := congrArg List.length heq
      rw [List.length_take, List.length_append] at hlen
      split at hlen
      next hnil =>
        rw [hnil] at hlen
        simp only [List.length_nil] at hlen
        unfold propertyValueMax at hlen
        omega
      next =>
        simp only [List.length_append, List.length_cons, List.length_nil] at hlen
        omega
    · intro hfull
      have hnil : buffer ≠ [] := by
        rintro rfl
        exact absurd hfull (by decide)
      have hmax : propertyValueMax - 1 = buffer.length := by omega
      rw [if_neg hnil, hmax, List.append_assoc, List.take_left']
      rfl

end Words

section Usb

variable {k : Kernel} {a : Attrs}

@[simp] theorem AttrEntry.keep_node (uc : AttrEntry) (bytes : List Char) :
    (uc.keep bytes).node = uc.node := by
  unfold keep
  split <;> rfl

@[simp] theorem AttrEntry.keep_on (uc : AttrEntry) (bytes : List Char) :
    (uc.keep bytes).on = uc.on := by
  unfold keep
  split <;> rfl

/-- A get of a property adds the word to it. -/
theorem AttrEntry.get_property {uc : AttrEntry} (h : uc.isProperty = true) (a : Attrs) :
    (uc.get k a).2.property =
        Function.update a.property uc.node (addWord uc.on (a.property uc.node)) ∧
      (uc.get k a).2.file = a.file := by
  unfold get
  rw [if_pos h]
  dsimp only
  rw [keep_on, keep_node]
  cases hfind : (a.property uc.node).dropInfix? uc.on with
  | some cut =>
    have hadd : addWord uc.on (a.property uc.node) = a.property uc.node := by
      rw [addWord, hfind]
    rw [hadd, Function.update_eq_self]
    exact ⟨rfl, rfl⟩
  | none =>
    refine ⟨?_, rfl⟩
    dsimp only [Attrs.propertySet]
    rw [List.take_of_length_le]
    rw [addWord, hfind]
    exact List.length_take_le _ _

/-- A put of a property, where it comes to it, removes the word. -/
theorem AttrEntry.put_property {uc : AttrEntry} (h : uc.isProperty = true) (a : Attrs) :
    (uc.put k a).2.property =
      Function.update a.property uc.node (removeWord uc.on (a.property uc.node)) := by
  unfold put
  dsimp only
  rw [if_pos h]
  cases hfind : (a.property uc.node).dropInfix? uc.on with
  | none =>
    have hremove : removeWord uc.on (a.property uc.node) = a.property uc.node := by
      rw [removeWord, hfind]
    rw [hremove, Function.update_eq_self]
  | some cut =>
    dsimp only [Attrs.propertySet]
    rw [List.take_of_length_le]
    exact (removeWord_length _ _).trans (Nat.le_sub_one_of_lt (a.short _))

/-- Without the file of the serial function, the property gets the word. -/
theorem enableUsbSerial_true (hfile : a.file attrPathFserialIcs = none) (below : Int) :
    (enableUsbSerial k below true a).property =
        Function.update a.property sysUsbConfig (addWord serial (a.property sysUsbConfig)) ∧
      (enableUsbSerial k below true a).file = a.file := by
  have hget := @AttrEntry.get_property k localEntry (by decide) a
  simp only [enableUsbSerial, hfile, tableGet, tableLoop, if_true]
  exact hget

/-- Switching off takes the word out, if the call below comes through. -/
theorem enableUsbSerial_false (hfile : a.file attrPathFserialIcs = none) (below : Int) :
    (enableUsbSerial k below false a).property =
      if below = 0 then
        Function.update a.property sysUsbConfig (removeWord serial (a.property sysUsbConfig))
      else a.property := by
  have hput := @AttrEntry.put_property k localEntry (by decide) a
  simp only [enableUsbSerial, hfile, tablePut, Bool.false_eq_true, if_false]
  split
  · simp only [tableLoop]
    exact hput
  · rfl

/-- `enable_usb_serial (0)` after `enable_usb_serial (1)` leaves the property as it was. -/
def UsbUndone (k : Kernel) (below : Int) (a : Attrs) : Prop :=
  (enableUsbSerial k below false (enableUsbSerial k below true a)).property = a.property

/-- When it does: what lies in front of the count is 0, so that the put takes the word
out, and it had been put in, with room for it; or the put leaves the list alone, and so
did the get. -/
def UsbUndoable (below : Int) (buffer : CString) : Prop :=
  if serial <:+: buffer then below = 0 → removes serial buffer = false
  else (below = 0 ∧ HasRoom serial buffer) ∨ buffer.length + 1 = propertyValueMax

/-- Which property is undone by the way back. -/
theorem usbUndone_iff (hfile : a.file attrPathFserialIcs = none) (below : Int) :
    UsbUndone k below a ↔ UsbUndoable below (a.property sysUsbConfig) := by
  obtain ⟨hadd, hkeep⟩ := enableUsbSerial_true (k := k) hfile below
  have hfile' : (enableUsbSerial k below true a).file attrPathFserialIcs = none := by
    rw [hkeep, hfile]
  have hbuffer := a.short sysUsbConfig
  have hne : serial ≠ [] := by decide
  have hcomma : ',' ∉ serial := by decide
  unfold UsbUndone UsbUndoable
  rw [enableUsbSerial_false hfile', hadd, Function.update_self, Function.update_idem]
  by_cases hbelow : below = 0
  · rw [if_pos hbelow, Function.update_eq_self_iff]
    split
    next hin =>
      rw [addWord_of_within hin, removeWord_eq_iff hne]
      exact ⟨fun h _ => h, fun h => h hbelow⟩
    next hin =>
      by_cases hroom : HasRoom serial (a.property sysUsbConfig)
      · exact iff_of_true (removeWord_addWord hcomma hne hin hroom) (.inl ⟨hbelow, hroom⟩)
      · rw [removeWord_addWord_full hcomma hin (by decide) hroom, addWord_eq_iff hne hbuffer]
        tauto
  · rw [if_neg hbelow, Function.update_eq_self_iff, addWord_eq_iff hne hbuffer]
    split
    next hin => exact iff_of_true (.inl hin) (fun h => absurd h hbelow)
    next hin => tauto

end Usb

/-! ## What is left of the balance -/

/-- Gets and puts balance exactly where no put is due; and `enable_usb_serial (0)` undoes
`enable_usb_serial (1)` by what happens to lie in front of the count. -/
theorem tableBalance_iff (k : Kernel) (s : TableState) (calls : List TableCall) (a : Attrs)
    (below : Int) (hfile : a.file attrPathFserialIcs = none) :
    (Balance k s calls ↔ NothingDue s calls) ∧
      (UsbUndone k below a ↔ UsbUndoable below (a.property sysUsbConfig)) :=
  ⟨balance_iff, usbUndone_iff hfile below⟩

/-- The property `sys.usb.config` alone, of value `adb`. -/
def adbOnly : Attrs where
  property name := if name = sysUsbConfig then "adb".toList else []
  short name := by
    split <;> decide
  file _ := none

/-- A get, and nothing to be put back. -/
theorem tableBalance_iff_get :
    let k : Kernel := ⟨fun _ content _ => content, []⟩
    (Balance k ⟨0, [localEntry], adbOnly⟩ [.get] ↔ NothingDue ⟨0, [localEntry], adbOnly⟩ [.get]) ∧
      (UsbUndone k 0 adbOnly ↔ UsbUndoable 0 (adbOnly.property sysUsbConfig)) :=
  tableBalance_iff _ ⟨0, [localEntry], adbOnly⟩ [.get] adbOnly 0 rfl

/-- One get and one put, with a 1 in front of the count: the count stays at 1. -/
theorem balance_fails_once :
    ¬ ∀ (k : Kernel) (s : TableState) (calls : List TableCall),
      (∀ p, p <+: calls → puts p ≤ gets p) → Balance k s calls := by
  intro h
  have hdomain : ∀ p, p <+: [TableCall.get, .put 1] → puts p ≤ gets p := by
    intro p hp
    rcases List.prefix_cons_iff.mp hp with rfl | ⟨q, rfl, hq⟩
    · decide
    · rcases List.prefix_cons_iff.mp hq with rfl | ⟨r, rfl, hr⟩
      · decide
      · rw [List.prefix_nil.mp hr]
        decide
  have hbalance := h ⟨fun _ content _ => content, []⟩ ⟨0, [localEntry], adbOnly⟩ _ hdomain
  have hcount := hbalance.counted _ (List.prefix_refl _) (by decide)
  rw [run_refCount] at hcount
  exact absurd hcount (by decide)

end AndroidLearn.Attr
