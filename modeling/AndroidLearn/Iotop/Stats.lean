import AndroidLearn.Lib.Procs
import AndroidLearn.Lib.Run
import Mathlib.Data.Nat.ModEq

/-!
# The I/O statistics of the kernel

`collect_io_stats`, `show_iotop` and `iotop_cmp` of the patch
`0001-Storage-IOTOP-show-top-5-tasks-with-I-O-statistics.patch`. `collect_io_stats` is
called by every task that reads or writes. It looks for the record of the task under the
lock, and adds the bytes if there is one; if not it lets go of the lock, makes a record,
and takes the lock again to add it to the list. A kernel thread sorts the two lists now
and then, prints the five largest records and frees them all.

A step of a call is one section under the lock, or the allocation between two; the steps
of all calls and of the thread come in any order. The name of a task may change between
two steps. `list_sort` is a parameter: it returns a permutation of the list, in the order
of a comparator as `iotop_cmp` is one (`Sorts`). An amount is a `u64` and wraps around. A
task has a group leader and a parent.

Theorems:
- `iotop_run`: whatever the interleaving, the bytes of a task are in its records, in a
  call, or printed or freed with a record, but for those whose record could not be
  allocated;
- `iotop_once`: a task has one record for its name and direction, if it is in one call at
  a time and keeps its name from the search to the new record;
- `show_top`: what is printed are the largest records, five at most.
-/

namespace AndroidLearn.Iotop.Stats

open Procs Run

/-! ## The records -/

/-- The direction of a transfer. -/
inductive Rw
  | read
  | write
  deriving DecidableEq, Repr

/-- `READ` is 0 and `WRITE` is 1. -/
def Rw.ofType (type : Int) : Option Rw :=
  if type = 0 then some .read else if type = 1 then some .write else none

/-- A task, but for its name, which may change. -/
structure Task where
  pid : Nat
  tgid : Nat
  groupLeader : String
  parent : String
  ppid : Nat
  deriving DecidableEq, Repr

/-- `struct io_account`: the names of a task, of its group leader and of its parent, and the
bytes. -/
structure IoAccount where
  taskName : String
  gtaskName : String
  ptaskName : String
  pid : Nat
  tgid : Nat
  ppid : Nat
  ioAmount : Nat
  deriving DecidableEq, Repr

/-- `u64` -/
def u64 : Nat := 2 ^ 64

/-- `io_amount += rw_bytes` in the first record of the task; `none` if there is none. -/
def findAdd (pid : Nat) (comm : String) (rwBytes : Nat) : List IoAccount → Option (List IoAccount)
  | [] => none
  | r :: rest =>
    if r.pid = pid ∧ r.taskName = comm then
      some ({ r with ioAmount := (r.ioAmount + rwBytes) % u64 } :: rest)
    else (findAdd pid comm rwBytes rest).map (r :: ·)

/-! ## The report -/

/-- `iotop_cmp`, which puts the larger amount in front. -/
def iotopCmp (a b : IoAccount) : Int := if a.ioAmount > b.ioAmount then 0 else 1

/-- `IOREAD_DUMP_THRESHOLD` and `IOWRITE_DUMP_THRESHOLD` -/
def Rw.exceeds : Rw → IoAccount → Bool
  | .read, r => r.ioAmount > 10485760
  | .write, r => r.ioAmount ≥ 1048576

/-- `IOREAD_DUMP_TOTAL_THRESHOLD` and `IOWRITE_DUMP_TOTAL_THRESHOLD` -/
def totalThreshold : Nat := 10485760

/-- How it is printed. -/
def Rw.name : Rw → String
  | .read => "READ"
  | .write => "WRITE"

/-- The line about a record, the `i`th of those that are printed. -/
def IoAccount.line (r : IoAccount) (rw : Rw) (i : Nat) : String :=
  "[" ++ rw.name ++ " IOTOP" ++ toString i ++ "] " ++ r.taskName ++ "(pid " ++ toString r.pid ++
    ", tgid " ++ toString r.tgid ++ "(" ++ r.gtaskName ++ "), ppid " ++ toString r.ppid ++ "(" ++
    r.ptaskName ++ ")): " ++ toString (r.ioAmount / 1024) ++ " KB\n"

/-- The variables of the loop over a list. -/
structure Loop where
  i : Nat
  taskCnt : Nat
  totalBytes : Nat
  log : List String

/-- The turn of a record: it is counted, and printed if it is one of the first five and exceeds
the threshold. -/
def Loop.visit (rw : Rw) (l : Loop) (r : IoAccount) : Loop where
  i := l.i + 1
  taskCnt := l.taskCnt + 1
  totalBytes := (l.totalBytes + r.ioAmount) % u64
  log := if l.i < 5 && rw.exceeds r then l.log ++ [r.line rw (l.i + 1)] else l.log

/-- The line about all records, if they exceed their threshold together. -/
def Loop.total (rw : Rw) (l : Loop) : List String :=
  if l.totalBytes > totalThreshold then
    ["[IOTOP] " ++ rw.name ++ " total " ++ toString l.taskCnt ++ " tasks, " ++
      toString (l.totalBytes / 1024) ++ " KB\n"]
  else []

/-- The loop over a sorted list, and the line behind it. -/
def report (rw : Rw) (sorted : List IoAccount) : List String :=
  let l := sorted.foldl (Loop.visit rw) ⟨0, 0, 0, []⟩
  l.log ++ l.total rw

/-! ## The calls -/

/-- Where a call of `collect_io_stats` is. -/
inductive Place
  /-- before the first lock -/
  | searching (rw : Rw) (task : Task) (rwBytes : Nat)
  /-- there was no record for the name it had looked for -/
  | creating (rw : Rw) (task : Task) (rwBytes : Nat) (sought : String)
  /-- before the second lock -/
  | adding (rw : Rw) (ioAct : IoAccount)
  deriving DecidableEq, Repr

/-- The two lists, where the calls are, what was printed, and, beside the state, what has become
of the bytes. -/
structure State where
  /-- `iotop_init_finish` -/
  initFinish : Bool
  /-- `IS_ERR (_task)` -/
  isErr : Bool
  ioread : List IoAccount
  iowrite : List IoAccount
  calls : List Place
  log : List String
  /-- the bytes of the calls that count -/
  counted : List (Rw × Nat × Nat)
  /-- those for which there was no memory -/
  lost : List (Rw × Nat × Nat)
  /-- the records that were freed -/
  freed : List (Rw × IoAccount)
  deriving DecidableEq, Repr

/-- After `iotop_init`. -/
def State.init (isErr : Bool) : State := ⟨!isErr, isErr, [], [], [], [], [], [], []⟩

/-- The list of a direction. -/
def State.ioList (s : State) : Rw → List IoAccount
  | .read => s.ioread
  | .write => s.iowrite

/-- The list of a direction is changed. -/
def State.setIoList (s : State) (rw : Rw) (ioList : List IoAccount) : State :=
  match rw with
  | .read => { s with ioread := ioList }
  | .write => { s with iowrite := ioList }

/-- Call `i` goes on to another place. -/
def State.moveTo (s : State) (i : Nat) (p : Place) : State := { s with calls := s.calls.set i p }

/-- Call `i` has returned. -/
def State.quit (s : State) (i : Nat) : State := { s with calls := s.calls.eraseIdx i }

/-- A step of a call, or the report. -/
inductive Event
  /-- a call, up to the first lock; `tamper` is `get_tamper_sf ()` -/
  | collect (task : Task) (comm : String) (rwBytes : Nat) (type : Int) (tamper : Int)
  /-- call `i` under the first lock, `comm` being the name of its task -/
  | search (i : Nat) (comm : String)
  /-- call `i` makes its record; `ok` if there is memory -/
  | create (i : Nat) (comm : String) (ok : Bool)
  /-- call `i` under the second lock -/
  | add (i : Nat)
  | show_iotop (tamper : Int)
  /-- the thread has ended, or the module is removed -/
  | exit
  deriving DecidableEq, Repr

/-- `collect_io_stats` up to its first lock: whether the call counts at all. -/
def State.collect (s : State) (task : Task) (comm : String) (rwBytes : Nat) (type : Int)
    (tamper : Int) : State :=
  if !s.initFinish || s.isErr then s
  else if tamper = 1 then s
  else if rwBytes = 0 then s
  else if comm = "sdcard" then s
  else
    match Rw.ofType type with
    | none => s
    | some rw =>
      { s with
        calls := s.calls ++ [.searching rw task rwBytes]
        counted := s.counted ++ [(rw, task.pid, rwBytes)] }

/-- The section under the first lock: the bytes go to the record of the task, or the call goes on
to make one. -/
def State.search (s : State) (i : Nat) (comm : String) : State :=
  match s.calls[i]? with
  | some (.searching rw task rwBytes) =>
    match findAdd task.pid comm rwBytes (s.ioList rw) with
    | some ioList => (s.setIoList rw ioList).quit i
    | none => s.moveTo i (.creating rw task rwBytes comm)
  | _ => s

/-- `kmalloc` of the new record, and its names. What was looked for may not be the name any more. -/
def State.create (s : State) (i : Nat) (comm : String) (ok : Bool) : State :=
  match s.calls[i]? with
  | some (.creating rw task rwBytes _) =>
    if ok then
      s.moveTo i (.adding rw
        ⟨comm, task.groupLeader, task.parent, task.pid, task.tgid, task.ppid, rwBytes⟩)
    else State.quit { s with lost := s.lost ++ [(rw, task.pid, rwBytes)] } i
  | _ => s

/-- `list_add` puts the record in front. -/
def State.add (s : State) (i : Nat) : State :=
  match s.calls[i]? with
  | some (.adding rw ioAct) => (s.setIoList rw (ioAct :: s.ioList rw)).quit i
  | _ => s

section Kernel

/- `list_sort` -/
variable (listSort : (IoAccount → IoAccount → Int) → List IoAccount → List IoAccount)

/-- `show_iotop`: both lists are sorted, printed, and freed. -/
def State.show (s : State) (tamper : Int) : State :=
  if !s.initFinish || s.isErr then s
  else if tamper = 1 then s
  else
    let reads := listSort iotopCmp s.ioread
    let writes := listSort iotopCmp s.iowrite
    { s with
      ioread := []
      iowrite := []
      log := s.log ++ report .read reads ++ report .write writes
      freed := s.freed ++ reads.map (.read, ·) ++ writes.map (.write, ·) }

/-- What an event does. -/
def State.step (s : State) : Event → State
  | .collect task comm rwBytes type tamper => s.collect task comm rwBytes type tamper
  | .search i comm => s.search i comm
  | .create i comm ok => s.create i comm ok
  | .add i => s.add i
  | .show_iotop tamper => s.show listSort tamper
  | .exit => { s with initFinish := false }

/-- What is documented of `list_sort`: it sorts in place, and where `cmp` is positive the
first comes after the second. Of two that `key` does not tell apart either may come
first, whatever `cmp` says. -/
structure Sorts : Prop where
  perm : ∀ cmp l, (listSort cmp l).Perm l
  ordered : ∀ (cmp : IoAccount → IoAccount → Int) (key : IoAccount → Nat) (l : List IoAccount),
    (∀ a b, key a < key b → 0 < cmp a b) → (∀ a b, key b < key a → ¬ 0 < cmp a b) →
    (listSort cmp l).Pairwise fun a b => key b ≤ key a

end Kernel

/-- One such sort: each goes before the first that it does not come after. -/
def insertByCmp (cmp : IoAccount → IoAccount → Int) (a : IoAccount) :
    List IoAccount → List IoAccount
  | [] => [a]
  | b :: l => if 0 < cmp a b then b :: insertByCmp cmp a l else a :: b :: l

/-- A sort that `Sorts` holds of, for the runs below. -/
def insertSort (cmp : IoAccount → IoAccount → Int) (l : List IoAccount) : List IoAccount :=
  l.foldr (insertByCmp cmp) []

/-- An insertion changes the order only. -/
theorem insertByCmp_perm (cmp : IoAccount → IoAccount → Int) (a : IoAccount) :
    ∀ l, (insertByCmp cmp a l).Perm (a :: l)
  | [] => .refl _
  | b :: l => by
    rw [insertByCmp]
    split
    · exact ((insertByCmp_perm cmp a l).cons b).trans (.swap a b l)
    · exact .refl _

/-- Sorting by insertion is a sort. -/
theorem insertSort_sorts : Sorts insertSort where
  perm cmp l := by
    induction l with
    | nil => exact .refl _
    | cons a l ih => exact (insertByCmp_perm cmp a _).trans (ih.cons a)
  ordered cmp key l hafter hbefore := by
    have hinsert (a : IoAccount) : ∀ l : List IoAccount,
        l.Pairwise (fun a b => key b ≤ key a) →
          (insertByCmp cmp a l).Pairwise fun a b => key b ≤ key a := by
      intro l
      induction l with
      | nil => simp [insertByCmp]
      | cons b l ih =>
        intro hl
        obtain ⟨hb, hl'⟩ := List.pairwise_cons.mp hl
        rw [insertByCmp]
        split
        · next hcmp =>
          refine List.pairwise_cons.mpr ⟨fun c hc => ?_, ih hl'⟩
          rcases List.mem_cons.mp ((insertByCmp_perm cmp a l).mem_iff.mp hc) with rfl | hc
          · exact Nat.le_of_not_lt fun hlt => hbefore c b hlt hcmp
          · exact hb c hc
        · next hcmp =>
          have hle : key b ≤ key a := Nat.le_of_not_lt fun hlt => hcmp (hafter a b hlt)
          refine List.pairwise_cons.mpr ⟨fun c hc => ?_, hl⟩
          rcases List.mem_cons.mp hc with rfl | hc
          · exact hle
          · exact (hb c hc).trans hle
    induction l with
    | nil => exact .nil
    | cons a l ih => exact hinsert a _ ih

/-! ## No byte is lost or counted twice -/

/-- The bytes of a task in a record. -/
def IoAccount.bytes (pid : Nat) (r : IoAccount) : Nat := if r.pid = pid then r.ioAmount else 0

/-- The bytes of a task in a call that is not through. -/
def Place.bytes (rw : Rw) (pid : Nat) : Place → Nat
  | .searching rw' task rwBytes | .creating rw' task rwBytes _ =>
    if rw' = rw ∧ task.pid = pid then rwBytes else 0
  | .adding rw' ioAct => if rw' = rw then ioAct.bytes pid else 0

/-- The bytes of a task in a list of calls. -/
def callBytes (rw : Rw) (pid : Nat) (x : Rw × Nat × Nat) : Nat :=
  if x.1 = rw ∧ x.2.1 = pid then x.2.2 else 0

/-- The bytes of a task in a record that was freed. -/
def freedBytes (rw : Rw) (pid : Nat) (x : Rw × IoAccount) : Nat :=
  if x.1 = rw then x.2.bytes pid else 0

/-- Up to the overflow of `io_amount`. -/
def State.Balanced (s : State) : Prop :=
  ∀ rw pid, weigh (callBytes rw pid) s.counted ≡
    weigh (IoAccount.bytes pid) (s.ioList rw) + weigh (Place.bytes rw pid) s.calls +
      weigh (callBytes rw pid) s.lost + weigh (freedBytes rw pid) s.freed [MOD u64]

section Step

variable {s : State} {rw : Rw} {i : Nat}
variable {listSort : (IoAccount → IoAccount → Int) → List IoAccount → List IoAccount}

@[simp] theorem ioList_setIoList (ioList : List IoAccount) (rw' : Rw) :
    (s.setIoList rw ioList).ioList rw' = if rw' = rw then ioList else s.ioList rw' := by
  cases rw <;> cases rw' <;> rfl

@[simp] theorem calls_setIoList (ioList : List IoAccount) :
    (s.setIoList rw ioList).calls = s.calls := by
  cases rw <;> rfl

@[simp] theorem counted_setIoList (ioList : List IoAccount) :
    (s.setIoList rw ioList).counted = s.counted := by
  cases rw <;> rfl

@[simp] theorem lost_setIoList (ioList : List IoAccount) :
    (s.setIoList rw ioList).lost = s.lost := by
  cases rw <;> rfl

@[simp] theorem freed_setIoList (ioList : List IoAccount) :
    (s.setIoList rw ioList).freed = s.freed := by
  cases rw <;> rfl

/-- Adding to a record adds to the bytes of its task, and of no other. -/
theorem findAdd_bytes {pid : Nat} {comm : String} {rwBytes : Nat} {l l' : List IoAccount}
    (h : findAdd pid comm rwBytes l = some l') (pid' : Nat) :
    weigh (IoAccount.bytes pid') l' ≡
      weigh (IoAccount.bytes pid') l + (if pid = pid' then rwBytes else 0) [MOD u64] := by
  induction l generalizing l' with
  | nil => simp [findAdd] at h
  | cons r rest ih =>
    rw [findAdd] at h
    split at h
    · next hr =>
      obtain rfl := Option.some.inj h
      rw [weigh_cons, weigh_cons]
      simp only [IoAccount.bytes, hr.1, Nat.ModEq, u64]
      split <;> omega
    · obtain ⟨l, hl, rfl⟩ := Option.map_eq_some_iff.mp h
      have hrest := ih hl
      rw [weigh_cons, weigh_cons]
      simp only [Nat.ModEq, u64] at hrest ⊢
      omega

/-- A call begins, and its bytes are counted. -/
theorem State.Balanced.collect (h : s.Balanced) (task : Task) (comm : String) (rwBytes : Nat)
    (type : Int) (tamper : Int) : (s.collect task comm rwBytes type tamper).Balanced := by
  unfold State.collect
  repeat' split
  any_goals exact h
  next rw' _ =>
  intro rw pid
  show weigh _ (s.counted ++ [_]) ≡ weigh _ (s.ioList rw) + weigh _ (s.calls ++ [_]) +
    weigh _ s.lost + weigh _ s.freed [MOD u64]
  rw [weigh_concat, weigh_concat]
  have hbytes : callBytes rw pid (rw', task.pid, rwBytes) =
      (Place.searching rw' task rwBytes).bytes rw pid := rfl
  have hold := h rw pid
  simp only [Nat.ModEq, u64] at hold ⊢
  omega

/-- They go into the record, if there is one. -/
theorem State.Balanced.search (h : s.Balanced) (i : Nat) (comm : String) :
    (s.search i comm).Balanced := by
  unfold State.search
  split
  · next rw' task rwBytes hi =>
    intro rw pid
    have hold := h rw pid
    split
    · next ioList hfind =>
      have herase := weigh_eraseIdx (w := Place.bytes rw pid) hi
      have hadd := findAdd_bytes hfind pid
      show weigh _ (s.setIoList rw' ioList).counted ≡
        weigh _ ((s.setIoList rw' ioList).ioList rw) +
          weigh _ ((s.setIoList rw' ioList).calls.eraseIdx i) +
          weigh _ (s.setIoList rw' ioList).lost + weigh _ (s.setIoList rw' ioList).freed [MOD u64]
      simp only [counted_setIoList, ioList_setIoList, calls_setIoList, lost_setIoList,
        freed_setIoList]
      simp only [Place.bytes] at herase
      by_cases hrw : rw = rw'
      · subst hrw
        rw [if_pos rfl]
        simp only [true_and] at herase
        simp only [Nat.ModEq, u64] at hold hadd ⊢
        omega
      · rw [if_neg (fun hand => hrw hand.1.symm)] at herase
        rw [if_neg hrw]
        rw [Nat.add_zero] at herase
        rw [herase]
        exact hold
    · have hset := weigh_set (w := Place.bytes rw pid) (q := .creating rw' task rwBytes comm) hi
      show weigh _ s.counted ≡ weigh _ (s.ioList rw) + weigh _ (s.calls.set i _) +
        weigh _ s.lost + weigh _ s.freed [MOD u64]
      have hsame : weigh (Place.bytes rw pid) (s.calls.set i (.creating rw' task rwBytes comm)) =
          weigh (Place.bytes rw pid) s.calls := Nat.add_right_cancel hset
      rw [hsame]
      exact hold
  · exact h

/-- They go into a new record. -/
theorem State.Balanced.create (h : s.Balanced) (i : Nat) (comm : String) (ok : Bool) :
    (s.create i comm ok).Balanced := by
  unfold State.create
  split
  · next rw' task rwBytes sought hi =>
    intro rw pid
    have hold := h rw pid
    split
    · have hset := weigh_set (w := Place.bytes rw pid) (q := .adding rw'
        ⟨comm, task.groupLeader, task.parent, task.pid, task.tgid, task.ppid, rwBytes⟩) hi
      have hbytes : (Place.creating rw' task rwBytes sought).bytes rw pid =
          (Place.adding rw' ⟨comm, task.groupLeader, task.parent, task.pid, task.tgid, task.ppid,
            rwBytes⟩).bytes rw pid := by
        simp only [Place.bytes, IoAccount.bytes, ite_and]
      rw [hbytes] at hset
      have hsame := Nat.add_right_cancel hset
      show weigh _ s.counted ≡ weigh _ (s.ioList rw) + weigh _ (s.calls.set i _) +
        weigh _ s.lost + weigh _ s.freed [MOD u64]
      rw [hsame]
      exact hold
    · have herase := weigh_eraseIdx (w := Place.bytes rw pid) hi
      have hbytes : callBytes rw pid (rw', task.pid, rwBytes) =
          (Place.creating rw' task rwBytes sought).bytes rw pid := rfl
      show weigh _ s.counted ≡ weigh _ (s.ioList rw) + weigh _ (s.calls.eraseIdx i) +
        weigh _ (s.lost ++ [_]) + weigh _ s.freed [MOD u64]
      rw [weigh_concat]
      simp only [Nat.ModEq, u64] at hold ⊢
      omega
  · exact h

/-- The new record goes into the list. -/
theorem State.Balanced.add (h : s.Balanced) (i : Nat) : (s.add i).Balanced := by
  unfold State.add
  split
  · next rw' ioAct hi =>
    intro rw pid
    have hold := h rw pid
    have herase := weigh_eraseIdx (w := Place.bytes rw pid) hi
    show weigh _ (s.setIoList rw' (ioAct :: s.ioList rw')).counted ≡
      weigh _ ((s.setIoList rw' (ioAct :: s.ioList rw')).ioList rw) +
        weigh _ ((s.setIoList rw' (ioAct :: s.ioList rw')).calls.eraseIdx i) +
        weigh _ (s.setIoList rw' (ioAct :: s.ioList rw')).lost +
        weigh _ (s.setIoList rw' (ioAct :: s.ioList rw')).freed [MOD u64]
    simp only [counted_setIoList, ioList_setIoList, calls_setIoList, lost_setIoList,
      freed_setIoList]
    simp only [Place.bytes] at herase
    by_cases hrw : rw = rw'
    · subst hrw
      rw [if_pos rfl] at herase ⊢
      rw [weigh_cons]
      simp only [Nat.ModEq, u64] at hold ⊢
      omega
    · rw [if_neg fun heq => hrw heq.symm, Nat.add_zero] at herase
      rw [if_neg hrw, herase]
      exact hold
  · exact h

/-- The bytes of one list that is freed. -/
theorem freed_bytes (rw rw' : Rw) (pid : Nat) (l : List IoAccount) :
    weigh (freedBytes rw pid) (l.map (rw', ·)) =
      if rw' = rw then weigh (IoAccount.bytes pid) l else 0 := by
  rw [weigh_map]
  split
  · next hrw =>
    simp only [freedBytes, if_pos hrw]
  · next hrw =>
    refine weigh_eq_zero fun r _ => ?_
    exact if_neg hrw

/-- The report empties a list, and its bytes are shown. -/
theorem State.Balanced.show (h : s.Balanced) (hsort : Sorts listSort) (tamper : Int) :
    (s.show listSort tamper).Balanced := by
  unfold State.show
  split
  · exact h
  split
  · exact h
  intro rw pid
  have hold := h rw pid
  show weigh _ s.counted ≡ weigh _ (State.ioList { s with ioread := [], iowrite := [] } rw) +
    weigh _ s.calls + weigh _ s.lost +
    weigh _ (s.freed ++ (listSort iotopCmp s.ioread).map (Rw.read, ·) ++
      (listSort iotopCmp s.iowrite).map (Rw.write, ·)) [MOD u64]
  rw [weigh_append, weigh_append, freed_bytes, freed_bytes, weigh_perm (hsort.perm _ _),
    weigh_perm (hsort.perm _ _)]
  cases rw with
  | read =>
    have hlist : weigh (IoAccount.bytes pid) (s.ioList .read) =
        weigh (IoAccount.bytes pid) s.ioread := rfl
    simp only [State.ioList, weigh_nil, if_true, reduceCtorEq, if_false]
    simp only [Nat.ModEq, u64] at hold ⊢
    omega
  | write =>
    have hlist : weigh (IoAccount.bytes pid) (s.ioList .write) =
        weigh (IoAccount.bytes pid) s.iowrite := rfl
    simp only [State.ioList, weigh_nil, if_true, reduceCtorEq, if_false]
    simp only [Nat.ModEq, u64] at hold ⊢
    omega

/-- Every event keeps the balance. -/
theorem State.Balanced.step (h : s.Balanced) (hsort : Sorts listSort) (e : Event) :
    (s.step listSort e).Balanced := by
  cases e with
  | collect task comm rwBytes type tamper => exact h.collect task comm rwBytes type tamper
  | search i comm => exact h.search i comm
  | create i comm ok => exact h.create i comm ok
  | add i => exact h.add i
  | show_iotop tamper => exact h.show hsort tamper
  | exit => exact h

theorem balanced_init (isErr : Bool) : (State.init isErr).Balanced := by
  intro rw pid
  cases rw <;> rfl

end Step

/-- In every run, for each task and each direction: the bytes of the calls are those in its
records, in its calls that are not through, in the records that were freed, and those for
which there was no memory. -/
theorem iotop_run
    (listSort : (IoAccount → IoAccount → Int) → List IoAccount → List IoAccount)
    (hsort : Sorts listSort) (isErr : Bool) (events : List Event) :
    (events.foldl (State.step listSort) (.init isErr)).Balanced :=
  List.foldlRecOn events _ (balanced_init isErr) fun _ h e _ => h.step hsort e

/-- Two tasks, of which one finds its record and the other is printed. -/
theorem iotop_run_two :
    let one : Task := ⟨1, 1, "init", "swapper", 0⟩
    let two : Task := ⟨2, 2, "logd", "init", 1⟩
    let events : List Event := [.collect one "init" 512 1 0, .collect two "logd" 2097152 1 0,
      .search 0 "init", .search 1 "logd", .create 1 "logd" true, .add 1, .create 0 "init" true,
      .show_iotop 0, .add 0, .collect one "init" 512 1 0, .search 0 "init"]
    (events.foldl (State.step insertSort) (.init false)).Balanced :=
  iotop_run insertSort insertSort_sorts false _

/-! ## One record for each task and name -/

/-- The task whose call it is. -/
def Place.pid : Place → Nat
  | .searching _ task _ | .creating _ task _ _ => task.pid
  | .adding _ ioAct => ioAct.pid

/-- The list a call is about. -/
def Place.rw : Place → Rw
  | .searching rw _ _ | .creating rw _ _ _ | .adding rw _ => rw

/-- What a record is found by. -/
def IoAccount.key (r : IoAccount) : Nat × String := (r.pid, r.taskName)

/-- The record a call will add. -/
def Place.key : Place → Option (Nat × String)
  | .searching _ _ _ => none
  | .creating _ task _ sought => some (task.pid, sought)
  | .adding _ ioAct => some ioAct.key

/-- The condition on one step, for one task: it is in one call at a time, and keeps its name
from the search to the new record. -/
def Steady (pid : Nat) (s : State) : Event → Prop
  | .collect task _ _ _ _ => task.pid = pid → pid ∉ s.calls.map Place.pid
  | .create i comm _ => ∀ p ∈ s.calls[i]?, ∀ k ∈ p.key, k.1 = pid → k.2 = comm
  | _ => True

instance (pid : Nat) (s : State) : (e : Event) → Decidable (Steady pid s e)
  | .collect task _ _ _ _ =>
    inferInstanceAs (Decidable (task.pid = pid → pid ∉ s.calls.map Place.pid))
  | .search _ _ => .isTrue trivial
  | .create i comm _ =>
    inferInstanceAs (Decidable (∀ p ∈ s.calls[i]?, ∀ k ∈ p.key, k.1 = pid → k.2 = comm))
  | .add _ => .isTrue trivial
  | .show_iotop _ => .isTrue trivial
  | .exit => .isTrue trivial

/-- How often a name of the task is in a list. -/
def recordsOf (pid : Nat) (comm : String) (l : List IoAccount) : Nat :=
  (l.map IoAccount.key).count (pid, comm)

/-- The task is in one call at most, has one record for a name at most, and none that a call of
its own will add. -/
structure State.Once (pid : Nat) (s : State) : Prop where
  calls : (s.calls.map Place.pid).count pid ≤ 1
  records : ∀ rw comm, recordsOf pid comm (s.ioList rw) ≤ 1
  absent : ∀ p ∈ s.calls, ∀ k ∈ p.key, k.1 = pid → recordsOf k.1 k.2 (s.ioList p.rw) = 0

section Step

variable {s : State} {rw : Rw} {i pid : Nat} {p q : Place}
variable {listSort : (IoAccount → IoAccount → Int) → List IoAccount → List IoAccount}

/-- The record in hand is one of the call's task. -/
theorem Place.key_fst {k : Nat × String} (hk : k ∈ p.key) : k.1 = p.pid := by
  cases p with
  | searching rw task rwBytes => exact absurd hk (by simp [Place.key])
  | creating rw task rwBytes sought =>
    obtain rfl := Option.some.inj hk
    rfl
  | adding rw ioAct =>
    obtain rfl := Option.some.inj hk
    rfl

/-- A search changes no key. -/
theorem findAdd_keys {pid : Nat} {comm : String} {rwBytes : Nat} {l l' : List IoAccount}
    (h : findAdd pid comm rwBytes l = some l') :
    l'.map IoAccount.key = l.map IoAccount.key := by
  induction l generalizing l' with
  | nil => simp [findAdd] at h
  | cons r rest ih =>
    rw [findAdd] at h
    split at h
    · obtain rfl := Option.some.inj h
      rfl
    · obtain ⟨l, hl, rfl⟩ := Option.map_eq_some_iff.mp h
      rw [List.map_cons, List.map_cons, ih hl]

/-- Where nothing was added there is no record. -/
theorem findAdd_none {pid : Nat} {comm : String} {rwBytes : Nat} {l : List IoAccount}
    (h : findAdd pid comm rwBytes l = none) : recordsOf pid comm l = 0 := by
  refine List.count_eq_zero.mpr ?_
  induction l with
  | nil => simp
  | cons r rest ih =>
    rw [findAdd] at h
    split at h
    · exact absurd h (by simp)
    · next hne =>
      have hrest := ih (Option.map_eq_none_iff.mp h)
      rw [List.map_cons, List.mem_cons, not_or]
      refine ⟨fun heq => hne ?_, hrest⟩
      obtain ⟨hpid, hname⟩ := Prod.mk.inj heq
      exact ⟨hpid.symm, hname.symm⟩

/-- A call goes on. -/
theorem State.Once.moveTo (h : s.Once pid) (hi : s.calls[i]? = some p) (hpid : p.pid = q.pid)
    (hq : ∀ k ∈ q.key, k.1 = pid → recordsOf k.1 k.2 (s.ioList q.rw) = 0) :
    (s.moveTo i q).Once pid := by
  refine ⟨?_, h.records, forall_set h.absent hq⟩
  show ((s.calls.set i q).map Place.pid).count pid ≤ 1
  rw [map_set hi hpid]
  exact h.calls

/-- A call is through, and has changed no key. -/
theorem State.Once.quit (h : s.Once pid) (i : Nat) : (s.quit i).Once pid :=
  ⟨(((List.eraseIdx_sublist ..).map _).count_le _).trans h.calls, h.records,
    fun p hp => h.absent p (List.mem_of_mem_eraseIdx hp)⟩

/-- Adding to a record makes no other. -/
theorem State.Once.keys (h : s.Once pid) {ioList : List IoAccount}
    (hkeys : ioList.map IoAccount.key = (s.ioList rw).map IoAccount.key) :
    (s.setIoList rw ioList).Once pid := by
  have hsame (comm : String) : recordsOf pid comm ioList = recordsOf pid comm (s.ioList rw) := by
    rw [recordsOf, recordsOf, hkeys]
  refine ⟨by rw [calls_setIoList]; exact h.calls, fun rw' comm => ?_, fun p hp k hk hpid => ?_⟩
  · rw [ioList_setIoList]
    split
    · next heq =>
      rw [hsame]
      exact h.records rw comm
    · exact h.records rw' comm
  · rw [calls_setIoList] at hp
    rw [ioList_setIoList]
    split
    · next heq =>
      have hold := h.absent p hp k hk hpid
      rw [heq, hpid] at hold
      rw [hpid, hsame]
      exact hold
    · exact h.absent p hp k hk hpid

/-- A call begins, where no other of this task is under way. -/
theorem State.Once.collect (h : s.Once pid) {task : Task}
    (hpid : task.pid = pid → pid ∉ s.calls.map Place.pid) (comm : String) (rwBytes : Nat)
    (type : Int) (tamper : Int) : (s.collect task comm rwBytes type tamper).Once pid := by
  unfold State.collect
  repeat' split
  any_goals exact h
  next rw' _ =>
  refine ⟨?_, h.records, forall_concat h.absent fun k hk => absurd hk (by simp [Place.key])⟩
  show ((s.calls ++ [Place.searching rw' task rwBytes]).map Place.pid).count pid ≤ 1
  rw [List.map_append, List.count_append, List.map_singleton]
  by_cases heq : task.pid = pid
  · rw [List.count_eq_zero.mpr (hpid heq), Nat.zero_add]
    exact List.count_le_length
  · rw [show List.count pid [Place.pid (.searching rw' task rwBytes)] = 0 from
      List.count_eq_zero.mpr fun hmem => heq (List.mem_singleton.mp hmem).symm]
    exact h.calls

/-- It looks for the record of its task. -/
theorem State.Once.search (h : s.Once pid) (i : Nat) (comm : String) :
    (s.search i comm).Once pid := by
  unfold State.search
  split
  · next rw' task rwBytes hi =>
    split
    · next ioList hfind => exact (h.keys (findAdd_keys hfind)).quit i
    · next hfind =>
      refine h.moveTo hi rfl fun k hk _ => ?_
      obtain rfl := Option.some.inj hk
      exact findAdd_none hfind
  · exact h

/-- It makes one, under the name its task has still. -/
theorem State.Once.create (h : s.Once pid) {comm : String}
    (hcomm : ∀ p ∈ s.calls[i]?, ∀ k ∈ p.key, k.1 = pid → k.2 = comm) (ok : Bool) :
    (s.create i comm ok).Once pid := by
  unfold State.create
  split
  · next rw' task rwBytes sought hi =>
    split
    · refine h.moveTo hi rfl fun k hk hpid => ?_
      obtain rfl := Option.some.inj hk
      obtain rfl : sought = comm := hcomm _ hi _ rfl hpid
      exact h.absent _ (List.mem_of_getElem? hi) _ rfl hpid
    · have hquit := h.quit i
      exact ⟨hquit.calls, hquit.records, hquit.absent⟩
  · exact h

/-- It adds it to the list. -/
theorem State.Once.add (h : s.Once pid) (i : Nat) : (s.add i).Once pid := by
  unfold State.add
  split
  · next rw' ioAct hi =>
    have habsent := h.absent _ (List.mem_of_getElem? hi) _ rfl
    have hcons (comm : String) : recordsOf pid comm (ioAct :: s.ioList rw') =
        recordsOf pid comm (s.ioList rw') + if ioAct.key = (pid, comm) then 1 else 0 := by
      rw [recordsOf, List.map_cons, List.count_cons, recordsOf]
      simp only [beq_iff_eq]
    refine ⟨?_, fun rw comm => ?_, fun p hp k hk hpid => ?_⟩
    · show ((s.setIoList rw' _).calls.eraseIdx i |>.map Place.pid).count pid ≤ 1
      rw [calls_setIoList]
      exact (((List.eraseIdx_sublist ..).map _).count_le _).trans h.calls
    · show recordsOf pid comm ((s.setIoList rw' _).ioList rw) ≤ 1
      rw [ioList_setIoList]
      split
      · rw [hcons]
        split
        · next hkey =>
          have hzero := habsent (congrArg Prod.fst hkey)
          rw [hkey] at hzero
          exact (congrArg (· + 1) hzero).le
        · exact h.records rw' comm
      · exact h.records rw comm
    · have hmem : p ∈ s.calls.eraseIdx i := by
        have hp' : p ∈ (s.setIoList rw' (ioAct :: s.ioList rw')).calls.eraseIdx i := hp
        rwa [calls_setIoList] at hp'
      have hold := h.absent p (List.mem_of_mem_eraseIdx hmem) k hk hpid
      show recordsOf k.1 k.2 ((s.setIoList rw' _).ioList p.rw) = 0
      rw [ioList_setIoList]
      split
      · next heq =>
        -- the call of the new record is the only one of the task
        rw [heq, hpid] at hold
        rw [hpid, hcons, hold, if_neg]
        intro hkey
        refine not_mem_eraseIdx (f := Place.pid) hi h.calls (congrArg Prod.fst hkey) ?_
        exact List.mem_map.mpr ⟨p, hmem, (Place.key_fst hk).symm.trans hpid⟩
      · exact hold
  · exact h

/-- The report empties a list. -/
theorem State.Once.show (h : s.Once pid) (tamper : Int) : (s.show listSort tamper).Once pid := by
  unfold State.show
  split
  · exact h
  split
  · exact h
  refine ⟨h.calls, fun rw comm => ?_, fun p hp k hk hpid => ?_⟩
  · cases rw <;> exact Nat.zero_le 1
  · cases hrw : p.rw <;> rfl

/-- Every event keeps the records single. -/
theorem State.Once.step (h : s.Once pid) {e : Event} (he : Steady pid s e) :
    (s.step listSort e).Once pid := by
  cases e with
  | collect task comm rwBytes type tamper => exact h.collect he comm rwBytes type tamper
  | search i comm => exact h.search i comm
  | create i comm ok => exact h.create he ok
  | add i => exact h.add i
  | show_iotop tamper => exact h.show tamper
  | exit => exact ⟨h.calls, h.records, h.absent⟩

theorem once_init (isErr : Bool) : (State.init isErr).Once pid := by
  refine ⟨Nat.zero_le 1, fun rw comm => ?_, fun p hp => absurd hp List.not_mem_nil⟩
  cases rw <;> exact Nat.zero_le 1

end Step

/-- In every run in which a task is in one call at a time and keeps its name from the search to
the new record, it has one record at most for each name in each direction, although the lock is
given up between the two. What the other tasks do is of no consequence. -/
theorem iotop_once
    (listSort : (IoAccount → IoAccount → Int) → List IoAccount → List IoAccount) (isErr : Bool)
    (events : List Event) (pid : Nat)
    (hsteady : AllSteps (State.step listSort) (Steady pid) (.init isErr) events) (rw : Rw)
    (comm : String) :
    recordsOf pid comm ((events.foldl (State.step listSort) (.init isErr)).ioList rw) ≤ 1 :=
  (AllSteps.invariant (fun _ _ h he => h.step he) (once_init isErr) hsteady).records rw comm

/-- Two calls of two tasks, of which the other changes its name. -/
theorem iotop_once_two :
    let one : Task := ⟨1, 1, "init", "swapper", 0⟩
    let two : Task := ⟨2, 2, "logd", "init", 1⟩
    let events : List Event := [.collect one "init" 512 1 0, .collect two "logd" 4096 1 0,
      .search 0 "init", .search 1 "logd", .create 1 "logd" true, .add 1, .create 0 "kworker" true,
      .add 0, .collect two "logd" 4096 1 0, .search 0 "logd"]
    let s := events.foldl (State.step insertSort) (.init false)
    recordsOf 2 "logd" (s.ioList .write) = 1 ∧ recordsOf 2 "logd" (s.ioList .write) ≤ 1 :=
  ⟨by decide, iotop_once insertSort false _ 2 (by decide) .write "logd"⟩

/-! ## The five largest -/

section Report

variable {listSort : (IoAccount → IoAccount → Int) → List IoAccount → List IoAccount} {rw : Rw}

/-- `iotop_cmp` sorts the larger amounts to the front. -/
theorem sorted_iotopCmp (hsort : Sorts listSort) (l : List IoAccount) :
    (listSort iotopCmp l).Pairwise fun a b => b.ioAmount ≤ a.ioAmount := by
  refine hsort.ordered iotopCmp IoAccount.ioAmount l (fun a b hlt => ?_) fun a b hlt => ?_
  · rw [iotopCmp, if_neg (by omega)]
    decide
  · rw [iotopCmp, if_pos hlt]
    decide

/-- The totals of the loop are those of the list. -/
theorem visit_totals (l : List IoAccount) : ∀ s : Loop, s.totalBytes < u64 →
    (l.foldl (Loop.visit rw) s).taskCnt = s.taskCnt + l.length ∧
      (l.foldl (Loop.visit rw) s).totalBytes =
        (s.totalBytes + (l.map IoAccount.ioAmount).sum) % u64 := by
  induction l with
  | nil => exact fun s hs => ⟨rfl, (Nat.mod_eq_of_lt hs).symm⟩
  | cons r rest ih =>
    intro s _
    obtain ⟨hcnt, hbytes⟩ := ih (s.visit rw r) (Nat.mod_lt _ (by decide))
    rw [List.foldl_cons, hcnt, hbytes, List.length_cons, List.map_cons, List.sum_cons]
    refine ⟨?_, ?_⟩
    · show s.taskCnt + 1 + rest.length = _
      omega
    · show ((s.totalBytes + r.ioAmount) % u64 + _) % u64 = _
      rw [Nat.mod_add_mod, Nat.add_assoc]

theorem exceeds_mono {a b : IoAccount} (hle : a.ioAmount ≤ b.ioAmount) (ha : rw.exceeds a = true) :
    rw.exceeds b = true := by
  cases rw <;> simp only [Rw.exceeds, decide_eq_true_eq] at ha ⊢ <;> omega

theorem log_visit (s : Loop) (r : IoAccount) : (s.visit rw r).log =
    if s.i < 5 && rw.exceeds r then s.log ++ [r.line rw (s.i + 1)] else s.log := rfl

/-- What the loop prints, when the larger amounts come first: once a record does not
exceed the threshold, no later one does. -/
theorem visit_log {l : List IoAccount} (hl : l.Pairwise fun a b => b.ioAmount ≤ a.ioAmount) :
    ∀ s : Loop, (l.foldl (Loop.visit rw) s).log = s.log ++
      ((l.take (5 - s.i)).takeWhile rw.exceeds).mapIdx fun i r => r.line rw (s.i + i + 1) := by
  induction l with
  | nil => simp
  | cons r rest ih =>
    intro s
    obtain ⟨hr, hrest⟩ := List.pairwise_cons.mp hl
    have hstep := ih hrest (s.visit rw r)
    have hi : (s.visit rw r).i = s.i + 1 := rfl
    rw [List.foldl_cons, hstep, hi, log_visit]
    by_cases hlt : s.i < 5
    · obtain ⟨n, hn⟩ : ∃ n, 5 - s.i = n + 1 := ⟨4 - s.i, by omega⟩
      have hn' : 5 - (s.i + 1) = n := by omega
      rw [hn, hn', List.take_succ_cons]
      by_cases hexceeds : rw.exceeds r = true
      · have hline : (fun i (r : IoAccount) => r.line rw (s.i + 1 + i + 1)) =
            fun i r => r.line rw (s.i + (i + 1) + 1) := by
          refine funext fun i => funext fun r => ?_
          rw [Nat.add_assoc s.i 1 i, Nat.add_comm 1 i]
        have hprinted : (s.i < 5 && rw.exceeds r) = true := by simp [hlt, hexceeds]
        rw [if_pos hprinted, List.takeWhile_cons_of_pos hexceeds, List.mapIdx_cons,
          List.append_assoc, List.singleton_append, hline]
      · have hnone : (rest.take n).takeWhile rw.exceeds = [] := by
          cases hcons : rest.take n with
          | nil => rfl
          | cons q _ =>
            have hq : q ∈ rest := List.mem_of_mem_take (hcons ▸ List.mem_cons_self)
            exact List.takeWhile_cons_of_neg fun hexceeds' =>
              hexceeds (exceeds_mono (hr q hq) hexceeds')
        rw [if_neg (by simp [hexceeds]), hnone, List.takeWhile_cons_of_neg hexceeds,
          List.mapIdx_nil, List.mapIdx_nil]
    · rw [if_neg (by simp [hlt]), show 5 - s.i = 0 by omega, show 5 - (s.i + 1) = 0 by omega,
        List.take_zero, List.take_zero, List.takeWhile_nil, List.mapIdx_nil, List.mapIdx_nil]

/-- The list is cut after the last record that is printed. -/
theorem top_rest {l : List IoAccount} (hl : l.Pairwise fun a b => b.ioAmount ≤ a.ioAmount) :
    ∃ rest, l = (l.take 5).takeWhile rw.exceeds ++ rest ∧
      ∀ r ∈ rest, rw.exceeds r = true → ((l.take 5).takeWhile rw.exceeds).length = 5 := by
  have htake : (l.take 5).takeWhile rw.exceeds ++ (l.take 5).dropWhile rw.exceeds = l.take 5 :=
    List.takeWhile_append_dropWhile
  refine ⟨(l.take 5).dropWhile rw.exceeds ++ l.drop 5, ?_, fun r hr hexceeds => ?_⟩
  · rw [← List.append_assoc, htake, List.take_append_drop]
  cases hdrop : (l.take 5).dropWhile rw.exceeds with
  | nil =>
    rw [hdrop, List.nil_append] at hr
    rw [hdrop, List.append_nil] at htake
    have hlong := List.length_pos_of_mem hr
    rw [List.length_drop] at hlong
    rw [htake, List.length_take]
    omega
  | cons d others =>
    -- the first that is not printed does not exceed the threshold, and is the largest left
    have hd : ¬ rw.exceeds d = true := by
      have hhead := List.head?_dropWhile_not rw.exceeds (l.take 5)
      rw [hdrop] at hhead
      simpa using hhead
    refine absurd ?_ hd
    have hl' : (d :: (others ++ l.drop 5)).Pairwise fun a b => b.ioAmount ≤ a.ioAmount := by
      rw [← List.take_append_drop 5 l, ← htake, hdrop, List.append_assoc] at hl
      exact (List.pairwise_append.mp hl).2.1
    rw [hdrop, List.cons_append] at hr
    rcases List.mem_cons.mp hr with rfl | hr
    · exact hexceeds
    · exact exceeds_mono ((List.pairwise_cons.mp hl').1 r hr) hexceeds

end Report

/-- `show_iotop` prints of each list the records with the largest amounts, five at most,
the largest first and numbered from one, and all of those that exceed the threshold if
they are no more than five; and then the total, if it exceeds its own. -/
theorem show_top (listSort : (IoAccount → IoAccount → Int) → List IoAccount → List IoAccount)
    (hsort : Sorts listSort) (rw : Rw) (l : List IoAccount) :
    ∃ top rest : List IoAccount, (top ++ rest).Perm l ∧ top.length ≤ 5 ∧
      (top.Pairwise fun a b => b.ioAmount ≤ a.ioAmount) ∧
      (∀ r ∈ top, rw.exceeds r = true) ∧
      (∀ r ∈ rest, (∀ q ∈ top, r.ioAmount ≤ q.ioAmount) ∧
        (rw.exceeds r = true → top.length = 5)) ∧
      report rw (listSort iotopCmp l) = (top.mapIdx fun i r => r.line rw (i + 1)) ++
        Loop.total rw ⟨0, l.length, (l.map IoAccount.ioAmount).sum % u64, []⟩ := by
  have hsorted := sorted_iotopCmp hsort l
  have hperm := hsort.perm iotopCmp l
  obtain ⟨rest, happend, hrest⟩ := @top_rest rw _ hsorted
  have hsplit := hsorted
  rw [happend] at hsplit
  obtain ⟨htop, -, hle⟩ := List.pairwise_append.mp hsplit
  refine ⟨((listSort iotopCmp l).take 5).takeWhile rw.exceeds, rest, ?_, ?_, htop, ?_,
    fun r hr => ⟨fun q hq => hle q hq r hr, hrest r hr⟩, ?_⟩
  · rw [← happend]
    exact hperm
  · exact (List.takeWhile_prefix _).length_le.trans (by rw [List.length_take]; omega)
  · exact fun r hr => List.all_eq_true.mp List.all_takeWhile r hr
  · have hlog := @visit_log rw _ hsorted ⟨0, 0, 0, []⟩
    obtain ⟨hcnt, hbytes⟩ :=
      @visit_totals rw (listSort iotopCmp l) ⟨0, 0, 0, []⟩ (by decide)
    have htotal : Loop.total rw ((listSort iotopCmp l).foldl (Loop.visit rw) ⟨0, 0, 0, []⟩) =
        Loop.total rw ⟨0, l.length, (l.map IoAccount.ioAmount).sum % u64, []⟩ := by
      rw [Loop.total, Loop.total, hcnt, hbytes, hperm.length_eq,
        (hperm.map IoAccount.ioAmount).sum_eq, Nat.zero_add, Nat.zero_add]
    rw [report, htotal, hlog]
    simp only [Nat.sub_zero, Nat.zero_add, List.nil_append]

/-- Of two records one is printed. -/
theorem show_top_two :
    let l : List IoAccount :=
      [⟨"a", "a", "init", 5, 5, 1, 4096⟩, ⟨"b", "b", "init", 6, 6, 1, 2097152⟩]
    ∃ top rest : List IoAccount, (top ++ rest).Perm l ∧ top.length ≤ 5 ∧
      (top.Pairwise fun a b => b.ioAmount ≤ a.ioAmount) ∧
      (∀ r ∈ top, Rw.write.exceeds r = true) ∧
      (∀ r ∈ rest, (∀ q ∈ top, r.ioAmount ≤ q.ioAmount) ∧
        (Rw.write.exceeds r = true → top.length = 5)) ∧
      report .write (insertSort iotopCmp l) = (top.mapIdx fun i r => r.line .write (i + 1)) ++
        Loop.total .write ⟨0, l.length, (l.map IoAccount.ioAmount).sum % u64, []⟩ :=
  show_top insertSort insertSort_sorts .write _

end AndroidLearn.Iotop.Stats
