import AndroidLearn.Conf.Glist
import AndroidLearn.Lib.Run
import Mathlib.Logic.Function.Basic
import Mathlib.Data.Set.Card

/-!
# `CONF`, a store of named values

The functions of `conf.c` without the files: `conf_get`, `conf_set`, `conf_remove`,
`conf_remove_all`, `conf_compare`, `conf_sort` and `conf_count`. The store is a `GLIST` of
name-value pairs, and a call has the lock of the store from its beginning to its end, so
one call is one step.

A C string is the list of its bytes. `malloc` and `strdup` fail wherever they like: a call
that allocates has the answers as an argument (`Alloc`), and what was allocated before one
that fails is freed again.

Abstractly the store is a finite map: `ConfMap` gives for each name the value set last and
not removed since, and `Refines` says that the list holds one pair for each name of the
map and no other. Each operation has its lemma (`confSet_spec`, `confRemove_spec`,
`confSort_spec`); `Refines.exec` puts them together for a step.

Theorem: `confRefines_run` ties the two together over every sequence of operations, and
says what each returns: a set fails only if an allocation of its own does, and what fails
leaves the store as it was.
-/

namespace AndroidLearn.Conf

open Run

/-- A C string by its characters, one for each byte. -/
abbrev CString := List Char

/-- `CONF_PAIR` -/
structure ConfPair where
  name : CString
  value : CString
  deriving DecidableEq, Repr

/-- The list of a `CONF`. -/
abbrev PairList := List ConfPair

/-- `_compare_data_with_pair` returns 0. -/
def compareDataWithPair (name : CString) (p : ConfPair) : Bool := name == p.name

/-! ## The operations -/

/-- Which of the allocations of `conf_set` succeed. -/
structure Alloc where
  /-- `strdup` of the new value of an existing pair -/
  dup : Bool
  /-- `malloc` of a pair and `strdup` of its strings -/
  pair : Bool
  dupName : Bool
  dupValue : Bool
  /-- `malloc` of the list's node -/
  node : Bool
  deriving DecidableEq, Repr

/-- No allocation fails. -/
def Alloc.all : Alloc := ⟨true, true, true, true, true⟩

/-- The allocations that a `conf_set` makes all succeed. Where the name has a pair already, only
the new value is copied. -/
def Alloc.suffice (a : Alloc) (present : Bool) : Bool :=
  if present then a.dup else a.pair && a.dupName && a.dupValue && a.node

/-- `_alloc_pair` -/
def allocPair (a : Alloc) (name value : CString) : Option ConfPair :=
  if a.pair && a.dupName && a.dupValue then some ⟨name, value⟩ else none

/-- `conf_get`: the value of a name, or the default. -/
def confGet (conf : PairList) (name : Option CString) (default : Option CString) :
    Option CString :=
  match name with
  | none => default
  | some name =>
    match glistGet conf (glistFindEx (compareDataWithPair name) conf) with
    | none => default
    | some p => some p.value

/-- `glist_get` of the pair and the assignment through it. -/
def setValue (conf : PairList) (index : Nat) (value : CString) : PairList :=
  conf.modify index fun p => { p with value }

/-- `conf_set`: the value of a name is replaced, or a pair is put in front. It is -1 if an
allocation fails. -/
def confSet (a : Alloc) (conf : PairList) (name value : Option CString) : Int × PairList :=
  match name, value with
  | some name, some value =>
    match glistFindEx (compareDataWithPair name) conf with
    | some index => if a.dup then (0, setValue conf index value) else (-1, conf)
    | none =>
      match allocPair a name value with
      | none => (-1, conf)
      | some p =>
        match glistAdd a.node conf p with
        | none => (-1, conf)
        | some conf => (0, conf)
  | _, _ => (-1, conf)

/-- `conf_remove`: the pair goes. It is -1 if there is none. -/
def confRemove (conf : PairList) (name : Option CString) : Int × PairList :=
  match name with
  | none => (-1, conf)
  | some name =>
    match glistFindEx (compareDataWithPair name) conf with
    | none => (-1, conf)
    | some index => (0, glistDelete conf index)

/-- `conf_remove_all`. -/
def confRemoveAll (_ : PairList) : PairList := []

/-- The type of `_compare`: a comparison of names. -/
abbrev CompareFunc := CString → CString → Int

/-- `conf_compare`, with the function last given to `conf_sort` -/
def confCompare (compare : Option CompareFunc) (p₁ p₂ : ConfPair) : Int :=
  match compare with
  | none => 0
  | some f => f p₁.name p₂.name

/-- `conf_sort`, with the comparison of the caller or that of the names. -/
def confSort (compare : Option CompareFunc) (conf : PairList) : PairList :=
  glistSort (confCompare compare) conf

/-- `conf_count`. -/
def confCount (conf : PairList) : Nat := glistLength conf

/-! ## Lookup

The list is used through its lookup, and through the fact that no name occurs
twice. -/

/-- The names, in the order of the list. -/
def namesOf (conf : PairList) : List CString := conf.map ConfPair.name

/-- The value of the first pair of the name. -/
def valueOf (conf : PairList) (name : CString) : Option CString :=
  (conf.find? (compareDataWithPair name)).map ConfPair.value

section Lookup

variable {conf : PairList} {n name value : CString}

@[simp] theorem lookup_nil : valueOf [] n = none := rfl

/-- The first pair of a name is the one that counts. -/
theorem lookup_cons (p : ConfPair) (conf : PairList) (n : CString) :
    valueOf (p :: conf) n = if n = p.name then some p.value else valueOf conf n := by
  unfold valueOf compareDataWithPair
  rw [List.find?_cons]
  by_cases h : n = p.name
  · simp [h]
  · simp [h, beq_eq_false_iff_ne.mpr h]

/-- What is not found is not there. -/
theorem find_eq_none_iff :
    glistFindEx (compareDataWithPair name) conf = none ↔ name ∉ namesOf conf := by
  rw [← Option.not_isSome_iff_eq_none, glistFindEx_isSome, List.any_eq_true, namesOf,
    List.mem_map]
  simp [compareDataWithPair, eq_comm (a := name)]

theorem lookup_eq_none_iff : valueOf conf n = none ↔ n ∉ namesOf conf := by
  rw [valueOf, Option.map_eq_none_iff, ← find_eq_none_iff, ← glistGet_find]
  cases hfind : glistFindEx (compareDataWithPair n) conf with
  | none => simp [glistGet]
  | some index => simpa using glistGet_ne_none hfind

/-- `conf_get` is the lookup. -/
theorem confGet_eq (conf : PairList) (name : CString) (default : Option CString) :
    confGet conf (some name) default = (valueOf conf name).or default := by
  unfold confGet valueOf
  dsimp only
  rw [glistGet_find]
  cases conf.find? (compareDataWithPair name) <;> rfl

/-- Another value leaves the names as they are. -/
theorem setValue_names (conf : PairList) (index : Nat) (value : CString) :
    namesOf (setValue conf index value) = namesOf conf := by
  unfold setValue namesOf
  induction conf generalizing index with
  | nil => simp
  | cons p conf ih =>
    cases index with
    | zero => rfl
    | succ i => simp [ih]

/-- Another value for a name is seen under this name only. -/
theorem setValue_lookup {index : Nat}
    (hfind : glistFindEx (compareDataWithPair name) conf = some index) :
    valueOf (setValue conf index value) n =
      if n = name then some value else valueOf conf n := by
  induction conf generalizing index with
  | nil => exact absurd hfind (by simp [glistFindEx])
  | cons p conf ih =>
    unfold glistFindEx compareDataWithPair at hfind
    by_cases hp : name = p.name
    · -- the head is the pair
      obtain rfl : 0 = index := by simpa [hp] using hfind
      simp only [setValue, List.modify_zero_cons, lookup_cons, hp]
      split <;> rfl
    · simp only [beq_iff_eq, hp, if_false, Option.map_eq_some_iff] at hfind
      obtain ⟨i, hi, rfl⟩ := hfind
      have htail := ih hi
      simp only [setValue, List.modify_succ_cons, lookup_cons] at htail ⊢
      rw [htail]
      by_cases hn : n = p.name
      · have hne : n ≠ name := fun h => hp (h.symm.trans hn)
        rw [if_pos hn, if_neg hne, if_pos hn]
      · rw [if_neg hn, if_neg hn]

/-- With distinct names, the lookup is the membership of a pair. -/
theorem lookup_eq_some_iff (hnd : (namesOf conf).Nodup) :
    valueOf conf n = some value ↔ ⟨n, value⟩ ∈ conf := by
  induction conf with
  | nil => simp
  | cons p conf ih =>
    obtain ⟨hhead, htail⟩ := List.nodup_cons.mp hnd
    rw [lookup_cons, List.mem_cons]
    by_cases hn : n = p.name
    · have hnot : (⟨n, value⟩ : ConfPair) ∉ conf := fun hmem =>
        hhead (hn ▸ List.mem_map_of_mem (f := ConfPair.name) hmem)
      rw [if_pos hn, or_iff_left hnot, Option.some_inj]
      constructor
      · rintro rfl
        rw [hn]
      · rintro rfl
        rfl
    · have hne : (⟨n, value⟩ : ConfPair) ≠ p := by
        rintro rfl
        exact hn rfl
      rw [if_neg hn, ih htail, or_iff_right hne]

/-- The order of the pairs does not matter where names are distinct. -/
theorem perm_lookup {conf' : PairList} (hp : conf'.Perm conf) (hnd : (namesOf conf).Nodup)
    (n : CString) : valueOf conf' n = valueOf conf n := by
  have hnd' : (namesOf conf').Nodup := (hp.map ConfPair.name).nodup_iff.mpr hnd
  refine Option.ext fun v => ?_
  rw [lookup_eq_some_iff hnd', lookup_eq_some_iff hnd, hp.mem_iff]

/-- A pair that is taken out is missed under its name only. -/
theorem erase_lookup (hnd : (namesOf conf).Nodup) (n : CString) :
    valueOf (conf.eraseP (compareDataWithPair name)) n =
      if n = name then none else valueOf conf n := by
  induction conf with
  | nil => simp
  | cons p conf ih =>
    obtain ⟨hhead, htail⟩ := List.nodup_cons.mp hnd
    by_cases hp : name = p.name
    · rw [List.eraseP_cons_of_pos (by simp [compareDataWithPair, hp]), lookup_cons, hp]
      by_cases hn : n = p.name
      · rw [if_pos hn, hn, lookup_eq_none_iff]
        exact hhead
      · rw [if_neg hn, if_neg hn]
    · rw [List.eraseP_cons_of_neg (by simp [compareDataWithPair, hp]), lookup_cons, ih htail,
        lookup_cons]
      by_cases hn : n = p.name
      · have hne : n ≠ name := fun h => hp (h.symm.trans hn)
        rw [if_pos hn, if_neg hne, if_pos hn]
      · rw [if_neg hn, if_neg hn]

end Lookup

/-! ## The finite map -/

/-- What the store is for: a value for each of finitely many names. -/
abbrev ConfMap := CString → Option CString

/-- The store holds each name once, and the value the map has for it. -/
structure Refines (conf : PairList) (m : ConfMap) : Prop where
  nodup : (namesOf conf).Nodup
  lookup : ∀ n, valueOf conf n = m n

/-- The number of names present. -/
theorem Refines.count {conf : PairList} {m : ConfMap} (h : Refines conf m) :
    confCount conf = {n | m n ≠ none}.ncard := by
  have hset : {n | m n ≠ none} = ↑(namesOf conf).toFinset := by
    ext n
    rw [Set.mem_ofPred_eq, ← h.lookup, ne_eq, lookup_eq_none_iff, not_not]
    simp
  rw [hset, Set.ncard_coe_finset, List.toFinset_card_of_nodup h.nodup, confCount, glistLength_eq]
  simp [namesOf]

/-- A call of the interface. -/
inductive Op
  | set (a : Alloc) (name value : Option CString)
  | get (name default : Option CString)
  | remove (name : Option CString)
  | removeAll
  | sort (compare : Option CompareFunc)
  | count

/-- What the caller gets back. -/
inductive Result
  | code (ret : Int)
  | value (v : Option CString)
  | size (n : Nat)
  | none

/-- The store, and the static `_compare` that `conf_sort` leaves. -/
structure World where
  conf : PairList
  compare : Option CompareFunc

/-- What a call answers, and what it leaves. -/
def Op.exec (w : World) : Op → Result × World
  | set a name value =>
    let (ret, conf) := confSet a w.conf name value
    (.code ret, { w with conf })
  | get name default => (.value (confGet w.conf name default), w)
  | remove name =>
    let (ret, conf) := confRemove w.conf name
    (.code ret, { w with conf })
  | removeAll => (.none, { w with conf := confRemoveAll w.conf })
  | sort compare =>
    let compare := compare.or w.compare
    (.none, { conf := confSort compare w.conf, compare })
  | count => (.size (confCount w.conf), w)

/-- The operation reported a failure. -/
def Result.failed : Result → Prop
  | code ret => ret < 0
  | _ => False

instance (r : Result) : Decidable r.failed := by
  cases r <;> unfold Result.failed <;> infer_instance

/-- The map after an operation, given what the operation reported: the history's
latest successful `set` of a name, unless it was removed since. -/
def Op.latest (m : ConfMap) (r : Result) : Op → ConfMap
  | set _ (some name) (some value) => if r.failed then m else Function.update m name (some value)
  | remove (some name) => Function.update m name none
  | removeAll => fun _ => none
  | _ => m

/-- The name an operation is about, if it is about one. -/
def Op.name : Op → Option CString
  | set _ name _ | get name _ | remove name => name
  | _ => none

def execMap (s : World × ConfMap) (op : Op) : World × ConfMap :=
  ((op.exec s.1).2, op.latest s.2 (op.exec s.1).1)

/-- What an operation is to do, given the map of the operations before it. -/
structure Agrees (s : World × ConfMap) (op : Op) : Prop where
  before : Refines s.1.conf s.2
  after : Refines (op.exec s.1).2.conf (execMap s op).2
  set : ∀ a name value, op = .set a (some name) (some value) →
    (op.exec s.1).1 = .code (if a.suffice (s.2 name).isSome then 0 else -1)
  remove : ∀ name, op = .remove (some name) →
    (op.exec s.1).1 = .code (if (s.2 name).isSome then 0 else -1)
  get : ∀ name default, op = .get (some name) default →
    (op.exec s.1).1 = .value ((s.2 name).or default)
  count : op = .count → (op.exec s.1).1 = .size {n | s.2 n ≠ none}.ncard
  frame : ∀ name n, op.name = some name → n ≠ name →
    valueOf (op.exec s.1).2.conf n = valueOf s.1.conf n
  failed : (op.exec s.1).1.failed → (op.exec s.1).2 = s.1

/-! ## One operation -/

section Step

variable {conf : PairList} {m : ConfMap} {name value : CString} {a : Alloc}

theorem find_isSome : (glistFindEx (compareDataWithPair name) conf).isSome =
    (valueOf conf name).isSome := by
  rw [Bool.eq_iff_iff, ← not_iff_not, Option.not_isSome_iff_eq_none, Option.not_isSome_iff_eq_none,
    find_eq_none_iff, lookup_eq_none_iff]

/-- `conf_set` of a name and a value: an allocation fails and nothing changes, or the
lookup is updated. -/
theorem confSet_spec (hnd : (namesOf conf).Nodup) :
    (a.suffice (valueOf conf name).isSome = false ∧
      confSet a conf (some name) (some value) = (-1, conf)) ∨
    (a.suffice (valueOf conf name).isSome = true ∧
      (confSet a conf (some name) (some value)).1 = 0 ∧
      (namesOf (confSet a conf (some name) (some value)).2).Nodup ∧
      ∀ n, valueOf (confSet a conf (some name) (some value)).2 n =
        if n = name then some value else valueOf conf n) := by
  rw [← find_isSome]
  cases hfind : glistFindEx (compareDataWithPair name) conf with
  | some index =>
    have hret : confSet a conf (some name) (some value) =
        if a.dup then (0, setValue conf index value) else (-1, conf) := by
      simp [confSet, hfind]
    rw [hret, Option.isSome_some, Alloc.suffice, if_pos rfl]
    cases a.dup with
    | false => exact .inl ⟨rfl, rfl⟩
    | true =>
      exact .inr ⟨rfl, rfl, by rw [if_pos rfl, setValue_names]; exact hnd,
        fun n => setValue_lookup hfind⟩
  | none =>
    -- the new pair needs four allocations
    have hret : confSet a conf (some name) (some value) =
        if (a.pair && a.dupName && a.dupValue) && a.node then (0, ⟨name, value⟩ :: conf)
        else (-1, conf) := by
      simp only [confSet, hfind, allocPair, glistAdd]
      cases a.pair && a.dupName && a.dupValue <;> cases a.node <;> rfl
    rw [hret, Option.isSome_none, Alloc.suffice, if_neg Bool.false_ne_true]
    cases (a.pair && a.dupName && a.dupValue) && a.node with
    | false => exact .inl ⟨rfl, rfl⟩
    | true =>
      exact .inr ⟨rfl, rfl, List.nodup_cons.mpr ⟨find_eq_none_iff.mp hfind, hnd⟩,
        fun n => lookup_cons _ _ _⟩

/-- `conf_set` succeeds when the allocations it needs do. -/
theorem confSet_ret (hnd : (namesOf conf).Nodup) :
    (confSet a conf (some name) (some value)).1 =
      if a.suffice (valueOf conf name).isSome then 0 else -1 := by
  rcases @confSet_spec _ name value a hnd with ⟨hfew, hret⟩ | ⟨hall, hret, -⟩
  · rw [hret, hfew, if_neg Bool.false_ne_true]
  · rw [hret, hall, if_pos rfl]

/-- `conf_remove` of a name: it is not there and nothing changes, or it goes. -/
theorem confRemove_spec (hnd : (namesOf conf).Nodup) :
    (confRemove conf (some name) = (-1, conf) ∧ valueOf conf name = none) ∨
    ((valueOf conf name).isSome = true ∧
      (confRemove conf (some name)).1 = 0 ∧ (namesOf (confRemove conf (some name)).2).Nodup ∧
      ∀ n, valueOf (confRemove conf (some name)).2 n =
        if n = name then none else valueOf conf n) := by
  rw [← find_isSome]
  cases hfind : glistFindEx (compareDataWithPair name) conf with
  | none => exact .inl ⟨by simp [confRemove, hfind], lookup_eq_none_iff.mpr (find_eq_none_iff.mp hfind)⟩
  | some index =>
    have hret : confRemove conf (some name) = (0, conf.eraseP (compareDataWithPair name)) := by
      simp [confRemove, hfind, glistDelete_find hfind]
    rw [hret]
    refine .inr ⟨rfl, rfl, hnd.sublist ?_, erase_lookup hnd⟩
    exact List.eraseP_sublist.map ConfPair.name

/-- `conf_remove` succeeds when the name is there. -/
theorem confRemove_ret (hnd : (namesOf conf).Nodup) :
    (confRemove conf (some name)).1 = if (valueOf conf name).isSome then 0 else -1 := by
  rcases @confRemove_spec _ name hnd with ⟨hret, hnone⟩ | ⟨hsome, hret, -⟩
  · rw [hret, hnone, Option.isSome_none, if_neg Bool.false_ne_true]
  · rw [hret, hsome, if_pos rfl]

/-- Sorting changes no value. -/
theorem confSort_spec (compare : Option CompareFunc) (hnd : (namesOf conf).Nodup) :
    (namesOf (confSort compare conf)).Nodup ∧
      ∀ n, valueOf (confSort compare conf) n = valueOf conf n := by
  have hperm := glistSort_perm (confCompare compare) conf
  exact ⟨(hperm.map ConfPair.name).nodup_iff.mpr hnd, perm_lookup hperm hnd⟩

end Step

/-- Every call keeps the list in step with the map. -/
theorem Refines.exec {s : World × ConfMap} (h : Refines s.1.conf s.2) (op : Op) :
    Refines (op.exec s.1).2.conf (execMap s op).2 := by
  unfold execMap
  cases op with
  | set a name value =>
    rcases name with - | name
    · exact h
    rcases value with - | value
    · exact h
    rcases @confSet_spec _ name value a h.nodup with ⟨-, hret⟩ | hset
    · simp only [Op.exec, hret, Op.latest]
      rw [if_pos (by simp [Result.failed])]
      exact h
    · obtain ⟨-, hret, hnd, hlookup⟩ := hset
      simp only [Op.exec, hret, Op.latest]
      rw [if_neg (by simp [Result.failed])]
      refine ⟨hnd, fun n => ?_⟩
      rw [hlookup, Function.update_apply, h.lookup]
  | get name default => exact h
  | remove name =>
    rcases name with - | name
    · exact h
    rcases @confRemove_spec _ name h.nodup with ⟨hret, hnone⟩ | ⟨-, -, hnd, hlookup⟩
    · have hsame : Function.update s.2 name none = s.2 := by
        rw [Function.update_eq_self_iff, ← h.lookup, hnone]
      simp only [Op.exec, hret, Op.latest, hsame]
      exact h
    · refine ⟨hnd, fun n => ?_⟩
      simp only [Op.latest]
      rw [Op.exec]
      dsimp only
      rw [hlookup, Function.update_apply, h.lookup]
  | removeAll => exact ⟨List.nodup_nil, fun _ => rfl⟩
  | sort compare =>
    obtain ⟨hnd, hlookup⟩ := confSort_spec (compare.or s.1.compare) h.nodup
    exact ⟨hnd, fun n => (hlookup n).trans (h.lookup n)⟩
  | count => exact h

/-- A call that fails changes nothing. -/
theorem failed_same {w : World} (hnd : (namesOf w.conf).Nodup) (op : Op)
    (hf : (op.exec w).1.failed) : (op.exec w).2 = w := by
  cases op with
  | set a name value =>
    rcases name with - | name
    · rfl
    rcases value with - | value
    · rfl
    rcases @confSet_spec _ name value a hnd with ⟨-, hret⟩ | ⟨-, hret, -⟩
    · simp only [Op.exec, hret]
    · simp [Op.exec, hret, Result.failed] at hf
  | remove name =>
    rcases name with - | name
    · rfl
    rcases @confRemove_spec _ name hnd with ⟨hret, -⟩ | ⟨-, hret, -⟩
    · simp only [Op.exec, hret]
    · simp [Op.exec, hret, Result.failed] at hf
  | _ => exact absurd hf (by simp [Op.exec, Result.failed])

/-- A call on one name does not touch another. -/
theorem latest_other {op : Op} {name n : CString} (hname : op.name = some name) (hne : n ≠ name)
    (m : ConfMap) (r : Result) : op.latest m r n = m n := by
  cases op with
  | set a name' value =>
    obtain rfl : name' = some name := hname
    rcases value with - | value
    · rfl
    simp only [Op.latest]
    split
    · rfl
    · exact Function.update_of_ne hne _ _
  | get name' default => rfl
  | remove name' =>
    obtain rfl : name' = some name := hname
    exact Function.update_of_ne hne _ _
  | _ => exact absurd hname (by simp [Op.name])

/-- A call answers what the map says. -/
theorem Refines.agrees {s : World × ConfMap} (h : Refines s.1.conf s.2) (op : Op) :
    Agrees s op where
  before := h
  after := h.exec op
  set := by
    rintro a name value rfl
    simp only [Op.exec]
    rw [confSet_ret h.nodup, h.lookup]
  remove := by
    rintro name rfl
    simp only [Op.exec]
    rw [confRemove_ret h.nodup, h.lookup]
  get := by
    rintro name default rfl
    simp only [Op.exec]
    rw [confGet_eq, h.lookup]
  count := by
    rintro rfl
    simp only [Op.exec]
    rw [h.count]
  frame name n hname hne := by
    rw [(h.exec op).lookup, h.lookup]
    exact latest_other hname hne _ _
  failed := failed_same h.nodup op

/-! ## Every sequence -/

/-- Nothing is set, and nothing was ever loaded. -/
def World.empty : World := ⟨[], none⟩

/-- Over every sequence of operations on a store that starts empty, the store
is the map of the latest values. -/
theorem confRefines_run (ops : List Op) :
    AllSteps execMap Agrees (World.empty, fun _ => none) ops := by
  have hstart : Refines World.empty.conf (fun _ => none) := ⟨List.nodup_nil, fun _ => rfl⟩
  exact AllSteps.of_invariant (I := fun s : World × ConfMap => Refines s.1.conf s.2)
    (fun _ op h => ⟨h.exec op, h.agrees op⟩) hstart

end AndroidLearn.Conf
