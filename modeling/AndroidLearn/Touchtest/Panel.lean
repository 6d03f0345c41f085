import AndroidLearn.Logctl.Calls

/-!
# The tests of a touch panel

`ref_test`, `delta_test` and `ac_test` of `touchtest.c`. The diagnostic node gives the
items of a panel row by row, and a test goes through them with `strtok`. Each test is
modelled with the places of its array that it reads and writes, and with what it divides
by, so that it can be said where it leaves the array.

The text is split at blanks (`strtok`), and `atoi` makes an `int` of an item; sums and
differences wrap around. A test returns its result, the text that it leaves, and its
accesses in their order.

Theorem: `verdicts`, for every number of rows and columns, set of parameters and text with
as many items, whose differences are `int`s. `ref_test` and `delta_test` find what they
are to find: the first item that is out of range, or that differs too much from its left
or upper neighbour.
-/

namespace AndroidLearn.Touchtest

open Conf Logctl

/-! ## The tests -/

/-- `param` -/
structure Param where
  p0 : Int32
  p1 : Int32
  p2 : Int32
  deriving DecidableEq, Repr

/-- What can go wrong. -/
inductive Access
  /-- `buf [i]` is written -/
  | buffer (i : Nat)
  /-- `values [i]` is read or written, an array of `size` places -/
  | item (size : Int32) (i : Int)
  | div (d : Int32)
  deriving DecidableEq, Repr

/-- What a test comes to, and what it has looked at. -/
structure Result where
  ret : Nat
  /-- what is in `ret_str`, if it is written -/
  retStr : Option CString
  trace : List Access
  deriving DecidableEq, Repr

/-- What was looked at before comes first. -/
def Result.after (r : Result) (trace : List Access) : Result := { r with trace := trace ++ r.trace }

/-- `abs` -/
def abs (n : Int32) : Int32 := if n < 0 then -n else n

/-- `strtok` with `" "`, until it returns a null pointer. -/
def strtok (buf : CString) : List CString := (buf.splitOn ' ').filter (· ≠ [])

/-- `atoi (values [i])` for each item -/
def itemsOf (buf : CString) : List Int32 := (strtok buf).map atoi

/-- `"(%d,%d)"` -/
def pointText (x y : Int) : CString :=
  "(".toList ++ (toString x).toList ++ ",".toList ++ (toString y).toList ++ ")".toList

/-- The coordinates of an item. -/
def coordinates (column : Int32) (i : Nat) : CString :=
  pointText ((i : Int).tdiv column.toInt + 1) ((i : Int).tmod column.toInt + 1)

/-- `sprintf (ret_str, "Fail item: (%d,%d)", ..)`, and 1. -/
def Result.fail (size column : Int32) (i : Nat) : Result :=
  ⟨1, some ("Fail item: ".toList ++ coordinates column i),
    [.item size i, .div column, .div column]⟩

/-- The loop of `delta_test`. -/
def deltaLoop (size column : Int32) (param : Param) : Nat → List Int32 → Result
  | i, [] => ⟨0, none, [.item size i]⟩
  | i, v :: rest =>
    if param.p0 < abs v then .fail size column i
    else (deltaLoop size column param (i + 1) rest).after [.item size i, .item size (i + 1)]

/-- The test of single values. -/
def deltaTest (row column : Int32) (param : Param) (buf : CString) : Result :=
  let size := row * column
  (deltaLoop size column param 0 (itemsOf buf)).after [.item size 0]

/-- `values [i]`, as a number. -/
def valueAt (values : List Int32) (i : Int) : Int32 := if i < 0 then 0 else values.getD i.toNat 0

/-- The second loop of `ref_test`, `calculate the followings`. -/
def refFollowing (size column : Int32) (param : Param) (values : List Int32) :
    Nat → List Int32 → Result
  | i, [] => ⟨0, none, [.item size i]⟩
  | i, v :: rest =>
    if v < param.p0 ∨ param.p1 < v then .fail size column i
    else
      let left := param.p2 < abs (v - valueAt values (i - 1))
      -- the remainder is looked at only if the items differ too much
      let trace := [.item size i, .item size (i - 1)] ++ if left then [.div column] else []
      if left ∧ (i : Int).tmod column.toInt ≠ 0 then (Result.fail size column i).after trace
      else
        let trace := trace ++ [.item size (i - column.toInt)]
        if param.p2 < abs (v - valueAt values (i - column.toInt)) then
          (Result.fail size column i).after trace
        else
          (refFollowing size column param values (i + 1) rest).after
            (trace ++ [.item size (i + 1)])

/-- The first loop of `ref_test`, `calculate first row`. -/
def refFirst (size column : Int32) (param : Param) (values : List Int32) :
    Nat → List Int32 → Result
  | i, [] => (refFollowing size column param values i []).after [.item size i]
  | i, v :: rest =>
    if ¬ (i : Int) < column.toInt then
      (refFollowing size column param values i (v :: rest)).after [.item size i]
    else if v < param.p0 ∨ param.p1 < v then .fail size column i
    else if 0 < i ∧ param.p2 < abs (v - valueAt values (i - 1)) then
      (Result.fail size column i).after [.item size i, .item size (i - 1)]
    else
      (refFirst size column param values (i + 1) rest).after
        ([.item size i] ++ (if 0 < i then [.item size (i - 1)] else []) ++ [.item size (i + 1)])

/-- The test of neighbours. -/
def refTest (row column : Int32) (param : Param) (buf : CString) : Result :=
  let size := row * column
  (refFirst size column param (itemsOf buf) 0 (itemsOf buf)).after [.item size 0]

/-- What `ac_test` keeps while it goes on. -/
structure Ac where
  ret : Nat
  max : Int32
  min : Int32
  failItem : Nat
  deriving DecidableEq, Repr

/-- The loop of `ac_test`, and its end. -/
def acLoop (size column : Int32) (param : Param) : Ac → Nat → List Int32 → Result
  | ac, i, rest =>
    let finish (trace : List Access) : Result :=
      ⟨ac.ret, some ((toString ac.max.toInt).toList ++ ":".toList ++
        (toString ac.min.toInt).toList ++ ":".toList ++ coordinates column ac.failItem),
        trace ++ [.div column, .div column]⟩
    match rest with
    | [] => finish [.item size i]
    | v :: rest =>
      if ¬ (i : Int).tdiv column.toInt < param.p0.toInt then finish [.item size i, .div column]
      else
        let fails := ac.ret = 0 ∧ param.p2 < abs v
        let ac : Ac :=
          { ret := if fails then 1 else ac.ret
            max := if ac.max < v then v else ac.max
            min := if v < ac.min then v else ac.min
            failItem := if fails then i else ac.failItem }
        (acLoop size column param ac (i + 1) rest).after
          [.item size i, .div column, .item size (i + 1)]

/-- The test of the whole panel. -/
def acTest (row column : Int32) (param : Param) (buf : CString) : Result :=
  let size := row * column
  (acLoop size column param ⟨0, -1000000, 1000000, 0⟩ 0 (itemsOf buf)).after [.item size 0]

/-! ## Where a test stops -/

/-- `DATA_LEN` -/
def dataLen : Nat := 8192

/-- An access that stays within the buffer or the array; a division by something else
than 0. -/
def Access.Ok : Access → Prop
  | .buffer i => i < dataLen
  | .item size i => 0 ≤ i ∧ i < size.toInt
  | .div d => d ≠ 0

instance : DecidablePred Access.Ok
  | .buffer _ => inferInstanceAs (Decidable (_ < _))
  | .item _ _ => inferInstanceAs (Decidable (_ ∧ _))
  | .div _ => inferInstanceAs (Decidable (_ ≠ _))

/-- The first index, from `i` on, that is bad; or the one behind the last item. -/
def stopAt (bad : Nat → Bool) : Nat → List Int32 → Nat
  | i, [] => i
  | i, _ :: rest => if bad i then i else stopAt bad (i + 1) rest

/-- The value is too large. -/
def deltaBad (param : Param) (values : List Int32) (i : Nat) : Bool :=
  param.p0 < abs (valueAt values i)

/-- An item of `ref_test` that fails, where the panel has a column. -/
def refBad (column : Nat) (param : Param) (values : List Int32) (i : Nat) : Bool :=
  let v := valueAt values i
  v < param.p0 || param.p1 < v ||
    (i % column ≠ 0 && param.p2 < abs (v - valueAt values ((i : Int) - 1))) ||
    (column ≤ i && param.p2 < abs (v - valueAt values ((i : Int) - column)))

/-- The result of a test of `n` items that stops at one of them, or behind the last. -/
structure Result.Stops (r : Result) (size column : Int32) (n stop : Nat) : Prop where
  ret : r.ret = if stop < n then 1 else 0
  retStr : r.retStr =
    if stop < n then some ("Fail item: ".toList ++ coordinates column stop) else none
  bounds : (∀ a ∈ r.trace, a.Ok) ↔ (stop : Int) < size.toInt

section Stops

variable {bad : Nat → Bool} {i n stop : Nat} {v : Int32} {values rest : List Int32} {r : Result}
  {size column : Int32} {param : Param} {trace : List Access}

theorem stopAt_bad (h : bad i = true) : stopAt bad i (v :: rest) = i := if_pos h

theorem stopAt_good (h : ¬ bad i = true) : stopAt bad i (v :: rest) = stopAt bad (i + 1) rest :=
  if_neg h

/-- The test does not stop before it begins. -/
theorem le_stopAt (bad : Nat → Bool) (i : Nat) (rest : List Int32) : i ≤ stopAt bad i rest := by
  induction rest generalizing i with
  | nil => exact Nat.le_refl i
  | cons v rest ih =>
    unfold stopAt
    split
    · exact Nat.le_refl i
    · exact Nat.le_of_succ_le (ih (i + 1))

/-- All values in front of the stop are good. -/
theorem not_bad_of_lt_stopAt {j : Nat} (hij : i ≤ j) (hj : j < stopAt bad i rest) :
    bad j = false := by
  induction rest generalizing i with
  | nil => exact absurd hj (Nat.not_lt.mpr hij)
  | cons v rest ih =>
    unfold stopAt at hj
    split at hj
    · exact absurd hj (Nat.not_lt.mpr hij)
    next hgood =>
      rcases Nat.eq_or_lt_of_le hij with rfl | hlt
      · simpa using hgood
      · exact ih hlt hj

/-- The one it stops at is not. -/
theorem bad_stopAt (h : stopAt bad i rest < i + rest.length) : bad (stopAt bad i rest) = true := by
  induction rest generalizing i with
  | nil => exact absurd h (Nat.lt_irrefl i)
  | cons v rest ih =>
    unfold stopAt at h ⊢
    split
    · next hbad => exact hbad
    next hgood =>
      rw [if_neg hgood, List.length_cons] at h
      exact ih (by omega)

/-- More may be looked at first. -/
theorem Result.Stops.after (h : r.Stops size column n stop)
    (htrace : (stop : Int) < size.toInt → ∀ a ∈ trace, a.Ok) :
    (r.after trace).Stops size column n stop := by
  refine ⟨h.ret, h.retStr, ?_⟩
  show (∀ a ∈ trace ++ r.trace, a.Ok) ↔ _
  rw [List.forall_mem_append, h.bounds]
  exact and_iff_right_of_imp htrace

/-- Without a column the array has no place. -/
def Sized (size column : Int32) : Prop := 0 < size.toInt → column ≠ 0

/-- The size is that of the panel. -/
theorem sized_mul (row column : Int32) : Sized (row * column) column := by
  intro hpos hzero
  subst hzero
  rw [Int32.mul_zero] at hpos
  exact absurd hpos (by decide)

/-- A test that fails says where. -/
theorem fail_stops (hsized : Sized size column) (hi : i < n) :
    (Result.fail size column i).Stops size column n i := by
  refine ⟨(if_pos hi).symm, (if_pos hi).symm, ?_⟩
  constructor
  · intro h
    exact (h (.item size i) List.mem_cons_self).2
  · intro hlt a ha
    have hcolumn : column ≠ 0 := hsized (by omega)
    simp only [Result.fail, List.mem_cons, List.not_mem_nil, or_false] at ha
    rcases ha with rfl | rfl | rfl
    · exact ⟨Int.natCast_nonneg i, hlt⟩
    · exact hcolumn
    · exact hcolumn

/-- A test that passes has looked at all. -/
theorem pass_stops : (⟨0, none, [.item size n]⟩ : Result).Stops size column n n := by
  refine ⟨by simp, by simp, ?_⟩
  rw [List.forall_mem_singleton]
  exact ⟨fun h => h.2, fun h => ⟨Int.natCast_nonneg n, h⟩⟩

/-- The places up to the one where the test stops. -/
theorem item_ok {j : Int} (hpos : 0 ≤ j) (hj : j ≤ stop) (hstop : (stop : Int) < size.toInt) :
    (Access.item size j).Ok := ⟨hpos, Int.lt_of_le_of_lt hj hstop⟩

/-- The next value. -/
theorem valueAt_drop {v : Int32} (h : values.drop i = v :: rest) :
    valueAt values i = v ∧ i < values.length ∧ values.drop (i + 1) = rest := by
  have hlt : i < values.length := by
    by_contra hge
    rw [List.drop_of_length_le (by omega)] at h
    exact absurd h (by simp)
  rw [List.drop_eq_getElem_cons hlt] at h
  obtain ⟨hv, hrest⟩ := List.cons.inj h
  refine ⟨?_, hlt, hrest⟩
  unfold valueAt
  rw [if_neg (by omega), Int.toNat_natCast, List.getD_eq_getElem?_getD,
    List.getElem?_eq_getElem hlt]
  exact hv

theorem drop_eq_nil_length (h : values.drop i = []) (hi : i ≤ values.length) : i = values.length := by
  have hge := List.drop_eq_nil_iff.mp h
  omega

/-- The loop stops at the first bad value. -/
theorem deltaLoop_stops (hsized : Sized size column) (hi : i ≤ values.length)
    (hrest : values.drop i = rest) :
    (deltaLoop size column param i rest).Stops size column values.length
      (stopAt (deltaBad param values) i rest) := by
  induction rest generalizing i with
  | nil =>
    obtain rfl := drop_eq_nil_length hrest hi
    exact pass_stops
  | cons v rest ih =>
    obtain ⟨hv, hlt, hnext⟩ := valueAt_drop hrest
    have hbad : deltaBad param values i = true ↔ param.p0 < abs v := by
      rw [deltaBad, hv, decide_eq_true_eq]
    unfold deltaLoop
    by_cases hfails : param.p0 < abs v
    · rw [if_pos hfails, stopAt_bad (hbad.mpr hfails)]
      exact fail_stops hsized hlt
    · rw [if_neg hfails, stopAt_good (hbad.not.mpr hfails)]
      have hle := le_stopAt (deltaBad param values) (i + 1) rest
      refine (ih (i := i + 1) hlt hnext).after fun hsize => ?_
      rw [List.forall_mem_cons, List.forall_mem_singleton]
      exact ⟨item_ok (by omega) (by omega) hsize, item_ok (by omega) (by omega) hsize⟩

/-- Behind a row start the left neighbour is in another row. -/
theorem refBad_iff {c : Nat} (param : Param) (hcolumn : column.toInt = c) (hv : valueAt values i = v) :
    refBad c param values i = true ↔ v < param.p0 ∨ param.p1 < v ∨
      ((i : Int).tmod column.toInt ≠ 0 ∧ param.p2 < abs (v - valueAt values ((i : Int) - 1))) ∨
      (column.toInt ≤ i ∧ param.p2 < abs (v - valueAt values ((i : Int) - column.toInt))) := by
  have hmod : (i : Int).tmod column.toInt = ((i % c : Nat) : Int) := by
    rw [hcolumn]
    exact Int.ofNat_tmod i c
  unfold refBad
  rw [hv, hmod, hcolumn]
  simp only [Bool.or_eq_true, Bool.and_eq_true, decide_eq_true_eq, or_assoc]
  norm_cast

theorem refFollowing_stops {c : Nat} (hcolumn : column.toInt = c) (hpos : 0 < c)
    (hsized : Sized size column) (hrow : c ≤ i ∨ values.length ≤ i) (hi : i ≤ values.length)
    (hrest : values.drop i = rest) :
    (refFollowing size column param values i rest).Stops size column values.length
      (stopAt (refBad c param values) i rest) := by
  induction rest generalizing i with
  | nil =>
    obtain rfl := drop_eq_nil_length hrest hi
    exact pass_stops
  | cons v rest ih =>
    obtain ⟨hv, hlt, hnext⟩ := valueAt_drop hrest
    have hci : c ≤ i := hrow.resolve_right (by omega)
    have hbad := refBad_iff param hcolumn hv
    have hleftOk (stop : Nat) (hstop : i ≤ stop) (hsize : (stop : Int) < size.toInt) :
        ∀ a ∈ [Access.item size i, .item size (i - 1)] ++
          (if param.p2 < abs (v - valueAt values (i - 1)) then [Access.div column] else []), a.Ok := by
      refine List.forall_mem_append.mpr ⟨?_, ?_⟩
      · rw [List.forall_mem_cons, List.forall_mem_singleton]
        exact ⟨item_ok (by omega) (by omega) hsize, item_ok (by omega) (by omega) hsize⟩
      · split
        · rw [List.forall_mem_singleton]
          exact hsized (by omega)
        · exact List.forall_mem_nil _
    have hupOk (stop : Nat) (hstop : i ≤ stop) (hsize : (stop : Int) < size.toInt) :
        (Access.item size (i - column.toInt)).Ok :=
      item_ok (by omega) (by omega) hsize
    unfold refFollowing
    dsimp only
    generalize (if param.p2 < abs (v - valueAt values (i - 1)) then [Access.div column] else []) =
      division at hleftOk ⊢
    by_cases hrange : v < param.p0 ∨ param.p1 < v
    · rw [if_pos hrange, stopAt_bad (hbad.mpr (or_assoc.mp (.inl hrange)))]
      exact fail_stops hsized hlt
    rw [if_neg hrange]
    by_cases hleft : param.p2 < abs (v - valueAt values (i - 1)) ∧ (i : Int).tmod column.toInt ≠ 0
    · rw [if_pos hleft, stopAt_bad (hbad.mpr (.inr (.inr (.inl hleft.symm))))]
      exact (fail_stops hsized hlt).after fun hsize => hleftOk i (Nat.le_refl i) hsize
    rw [if_neg hleft]
    by_cases hup : param.p2 < abs (v - valueAt values (i - column.toInt))
    · rw [if_pos hup, stopAt_bad (hbad.mpr (.inr (.inr (.inr ⟨by omega, hup⟩))))]
      refine (fail_stops hsized hlt).after fun hsize => List.forall_mem_append.mpr ⟨?_, ?_⟩
      · exact hleftOk i (Nat.le_refl i) hsize
      · rw [List.forall_mem_singleton]
        exact hupOk i (Nat.le_refl i) hsize
    have hgood : ¬ refBad c param values i = true := by
      rw [hbad]
      intro hfails
      rcases hfails with hlow | hhigh | ⟨hmod, hfar⟩ | ⟨-, hfar⟩
      · exact hrange (.inl hlow)
      · exact hrange (.inr hhigh)
      · exact hleft ⟨hfar, hmod⟩
      · exact hup hfar
    rw [if_neg hup, stopAt_good hgood]
    have hle := le_stopAt (refBad c param values) (i + 1) rest
    refine (ih (i := i + 1) (.inl (by omega)) hlt hnext).after fun hsize => ?_
    refine List.forall_mem_append.mpr ⟨List.forall_mem_append.mpr ⟨?_, ?_⟩, ?_⟩
    · exact hleftOk _ (by omega) hsize
    · rw [List.forall_mem_singleton]
      exact hupOk _ (by omega) hsize
    · rw [List.forall_mem_singleton]
      exact item_ok (by omega) (by omega) hsize

theorem refFirst_stops {c : Nat} (hcolumn : column.toInt = c) (hpos : 0 < c)
    (hsized : Sized size column) (hi : i ≤ values.length) (hrest : values.drop i = rest) :
    (refFirst size column param values i rest).Stops size column values.length
      (stopAt (refBad c param values) i rest) := by
  induction rest generalizing i with
  | nil =>
    obtain rfl := drop_eq_nil_length hrest hi
    exact pass_stops.after fun hsize => by
      rw [List.forall_mem_singleton]
      exact item_ok (by omega) (Int.le_refl _) hsize
  | cons v rest ih =>
    obtain ⟨hv, hlt, hnext⟩ := valueAt_drop hrest
    unfold refFirst
    by_cases hrow : (i : Int) < column.toInt
    · have hbad := refBad_iff param hcolumn hv
      have hic : i < c := by omega
      have hmod : (i : Int).tmod column.toInt = i := by
        rw [hcolumn, ← Int.ofNat_tmod, Nat.mod_eq_of_lt hic]
      rw [hmod] at hbad
      rw [if_neg (not_not.mpr hrow)]
      by_cases hrange : v < param.p0 ∨ param.p1 < v
      · rw [if_pos hrange, stopAt_bad (hbad.mpr (or_assoc.mp (.inl hrange)))]
        exact fail_stops hsized hlt
      rw [if_neg hrange]
      by_cases hleft : 0 < i ∧ param.p2 < abs (v - valueAt values (i - 1))
      · rw [if_pos hleft, stopAt_bad (hbad.mpr (.inr (.inr (.inl ⟨by omega, hleft.2⟩))))]
        refine (fail_stops hsized hlt).after fun hsize => ?_
        rw [List.forall_mem_cons, List.forall_mem_singleton]
        exact ⟨item_ok (by omega) (by omega) hsize, item_ok (by omega) (by omega) hsize⟩
      have hgood : ¬ refBad c param values i = true := by
        rw [hbad]
        intro hfails
        rcases hfails with hlow | hhigh | ⟨hne, hfar⟩ | ⟨hle, -⟩
        · exact hrange (.inl hlow)
        · exact hrange (.inr hhigh)
        · exact hleft ⟨by omega, hfar⟩
        · omega
      rw [if_neg hleft, stopAt_good hgood]
      have hle := le_stopAt (refBad c param values) (i + 1) rest
      refine (ih (i := i + 1) hlt hnext).after fun hsize => ?_
      refine List.forall_mem_append.mpr ⟨List.forall_mem_append.mpr ⟨?_, ?_⟩, ?_⟩
      · rw [List.forall_mem_singleton]
        exact item_ok (by omega) (by omega) hsize
      · split
        · rw [List.forall_mem_singleton]
          exact item_ok (by omega) (by omega) hsize
        · exact List.forall_mem_nil _
      · rw [List.forall_mem_singleton]
        exact item_ok (by omega) (by omega) hsize
    · -- the first row is through
      rw [if_pos hrow]
      have hle := le_stopAt (refBad c param values) i (v :: rest)
      refine (refFollowing_stops hcolumn hpos hsized (.inl (by omega)) hi hrest).after fun hsize => ?_
      rw [List.forall_mem_singleton]
      exact item_ok (by omega) (by omega) hsize

/-- `values [0] = strtok (buf, " ")` -/
theorem Result.Stops.after_first (h : r.Stops size column n stop) :
    (r.after [.item size 0]).Stops size column n stop :=
  h.after fun hsize => by
    rw [List.forall_mem_singleton]
    exact item_ok (Int.le_refl 0) (Int.natCast_nonneg stop) hsize

/-- The test as a whole. -/
theorem deltaTest_stops (row column : Int32) (param : Param) (buf : CString) :
    (deltaTest row column param buf).Stops (row * column) column (itemsOf buf).length
      (stopAt (deltaBad param (itemsOf buf)) 0 (itemsOf buf)) :=
  (deltaLoop_stops (sized_mul row column) (Nat.zero_le _) rfl).after_first

theorem refTest_stops {c : Nat} (row : Int32) (param : Param) (buf : CString)
    (hcolumn : column.toInt = c) (hpos : 0 < c) :
    (refTest row column param buf).Stops (row * column) column (itemsOf buf).length
      (stopAt (refBad c param (itemsOf buf)) 0 (itemsOf buf)) :=
  (refFirst_stops hcolumn hpos (sized_mul row column) (Nat.zero_le _) rfl).after_first

end Stops

/-! ## The verdicts -/

/-- The items as a matrix with `c` columns. -/
def cell (values : List Int32) (c x y : Nat) : Int := (values.getD (x * c + y) 0).toInt

/-- `ref_test` fails at this item: it is out of range, or differs too much from its left
or its upper neighbour. -/
def RefFails (param : Param) (m : Nat → Nat → Int) (x y : Nat) : Prop :=
  m x y < param.p0.toInt ∨ param.p1.toInt < m x y ∨
    (0 < y ∧ param.p2.toInt < (m x y - m x (y - 1)).natAbs) ∨
    (0 < x ∧ param.p2.toInt < (m x y - m (x - 1) y).natAbs)

/-- A value is too far from zero. -/
def DeltaFails (param : Param) (m : Nat → Nat → Int) (x y : Nat) : Prop :=
  param.p0.toInt < (m x y).natAbs

/-- What `ref_test` is to accept. -/
structure RefPasses (param : Param) (m : Nat → Nat → Int) (rows columns : Nat) : Prop where
  range : ∀ x < rows, ∀ y < columns, param.p0.toInt ≤ m x y ∧ m x y ≤ param.p1.toInt
  horizontal : ∀ x < rows, ∀ y, y + 1 < columns →
    ((m x (y + 1) - m x y).natAbs : Int) ≤ param.p2.toInt
  vertical : ∀ x, x + 1 < rows → ∀ y < columns,
    ((m (x + 1) y - m x y).natAbs : Int) ≤ param.p2.toInt

/-- No value is. -/
def DeltaPasses (param : Param) (m : Nat → Nat → Int) (rows columns : Nat) : Prop :=
  ∀ x < rows, ∀ y < columns, ((m x y).natAbs : Int) ≤ param.p0.toInt

/-- The first item, in the order of the rows, that fails. -/
structure FirstFailing (fails : Nat → Nat → Prop) (rows columns x y : Nat) : Prop where
  row : x < rows
  column : y < columns
  here : fails x y
  before : ∀ x' y', y' < columns → x' < x ∨ x' = x ∧ y' < y → ¬ fails x' y'

/-- The result is 0 where the panel passes, and otherwise 1, with the coordinates of the
first failing item. -/
def Reports (r : Result) (passes : Prop) (fails : Nat → Nat → Prop) (rows columns : Nat) : Prop :=
  (r.ret = 0 ↔ passes) ∧
    (r.ret ≠ 0 → ∃ x y, FirstFailing fails rows columns x y ∧ r.ret = 1 ∧
      r.retStr = some ("Fail item: ".toList ++ pointText (x + 1) (y + 1)))

/-- No difference and no absolute value leaves an `int`. -/
structure NoOverflow (values : List Int32) : Prop where
  abs : ∀ a ∈ values, a.toInt.natAbs < 2 ^ 31
  difference : ∀ a ∈ values, ∀ b ∈ values, (a.toInt - b.toInt).natAbs < 2 ^ 31

section Verdicts

variable {values : List Int32} {param : Param} {r : Result} {size column : Int32}
  {rows columns : Nat} {m : Nat → Nat → Int} {fails : Nat → Nat → Prop} {bad : Nat → Bool}

/-- `abs`, where it does not overflow. -/
theorem toInt_abs {n : Int32} (h : n.toInt.natAbs < 2 ^ 31) : (abs n).toInt = n.toInt.natAbs := by
  unfold abs
  split
  · next hneg =>
    have hneg' : n.toInt < 0 := Int32.lt_iff_toInt_lt.mp hneg
    rw [Int32.toInt_neg, Int.bmod_eq_of_le (by omega) (by omega)]
    omega
  · next hpos =>
    have hpos' : ¬ n.toInt < 0 := fun hneg => hpos (Int32.lt_iff_toInt_lt.mpr hneg)
    omega

/-- The difference, in the same case. -/
theorem toInt_abs_sub {a b : Int32} (h : (a.toInt - b.toInt).natAbs < 2 ^ 31) :
    (abs (a - b)).toInt = (a.toInt - b.toInt).natAbs := by
  have hsub : (a - b).toInt = a.toInt - b.toInt := by
    rw [Int32.toInt_sub, Int.bmod_eq_of_le (by omega) (by omega)]
  rw [toInt_abs (by rwa [hsub]), hsub]

/-- The place of a later item, in the order of the rows. -/
theorem index_lt {x y x' y' : Nat} (hy' : y' < columns) (h : x' < x ∨ x' = x ∧ y' < y) :
    x' * columns + y' < x * columns + y := by
  rcases h with hlt | ⟨rfl, hlt⟩
  · have hmul : (x' + 1) * columns ≤ x * columns := Nat.mul_le_mul_right columns hlt
    rw [Nat.add_one_mul] at hmul
    omega
  · omega

/-- A place of the panel. -/
theorem index_lt_mul {x y : Nat} (hx : x < rows) (hy : y < columns) :
    x * columns + y < rows * columns := by
  have hlt := index_lt (x := rows) (y := 0) hy (.inl hx)
  rwa [Nat.add_zero] at hlt

/-- How it is printed. -/
theorem coordinates_index (hcolumn : column.toInt = columns) {x y : Nat} (hy : y < columns) :
    coordinates column (x * columns + y) = pointText (x + 1) (y + 1) := by
  have hdiv : (x * columns + y) / columns = x := by
    rw [Nat.mul_comm, Nat.mul_add_div (by omega), Nat.div_eq_of_lt hy, Nat.add_zero]
  have hmod : (x * columns + y) % columns = y := by
    rw [Nat.mul_comm, Nat.mul_add_mod, Nat.mod_eq_of_lt hy]
  unfold coordinates
  rw [hcolumn, ← Int.ofNat_tdiv, ← Int.ofNat_tmod, hdiv, hmod]

/-- The first failing item is where the test stops, if the two agree on the items. -/
theorem Result.Stops.reports (hcolumn : column.toInt = columns) (hpos : 0 < columns)
    (hlength : values.length = rows * columns)
    (hbad : ∀ x < rows, ∀ y < columns, bad (x * columns + y) = true ↔ fails x y)
    (h : r.Stops size column values.length (stopAt bad 0 values)) :
    Reports r (∀ x < rows, ∀ y < columns, ¬ fails x y) fails rows columns := by
  have hgood (x y : Nat) (hx : x < rows) (hy : y < columns)
      (hlt : x * columns + y < stopAt bad 0 values) : ¬ fails x y := by
    rw [← hbad x hx y hy, not_bad_of_lt_stopAt (Nat.zero_le _) hlt]
    exact Bool.false_ne_true
  obtain ⟨hret, hretStr, -⟩ := h
  by_cases hstop : stopAt bad 0 values < values.length
  · rw [if_pos hstop] at hret hretStr
    have hfails := bad_stopAt (show stopAt bad 0 values < 0 + values.length by omega)
    generalize stopAt bad 0 values = stop at *
    -- the coordinates of the item
    obtain ⟨x, y, hx, hy, rfl⟩ : ∃ x y, x < rows ∧ y < columns ∧ stop = x * columns + y :=
      ⟨stop / columns, stop % columns,
        (Nat.div_lt_iff_lt_mul hpos).mpr (by rwa [hlength] at hstop), Nat.mod_lt _ hpos,
        by rw [Nat.mul_comm, Nat.div_add_mod]⟩
    rw [hbad x hx y hy] at hfails
    refine ⟨iff_of_false (by rw [hret]; decide) fun hpasses => hpasses x hx y hy hfails, fun _ => ?_⟩
    refine ⟨x, y, ⟨hx, hy, hfails, fun x' y' hy' hbefore => ?_⟩, hret, ?_⟩
    · exact hgood x' y' (by omega) hy' (index_lt hy' hbefore)
    · rw [hretStr, coordinates_index hcolumn hy]
  · rw [if_neg hstop] at hret
    refine ⟨iff_of_true hret fun x hx y hy => ?_, fun hne => absurd hret hne⟩
    have hlt := index_lt_mul hx hy
    exact hgood x y hx hy (by omega)

/-- No place fails when all pass. -/
theorem refPasses_iff :
    (∀ x < rows, ∀ y < columns, ¬ RefFails param m x y) ↔ RefPasses param m rows columns := by
  unfold RefFails
  constructor
  · intro h
    refine ⟨fun x hx y hy => ?_, fun x hx y hy => ?_, fun x hx y hy => ?_⟩
    · have hxy := h x hx y hy
      omega
    · have hxy := h x hx (y + 1) hy
      rw [Nat.add_sub_cancel] at hxy
      omega
    · have hxy := h (x + 1) hx y hy
      rw [Nat.add_sub_cancel] at hxy
      omega
  · intro hpasses x hx y hy hfails
    obtain ⟨hrange, hhorizontal, hvertical⟩ := hpasses
    rcases hfails with hlow | hhigh | ⟨hpos, hfar⟩ | ⟨hpos, hfar⟩
    · have hxy := hrange x hx y hy
      omega
    · have hxy := hrange x hx y hy
      omega
    · have hxy := hhorizontal x hx (y - 1) (by omega)
      rw [Nat.sub_add_cancel hpos] at hxy
      omega
    · have hxy := hvertical (x - 1) (by omega) y hy
      rw [Nat.sub_add_cancel hpos] at hxy
      omega

theorem deltaPasses_iff :
    (∀ x < rows, ∀ y < columns, ¬ DeltaFails param m x y) ↔ DeltaPasses param m rows columns := by
  unfold DeltaFails DeltaPasses
  simp only [Int.not_lt]

/-- A value of the panel. -/
theorem valueAt_index {i : Nat} (hi : i < values.length) :
    valueAt values i = values.getD i 0 ∧ values.getD i 0 ∈ values := by
  refine ⟨?_, ?_⟩
  · unfold valueAt
    rw [if_neg (by omega), Int.toNat_natCast]
  · rw [List.getD_eq_getElem?_getD, List.getElem?_eq_getElem hi]
    exact List.getElem_mem hi

/-- The difference of two items, as the test has it. -/
theorem lt_abs_sub_iff (hfits : NoOverflow values) {p : Int32} {i j : Nat}
    (hi : i < values.length) (hj : j < values.length) :
    p < abs (valueAt values i - valueAt values j) ↔
      p.toInt < ((values.getD i 0).toInt - (values.getD j 0).toInt).natAbs := by
  obtain ⟨hvi, hmi⟩ := valueAt_index hi
  obtain ⟨hvj, hmj⟩ := valueAt_index hj
  rw [hvi, hvj, Int32.lt_iff_toInt_lt, toInt_abs_sub (hfits.difference _ hmi _ hmj)]

/-- The source's comparison is that of the panel. -/
theorem refBad_iff_refFails (hfits : NoOverflow values) (hlength : values.length = rows * columns)
    {x y : Nat} (hx : x < rows) (hy : y < columns) :
    refBad columns param values (x * columns + y) = true ↔
      RefFails param (cell values columns) x y := by
  have hi : x * columns + y < values.length := by
    rw [hlength]
    exact index_lt_mul hx hy
  have hmod : (x * columns + y) % columns = y := by
    rw [Nat.mul_comm, Nat.mul_add_mod, Nat.mod_eq_of_lt hy]
  have hcolumns : columns ≤ x * columns + y ↔ 0 < x := by
    constructor
    · intro hle
      by_contra hzero
      obtain rfl : x = 0 := by omega
      omega
    · intro hpos
      have hmul : 1 * columns ≤ x * columns := Nat.mul_le_mul_right columns hpos
      omega
  have hleft : (y ≠ 0 ∧ param.p2 < abs (valueAt values (x * columns + y : Nat) -
      valueAt values ((x * columns + y : Nat) - 1))) ↔
      0 < y ∧ param.p2.toInt <
        (cell values columns x y - cell values columns x (y - 1)).natAbs := by
    rw [Nat.pos_iff_ne_zero]
    refine and_congr_right fun hne => ?_
    rw [show ((x * columns + y : Nat) : Int) - 1 = (x * columns + (y - 1) : Nat) by omega,
      lt_abs_sub_iff hfits hi (by omega)]
    rfl
  have hup : (0 < x ∧ param.p2 < abs (valueAt values (x * columns + y : Nat) -
      valueAt values ((x * columns + y : Nat) - (columns : Int)))) ↔
      0 < x ∧ param.p2.toInt <
        (cell values columns x y - cell values columns (x - 1) y).natAbs := by
    refine and_congr_right fun hpos => ?_
    have hprev : x * columns = (x - 1) * columns + columns := by
      rw [← Nat.add_one_mul, Nat.sub_add_cancel hpos]
    rw [show ((x * columns + y : Nat) : Int) - columns = ((x - 1) * columns + y : Nat) by omega,
      lt_abs_sub_iff hfits hi (by omega)]
    rfl
  unfold refBad RefFails
  dsimp only
  rw [hmod]
  simp only [Bool.or_eq_true, Bool.and_eq_true, decide_eq_true_eq, or_assoc, hcolumns, hleft, hup]
  rw [Int32.lt_iff_toInt_lt, Int32.lt_iff_toInt_lt, (valueAt_index hi).1]
  rfl

theorem deltaBad_iff_deltaFails (hfits : NoOverflow values)
    (hlength : values.length = rows * columns) {x y : Nat} (hx : x < rows) (hy : y < columns) :
    deltaBad param values (x * columns + y) = true ↔
      DeltaFails param (cell values columns) x y := by
  have hi : x * columns + y < values.length := by
    rw [hlength]
    exact index_lt_mul hx hy
  obtain ⟨hv, hmem⟩ := valueAt_index hi
  rw [deltaBad, decide_eq_true_eq, hv, Int32.lt_iff_toInt_lt, toInt_abs (hfits.abs _ hmem)]
  rfl

end Verdicts

/-- For every panel of at least one row and one column, both tests pass exactly where
they ought to, and otherwise report the first failing item. -/
theorem verdicts (row column : Int32) (param : Param) (buf : CString) (hrow : 1 ≤ row.toInt)
    (hcolumn : 1 ≤ column.toInt)
    (hlength : ((itemsOf buf).length : Int) = row.toInt * column.toInt)
    (hfits : NoOverflow (itemsOf buf)) :
    let rows := row.toInt.toNat
    let columns := column.toInt.toNat
    let m := cell (itemsOf buf) columns
    Reports (refTest row column param buf) (RefPasses param m rows columns) (RefFails param m) rows
        columns ∧
      Reports (deltaTest row column param buf) (DeltaPasses param m rows columns)
        (DeltaFails param m) rows columns := by
  intro rows columns m
  have hlength' : (itemsOf buf).length = rows * columns := by
    have hnat := congrArg Int.toNat hlength
    rwa [Int.toNat_natCast, Int.toNat_mul (by omega) (by omega)] at hnat
  have hcolumn' : column.toInt = columns := by
    simp only [columns]
    omega
  have hpos : 0 < columns := by omega
  constructor
  · rw [← refPasses_iff]
    exact (refTest_stops row param buf hcolumn' hpos).reports hcolumn' hpos hlength'
      fun x hx y hy => refBad_iff_refFails hfits hlength' hx hy
  · rw [← deltaPasses_iff]
    exact (deltaTest_stops row column param buf).reports hcolumn' hpos hlength'
      fun x hx y hy => deltaBad_iff_deltaFails hfits hlength' hx hy

theorem noOverflow_square : NoOverflow (itemsOf "1 2 3 -9".toList) := by
  rw [show itemsOf "1 2 3 -9".toList = [1, 2, 3, -9] by decide]
  refine ⟨?_, ?_⟩
  · simp only [List.forall_mem_cons]
    exact ⟨by decide, by decide, by decide, by decide, List.forall_mem_nil _⟩
  · intro a ha b hb
    simp only [List.mem_cons, List.not_mem_nil, or_false] at ha hb
    rcases ha with rfl | rfl | rfl | rfl <;> rcases hb with rfl | rfl | rfl | rfl <;> decide

/-- The last item is out of range for the one test, and too large for the other. -/
theorem verdicts_square :
    let buf := "1 2 3 -9".toList
    let m := cell (itemsOf buf) 2
    Reports (refTest 2 2 ⟨1, 9, 5⟩ buf) (RefPasses ⟨1, 9, 5⟩ m 2 2) (RefFails ⟨1, 9, 5⟩ m) 2 2 ∧
      Reports (deltaTest 2 2 ⟨1, 9, 5⟩ buf) (DeltaPasses ⟨1, 9, 5⟩ m 2 2)
        (DeltaFails ⟨1, 9, 5⟩ m) 2 2 :=
  verdicts 2 2 ⟨1, 9, 5⟩ "1 2 3 -9".toList (by decide) (by decide) (by decide) noOverflow_square

end AndroidLearn.Touchtest
