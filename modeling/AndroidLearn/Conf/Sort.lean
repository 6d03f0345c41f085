import AndroidLearn.Conf.Conf
import AndroidLearn.Conf.GlistNodes

/-!
# `glist_sort` and `conf_sort`

`glist_sort` of `glist.c` exchanges the members of two nodes in memory, with a cursor for
each, and `conf_sort` of `conf.c` calls it with `conf_compare`. On the sequence of the
members this is `glistSort` (`Holds.glistSort`), whatever the comparator returns: the
nodes and their links stay as they are.

The loops are on the nodes in memory, with fuel; `Holds.exchangeLoop` and `Holds.sortLoop`
follow them by induction on the nodes behind the cursor.

With a comparator that is a total preorder (`TotalPreorder`, of a comparator that returns
an integer as `strcmp` does) the sequence is in order at the end. The first cursor stands
at a least member of those that are left (`glistExchange_least`), and what comes later is
taken from the others.

Theorem: `sort_spec`, for every list in memory and every such comparator. The sort ends;
it leaves a permutation of the members, in order; and `conf_sort` leaves the value of each
name as it is, with the names in order.
-/

namespace AndroidLearn.Conf

open Chain (Heap Segment addresses)
open Run

/-! ## The loops -/

section Loops

variable {w : Nat}

/-- The exchange of the members at `p1` and `p2`. -/
def Memory.exchange (m : Memory w) (p1 p2 : Nat) : Option (Memory w) := do
  let node1 ← m.nodes p1
  let tmp := node1.value
  let node2 ← m.nodes p2
  let m ← m.setMember p1 node2.value
  m.setMember p2 tmp

/-- One round: the `if` and what is under it. -/
def Memory.sortRound (m : Memory w) (compare : Member w → Member w → Int) (p1 p2 : Nat) :
    Option (Memory w) := do
  let node1 ← m.nodes p1
  let node2 ← m.nodes p2
  if 0 < compare node1.value node2.value then m.exchange p1 p2 else some m

/-- The loop over `p2`, in at most `fuel` rounds. `none` is a fault, or a loop that has not
come to its end. -/
def Memory.exchangeLoop (compare : Member w → Member w → Int) (p1 : Nat) :
    Nat → Option Nat → Memory w → Option (Memory w)
  | 0, _, _ => none
  | _ + 1, none, m => some m
  | fuel + 1, some p2, m => do
    let m ← m.sortRound compare p1 p2
    let node2 ← m.nodes p2
    exchangeLoop compare p1 fuel node2.next m

/-- The loop over `p1`. -/
def Memory.sortLoop (compare : Member w → Member w → Int) :
    Nat → Option Nat → Memory w → Option (Memory w)
  | 0, _, _ => none
  | _ + 1, none, m => some m
  | fuel + 1, some p1, m => do
    let m ← m.exchangeLoop compare p1 (fuel + 1) (some p1)
    let node1 ← m.nodes p1
    sortLoop compare fuel node1.next m

/-- `glist_sort`, on the nodes. -/
def Memory.glistSort (m : Memory w) (fuel : Nat) (compare : Option (Member w → Member w → Int)) :
    Option (Int × Memory w) :=
  match compare with
  | none => some (-1, m)
  | some compare => (m.sortLoop compare fuel m.head).map fun m => (0, m)

/-- The call of `glist_sort` in `conf_sort`; a member is a pointer to a pair. -/
def Memory.confSort (m : Memory w) (fuel : Nat) (pairOf : Member w → ConfPair)
    (compare : Option CompareFunc) : Option (Int × Memory w) :=
  m.glistSort fuel (some fun p1 p2 => confCompare compare (pairOf p1) (pairOf p2))

end Loops

/-! ## What they do in memory -/

section InMemory

variable {w : Nat} {m m' m'' : Memory w} {cells cells' cells'' front mid rest : List (Nat × Member w)}
  {a b : Nat} {x y : Member w} {α : Type}

/-- The nodes stay where they are; only their members change. -/
structure Rearranged (m m' : Memory w) (cells cells' : List (Nat × Member w)) : Prop where
  holds : Holds m' cells'
  places : addresses cells' = addresses cells
  same : ∀ a, a ∉ addresses cells → m'.nodes a = m.nodes a

theorem Rearranged.refl (h : Holds m cells) : Rearranged m m cells cells := ⟨h, rfl, fun _ _ => rfl⟩

/-- One rearrangement after another is one. -/
theorem Rearranged.trans (h : Rearranged m m' cells cells') (h' : Rearranged m' m'' cells' cells'') :
    Rearranged m m'' cells cells'' := by
  refine ⟨h'.holds, h'.places.trans h.places, fun a ha => ?_⟩
  rw [h'.same a (by rwa [h.places]), h.same a ha]

/-- Another member in a node of the list. -/
theorem Holds.setMember (h : Holds m (front ++ (a, x) :: rest)) (y : Member w) :
    ∃ m', m.setMember a y = some m' ∧
      Rearranged m m' (front ++ (a, x) :: rest) (front ++ (a, y) :: rest) := by
  obtain ⟨next, hfront, hnode, hrest⟩ := h.node
  have hnodup := h.nodup
  rw [Chain.addresses_append, Chain.addresses_cons] at hnodup
  obtain ⟨ha, -⟩ := List.nodup_cons.mp (List.nodup_middle.mp hnodup)
  have hafront : a ∉ addresses front := fun hmem => ha (List.mem_append_left _ hmem)
  have harest : a ∉ addresses rest := fun hmem => ha (List.mem_append_right _ hmem)
  have hplaces : addresses (front ++ (a, y) :: rest) = addresses (front ++ (a, x) :: rest) := by
    simp
  refine ⟨⟨m.head, Function.update m.nodes a (some ⟨next, y⟩)⟩, ?_, ⟨?_, ?_⟩, hplaces, ?_⟩
  · unfold Memory.setMember
    rw [hnode]
    rfl
  · refine Chain.segment_append.mpr ⟨some a, hfront.update hafront _, rfl, next, ?_, ?_⟩
    · exact Function.update_self ..
    · exact hrest.update harest _
  · rw [hplaces]
    exact h.nodup
  · intro b hb
    have hba : b ≠ a := fun hba => hb (hba ▸ by simp)
    exact Function.update_of_ne hba _ _

/-- Two different nodes. -/
theorem Holds.exchange (h : Holds m (front ++ (a, x) :: (mid ++ (b, y) :: rest))) :
    ∃ m', m.exchange a b = some m' ∧ Rearranged m m' (front ++ (a, x) :: (mid ++ (b, y) :: rest))
      (front ++ (a, y) :: (mid ++ (b, x) :: rest)) := by
  obtain ⟨m₁, hset₁, h₁⟩ := h.setMember y
  have hholds := h₁.holds
  rw [← List.cons_append, ← List.append_assoc] at hholds
  obtain ⟨m₂, hset₂, h₂⟩ := hholds.setMember x
  refine ⟨m₂, ?_, h₁.trans ?_⟩
  · obtain ⟨next1, -, hnode1, hbehind⟩ := h.node
    obtain ⟨r, -, rfl, next2, hnode2, -⟩ := Chain.segment_append.mp hbehind
    unfold Memory.exchange
    simp only [Option.bind_eq_bind, hnode1, hnode2, Option.bind_some, hset₁, hset₂]
  · rw [← List.cons_append, ← List.append_assoc, ← List.cons_append, ← List.append_assoc]
    exact h₂

/-- A node with itself, as in the first round of the loop over `p2`. -/
theorem Holds.exchange_self (h : Holds m (front ++ (a, x) :: rest)) :
    ∃ m', m.exchange a a = some m' ∧
      Rearranged m m' (front ++ (a, x) :: rest) (front ++ (a, x) :: rest) := by
  obtain ⟨m₁, hset₁, h₁⟩ := h.setMember x
  obtain ⟨m₂, hset₂, h₂⟩ := h₁.holds.setMember x
  obtain ⟨next, -, hnode, -⟩ := h.node
  refine ⟨m₂, ?_, h₁.trans h₂⟩
  unfold Memory.exchange
  simp only [Option.bind_eq_bind, hnode, Option.bind_some, hset₁, hset₂]

/-- What a round makes of the two members. -/
def exchanged (compare : α → α → Int) (x y : α) : α × α := if 0 < compare x y then (y, x) else (x, y)

/-- A turn of the sort, one node further on. -/
theorem glistExchange_cons (compare : α → α → Int) (x y : α) (l : List α) :
    glistExchange compare x (y :: l) =
      ((glistExchange compare (exchanged compare x y).1 l).1,
        (exchanged compare x y).2 :: (glistExchange compare (exchanged compare x y).1 l).2) := by
  rw [glistExchange, exchanged]
  split <;> rfl

/-- A round of the inner loop exchanges two members, if they are out of order. -/
theorem Holds.sortRound (h : Holds m (front ++ (a, x) :: (mid ++ (b, y) :: rest)))
    (compare : Member w → Member w → Int) :
    ∃ m', m.sortRound compare a b = some m' ∧
      Rearranged m m' (front ++ (a, x) :: (mid ++ (b, y) :: rest))
        (front ++ (a, (exchanged compare x y).1) :: (mid ++ (b, (exchanged compare x y).2) :: rest)) := by
  obtain ⟨next1, -, hnode1, hbehind⟩ := h.node
  obtain ⟨r, -, rfl, next2, hnode2, -⟩ := Chain.segment_append.mp hbehind
  unfold Memory.sortRound exchanged
  simp only [Option.bind_eq_bind, hnode1, hnode2, Option.bind_some]
  by_cases hgreater : 0 < compare x y
  · rw [if_pos hgreater, if_pos hgreater]
    exact h.exchange
  · rw [if_neg hgreater, if_neg hgreater]
    exact ⟨m, rfl, .refl h⟩

/-- The first round, in which both cursors are at `p1`. -/
theorem Holds.sortRound_self (h : Holds m (front ++ (a, x) :: rest))
    (compare : Member w → Member w → Int) :
    ∃ m', m.sortRound compare a a = some m' ∧
      Rearranged m m' (front ++ (a, x) :: rest) (front ++ (a, x) :: rest) := by
  obtain ⟨next, -, hnode, -⟩ := h.node
  unfold Memory.sortRound
  simp only [Option.bind_eq_bind, hnode, Option.bind_some]
  split
  · exact h.exchange_self
  · exact ⟨m, rfl, .refl h⟩

/-- One round, and on to the node behind. -/
theorem exchangeLoop_round {compare : Member w → Member w → Int}
    (hround : m.sortRound compare a b = some m') (h : Holds m' (front ++ (b, y) :: rest)) (fuel : Nat) :
    m.exchangeLoop compare a (fuel + 1) (some b) =
      m'.exchangeLoop compare a fuel (addresses rest).head? := by
  obtain ⟨next, -, hnode, hbehind⟩ := h.node
  show (do
    let m ← m.sortRound compare a b
    let node2 ← m.nodes b
    Memory.exchangeLoop compare a fuel node2.next m) = _
  simp only [Option.bind_eq_bind, hround, Option.bind_some, hnode, hbehind.start]

/-- The loop over `p2` from a node behind `p1` on. -/
theorem Holds.exchangeLoop (compare : Member w → Member w → Int) {cur : List (Nat × Member w)}
    (h : Holds m (front ++ (a, x) :: (mid ++ cur))) :
    ∃ m' cur', (∀ fuel, cur.length < fuel →
        m.exchangeLoop compare a fuel (addresses cur).head? = some m') ∧
      Rearranged m m' (front ++ (a, x) :: (mid ++ cur))
        (front ++ (a, (glistExchange compare x (members cur)).1) :: (mid ++ cur')) ∧
      addresses cur' = addresses cur ∧
      members cur' = (glistExchange compare x (members cur)).2 := by
  induction cur generalizing m x mid with
  | nil =>
    refine ⟨m, [], fun fuel hfuel => ?_, .refl h, rfl, rfl⟩
    cases fuel with
    | zero => exact absurd hfuel (Nat.not_lt_zero _)
    | succ fuel => rfl
  | cons cell cur ih =>
    obtain ⟨b, y⟩ := cell
    obtain ⟨m₁, hround, h₁⟩ := h.sortRound compare
    have hnext := h₁.holds
    rw [List.append_cons mid] at hnext
    obtain ⟨m₂, cur', hloop, h₂, hplaces, hmembers⟩ := ih hnext
    rw [← List.append_cons, ← List.append_cons] at h₂
    have hcons : glistExchange compare x (members ((b, y) :: cur)) = _ :=
      glistExchange_cons compare x y (members cur)
    rw [hcons]
    refine ⟨m₂, (b, (exchanged compare x y).2) :: cur', fun fuel hfuel => ?_, h₁.trans h₂, ?_, ?_⟩
    · cases fuel with
      | zero => exact absurd hfuel (Nat.not_lt_zero _)
      | succ fuel =>
        have hat : Holds m₁ ((front ++ (a, (exchanged compare x y).1) :: mid) ++
            (b, (exchanged compare x y).2) :: cur) := by
          rw [List.append_assoc]
          exact h₁.holds
        refine (exchangeLoop_round hround hat fuel).trans ?_
        exact hloop fuel (Nat.lt_of_succ_lt_succ hfuel)
    · rw [Chain.addresses_cons, Chain.addresses_cons, hplaces]
    · show (exchanged compare x y).2 :: members cur' = _
      rw [hmembers]

/-- The loop over `p1` from the first of `cur` on. -/
theorem Holds.sortLoop (compare : Member w → Member w → Int) {cur : List (Nat × Member w)}
    (h : Holds m (front ++ cur)) :
    ∃ m' cur', (∀ fuel, cur.length < fuel →
        m.sortLoop compare fuel (addresses cur).head? = some m') ∧
      Rearranged m m' (front ++ cur) (front ++ cur') ∧
      members cur' = Conf.glistSort compare (members cur) := by
  induction hlength : cur.length generalizing m front cur with
  | zero =>
    obtain rfl := List.length_eq_zero_iff.mp hlength
    refine ⟨m, [], fun fuel hfuel => ?_, .refl h, ?_⟩
    · cases fuel with
      | zero => exact absurd hfuel (Nat.not_lt_zero _)
      | succ fuel => rfl
    · show [] = Conf.glistSort compare []
      rw [Conf.glistSort]
  | succ n ih =>
    cases cur with
    | nil => exact absurd hlength (Nat.succ_ne_zero n).symm
    | cons cell cur =>
      obtain ⟨a, x⟩ := cell
      obtain ⟨m₁, hround, h₁⟩ := h.sortRound_self compare
      obtain ⟨m₂, cur₂, hloop, h₂, hplaces, hmembers⟩ :=
        Holds.exchangeLoop compare (show Holds m₁ (front ++ (a, x) :: ([] ++ cur)) from h₁.holds)
      rw [List.nil_append, List.nil_append] at h₂
      have hlength₂ : cur₂.length = n := by
        have hsame := congrArg List.length hplaces
        rw [addresses, addresses, List.length_map, List.length_map] at hsame
        rw [List.length_cons] at hlength
        omega
      have hnext := h₂.holds
      rw [List.append_cons] at hnext
      obtain ⟨m₃, cur₃, hrest, h₃, hsorted⟩ := ih hnext hlength₂
      rw [← List.append_cons, ← List.append_cons] at h₃
      refine ⟨m₃, (a, (glistExchange compare x (members cur)).1) :: cur₃, fun fuel hfuel => ?_,
        (h₁.trans h₂).trans h₃, ?_⟩
      · cases fuel with
        | zero => exact absurd hfuel (Nat.not_lt_zero _)
        | succ fuel =>
          obtain ⟨next, -, hnode, hbehind⟩ := h₂.holds.node
          have hshort : cur.length < fuel := by
            rw [List.length_cons] at hlength
            omega
          have hfirst : m.exchangeLoop compare a (fuel + 1) (some a) = some m₂ :=
            (exchangeLoop_round hround h₁.holds fuel).trans (hloop fuel hshort)
          show (do
            let m ← m.exchangeLoop compare a (fuel + 1) (some a)
            let node1 ← m.nodes a
            Memory.sortLoop compare fuel node1.next m) = some m₃
          simp only [Option.bind_eq_bind, hfirst, Option.bind_some, hnode, hbehind.start]
          exact hrest fuel (Nat.lt_of_succ_lt_succ hfuel)
      · show _ :: members cur₃ = Conf.glistSort compare (x :: members cur)
        rw [hsorted, hmembers, Conf.glistSort]

/-- On the sequence of the members it is `glistSort`. -/
theorem Holds.glistSort (h : Holds m cells) (compare : Member w → Member w → Int) :
    ∃ m' cells', (∀ fuel, cells.length < fuel → m.glistSort fuel (some compare) = some (0, m')) ∧
      Rearranged m m' cells cells' ∧ members cells' = Conf.glistSort compare (members cells) := by
  obtain ⟨m', cells', hloop, hrearranged, hsorted⟩ :=
    Holds.sortLoop compare (show Holds m ([] ++ cells) from h)
  refine ⟨m', cells', fun fuel hfuel => ?_, hrearranged, hsorted⟩
  show (m.sortLoop compare fuel m.head).map (fun m => (0, m)) = some (0, m')
  rw [h.segment.start, hloop fuel hfuel]
  rfl

end InMemory

/-! ## The order -/

section Order

variable {α β : Type} {compare : α → α → Int} {x : α} {l : List α}

/-- What a comparison is to be, so that a list can be sorted by it. -/
structure TotalPreorder (compare : α → α → Int) : Prop where
  total : ∀ x y, compare x y ≤ 0 ∨ compare y x ≤ 0
  trans : ∀ x y z, compare x y ≤ 0 → compare y z ≤ 0 → compare x z ≤ 0

theorem TotalPreorder.refl (h : TotalPreorder compare) (x : α) : compare x x ≤ 0 :=
  (h.total x x).elim id id

/-- After a round the member at `p1` is no greater than both. -/
theorem TotalPreorder.exchanged (h : TotalPreorder compare) (x y : α) :
    compare (exchanged compare x y).1 x ≤ 0 ∧ compare (exchanged compare x y).1 y ≤ 0 := by
  unfold Conf.exchanged
  split
  next hgreater => exact ⟨(h.total y x).resolve_right (not_le.mpr hgreater), h.refl y⟩
  next hle => exact ⟨h.refl x, not_lt.mp hle⟩

/-- The loop over `p2` leaves a least member at `p1`. -/
theorem glistExchange_least (h : TotalPreorder compare) (x : α) (l : List α) :
    ∀ y ∈ x :: l, compare (glistExchange compare x l).1 y ≤ 0 := by
  induction l generalizing x with
  | nil =>
    intro y hy
    obtain rfl := List.mem_singleton.mp hy
    exact h.refl y
  | cons z l ih =>
    obtain ⟨hx, hz⟩ := h.exchanged x z
    have hleast := ih (exchanged compare x z).1
    rw [glistExchange_cons]
    intro y hy
    rcases List.mem_cons.mp hy with rfl | hy
    · exact h.trans _ _ _ (hleast _ List.mem_cons_self) hx
    · rcases List.mem_cons.mp hy with rfl | hy
      · exact h.trans _ _ _ (hleast _ List.mem_cons_self) hz
      · exact hleast y (List.mem_cons_of_mem _ hy)

/-- Behind the sort no two members are out of order. -/
theorem glistSort_ordered (h : TotalPreorder compare) (l : List α) :
    (glistSort compare l).Pairwise fun x y => compare x y ≤ 0 := by
  induction l using glistSort.induct compare with
  | case1 =>
    rw [glistSort]
    exact List.Pairwise.nil
  | case2 x l ih =>
    rw [glistSort]
    refine List.pairwise_cons.mpr ⟨fun y hy => ?_, ih⟩
    have hrest := (glistSort_perm compare (glistExchange compare x l).2).mem_iff.mp hy
    exact glistExchange_least h x l y
      ((glistExchange_perm compare x l).mem_iff.mp (List.mem_cons_of_mem _ hrest))

/-- Members that stand for other values are sorted as these are. -/
theorem glistExchange_map (f : β → α) (x : β) (l : List β) :
    glistExchange compare (f x) (l.map f) =
      (f (glistExchange (fun x y => compare (f x) (f y)) x l).1,
        (glistExchange (fun x y => compare (f x) (f y)) x l).2.map f) := by
  induction l generalizing x with
  | nil => rfl
  | cons y l ih =>
    have hround : exchanged compare (f x) (f y) =
        (f (exchanged (fun x y => compare (f x) (f y)) x y).1,
          f (exchanged (fun x y => compare (f x) (f y)) x y).2) := by
      unfold exchanged
      split <;> rfl
    rw [List.map_cons, glistExchange_cons, glistExchange_cons, hround, ih, List.map_cons]

/-- The sort looks at the members through the comparison only. -/
theorem glistSort_map (f : β → α) (l : List β) :
    (glistSort (fun x y => compare (f x) (f y)) l).map f = glistSort compare (l.map f) := by
  induction l using glistSort.induct fun x y => compare (f x) (f y) with
  | case1 =>
    rw [glistSort, List.map_nil, glistSort]
  | case2 x l ih =>
    rw [glistSort, List.map_cons, List.map_cons, glistSort, glistExchange_map, ih]

end Order

/-! ## Lists in memory, and stores -/

/-- The store after a sequence of operations. -/
def World.after (ops : List Op) : World := ops.foldl (fun s op => (op.exec s).2) World.empty

/-- No run of calls makes a name twice. -/
theorem after_nodup (ops : List Op) : (namesOf (World.after ops).conf).Nodup := by
  have hrun : ∀ {ops : List Op} {s : World × ConfMap}, Refines s.1.conf s.2 →
      (namesOf (ops.foldl (fun s op => (op.exec s).2) s.1).conf).Nodup := by
    intro ops
    induction ops with
    | nil => exact fun h => h.nodup
    | cons op ops ih =>
      intro s h
      exact ih (s := execMap s op) (h.exec op)
  exact hrun (s := (World.empty, fun _ => none)) ⟨List.nodup_nil, fun _ => rfl⟩

/-- For every list in memory and every total preorder, `glist_sort` comes to its end and
leaves the members in order. For every store that operations lead to, and a comparator of
names that `conf_sort` is given or has kept, the store has the same values and its names are
in order. -/
theorem sort_spec :
    (∀ (w : Nat) (m : Memory w) (cells : List (Nat × Member w))
        (compare : Member w → Member w → Int), Holds m cells → TotalPreorder compare →
      ∃ m' cells', (∀ fuel, cells.length < fuel → m.glistSort fuel (some compare) = some (0, m')) ∧
        Rearranged m m' cells cells' ∧ (members cells').Perm (members cells) ∧
        (members cells').Pairwise fun x y => compare x y ≤ 0) ∧
    (∀ (ops : List Op) (given : Option CompareFunc) (compare : CompareFunc) (w : Nat) (m : Memory w)
        (cells : List (Nat × Member w)) (pairOf : Member w → ConfPair),
      given.or (World.after ops).compare = some compare → TotalPreorder compare →
      Holds m cells → (members cells).map pairOf = (World.after ops).conf →
      ∃ m' cells', (∀ fuel, cells.length < fuel →
          m.confSort fuel pairOf (some compare) = some (0, m')) ∧
        Rearranged m m' cells cells' ∧
        (members cells').map pairOf = (World.after (ops ++ [.sort given])).conf ∧
        (∀ n, valueOf ((members cells').map pairOf) n = valueOf (World.after ops).conf n) ∧
        (namesOf ((members cells').map pairOf)).Pairwise fun x y => compare x y ≤ 0) := by
  constructor
  · intro w m cells compare h hcompare
    obtain ⟨m', cells', hsort, hrearranged, hmembers⟩ := h.glistSort compare
    refine ⟨m', cells', hsort, hrearranged, ?_, ?_⟩
    · rw [hmembers]
      exact glistSort_perm compare (members cells)
    · rw [hmembers]
      exact glistSort_ordered hcompare (members cells)
  · intro ops given compare w m cells pairOf hgiven hcompare h hpairs
    obtain ⟨m', cells', hsort, hrearranged, hmembers⟩ :=
      h.glistSort fun p1 p2 => confCompare (some compare) (pairOf p1) (pairOf p2)
    have hsorted : (members cells').map pairOf =
        confSort (some compare) (World.after ops).conf := by
      rw [hmembers, glistSort_map, hpairs]
      rfl
    have hnext : (World.after (ops ++ [.sort given])).conf =
        confSort (given.or (World.after ops).compare) (World.after ops).conf := by
      unfold World.after
      rw [List.foldl_append]
      rfl
    have hpreorder : TotalPreorder (confCompare (some compare)) :=
      ⟨fun p₁ p₂ => hcompare.total p₁.name p₂.name,
        fun p₁ p₂ p₃ => hcompare.trans p₁.name p₂.name p₃.name⟩
    rw [hnext, hgiven]
    refine ⟨m', cells', hsort, hrearranged, hsorted, ?_, ?_⟩
    · rw [hsorted]
      exact (confSort_spec (some compare) (after_nodup ops)).2
    · rw [hsorted]
      exact List.pairwise_map.mpr (glistSort_ordered hpreorder (World.after ops).conf)

/-- By length. -/
def byLength : CompareFunc := fun n₁ n₂ => (n₁.length : Int) - n₂.length

theorem totalPreorder_byLength : TotalPreorder byLength :=
  ⟨fun x y => by unfold byLength; omega, fun x y z => by unfold byLength; omega⟩

/-- Two nodes, whose members are 0 and 1. -/
def twoNodes : Memory 1 :=
  ⟨some 0, fun a => if a = 0 then some ⟨some 1, 0⟩ else if a = 1 then some ⟨none, 1⟩ else none⟩

/-- Two names, the longer one in front. -/
theorem sort_spec_two :
    let ops : List Op := [.set .all (some ['a']) (some []), .set .all (some ['b', 'c']) (some [])]
    let pairOf : Member 1 → ConfPair := fun v => if v = 0 then ⟨['b', 'c'], []⟩ else ⟨['a'], []⟩
    let compare : Member 1 → Member 1 → Int := fun x y => y.toNat - x.toNat
    (∃ m' cells', (∀ fuel, 2 < fuel → twoNodes.glistSort fuel (some compare) = some (0, m')) ∧
      Rearranged twoNodes m' [(0, 0), (1, 1)] cells' ∧ (members cells').Perm [0, 1] ∧
      (members cells').Pairwise fun x y => compare x y ≤ 0) ∧
    ∃ m' cells', (∀ fuel, 2 < fuel →
        twoNodes.confSort fuel pairOf (some byLength) = some (0, m')) ∧
      Rearranged twoNodes m' [(0, 0), (1, 1)] cells' ∧
      (members cells').map pairOf = (World.after (ops ++ [.sort (some byLength)])).conf ∧
      (∀ n, valueOf ((members cells').map pairOf) n = valueOf (World.after ops).conf n) ∧
      (namesOf ((members cells').map pairOf)).Pairwise fun x y => byLength x y ≤ 0 := by
  intro ops pairOf compare
  have hholds : Holds twoNodes [(0, 0), (1, 1)] :=
    ⟨⟨rfl, some 1, rfl, rfl, none, rfl, rfl⟩, by decide⟩
  have hcompare : TotalPreorder compare :=
    ⟨fun x y => by dsimp only [compare]; omega, fun x y z => by dsimp only [compare]; omega⟩
  exact ⟨sort_spec.1 1 twoNodes [(0, 0), (1, 1)] compare hholds hcompare,
    sort_spec.2 ops (some byLength) byLength 1 twoNodes [(0, 0), (1, 1)] pairOf rfl
      totalPreorder_byLength hholds rfl⟩

end AndroidLearn.Conf
