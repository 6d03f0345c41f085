import AndroidLearn.Conf.Glist
import AndroidLearn.Lib.Chain
import Mathlib.Data.List.Nodup
import Mathlib.Data.Int.Order.Basic

/-!
# The nodes of a `GLIST`

The operations of `glist.c` on nodes in memory: `new_node`, `glist_add`, `glist_append`,
`glist_get` and `glist_delete`. A `Memory` gives for each address the node that is
allocated there. `Holds m cells` says that the links from `*head` on lead through `cells`,
each with the address of its node and its member; an operation refines one on the sequence
of the members when the memory behind it holds the changed sequence, and every node that
is not of the list is as it was (`Becomes`).

The result of `malloc` is an argument: no address, or one that is not in use. An operation
is `none` at a fault; the loop to the last node has fuel, of which more than there are
nodes is enough.

`glist_add` and `glist_append` refine cons and snoc, and `glist_get` and `glist_delete`
what their names say for an index in the list. `glist_get` refuses a negative index;
`glist_delete` has no such check, and with a negative index its loop stops at the head,
which it deletes.

`Holds.glist` ties the nodes to the operations of `Glist`, which the rest is modelled
with.

Theorem: `refined_iff`, over every list in memory, member and index. The four operations
do what the sequence operations do if and only if the index is not negative or the list is
empty, and the member at the index is not the pointer that means failure.
-/

namespace AndroidLearn.Conf

open Chain (Heap Segment addresses walk seek)

/-- What a member is: a `void *` of `w` bits. -/
abbrev Member (w : Nat) := BitVec w

/-- `(void *) -1` -/
def failure (w : Nat) : Member w := BitVec.allOnes w

/-- `*head` and the nodes. -/
structure Memory (w : Nat) where
  head : Option Nat
  nodes : Heap Nat (Member w)

variable {w : Nat}

/-- Assignments through a pointer. Without a node at it they fault. -/
def Memory.setNext (m : Memory w) (p : Nat) (next : Option Nat) : Option (Memory w) :=
  (m.nodes p).map fun node => { m with nodes := Function.update m.nodes p (some ⟨next, node.value⟩) }

/-- Another member is stored in a node. -/
def Memory.setMember (m : Memory w) (p : Nat) (member : Member w) : Option (Memory w) :=
  (m.nodes p).map fun node => { m with nodes := Function.update m.nodes p (some ⟨node.next, member⟩) }

/-- `free` of a node. -/
def Memory.free (m : Memory w) (p : Nat) : Memory w :=
  { m with nodes := Function.update m.nodes p none }

/-! ## The operations

The result of `malloc` is an argument. `none` is a fault, or a loop that has not come to
its end. -/

/-- A node for a member, if memory is left for it. -/
def newNode (malloc : Option Nat) (member : Member w) (m : Memory w) : Option Nat × Memory w :=
  match malloc with
  | some p => (some p, { m with nodes := Function.update m.nodes p (some ⟨none, member⟩) })
  | none => (none, m)

/-- `glist_add`: a node in front of the others. -/
def Memory.glistAdd (m : Memory w) (malloc : Option Nat) (member : Member w) :
    Option (Int × Memory w) :=
  match newNode malloc member m with
  | (none, m) => some (-1, m)
  | (some p, m) => (m.setNext p m.head).map fun m => (0, { m with head := some p })

/-- `for (p = *head; p && p->next; p = p->next);` in at most `fuel` rounds. -/
def lastNode (nodes : Heap Nat (Member w)) : Nat → Option Nat → Option (Option Nat)
  | 0, _ => none
  | _ + 1, none => some none
  | fuel + 1, some p => (nodes p).bind fun node =>
    if node.next.isSome then lastNode nodes fuel node.next else some (some p)

/-- The new node is put in front and then moved behind the last one. -/
def Memory.glistAppend (m : Memory w) (fuel : Nat) (malloc : Option Nat) (member : Member w) :
    Option (Int × Memory w) := do
  let (ret, m) ← m.glistAdd malloc member
  if ret < 0 then some (-1, m)
  else
    let p ← lastNode m.nodes fuel m.head
    if p ≠ m.head then
      let m ← m.setNext (← p) m.head
      let p ← m.head
      let node ← m.nodes p
      let m ← { m with head := node.next }.setNext p none
      some (0, m)
    else some (0, m)

/-- `glist_get`, which answers what a failure answers when there is no such node. -/
def Memory.glistGet (m : Memory w) (index : Int) : Option (Member w) :=
  if index < 0 then some (failure w)
  else do
    match ← walk m.nodes index.toNat m.head with
    | none => some (failure w)
    | some p => (m.nodes p).map fun node => node.value

/-- `glist_delete`, with the members that `free_func` gets. -/
def Memory.glistDelete (m : Memory w) (index : Int) (freeFunc : Bool) :
    Option (Int × Memory w × List (Member w)) := do
  -- no round for an index that is not positive
  let (pp, p) ← seek m.nodes index.toNat none m.head
  match p with
  | none => some (-1, m, [])
  | some p =>
    let node ← m.nodes p
    let m ← match pp with
      | some pp => m.setNext pp node.next
      | none => some { m with head := node.next }
    some (0, m.free p, if freeFunc then [node.value] else [])

/-! ## Lists in memory -/

/-- The links from `*head` on lead through `cells`. -/
structure Holds (m : Memory w) (cells : List (Nat × Member w)) : Prop where
  segment : Segment m.nodes m.head cells none
  nodup : (addresses cells).Nodup

/-- An operation changes `cells` to `cells'`, and no node that is in neither. -/
structure Becomes (m m' : Memory w) (cells cells' : List (Nat × Member w)) : Prop where
  holds : Holds m' cells'
  same : ∀ a, a ∉ addresses cells → a ∉ addresses cells' → m'.nodes a = m.nodes a

/-- A node that is not allocated is not in the list. -/
theorem Holds.fresh {m : Memory w} {cells : List (Nat × Member w)} (h : Holds m cells) {p : Nat}
    (hp : m.nodes p = none) : p ∉ addresses cells := by
  intro hmem
  have hsome := h.segment.isSome hmem
  rw [hp] at hsome
  exact absurd hsome (by simp)

theorem Memory.glistAdd_none (m : Memory w) (member : Member w) :
    m.glistAdd none member = some (-1, m) := rfl

/-- `glist_add` with memory to be had. -/
theorem Memory.glistAdd_some (m : Memory w) (p : Nat) (member : Member w) :
    m.glistAdd (some p) member =
      some (0, ⟨some p, Function.update m.nodes p (some ⟨m.head, member⟩)⟩) := by
  simp [Memory.glistAdd, newNode, Memory.setNext]

/-- `glist_add` puts a member in front. -/
theorem Holds.add {m : Memory w} {cells : List (Nat × Member w)} (h : Holds m cells) {p : Nat}
    (hp : m.nodes p = none) (member : Member w) :
    ∃ m', m.glistAdd (some p) member = some (0, m') ∧ Becomes m m' cells ((p, member) :: cells) := by
  have hfresh := h.fresh hp
  refine ⟨_, m.glistAdd_some p member, ⟨⟨rfl, m.head, ?_, ?_⟩, ?_⟩, ?_⟩
  · show Function.update m.nodes p _ p = _
    rw [Function.update_self]
  · exact h.segment.update hfresh _
  · exact List.nodup_cons.mpr ⟨hfresh, h.nodup⟩
  · intro a _ ha
    show Function.update m.nodes p _ a = _
    rw [Function.update_of_ne]
    exact fun hap => ha (hap ▸ List.mem_cons_self)

/-- The walk to the last node. -/
theorem lastNode_of_segment {nodes : Heap Nat (Member w)} {p : Option Nat} {a : Nat}
    {v : Member w} {front : List (Nat × Member w)} {fuel : Nat} (hfuel : front.length < fuel)
    (h : Segment nodes p (front ++ [(a, v)]) none) : lastNode nodes fuel p = some (some a) := by
  induction front generalizing p fuel with
  | nil =>
    obtain ⟨rfl, next, hnode, hnext⟩ := h
    obtain rfl := Chain.segment_nil.mp hnext
    cases fuel with
    | zero => exact absurd hfuel (Nat.not_lt_zero _)
    | succ fuel => simp [lastNode, hnode]
  | cons cell front ih =>
    obtain ⟨b, u⟩ := cell
    obtain ⟨rfl, next, hnode, hrest⟩ := h
    cases fuel with
    | zero => exact absurd hfuel (Nat.not_lt_zero _)
    | succ fuel =>
      -- the rest of the list is not empty, so there is a next node
      have hsome : next.isSome := by
        rw [hrest.start]
        cases front <;> rfl
      simp only [lastNode, hnode, Option.bind_some, hsome, if_true]
      exact ih (Nat.lt_of_succ_lt_succ hfuel) hrest

/-- The memory after an append behind the node `a`. -/
def Memory.appended (m : Memory w) (a : Nat) (v : Member w) (p : Nat) (member : Member w) :
    Memory w :=
  ⟨m.head, Function.update (Function.update (Function.update m.nodes p (some ⟨m.head, member⟩)) a
    (some ⟨some p, v⟩)) p (some ⟨none, member⟩)⟩

/-- `glist_append` on a list that is not empty. -/
theorem Memory.glistAppend_eq {m : Memory w} {front : List (Nat × Member w)} {a : Nat}
    {v : Member w} (h : Holds m (front ++ [(a, v)])) {p : Nat} (hp : m.nodes p = none)
    (member : Member w) {fuel : Nat} (hfuel : (front ++ [(a, v)]).length < fuel) :
    m.glistAppend fuel (some p) member = some (0, m.appended a v p member) := by
  obtain ⟨m₁, hadd, hbecomes⟩ := h.add hp member
  obtain rfl : _ = m₁ := congrArg Prod.snd (Option.some.inj ((m.glistAdd_some p member).symm.trans hadd))
  have hlast := lastNode_of_segment (show ((p, member) :: front).length < fuel by simpa using hfuel)
    hbecomes.holds.segment
  have hap : a ≠ p := by
    intro hap
    exact h.fresh hp (hap ▸ by simp)
  have hnode : Function.update m.nodes p (some ⟨m.head, member⟩) a = some ⟨none, v⟩ := by
    rw [Function.update_of_ne hap]
    exact (Chain.segment_concat.mp h.segment).2
  have hhead : Function.update (Function.update m.nodes p (some ⟨m.head, member⟩)) a
      (some ⟨some p, v⟩) p = some ⟨m.head, member⟩ := by
    rw [Function.update_of_ne hap.symm, Function.update_self]
  have hlast' : lastNode (Function.update m.nodes p (some ⟨m.head, member⟩)) fuel (some p) =
      some (some a) := hlast
  unfold Memory.glistAppend
  rw [m.glistAdd_some p member]
  simp only [Option.bind_eq_bind, Option.bind_some, hlast', ne_eq, Option.some.injEq, hap,
    not_false_eq_true, if_true, Memory.setNext, hnode, hhead, Option.map_some, Int.reduceLT,
    if_false]
  rfl

/-- The new node hangs on the last one. -/
theorem Holds.appended {m : Memory w} {front : List (Nat × Member w)} {a : Nat} {v : Member w}
    (h : Holds m (front ++ [(a, v)])) {p : Nat} (hp : m.nodes p = none) (member : Member w) :
    Becomes m (m.appended a v p member) (front ++ [(a, v)]) (front ++ [(a, v)] ++ [(p, member)]) := by
  have hpfresh := h.fresh hp
  have hafresh : a ∉ addresses front := by
    have hnodup := h.nodup
    rw [Chain.addresses_append, List.nodup_append] at hnodup
    exact fun ha => hnodup.2.2 a ha a List.mem_cons_self rfl
  have hap : a ≠ p := fun hap => hpfresh (hap ▸ by simp)
  have hpfront : p ∉ addresses front := fun hmem => hpfresh (by simp [hmem])
  have hfront := (Chain.segment_concat.mp h.segment).1
  refine ⟨⟨?_, ?_⟩, ?_⟩
  · rw [Chain.segment_concat, Chain.segment_concat]
    refine ⟨⟨((hfront.update hpfront _).update hafresh _).update hpfront _, ?_⟩, ?_⟩
    · show Function.update (Function.update _ a _) p _ a = _
      rw [Function.update_of_ne hap, Function.update_self]
    · show Function.update _ p _ p = _
      rw [Function.update_self]
  · rw [Chain.addresses_append]
    refine List.nodup_append.mpr ⟨h.nodup, List.nodup_singleton p, ?_⟩
    intro b hb b' hb' hbb
    obtain rfl := List.mem_singleton.mp hb'
    exact hpfresh (hbb ▸ hb)
  · intro b hb hb'
    have hba : b ≠ a := fun hba => hb (hba ▸ by simp)
    have hbp : b ≠ p := fun hbp => hb' (hbp ▸ by simp)
    show Function.update (Function.update (Function.update _ p _) a _) p _ b = _
    rw [Function.update_of_ne hbp, Function.update_of_ne hba, Function.update_of_ne hbp]

/-- `glist_append` puts a member at the end. -/
theorem Holds.append {m : Memory w} {cells : List (Nat × Member w)} (h : Holds m cells) {p : Nat}
    (hp : m.nodes p = none) (member : Member w) :
    ∃ m', (∀ fuel, cells.length < fuel → m.glistAppend fuel (some p) member = some (0, m')) ∧
      Becomes m m' cells (cells ++ [(p, member)]) := by
  rcases List.eq_nil_or_concat cells with rfl | ⟨front, ⟨a, v⟩, rfl⟩
  · -- the new node is the head and the last one at the same time
    obtain ⟨m₁, hadd, hbecomes⟩ := h.add hp member
    refine ⟨m₁, fun fuel hfuel => ?_, hbecomes⟩
    have hhead : m₁.head = some p := hbecomes.holds.segment.start
    have hlast := lastNode_of_segment (show ([] : List (Nat × Member w)).length < fuel from hfuel)
      hbecomes.holds.segment
    rw [hhead] at hlast
    unfold Memory.glistAppend
    simp [hadd, hlast, hhead]
  · rw [List.concat_eq_append] at h ⊢
    exact ⟨m.appended a v p member, fun fuel => m.glistAppend_eq h hp member, h.appended hp member⟩

theorem Memory.glistAppend_none (m : Memory w) (fuel : Nat) (member : Member w) :
    m.glistAppend fuel none member = some (-1, m) := rfl

/-! ## Reading and deleting -/

/-- A node of the list, with what is in front of it and what is behind. -/
theorem Holds.node {m : Memory w} {front rest : List (Nat × Member w)} {a : Nat} {v : Member w}
    (h : Holds m (front ++ (a, v) :: rest)) :
    ∃ next, Segment m.nodes m.head front (some a) ∧ m.nodes a = some ⟨next, v⟩ ∧
      Segment m.nodes next rest none := by
  obtain ⟨r, hfront, hr, next, hnode, hrest⟩ := Chain.segment_append.mp h.segment
  exact ⟨next, hr ▸ hfront, hnode, hrest⟩

/-- The cell with the index `i`, between those in front of it and those behind it. -/
theorem split_at {cells : List (Nat × Member w)} {i : Nat} {a : Nat} {v : Member w}
    (hi : cells[i]? = some (a, v)) :
    ∃ front rest, cells = front ++ (a, v) :: rest ∧ front.length = i := by
  obtain ⟨hlt, hget⟩ := List.getElem?_eq_some_iff.mp hi
  refine ⟨cells.take i, cells.drop (i + 1), ?_, List.length_take_of_le (Nat.le_of_lt hlt)⟩
  rw [← hget, ← List.drop_eq_getElem_cons hlt, List.take_append_drop]

/-- `glist_get` reads the list. -/
theorem Holds.glistGet {m : Memory w} {cells : List (Nat × Member w)} (h : Holds m cells)
    {index : Int} (hindex : 0 ≤ index) :
    m.glistGet index = some ((cells[index.toNat]?.map Prod.snd).getD (failure w)) := by
  unfold Memory.glistGet
  rw [if_neg (not_lt.mpr hindex)]
  simp only [Option.bind_eq_bind, Chain.walk_eq h.segment, Option.bind_some]
  cases hi : cells[index.toNat]? with
  | none =>
    have hnone : (addresses cells)[index.toNat]? = none := by simp [addresses, hi]
    simp [hnone]
  | some cell =>
    obtain ⟨a, v⟩ := cell
    have hsome : (addresses cells)[index.toNat]? = some a := by simp [addresses, hi]
    have hnode : ∃ next, m.nodes a = some ⟨next, v⟩ := by
      obtain ⟨front, rest, rfl, -⟩ := split_at hi
      obtain ⟨next, -, hnode, -⟩ := h.node
      exact ⟨next, hnode⟩
    obtain ⟨next, hnode⟩ := hnode
    simp [hsome, hnode]

theorem Memory.glistGet_neg (m : Memory w) {index : Int} (hindex : index < 0) :
    m.glistGet index = some (failure w) := if_pos hindex

/-- There is nothing to delete behind the end. -/
theorem Holds.glistDelete_past {m : Memory w} {cells : List (Nat × Member w)} (h : Holds m cells)
    {index : Int} (hindex : cells.length ≤ index.toNat) (freeFunc : Bool) :
    m.glistDelete index freeFunc = some (-1, m, []) := by
  obtain ⟨last, hseek⟩ := Chain.seek_past h.segment hindex none
  simp [Memory.glistDelete, hseek]

/-- The memory after the deletion of the node `a` with the link `next`, behind `pp`. -/
def Memory.deleted (m : Memory w) (pp : Option (Nat × Member w)) (a : Nat) (next : Option Nat) :
    Memory w :=
  match pp with
  | none => ⟨next, Function.update m.nodes a none⟩
  | some (b, u) =>
    ⟨m.head, Function.update (Function.update m.nodes b (some ⟨next, u⟩)) a none⟩

/-- `glist_delete` of a node of the list. -/
theorem Holds.glistDelete_eq {m : Memory w} {front rest : List (Nat × Member w)} {a : Nat}
    {v : Member w} (h : Holds m (front ++ (a, v) :: rest)) {index : Int}
    (hindex : front.length = index.toNat) (freeFunc : Bool) :
    m.glistDelete index freeFunc =
      some (0, m.deleted front.getLast? a (addresses rest).head?,
        if freeFunc then [v] else []) := by
  obtain ⟨next, hfront, hnode, hrest⟩ := h.node
  obtain rfl := hrest.start
  have hseek := Chain.seek_of_segment hfront none
  unfold Memory.glistDelete
  rw [← hindex]
  rcases List.eq_nil_or_concat front with rfl | ⟨front, ⟨b, u⟩, rfl⟩
  · simp only [Option.bind_eq_bind, hseek, Option.bind_some, hnode]
    rfl
  · rw [List.concat_eq_append] at hfront hseek ⊢
    have hprev := (Chain.segment_concat.mp hfront).2
    have hlast : ((addresses (front ++ [(b, u)])).getLast?.or none) = some b := by simp
    rw [hlast] at hseek
    simp only [Option.bind_eq_bind, hseek, Option.bind_some, hnode, Memory.setNext, hprev,
      Option.map_some, List.getLast?_append, List.getLast?_singleton, Option.some_or]
    rfl

/-- The node is gone, and the others are as they were. -/
theorem Holds.deleted {m : Memory w} {front rest : List (Nat × Member w)} {a : Nat} {v : Member w}
    (h : Holds m (front ++ (a, v) :: rest)) :
    Becomes m (m.deleted front.getLast? a (addresses rest).head?) (front ++ (a, v) :: rest)
      (front ++ rest) := by
  obtain ⟨next, hfront, -, hrest⟩ := h.node
  obtain rfl := hrest.start
  have hnodup := h.nodup
  rw [Chain.addresses_append, Chain.addresses_cons] at hnodup
  obtain ⟨ha, hnodup'⟩ := List.nodup_cons.mp (List.nodup_middle.mp hnodup)
  have hafront : a ∉ addresses front := fun hmem => ha (List.mem_append_left _ hmem)
  have harest : a ∉ addresses rest := fun hmem => ha (List.mem_append_right _ hmem)
  refine ⟨⟨?_, by rwa [Chain.addresses_append]⟩, ?_⟩
  · rcases List.eq_nil_or_concat front with rfl | ⟨front, ⟨b, u⟩, rfl⟩
    · exact hrest.update harest _
    · simp only [List.concat_eq_append] at hfront hnodup' hafront ⊢
      rw [List.getLast?_append, List.getLast?_singleton, Option.some_or]
      have hba : b ≠ a := fun hba => hafront (hba ▸ by simp)
      have hbfront : b ∉ addresses front ∧ b ∉ addresses rest := by
        simp only [Chain.addresses_append, Chain.addresses_cons, Chain.addresses_nil,
          List.append_assoc, List.singleton_append] at hnodup'
        have hb := (List.nodup_cons.mp (List.nodup_middle.mp hnodup')).1
        exact ⟨fun hmem => hb (List.mem_append_left _ hmem),
          fun hmem => hb (List.mem_append_right _ hmem)⟩
      have hafront' : a ∉ addresses front := fun hmem => hafront (by simp [hmem])
      refine Chain.segment_append.mpr ⟨(addresses rest).head?, ?_, ?_⟩
      · refine Chain.segment_concat.mpr ⟨?_, ?_⟩
        · exact (((Chain.segment_concat.mp hfront).1.update hbfront.1 _).update hafront' _)
        · show Function.update (Function.update _ b _) a _ b = _
          rw [Function.update_of_ne hba, Function.update_self]
      · exact (hrest.update hbfront.2 _).update harest _
  · intro b hb _
    have hba : b ≠ a := fun hba => hb (hba ▸ by simp)
    rcases List.eq_nil_or_concat front with rfl | ⟨front, ⟨c, u⟩, rfl⟩
    · exact Function.update_of_ne hba _ _
    · simp only [List.concat_eq_append] at hb ⊢
      rw [List.getLast?_append, List.getLast?_singleton, Option.some_or]
      have hbc : b ≠ c := fun hbc => hb (hbc ▸ by simp)
      show Function.update (Function.update _ c _) a _ b = _
      rw [Function.update_of_ne hba, Function.update_of_ne hbc]

/-- Without a look at the sign of the index: one below 0 stands for the head. -/
theorem Holds.glistDelete {m : Memory w} {cells : List (Nat × Member w)} (h : Holds m cells)
    {index : Int} {a : Nat} {v : Member w} (hi : cells[index.toNat]? = some (a, v))
    (freeFunc : Bool) :
    ∃ m', m.glistDelete index freeFunc = some (0, m', if freeFunc then [v] else []) ∧
      Becomes m m' cells (cells.eraseIdx index.toNat) := by
  obtain ⟨front, rest, rfl, hfront⟩ := split_at hi
  refine ⟨_, h.glistDelete_eq hfront freeFunc, ?_⟩
  have herase : (front ++ (a, v) :: rest).eraseIdx index.toNat = front ++ rest := by
    rw [← hfront, List.eraseIdx_append_of_length_le (Nat.le_refl _), Nat.sub_self]
    rfl
  rw [herase]
  exact h.deleted

/-! ## The sequence of the members

On the members these are the operations on lists that the rest of the code is modelled
with. -/

/-- The members, in the order of the list. -/
def members (cells : List (Nat × Member w)) : List (Member w) := cells.map Prod.snd

/-- An operation on the nodes ends in a list whose members are these. -/
def Memory.Leaves (result : Option (Memory w)) (list : List (Member w)) : Prop :=
  ∃ m cells, result = some m ∧ Holds m cells ∧ members cells = list

/-- What `CONF` and the registries are modelled with, for an index in the list: `glistAdd`,
`glistGet` and `glistDelete` of the members. -/
theorem Holds.glist {m : Memory w} {cells : List (Nat × Member w)} (h : Holds m cells) :
    (∀ p member, m.nodes p = none → ∃ list, Conf.glistAdd true (members cells) member = some list ∧
      Memory.Leaves ((m.glistAdd (some p) member).map Prod.snd) list) ∧
    (∀ i : Nat, m.glistGet i = some ((Conf.glistGet (members cells) (some i)).getD (failure w))) ∧
    ∀ (i : Nat) (freeFunc : Bool), i < cells.length →
      Memory.Leaves ((m.glistDelete i freeFunc).map fun r => r.2.1)
        (Conf.glistDelete (members cells) i) := by
  refine ⟨fun p member hp => ?_, fun i => ?_, fun i freeFunc hi => ?_⟩
  · obtain ⟨m', hadd, hbecomes⟩ := h.add hp member
    exact ⟨_, rfl, m', _, by rw [hadd]; rfl, hbecomes.holds, rfl⟩
  · rw [h.glistGet (Int.natCast_nonneg i), Int.toNat_natCast]
    simp [Conf.glistGet, members]
  · have hget : cells[(i : Int).toNat]? = some cells[i] := by
      rw [Int.toNat_natCast]
      exact List.getElem?_eq_getElem hi
    obtain ⟨m', hdelete, hbecomes⟩ := h.glistDelete hget freeFunc
    refine ⟨m', _, by rw [hdelete]; rfl, hbecomes.holds, ?_⟩
    rw [Int.toNat_natCast]
    exact (List.eraseIdx_map ..).symm

/-! ## What the operations refine -/

/-- The operations on a list in memory do what their namesakes do on the sequence of the
members, for this index and this member. An operation fails with -1. -/
structure Refined (m : Memory w) (cells : List (Nat × Member w)) (index : Int)
    (member : Member w) (freeFunc : Bool) : Prop where
  add : ∀ p, m.nodes p = none →
    ∃ m', m.glistAdd (some p) member = some (0, m') ∧ Becomes m m' cells ((p, member) :: cells)
  append : ∀ p, m.nodes p = none → ∃ m',
    (∀ fuel, cells.length < fuel → m.glistAppend fuel (some p) member = some (0, m')) ∧
      Becomes m m' cells (cells ++ [(p, member)])
  noNode : m.glistAdd none member = some (-1, m) ∧
    ∀ fuel, m.glistAppend fuel none member = some (-1, m)
  get : 0 ≤ index → ∀ cell, cells[index.toNat]? = some cell → m.glistGet index = some cell.2
  getFails : m.glistGet index = some (failure w) ↔ ¬ (0 ≤ index ∧ index < cells.length)
  delete : 0 ≤ index → ∀ cell, cells[index.toNat]? = some cell →
    ∃ m', m.glistDelete index freeFunc = some (0, m', if freeFunc then [cell.2] else []) ∧
      Becomes m m' cells (cells.eraseIdx index.toNat)
  deleteFails : m.glistDelete index freeFunc = some (-1, m, []) ↔
    ¬ (0 ≤ index ∧ index < cells.length)

/-- An index in range is one with a node. -/
theorem inRange_iff {cells : List (Nat × Member w)} {index : Int} (hindex : 0 ≤ index) :
    (0 ≤ index ∧ index < cells.length) ↔ ∃ cell, cells[index.toNat]? = some cell := by
  constructor
  · intro h
    exact ⟨_, List.getElem?_eq_getElem (by omega)⟩
  · intro h
    obtain ⟨cell, hcell⟩ := h
    obtain ⟨hlt, -⟩ := List.getElem?_eq_some_iff.mp hcell
    omega

/-- `glist_get` tells a failure when no member looks like one. -/
theorem getFails_iff {m : Memory w} {cells : List (Nat × Member w)} (h : Holds m cells)
    (index : Int) :
    (m.glistGet index = some (failure w) ↔ ¬ (0 ≤ index ∧ index < cells.length)) ↔
      (0 ≤ index → ∀ cell, cells[index.toNat]? = some cell → cell.2 ≠ failure w) := by
  by_cases hindex : 0 ≤ index
  · rw [h.glistGet hindex, inRange_iff hindex]
    cases hi : cells[index.toNat]? with
    | none => simp
    | some cell => simp [hindex]
  · rw [m.glistGet_neg (not_le.mp hindex)]
    simp [hindex]

/-- `glist_delete` tells a failure, but for a negative index. -/
theorem deleteFails_iff {m : Memory w} {cells : List (Nat × Member w)} (h : Holds m cells)
    (index : Int) (freeFunc : Bool) :
    (m.glistDelete index freeFunc = some (-1, m, []) ↔ ¬ (0 ≤ index ∧ index < cells.length)) ↔
      (index < 0 → cells = []) := by
  cases hi : cells[index.toNat]? with
  | none =>
    have hpast := List.getElem?_eq_none_iff.mp hi
    rw [h.glistDelete_past hpast freeFunc]
    refine iff_of_true (iff_of_true rfl (by omega)) ?_
    intro hneg
    exact List.length_eq_zero_iff.mp (by omega)
  | some cell =>
    obtain ⟨a, v⟩ := cell
    obtain ⟨m', hdelete, -⟩ := h.glistDelete hi freeFunc
    obtain ⟨hlt, -⟩ := List.getElem?_eq_some_iff.mp hi
    have hne : ¬ m.glistDelete index freeFunc = some (-1, m, []) := by
      rw [hdelete]
      simp
    have hcells : cells ≠ [] := List.ne_nil_of_length_pos (by omega)
    simp only [hne, hcells, false_iff, not_not, imp_false, not_lt]
    constructor
    · exact And.left
    · intro hindex
      exact ⟨hindex, by omega⟩

/-- The exact condition. -/
theorem refined_iff {m : Memory w} {cells : List (Nat × Member w)} (h : Holds m cells)
    (index : Int) (member : Member w) (freeFunc : Bool) :
    Refined m cells index member freeFunc ↔
      (index < 0 → cells = []) ∧
      (0 ≤ index → ∀ cell, cells[index.toNat]? = some cell → cell.2 ≠ failure w) := by
  constructor
  · intro hrefined
    exact ⟨(deleteFails_iff h index freeFunc).mp hrefined.deleteFails,
      (getFails_iff h index).mp hrefined.getFails⟩
  · intro hcondition
    refine ⟨fun p hp => h.add hp member, fun p hp => h.append hp member, ?_, ?_, ?_, ?_, ?_⟩
    · exact ⟨m.glistAdd_none member, fun fuel => m.glistAppend_none fuel member⟩
    · intro hindex cell hi
      rw [h.glistGet hindex, hi]
      rfl
    · exact (getFails_iff h index).mpr hcondition.2
    · intro _ cell hi
      exact h.glistDelete hi freeFunc
    · exact (deleteFails_iff h index freeFunc).mpr hcondition.1

/-- A list of one member. -/
def oneNode : Memory 32 := ⟨some 0, fun a => if a = 0 then some ⟨none, 7⟩ else none⟩

theorem holds_oneNode : Holds oneNode [(0, 7)] :=
  ⟨⟨rfl, none, rfl, rfl⟩, List.nodup_singleton 0⟩

/-- Index -1 is the head for `glist_delete`. -/
theorem refined_fails_negative :
    Holds oneNode [(0, 7)] ∧ ¬ Refined oneNode [(0, 7)] (-1) 5 true := by
  refine ⟨holds_oneNode, fun hrefined => ?_⟩
  have hcells := (deleteFails_iff holds_oneNode (-1) true).mp hrefined.deleteFails (by decide)
  exact absurd hcells (List.cons_ne_nil _ _)

/-- Three members, in nodes that are in no order. -/
def threeNodes : Memory 32 where
  head := some 4
  nodes a :=
    if a = 4 then some ⟨some 2, 7⟩
    else if a = 2 then some ⟨some 9, 8⟩
    else if a = 9 then some ⟨none, 6⟩
    else none

theorem holds_threeNodes : Holds threeNodes [(4, 7), (2, 8), (9, 6)] :=
  ⟨⟨rfl, some 2, rfl, rfl, some 9, rfl, rfl, none, rfl, rfl⟩, by decide⟩

/-- In the middle of a list. -/
theorem refined_middle : Refined threeNodes [(4, 7), (2, 8), (9, 6)] 1 5 true := by
  refine (refined_iff holds_threeNodes 1 5 true).mpr ⟨fun h => absurd h (by decide), ?_⟩
  intro _ cell hi
  obtain rfl : ((2, 8) : Nat × Member 32) = cell := Option.some.inj hi
  decide

end AndroidLearn.Conf
