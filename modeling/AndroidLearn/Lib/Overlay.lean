import Mathlib.Data.List.Basic
import Mathlib.Logic.Function.Basic

/-!
# Settings from several sources, with a copy

A store of named settings is made up key by key: a value is forced
(`overwrite`), a default is used where there is no value yet (`setting`), or a
text of the program's own is put beside the settings (`describe`). The first two
also write what they leave to a second store, the copy.

What a sequence of such steps leaves of one key depends on the steps at that key
alone: `run_at_none` where there is none, `run_at_single` where all of them are
the same, `run_overwrites` for values that are forced one after the other.
-/

namespace AndroidLearn.Overlay

open Function

variable {κ β : Type}

/-- An operation on the two stores, about one key. -/
inductive Op (κ β : Type) where
  | overwrite (key : κ) (value : β)
  | setting (key : κ) (default : β)
  | describe (key : κ) (value : β)

/-- The key it is about. -/
def Op.key : Op κ β → κ
  | overwrite key _ | setting key _ | describe key _ => key

/-- The store and the copy, each as a map. -/
structure Stores (κ β : Type) where
  store : κ → Option β
  copy : κ → Option β

/-- What both have of one key. -/
def Stores.at (m : Stores κ β) (k : κ) : Option β × Option β := (m.store k, m.copy k)

/-- What a step does to what both have of its key. -/
def Op.cell : Op κ β → Option β × Option β → Option β × Option β
  | overwrite _ v, _ => (some v, some v)
  | setting _ d, (x, _) => (some (x.getD d), some (x.getD d))
  | describe _ v, (_, y) => (some v, y)

@[simp] theorem Op.cell_cell (op : Op κ β) (x : Option β × Option β) :
    op.cell (op.cell x) = op.cell x := by
  cases op <;> rfl

variable [DecidableEq κ]

/-- Both stores get their value. -/
def Stores.put (m : Stores κ β) (k : κ) (x : Option β × Option β) : Stores κ β :=
  ⟨update m.store k x.1, update m.copy k x.2⟩

/-- What an operation makes of the stores. -/
def Op.apply (m : Stores κ β) (op : Op κ β) : Stores κ β := m.put op.key (op.cell (m.at op.key))

/-- One operation after the other. -/
def run (ops : List (Op κ β)) (m : Stores κ β) : Stores κ β := ops.foldl Op.apply m

/-- The value forced last. -/
def lastOf : List (κ × β) → κ → Option β
  | [], _ => none
  | p :: l, k => (lastOf l k).or (if p.1 = k then some p.2 else none)

theorem lastOf_cons (p : κ × β) (l : List (κ × β)) (k : κ) :
    lastOf (p :: l) k = (lastOf l k).or (if p.1 = k then some p.2 else none) := rfl

section Run

variable {ops ops' : List (Op κ β)} {op : Op κ β} {m : Stores κ β} {k : κ}

/-- An operation is seen under its key only. -/
theorem apply_at (m : Stores κ β) (op : Op κ β) (k : κ) :
    (op.apply m).at k = if op.key = k then op.cell (m.at k) else m.at k := by
  unfold Op.apply Stores.put Stores.at
  dsimp only
  by_cases h : op.key = k
  · subst h
    simp
  · have hne : k ≠ op.key := fun heq => h heq.symm
    simp [h, hne]

theorem run_append : run (ops ++ ops') m = run ops' (run ops m) := List.foldl_append

theorem run_cons : run (op :: ops) m = run ops (op.apply m) := rfl

theorem run_one_at : (run [op] m).at k = if op.key = k then op.cell (m.at k) else m.at k :=
  apply_at m op k

/-- A key no operation is about keeps its value. -/
theorem run_at_none (h : ∀ op ∈ ops, op.key ≠ k) : (run ops m).at k = m.at k := by
  induction ops generalizing m with
  | nil => rfl
  | cons op ops ih =>
    rw [run_cons, ih fun o ho => h o (List.mem_cons_of_mem op ho), apply_at,
      if_neg (h op List.mem_cons_self)]

/-- Repeating a step does nothing more than taking it once. -/
theorem run_at_single (h : ∀ o ∈ ops, o.key = k → o = op) (hop : op ∈ ops) (hk : op.key = k) :
    (run ops m).at k = op.cell (m.at k) := by
  induction ops generalizing m with
  | nil => exact absurd hop List.not_mem_nil
  | cons o ops ih =>
    have htail : ∀ o ∈ ops, o.key = k → o = op := fun o' ho' => h o' (List.mem_cons_of_mem o ho')
    rw [run_cons]
    by_cases hrest : op ∈ ops
    · rw [ih htail hrest, apply_at]
      split
      next hok => rw [h o List.mem_cons_self hok, Op.cell_cell]
      next => rfl
    · have ho : op = o := (List.mem_cons.mp hop).resolve_right hrest
      have hnone : ∀ o ∈ ops, o.key ≠ k := fun o' ho' hok => hrest (htail o' ho' hok ▸ ho')
      rw [run_at_none hnone, apply_at, ← ho, if_pos hk]

/-- Of several overwrites of a key the last one counts. -/
theorem run_overwrites (l : List (κ × β)) (m : Stores κ β) (k : κ) :
    (run (l.map fun p => .overwrite p.1 p.2) m).at k =
      ((lastOf l k).or (m.store k), (lastOf l k).or (m.copy k)) := by
  induction l generalizing m with
  | nil => rfl
  | cons p l ih =>
    have hstep := apply_at m (.overwrite p.1 p.2) k
    rw [Prod.ext_iff] at hstep
    obtain ⟨hstore, hcopy⟩ := hstep
    dsimp only [Stores.at] at hstore hcopy
    rw [List.map_cons, run_cons, ih, hstore, hcopy, lastOf_cons]
    unfold Op.key
    by_cases hk : p.1 = k
    · cases lastOf l k <;> simp [hk, Op.cell]
    · cases lastOf l k <;> simp [hk]

end Run

end AndroidLearn.Overlay
