import AndroidLearn.Conf.Conf

/-!
# Clearing a directory

`dir_clear` of `dir.c` goes through a directory and removes what one of its patterns
selects: an entry whose name begins with the pattern. A directory is cleared with the same
patterns before `rmdir` is tried on it, and so it stays if something in it does. Without
patterns everything is selected.

A directory is a tree of names (`Entries`). What `readdir` calls a directory is one, and
everything else, a link as well, is a file with what it holds (`α`). All calls of the
system that can succeed do so, and nobody else changes the tree in between. `clearEntries`
is the loop over the entries of a directory, by recursion on the tree; `.` and `..` are
left out.

Theorem: `dirClear_clears` says what is left, for every tree, order of its entries and
list of patterns. A file is gone if and only if all names from the root down to it are
selected, a directory if besides nothing is left in it, and the rest is as it was
(`Clears`).
-/

namespace AndroidLearn.Dir

open Conf

/-! ## Directories -/

/-- What an entry of a directory can be called; `d_name` has 256 bytes. -/
structure Name where
  chars : CString
  ne_dot : chars ≠ ['.']
  ne_dots : chars ≠ ['.', '.']
  fits : chars.length < 256
  deriving DecidableEq

/-- The entries of a directory in the order in which they are read. Whatever is no directory
is a file, and `α` is what it holds. -/
inductive Entries (α : Type) where
  | nil
  | file (name : Name) (data : α) (rest : Entries α)
  | dir (name : Name) (children rest : Entries α)
  deriving DecidableEq

/-- What is at a path. -/
inductive Node (α : Type) where
  | file (data : α)
  | dir (entries : Entries α)
  deriving DecidableEq

/-! ## The function -/

/-- The loop over the patterns, which ends at one that selects the name. A node of the list
can be without one. -/
def matchesAny (patterns : List (Option CString)) (name : CString) : Bool :=
  patterns.any fun s => s.any fun s => s.isPrefixOf name

/-- The entry is left alone. -/
def skips (patterns : List (Option CString)) (name : CString) : Bool :=
  name = ['.'] || name = ['.', '.'] || (patterns ≠ [] && ! matchesAny patterns name)

/-- The loop over the entries: what is left of them. -/
def clearEntries {α : Type} (patterns : List (Option CString)) : Entries α → Entries α
  | .nil => .nil
  | .file name data rest =>
    if skips patterns name.chars then .file name data (clearEntries patterns rest)
    else clearEntries patterns rest
  | .dir name children rest =>
    if skips patterns name.chars then .dir name children (clearEntries patterns rest)
    else
      -- `dir_clear`, and `rmdir`, which fails unless nothing is left
      match clearEntries patterns children with
      | .nil => clearEntries patterns rest
      | left => .dir name left (clearEntries patterns rest)

/-- `dir_clear`: what is at the path afterwards, and what is returned. -/
def dirClear {α : Type} (patterns : List (Option CString)) : Option (Node α) → Option (Node α) × Int
  | none => (none, -1)
  | some (.file _) => (none, 0)
  | some (.dir entries) => (some (.dir (clearEntries patterns entries)), 0)

/-! ## What is in a directory -/

section Clear

variable {α : Type} {patterns : List (Option CString)} {t : Entries α} {path rest : List Name}
  {name : Name} {node : Option α}

/-- A path below the directory leads to a file, with what it holds, or to a directory. -/
def Entries.Has : Entries α → List Name → Option α → Prop
  | .nil, _, _ => False
  | .file name data rest, path, node => (path = [name] ∧ node = some data) ∨ rest.Has path node
  | .dir name children rest, path, node =>
    (path = [name] ∧ node = none) ∨ (∃ below, path = name :: below ∧ children.Has below node) ∨
      rest.Has path node

/-- Nothing is in the directory at a path. -/
def Entries.EmptyAt (t : Entries α) (path : List Name) : Prop :=
  ∀ rest node, rest ≠ [] → ¬ t.Has (path ++ rest) node

/-- From `before` to `after`, the files are removed whose names are all selected on the way
from the root, and so are the directories, if they have become empty; the rest is there as
it was. -/
structure Clears (selects : Name → Prop) (before after : Entries α) : Prop where
  files : ∀ path data, after.Has path (some data) ↔
    before.Has path (some data) ∧ ¬ ∀ name ∈ path, selects name
  dirs : ∀ path, after.Has path none ↔
    before.Has path none ∧ ¬ ((∀ name ∈ path, selects name) ∧ after.EmptyAt path)

/-- The name begins with one of the patterns. -/
def Begins (patterns : List (Option CString)) (name : Name) : Prop :=
  ∃ s, some s ∈ patterns ∧ s <+: name.chars

/-- Without patterns, every name is selected. -/
def Selects (patterns : List (Option CString)) (name : Name) : Prop :=
  patterns = [] ∨ Begins patterns name

/-- What is passed over is what no pattern selects. -/
theorem skips_iff : skips patterns name.chars = true ↔ ¬ Selects patterns name := by
  have hbegins : matchesAny patterns name.chars = true ↔ Begins patterns name := by
    simp only [matchesAny, Begins, List.any_eq_true, Option.any_eq_true, List.isPrefixOf_iff_prefix]
    constructor
    · rintro ⟨o, ho, s, rfl, hs⟩
      exact ⟨s, ho, hs⟩
    · rintro ⟨s, hmem, hs⟩
      exact ⟨some s, hmem, s, rfl, hs⟩
  have hdot := name.ne_dot
  have hdots := name.ne_dots
  rw [skips, Selects, ← hbegins]
  simp [hdot, hdots]

/-- The three things that can happen to a directory. -/
theorem clearEntries_dir (patterns : List (Option CString)) (name : Name) (children rest : Entries α) :
    (¬ Selects patterns name ∧ clearEntries patterns (.dir name children rest) =
        .dir name children (clearEntries patterns rest)) ∨
      (Selects patterns name ∧ clearEntries patterns children = .nil ∧
        clearEntries patterns (.dir name children rest) = clearEntries patterns rest) ∨
      (Selects patterns name ∧ clearEntries patterns children ≠ .nil ∧
        clearEntries patterns (.dir name children rest) =
          .dir name (clearEntries patterns children) (clearEntries patterns rest)) := by
  rw [clearEntries]
  by_cases hskips : skips patterns name.chars = true
  · rw [if_pos hskips]
    exact .inl ⟨skips_iff.mp hskips, rfl⟩
  · have hselects : Selects patterns name := by
      by_contra hnot
      exact hskips (skips_iff.mpr hnot)
    rw [if_neg hskips]
    cases hleft : clearEntries patterns children with
    | nil => exact .inr (.inl ⟨hselects, rfl, rfl⟩)
    | file n d r => exact .inr (.inr ⟨hselects, (by intro hnil; cases hnil), rfl⟩)
    | dir n c r => exact .inr (.inr ⟨hselects, (by intro hnil; cases hnil), rfl⟩)

/-- A file goes when it is selected, and stays otherwise. -/
theorem clearEntries_file (patterns : List (Option CString)) (name : Name) (data : α)
    (rest : Entries α) : (¬ Selects patterns name ∧ clearEntries patterns (.file name data rest) =
        .file name data (clearEntries patterns rest)) ∨
      (Selects patterns name ∧
        clearEntries patterns (.file name data rest) = clearEntries patterns rest) := by
  rw [clearEntries]
  by_cases hskips : skips patterns name.chars = true
  · rw [if_pos hskips]
    exact .inl ⟨skips_iff.mp hskips, rfl⟩
  · rw [if_neg hskips]
    refine .inr ⟨?_, rfl⟩
    by_contra hnot
    exact hskips (skips_iff.mpr hnot)

/-! ### Paths -/

/-- A path to something below the root has a name in it. -/
theorem Entries.Has.ne_nil (h : t.Has path node) : path ≠ [] := by
  induction t generalizing path with
  | nil => exact h.elim
  | file name data rest ih =>
    rcases h with ⟨rfl, -⟩ | h
    · exact List.cons_ne_nil _ _
    · exact ih h
  | dir name children rest _ ih =>
    rcases h with ⟨rfl, -⟩ | ⟨below, rfl, -⟩ | h
    · exact List.cons_ne_nil _ _
    · exact List.cons_ne_nil _ _
    · exact ih h

/-- Something is in a directory that is not empty. -/
theorem exists_has (h : t ≠ .nil) : ∃ name node, t.Has [name] node := by
  cases t with
  | nil => exact absurd rfl h
  | file name data rest => exact ⟨name, some data, .inl ⟨rfl, rfl⟩⟩
  | dir name children rest => exact ⟨name, none, .inl ⟨rfl, rfl⟩⟩

/-- On the way to a node there are directories. -/
theorem has_front (h : t.Has (path ++ rest) node) (hpath : path ≠ []) (hrest : rest ≠ []) :
    t.Has path none := by
  induction t generalizing path with
  | nil => exact h
  | file name data t ih =>
    rcases h with ⟨hone, -⟩ | h
    · obtain ⟨first, path, rfl⟩ := List.exists_cons_of_ne_nil hpath
      have hempty := (List.cons.inj hone).2
      exact absurd (List.append_eq_nil_iff.mp hempty).2 hrest
    · exact .inr (ih h hpath)
  | dir name children t ihchildren ih =>
    rcases h with ⟨hone, -⟩ | ⟨below, heq, hbelow⟩ | h
    · obtain ⟨first, path, rfl⟩ := List.exists_cons_of_ne_nil hpath
      have hempty := (List.cons.inj hone).2
      exact absurd (List.append_eq_nil_iff.mp hempty).2 hrest
    · obtain ⟨first, path, rfl⟩ := List.exists_cons_of_ne_nil hpath
      obtain ⟨rfl, rfl⟩ := List.cons.inj heq
      by_cases hlast : path = []
      · subst hlast
        exact .inl ⟨rfl, rfl⟩
      · exact .inr (.inl ⟨path, rfl, ihchildren hbelow hlast⟩)
    · exact .inr (.inr (ih h hpath))

/-! ### What is left -/

/-- Nothing is made. -/
theorem has_of_left (h : (clearEntries patterns t).Has path node) : t.Has path node := by
  induction t generalizing path with
  | nil => exact h
  | file name data rest ih =>
    rcases clearEntries_file patterns name data rest with ⟨-, heq⟩ | ⟨-, heq⟩
    · rw [heq] at h
      rcases h with hone | h
      · exact .inl hone
      · exact .inr (ih h)
    · rw [heq] at h
      exact .inr (ih h)
  | dir name children rest ihchildren ih =>
    rcases clearEntries_dir patterns name children rest with ⟨-, heq⟩ | ⟨-, -, heq⟩ | ⟨-, -, heq⟩
    · rw [heq] at h
      rcases h with hone | hbelow | h
      · exact .inl hone
      · exact .inr (.inl hbelow)
      · exact .inr (.inr (ih h))
    · rw [heq] at h
      exact .inr (.inr (ih h))
    · rw [heq] at h
      rcases h with hone | ⟨below, hpath, hbelow⟩ | h
      · exact .inl hone
      · exact .inr (.inl ⟨below, hpath, ihchildren hbelow⟩)
      · exact .inr (.inr (ih h))

/-- What is not selected is left. -/
theorem left_of_not_selected (h : t.Has path node)
    (hpath : ¬ ∀ name ∈ path, Selects patterns name) : (clearEntries patterns t).Has path node := by
  induction t generalizing path with
  | nil => exact h
  | file name data rest ih =>
    rcases clearEntries_file patterns name data rest with ⟨-, heq⟩ | ⟨hselects, heq⟩
    · rw [heq]
      rcases h with hone | h
      · exact .inl hone
      · exact .inr (ih h hpath)
    · rw [heq]
      rcases h with ⟨rfl, -⟩ | h
      · exact absurd (List.forall_mem_singleton.mpr hselects) hpath
      · exact ih h hpath
  | dir name children rest ihchildren ih =>
    rcases clearEntries_dir patterns name children rest with
      ⟨-, heq⟩ | ⟨hselects, hleft, heq⟩ | ⟨hselects, -, heq⟩
    · rw [heq]
      rcases h with hone | hbelow | h
      · exact .inl hone
      · exact .inr (.inl hbelow)
      · exact .inr (.inr (ih h hpath))
    · rw [heq]
      rcases h with ⟨rfl, -⟩ | ⟨below, rfl, hbelow⟩ | h
      · exact absurd (List.forall_mem_singleton.mpr hselects) hpath
      · -- something would be left in the directory
        have hnot : ¬ ∀ name ∈ below, Selects patterns name := fun hall =>
          hpath (List.forall_mem_cons.mpr ⟨hselects, hall⟩)
        have hhas := ihchildren hbelow hnot
        rw [hleft] at hhas
        exact hhas.elim
      · exact ih h hpath
    · rw [heq]
      rcases h with ⟨rfl, -⟩ | ⟨below, rfl, hbelow⟩ | h
      · exact absurd (List.forall_mem_singleton.mpr hselects) hpath
      · have hnot : ¬ ∀ name ∈ below, Selects patterns name := fun hall =>
          hpath (List.forall_mem_cons.mpr ⟨hselects, hall⟩)
        exact .inr (.inl ⟨below, rfl, ihchildren hbelow hnot⟩)
      · exact .inr (.inr (ih h hpath))

/-- What is selected and left is a directory with something in it. -/
theorem dir_of_selected (h : (clearEntries patterns t).Has path node)
    (hpath : ∀ name ∈ path, Selects patterns name) :
    node = none ∧ ¬ (clearEntries patterns t).EmptyAt path := by
  induction t generalizing path with
  | nil => exact h.elim
  | file name data rest ih =>
    rcases clearEntries_file patterns name data rest with ⟨hnot, heq⟩ | ⟨-, heq⟩
    · rw [heq] at h ⊢
      rcases h with ⟨rfl, -⟩ | h
      · exact absurd (hpath name List.mem_cons_self) hnot
      · obtain ⟨hnode, hempty⟩ := ih h hpath
        exact ⟨hnode, fun hall => hempty fun rest node hne hhas => hall rest node hne (.inr hhas)⟩
    · rw [heq] at h ⊢
      exact ih h hpath
  | dir name children rest ihchildren ih =>
    rcases clearEntries_dir patterns name children rest with
      ⟨hnot, heq⟩ | ⟨-, -, heq⟩ | ⟨hselects, hleft, heq⟩
    · rw [heq] at h ⊢
      rcases h with ⟨rfl, -⟩ | ⟨below, rfl, -⟩ | h
      · exact absurd (hpath name List.mem_cons_self) hnot
      · exact absurd (hpath name List.mem_cons_self) hnot
      · obtain ⟨hnode, hempty⟩ := ih h hpath
        exact ⟨hnode, fun hall =>
          hempty fun rest node hne hhas => hall rest node hne (.inr (.inr hhas))⟩
    · rw [heq] at h ⊢
      exact ih h hpath
    · rw [heq] at h ⊢
      rcases h with ⟨rfl, hnode⟩ | ⟨below, rfl, hbelow⟩ | h
      · obtain ⟨first, node', hfirst⟩ := exists_has hleft
        refine ⟨hnode, fun hall => hall [first] node' (List.cons_ne_nil _ _) ?_⟩
        exact .inr (.inl ⟨[first], rfl, hfirst⟩)
      · obtain ⟨-, hall⟩ := List.forall_mem_cons.mp hpath
        obtain ⟨hnode, hempty⟩ := ihchildren hbelow hall
        refine ⟨hnode, fun hall => hempty fun rest node hne hhas => hall rest node hne ?_⟩
        exact .inr (.inl ⟨below ++ rest, rfl, hhas⟩)
      · obtain ⟨hnode, hempty⟩ := ih h hpath
        exact ⟨hnode, fun hall =>
          hempty fun rest node hne hhas => hall rest node hne (.inr (.inr hhas))⟩

/-- Clearing the entries takes what is selected, and that alone. -/
theorem clearEntries_clears (patterns : List (Option CString)) (t : Entries α) :
    Clears (Selects patterns) t (clearEntries patterns t) := by
  constructor
  · intro path data
    constructor
    · intro h
      refine ⟨has_of_left h, fun hpath => ?_⟩
      have hnode := (dir_of_selected h hpath).1
      cases hnode
    · rintro ⟨h, hpath⟩
      exact left_of_not_selected h hpath
  · intro path
    constructor
    · intro h
      exact ⟨has_of_left h, fun ⟨hpath, hempty⟩ => (dir_of_selected h hpath).2 hempty⟩
    · rintro ⟨h, hnot⟩
      by_cases hpath : ∀ name ∈ path, Selects patterns name
      · -- it is not empty, so it is still there
        have hempty : ¬ (clearEntries patterns t).EmptyAt path := fun hempty => hnot ⟨hpath, hempty⟩
        simp only [Entries.EmptyAt, not_forall, not_not] at hempty
        obtain ⟨rest, node, hrest, hhas⟩ := hempty
        exact has_front hhas h.ne_nil hrest
      · exact left_of_not_selected h hpath

end Clear

/-- In a directory, what is removed is what the patterns select, everything if there are
none, as far as it can be removed. -/
theorem dirClear_clears {α : Type} (patterns : List (Option CString)) (entries : Entries α) :
    ∃ left, dirClear patterns (some (.dir entries)) = (some (.dir left), 0) ∧
      Clears (Selects patterns) entries left :=
  ⟨clearEntries patterns entries, rfl, clearEntries_clears patterns entries⟩

/-- A file with nothing in it. -/
def oneFile : Entries Unit :=
  .file ⟨['a'], by decide, by decide, by decide⟩ () .nil

/-- Without a pattern it is removed, though none begins its name. -/
theorem dirClear_fails_all : ¬ ∀ (patterns : List (Option CString)) (entries : Entries Unit),
    ∃ left, dirClear patterns (some (.dir entries)) = (some (.dir left), 0) ∧
      Clears (Begins patterns) entries left := by
  intro h
  obtain ⟨left, hleft, hclears⟩ := h [] oneFile
  have hhas : oneFile.Has [⟨['a'], by decide, by decide, by decide⟩] (some ()) := .inl ⟨rfl, rfl⟩
  have hnot : ¬ ∀ name ∈ [(⟨['a'], by decide, by decide, by decide⟩ : Name)], Begins [] name := by
    intro hall
    obtain ⟨s, hs, -⟩ := hall _ List.mem_cons_self
    cases hs
  have hstays := (hclears.files _ ()).mpr ⟨hhas, hnot⟩
  cases hleft
  exact hstays

end AndroidLearn.Dir
