import AndroidLearn.Conf.Conf

/-!
# Making a directory with all above it

`dir_create_recursive` of `dir.c`, with `dir_exists` and `unlink_file`. It cuts a copy of
the path at each slash in turn and makes a directory of that name. Where there is
something else of the name it is removed, and the directory is made in its place.

The file system gives for each list of names what is there (`Kind`). The system may refuse
a `mkdir` or an `unlink`, each call for itself (`Refusals`): one that is tried again may
succeed. Nobody else makes or removes anything in between, `strdup` returns a copy, and
the permissions are in the refusals.

A path is taken by its names, which are neither `.` nor `..`, and no link to a directory
is on it. It is not empty: of an empty one the code looks at the byte in front of its
copy.

Theorems:
- `dirCreateRecursive_makes`: if the system refuses nothing, all directories on the path
  are there afterwards and everything else is as it was;
- `dirCreateRecursive_keeps`: whatever the system refuses, call by call, no directory
  goes, nothing off the path is changed, and the result is 0 if the directory is there and
  -1 if it is not.
-/

namespace AndroidLearn.Dir.Create

open Conf

/-! ## Paths and files -/

/-- The names in a path, with `cur` read of the next one. Slashes that follow one another
are one. -/
def namesFrom (cur : CString) : CString → List CString
  | [] => if cur = [] then [] else [cur]
  | c :: path =>
    if c = '/' then (if cur = [] then [] else [cur]) ++ namesFrom [] path
    else namesFrom (cur ++ [c]) path

/-- The names of a path, which slashes set apart. -/
def names (path : CString) : List CString := namesFrom [] path

/-- What is at a path. -/
inductive Kind where
  | dir
  /-- a file, or a link that leads nowhere -/
  | other
  deriving DecidableEq, Repr

/-- What is at each path, by the names in it (neither `.` nor `..`). -/
structure FileSystem where
  kind : List CString → Option Kind

/-- Which of the calls for one name the system refuses. -/
structure Refused where
  mkdir : Bool
  unlink : Bool
  /-- the `mkdir` behind the `unlink` -/
  retry : Bool
  deriving DecidableEq, Repr

/-- What the system refuses to a call of `dir_create_recursive`: the memory for the copy, and for
each name that is cut off, by its number, what is asked for it. -/
structure Refusals where
  strdup : Bool
  calls : Nat → Refused

/-- No call is refused. -/
def Refusals.nothing : Refusals := ⟨false, fun _ => ⟨false, false, false⟩⟩

namespace FileSystem

/-- `stat` and `S_ISDIR`; there is nothing of the empty name. -/
def dirExists (fs : FileSystem) (path : CString) : Bool :=
  path ≠ [] ∧ fs.kind (names path) = some .dir

/-- Something else at one path. -/
def set (fs : FileSystem) (p : List CString) (k : Option Kind) : FileSystem :=
  { fs with kind := fun q => if q = p then k else fs.kind q }

/-- What `mkdir` comes to. -/
inductive Mkdir where
  | made (fs : FileSystem)
  | eexist
  | failed

/-- `mkdir` -/
def mkdir (fs : FileSystem) (refused : Bool) (path : CString) : Mkdir :=
  if refused || path = [] then .failed
  else if (fs.kind (names path)).isSome then .eexist
  else if fs.kind (names path).dropLast = some .dir then .made (fs.set (names path) (some .dir))
  else .failed

/-- `unlink_file`, which takes the slashes off the end. -/
def unlinkFile (fs : FileSystem) (refused : Bool) (path : CString) : FileSystem :=
  if fs.kind (names path) = some .other ∧ ! refused then fs.set (names path) none else fs

/-! ## The function -/

/-- `mkdir`, and once more if something else was of that name. -/
def make (fs : FileSystem) (r : Refused) (path : CString) : FileSystem :=
  match fs.mkdir r.mkdir path with
  | .made fs => fs
  | .failed => fs
  | .eexist =>
    if fs.dirExists path then fs
    else
      match (fs.unlinkFile r.unlink path).mkdir r.retry path with
      | .made fs => fs
      | .eexist | .failed => fs.unlinkFile r.unlink path

/-- The copy up to each slash, with `done` in front of the rest. -/
def cuts (done : CString) : CString → List CString
  | [] => []
  | c :: rest => if c = '/' then done :: cuts (done ++ [c]) rest else cuts (done ++ [c]) rest

/-- The loop over the copy of the path, from behind a slash at its begin. -/
def cutsOf : CString → List CString
  | '/' :: rest => cuts ['/'] rest
  | pbuf => cuts [] pbuf

/-- One slash is taken off the end. -/
def copyOf (path : CString) : CString :=
  if path.getLast? = some '/' then path.dropLast else path

/-- The directories are made, one after the other, from call `n` on. -/
def makeAll (fs : FileSystem) (calls : Nat → Refused) : Nat → List CString → FileSystem
  | _, [] => fs
  | n, pbuf :: pbufs => makeAll (fs.make (calls n) pbuf) calls (n + 1) pbufs

/-- `dir_create_recursive` -/
def dirCreateRecursive (fs : FileSystem) (r : Refusals) (path : CString) : FileSystem × Int :=
  if fs.dirExists path then (fs, 0)
  else
    let pbufs := if r.strdup then [] else cutsOf (copyOf path)
    let fs := (fs.makeAll r.calls 0 pbufs).make (r.calls pbufs.length) path
    (fs, if fs.dirExists path then 0 else -1)

end FileSystem

/-! ## The names in the cuts -/

section Names

variable {done rest path : CString} {cs : List CString} {cur : CString}

/-- `cs` are the names in `done` that are complete, and `cur` is what follows. -/
def Read (done : CString) (cs : List CString) (cur : CString) : Prop :=
  ∀ rest, names (done ++ rest) = cs ++ namesFrom cur rest

/-- The name that is being read, if it has begun. -/
def whole (cur : CString) : List CString := if cur = [] then [] else [cur]

theorem Read.names (h : Read done cs cur) : names done = cs ++ whole cur := by
  simpa [namesFrom, whole] using h []

/-- A slash ends the name that is being read. -/
theorem Read.slash (h : Read done cs cur) : Read (done ++ ['/']) (cs ++ whole cur) [] := by
  intro rest
  rw [List.append_assoc, h, List.append_assoc]
  simp [namesFrom, whole]

/-- The path up to a slash is on the way to all of it. -/
theorem read_onPath (h : Read done cs cur) (rest : CString) :
    names done <+: names ((done ++ ['/']) ++ rest) := by
  rw [h.slash rest, h.names]
  exact List.prefix_append _ _

theorem Read.char (h : Read done cs cur) {c : Char} (hc : c ≠ '/') :
    Read (done ++ [c]) cs (cur ++ [c]) := by
  intro rest
  rw [List.append_assoc, h]
  simp [namesFrom, hc]

theorem read_nil : Read [] [] [] := fun _ => rfl

theorem read_slash : Read ['/'] [] [] := fun _ => by simp [names, namesFrom]

end Names

/-! ## The directories on the path -/

section Make

variable {fs : FileSystem} {path : CString} {cs p q : List CString} {name : CString}

/-- With directories at `cs` and above. -/
def FileSystem.overlay (fs : FileSystem) (cs : List CString) : FileSystem :=
  { fs with kind := fun q => if q.isPrefixOf cs then some .dir else fs.kind q }

theorem overlay_onPath (h : q <+: cs) : (fs.overlay cs).kind q = some .dir :=
  if_pos (List.isPrefixOf_iff_prefix.mpr h)

theorem overlay_offPath (h : ¬ q <+: cs) : (fs.overlay cs).kind q = fs.kind q :=
  if_neg fun hpre => h (List.isPrefixOf_iff_prefix.mp hpre)

theorem not_prefix_concat : ¬ cs ++ [name] <+: cs := fun h => by
  have hle := h.length_le
  simp at hle

/-- One directory more. -/
theorem eq_overlay_concat {fs' : FileSystem}
    (hname : fs'.kind (cs ++ [name]) = some .dir)
    (hother : ∀ q, q ≠ cs ++ [name] → fs'.kind q = (fs.overlay cs).kind q) :
    fs' = fs.overlay (cs ++ [name]) := by
  have hkind : fs'.kind = (fs.overlay (cs ++ [name])).kind := by
    funext q
    by_cases heq : q = cs ++ [name]
    · rw [heq, hname, overlay_onPath (List.prefix_refl _)]
    · rw [hother q heq]
      by_cases hpre : q <+: cs
      · rw [overlay_onPath hpre, overlay_onPath (hpre.trans (List.prefix_append _ _))]
      · have hnot : ¬ q <+: cs ++ [name] := fun h =>
          (List.prefix_concat_iff.mp h).elim heq hpre
        rw [overlay_offPath hpre, overlay_offPath hnot]
  exact congrArg FileSystem.mk hkind

/-- Nothing is refused of what is asked for one name. -/
abbrev Refused.none : Refused := ⟨false, false, false⟩

/-- A directory that is there is not made again. -/
theorem make_same (hne : path ≠ []) (hpath : names path = cs) :
    (fs.overlay cs).make .none path = fs.overlay cs := by
  have hdir : (fs.overlay cs).kind (names path) = some .dir := by
    rw [hpath]
    exact overlay_onPath (List.prefix_refl _)
  have hmkdir : (fs.overlay cs).mkdir false path = .eexist := by
    rw [FileSystem.mkdir, if_neg (by simpa using hne), hdir]
    rfl
  rw [FileSystem.make, hmkdir]
  exact if_pos (by simp [FileSystem.dirExists, hne, hdir])

/-- `mkdir` below a directory, where nothing is. -/
theorem mkdir_made (hne : path ≠ []) (hpath : names path = cs ++ [name])
    (hnone : fs.kind (cs ++ [name]) = none) (habove : fs.kind cs = some .dir) :
    fs.mkdir false path = .made (fs.set (cs ++ [name]) (some .dir)) := by
  rw [FileSystem.mkdir, if_neg (by simpa using hne), hpath, hnone, List.dropLast_concat, habove]
  rfl

theorem set_self (p : List CString) (k : Option Kind) : (fs.set p k).kind p = k := if_pos rfl

theorem set_other {k : Option Kind} (h : q ≠ p) : (fs.set p k).kind q = fs.kind q := if_neg h

/-- Whatever is there, a directory is made of the next name. -/
theorem make_next (hpath : path ≠ []) (hnames : names path = cs ++ [name]) :
    (fs.overlay cs).make .none path = fs.overlay (cs ++ [name]) := by
  have hhere : (fs.overlay cs).kind (cs ++ [name]) = fs.kind (cs ++ [name]) :=
    overlay_offPath not_prefix_concat
  have habove : (fs.overlay cs).kind cs = some .dir := overlay_onPath (List.prefix_refl _)
  have hne : cs ≠ cs ++ [name] := by simp
  cases hkind : fs.kind (cs ++ [name]) with
  | none =>
    rw [FileSystem.make, mkdir_made hpath hnames (hhere.trans hkind) habove]
    exact eq_overlay_concat (set_self _ _) fun q hq => set_other hq
  | some kind =>
    have hmkdir : (fs.overlay cs).mkdir false path = .eexist := by
      rw [FileSystem.mkdir, if_neg (by simpa using hpath), hnames, hhere, hkind]
      rfl
    rw [FileSystem.make, hmkdir]
    cases kind with
    | dir =>
      have hexists : (fs.overlay cs).dirExists path = true := by
        simp [FileSystem.dirExists, hpath, hnames, hhere, hkind]
      rw [hexists]
      exact eq_overlay_concat (hhere.trans hkind) fun _ _ => rfl
    | other =>
      have hexists : (fs.overlay cs).dirExists path = false := by
        simp [FileSystem.dirExists, hpath, hnames, hhere, hkind]
      have hunlink : (fs.overlay cs).unlinkFile false path =
          (fs.overlay cs).set (cs ++ [name]) none := by
        rw [FileSystem.unlinkFile, hnames, hhere, hkind]
        rfl
      have hmade := mkdir_made hpath hnames (set_self (cs ++ [name]) none)
        ((set_other hne).trans habove)
      rw [hexists, hunlink, hmade]
      refine eq_overlay_concat (set_self _ _) fun q hq => ?_
      exact (set_other hq).trans (set_other hq)

/-- The last name of a path is made, if it has one behind the slashes. -/
theorem make_read {cur : CString} (hpath : path ≠ []) (hnames : names path = cs ++ whole cur) :
    (fs.overlay cs).make .none path = fs.overlay (names path) := by
  by_cases hcur : cur = []
  · have hcs : names path = cs := by simpa [whole, hcur] using hnames
    rw [make_same hpath hcs, hcs]
  · have hcs : names path = cs ++ [cur] := by simpa [whole, hcur] using hnames
    rw [make_next hpath hcs, hcs]

/-- The loop makes the directories of the names that are complete. -/
theorem makeAll_cuts {done rest cur : CString} (hread : Read done cs cur)
    (hdone : done ≠ [] ∨ rest.head? ≠ some '/') (n : Nat) :
    ∃ cs' cur', Read (done ++ rest) cs' cur' ∧
      (fs.overlay cs).makeAll (fun _ => .none) n (FileSystem.cuts done rest) =
        fs.overlay cs' := by
  induction rest generalizing done cs cur n with
  | nil => exact ⟨cs, cur, by rw [List.append_nil]; exact hread, rfl⟩
  | cons c rest ih =>
    have happend : done ++ c :: rest = (done ++ [c]) ++ rest := by simp
    rw [happend, FileSystem.cuts]
    split
    · next hslash =>
      subst hslash
      have hne : done ≠ [] := hdone.resolve_right (by simp)
      rw [FileSystem.makeAll, make_read hne hread.names, hread.names]
      exact ih hread.slash (.inl (by simp)) (n + 1)
    · next hslash => exact ih (hread.char hslash) (.inl (by simp)) n

/-- The directories above the path are all there in the end. -/
theorem makeAll_cutsOf (pbuf : CString) :
    ∃ cs cur, Read pbuf cs cur ∧
      (fs.overlay []).makeAll (fun _ => .none) 0 (FileSystem.cutsOf pbuf) = fs.overlay cs := by
  rw [FileSystem.cutsOf.eq_def]
  split
  · exact makeAll_cuts read_slash (.inl (by simp)) 0
  · next hslash =>
    refine makeAll_cuts read_nil (.inr fun hhead => ?_) 0
    obtain ⟨rest, hrest⟩ := List.head?_eq_some_iff.mp hhead
    exact hslash rest hrest

/-- A slash at the end is no name. -/
theorem names_slash (pbuf : CString) : names (pbuf ++ ['/']) = names pbuf := by
  obtain ⟨cs, cur, hread, -⟩ := @makeAll_cutsOf ⟨fun _ => none⟩ pbuf
  rw [hread.slash.names, hread.names]
  simp [whole]

/-- The copy of a path has its names. -/
theorem names_copyOf (path : CString) : names (FileSystem.copyOf path) = names path := by
  rw [FileSystem.copyOf]
  split
  · next hlast =>
    have hpath : path.dropLast ++ ['/'] = path := by
      obtain ⟨init, rfl⟩ := List.getLast?_eq_some_iff.mp hlast
      rw [List.dropLast_concat]
    calc names path.dropLast = names (path.dropLast ++ ['/']) := (names_slash _).symm
      _ = names path := by rw [hpath]
  · rfl

/-- The root is a directory, and whatever there is is in one. -/
structure FileSystem.Tree (fs : FileSystem) : Prop where
  root : fs.kind [] = some .dir
  above : ∀ p name, fs.kind (p ++ [name]) ≠ none → fs.kind p = some .dir

theorem FileSystem.Tree.overlay_nil (h : fs.Tree) : fs.overlay [] = fs := by
  have hkind : (fs.overlay []).kind = fs.kind := by
    funext q
    by_cases hpre : q <+: []
    · rw [overlay_onPath hpre, List.prefix_nil.mp hpre, h.root]
    · exact overlay_offPath hpre
  exact congrArg FileSystem.mk hkind

/-- A directory is in directories. -/
theorem FileSystem.Tree.overlay_dir (h : fs.Tree) (hdir : fs.kind p = some .dir) :
    fs.overlay p = fs := by
  induction p using List.reverseRecOn with
  | nil => exact h.overlay_nil
  | append_singleton p name ih =>
    have habove := h.above p name (by rw [hdir]; simp)
    refine (eq_overlay_concat hdir fun q _ => ?_).symm
    rw [ih habove]

end Make

/-- If the system refuses nothing: the function returns 0, and leaves a directory at each place
on the path, whatever was there, and everything else as it was. -/
theorem dirCreateRecursive_makes (fs : FileSystem) (path : CString) (hpath : path ≠ [])
    (htree : fs.Tree) :
    (fs.dirCreateRecursive .nothing path).2 = 0 ∧
      ∀ q, (fs.dirCreateRecursive .nothing path).1.kind q =
        if q.isPrefixOf (names path) then some .dir else fs.kind q := by
  have hresult : fs.dirCreateRecursive .nothing path = (fs.overlay (names path), 0) := by
    rw [FileSystem.dirCreateRecursive]
    split
    · next hexists =>
      simp only [FileSystem.dirExists, hpath, ne_eq, not_false_eq_true, true_and,
        decide_eq_true_eq] at hexists
      rw [htree.overlay_dir hexists]
    · obtain ⟨cs, cur, hread, hloop⟩ := @makeAll_cutsOf fs (FileSystem.copyOf path)
      rw [htree.overlay_nil] at hloop
      have hnames : names path = cs ++ whole cur := (names_copyOf path).symm.trans hread.names
      have hmake := @make_read fs _ _ _ hpath hnames
      have hexists : (fs.overlay (names path)).dirExists path = true := by
        have hdir : (fs.overlay (names path)).kind (names path) = some .dir :=
          overlay_onPath (List.prefix_refl _)
        simp [FileSystem.dirExists, hpath, hdir]
      simp only [Refusals.nothing, Bool.false_eq_true, if_false, hloop, hmake, hexists, if_true]
  rw [hresult]
  exact ⟨rfl, fun _ => rfl⟩

/-- A path with a file on it, and two slashes. -/
def fileOnPath : FileSystem where
  kind p :=
    if p = [] then some .dir else if p = [['a']] then some .dir
    else if p = [['a'], ['b']] then some .other else none

/-- The file system of this case is a tree. -/
theorem fileOnPath_tree : fileOnPath.Tree := by
  refine ⟨rfl, fun p name hne => ?_⟩
  have hp : p = [] ∨ p = [['a']] := by
    by_contra hnot
    refine hne ?_
    have h1 : p ++ [name] ≠ [['a']] := fun heq =>
      hnot (.inl (List.append_inj_left' (heq : _ = [] ++ [['a']]) rfl))
    have h2 : p ++ [name] ≠ [['a'], ['b']] := fun heq =>
      hnot (.inr (List.append_inj_left' (heq : _ = [['a']] ++ [['b']]) rfl))
    simp [fileOnPath, h1, h2]
  rcases hp with rfl | rfl <;> rfl

theorem dirCreateRecursive_makes_fileOnPath :
    (fileOnPath.dirCreateRecursive .nothing "/a//b/c/".toList).2 = 0 ∧
      ∀ q, (fileOnPath.dirCreateRecursive .nothing "/a//b/c/".toList).1.kind q =
        if q.isPrefixOf (names "/a//b/c/".toList) then some .dir else fileOnPath.kind q :=
  dirCreateRecursive_makes fileOnPath _ (by decide) fileOnPath_tree

/-! ## What the function leaves alone -/

section Keeps

variable {fs fs' fs'' : FileSystem} {path : CString} {target : List CString}

/-- Directories stay, and what is not on the way to `target` is as it was. -/
def Keeps (target : List CString) (fs fs' : FileSystem) : Prop :=
  ∀ q, (fs.kind q = some .dir → fs'.kind q = some .dir) ∧
    (¬ q <+: target → fs'.kind q = fs.kind q)

theorem Keeps.refl : Keeps target fs fs := fun _ => ⟨id, fun _ => rfl⟩

theorem Keeps.trans (h : Keeps target fs fs') (h' : Keeps target fs' fs'') :
    Keeps target fs fs'' := fun q =>
  ⟨fun hdir => (h' q).1 ((h q).1 hdir), fun hq => ((h' q).2 hq).trans ((h q).2 hq)⟩

/-- Something other than a directory is set on the path. -/
theorem keeps_set {p : List CString} {k : Option Kind} (hp : p <+: target)
    (hother : fs.kind p ≠ some .dir) : Keeps target fs (fs.set p k) := by
  refine fun q => ⟨fun hdir => ?_, fun hq => ?_⟩
  · have hne : q ≠ p := by
      rintro rfl
      exact hother hdir
    exact (set_other hne).trans hdir
  · have hne : q ≠ p := by
      rintro rfl
      exact hq hp
    exact set_other hne

/-- `mkdir` changes nothing beside the path. -/
theorem mkdir_keeps {refused : Bool} (hp : names path <+: target)
    (h : fs.mkdir refused path = .made fs') :
    Keeps target fs fs' := by
  rw [FileSystem.mkdir] at h
  split at h
  · cases h
  · split at h
    · cases h
    · next hnone =>
      split at h
      · cases h
        refine keeps_set hp fun hdir => hnone ?_
        rw [hdir]
        rfl
      · cases h

theorem unlinkFile_keeps (refused : Bool) (hp : names path <+: target) :
    Keeps target fs (fs.unlinkFile refused path) := by
  rw [FileSystem.unlinkFile]
  split
  · next hother =>
    refine keeps_set hp fun hdir => ?_
    rw [hdir] at hother
    exact absurd hother.1 (by decide)
  · exact .refl

theorem make_keeps (r : Refused) (hp : names path <+: target) :
    Keeps target fs (fs.make r path) := by
  rw [FileSystem.make]
  split
  · next hmade => exact mkdir_keeps hp hmade
  · exact .refl
  · split
    · exact .refl
    · have hunlink : Keeps target fs (fs.unlinkFile r.unlink path) := unlinkFile_keeps r.unlink hp
      split
      · next hmade => exact hunlink.trans (mkdir_keeps hp hmade)
      · exact hunlink
      · exact hunlink

theorem makeAll_keeps (calls : Nat → Refused) (n : Nat) {done rest cur : CString}
    {cs : List CString} (hread : Read done cs cur) (hp : names (done ++ rest) <+: target) :
    Keeps target fs (fs.makeAll calls n (FileSystem.cuts done rest)) := by
  induction rest generalizing done cs cur fs n with
  | nil => exact .refl
  | cons c rest ih =>
    have happend : done ++ c :: rest = (done ++ [c]) ++ rest := by simp
    rw [happend] at hp
    rw [FileSystem.cuts]
    split
    · next hslash =>
      subst hslash
      exact (make_keeps _ ((read_onPath hread rest).trans hp)).trans (ih _ hread.slash hp)
    · next hslash => exact ih n (hread.char hslash) hp

/-- The loop, if the path could be copied. -/
theorem loop_keeps (r : Refusals) (path : CString) :
    Keeps (names path) fs (fs.makeAll r.calls 0
      (if r.strdup then [] else FileSystem.cutsOf (FileSystem.copyOf path))) := by
  split
  · exact .refl
  · have hnames : names (FileSystem.copyOf path) <+: names path := by rw [names_copyOf]
    rw [FileSystem.cutsOf.eq_def]
    split
    · next heq => exact makeAll_keeps _ 0 read_slash (by rw [heq] at hnames; exact hnames)
    · exact makeAll_keeps _ 0 read_nil hnames

end Keeps

/-- Whatever the system refuses: no directory goes, what is not on the path is as it was, and
what is returned is 0 if there is a directory at the path in the end, and -1 otherwise. -/
theorem dirCreateRecursive_keeps (fs : FileSystem) (r : Refusals) (path : CString)
    (hpath : path ≠ []) :
    (∀ q, (fs.kind q = some .dir → (fs.dirCreateRecursive r path).1.kind q = some .dir) ∧
      (¬ q <+: names path → (fs.dirCreateRecursive r path).1.kind q = fs.kind q)) ∧
      (fs.dirCreateRecursive r path).2 =
        if (fs.dirCreateRecursive r path).1.kind (names path) = some .dir then 0 else -1 := by
  have hexists (fs' : FileSystem) : fs'.dirExists path = true ↔
      fs'.kind (names path) = some .dir := by
    simp [FileSystem.dirExists, hpath]
  rw [FileSystem.dirCreateRecursive]
  split
  · next hdir => exact ⟨Keeps.refl, (if_pos ((hexists fs).mp hdir)).symm⟩
  · refine ⟨(loop_keeps r path).trans (make_keeps _ (List.prefix_refl _)), ?_⟩
    exact if_congr (hexists _) rfl rfl

/-- The file goes, and the directory does not come. -/
theorem dirCreateRecursive_keeps_unmade :
    let r : Refusals := ⟨false, fun _ => ⟨false, false, true⟩⟩
    let result := fileOnPath.dirCreateRecursive r "/a/b".toList
    result.1.kind [['a'], ['b']] = none ∧
      (∀ q, (fileOnPath.kind q = some .dir → result.1.kind q = some .dir) ∧
        (¬ q <+: names "/a/b".toList → result.1.kind q = fileOnPath.kind q)) ∧
      result.2 = if result.1.kind (names "/a/b".toList) = some .dir then 0 else -1 :=
  ⟨by decide, dirCreateRecursive_keeps fileOnPath _ _ (by decide)⟩

end AndroidLearn.Dir.Create
