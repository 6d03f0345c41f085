import AndroidLearn.Lib.Procs
import AndroidLearn.Lib.Run

/-!
# Parsing the packages before the package manager asks

`ParsedPackageCache` and `PreparsePackageTask` of the text file in `threadpool`. The cache
lists the packages of six directories and starts two to four tasks. A task takes the next
index of the list from a counter that they share, parses the package and puts it into the
cache. Meanwhile the package manager may get a package, ask that one be skipped that it
parses itself, or clear the whole; clearing empties the list only when the tasks have all
ended.

A step of a task is one access to what is shared, or one call of the parser, which is a
parameter: it returns a package or throws. The counter is atomic, the lists are
synchronized and the cache is a `ConcurrentHashMap`, so an access is one step. The steps
of the tasks and of the package manager come in any order.

Theorems:
- `preparse_run`: in every run an index is taken by one task, the list is whole while
  there is a task to read it, and what is in the cache is what the parser makes of the
  file;
- `preparse_ends`: the tasks come to an end, and nothing is missing then that should be
  there. A measure on the places of the tasks and the counter goes down with each of their
  steps.
-/

namespace AndroidLearn.PackageManager.Preparse

open Procs Run

/-- A path. -/
abbrev Path := List Char

/-! ## The device -/

/-- The flags of the package parser. -/
structure ParseFlags where
  isSystem : Nat
  isSystemDir : Nat
  isPrivileged : Nat
  mustBeApk : Nat
  isDataPreload : Nat
  isDataPreloadDir : Nat
  ignoreProcesses : Nat

/-- What the cache is built on. -/
structure Device (Pkg : Type) where
  rootDirectory : Path
  dataDirectory : Path
  listFiles : Path → Option (List Path)
  availableProcessors : Nat
  /-- the property `debug.separate_processes` -/
  separateProcesses : Option (List Char)
  flags : ParseFlags
  isApkFile : Path → Bool
  isDirectory : Path → Bool
  /-- `none` if it returns null or throws a `PackageParserException` -/
  parsePackage : Option (List (List Char)) → Path → Nat → Option Pkg
  /-- `none` if there is no handle, or no list, or an exception -/
  getSupportedAbi : Path → Option (List (List Char))

/-- An entry of the cache: the package, and the ABIs if they were asked for. -/
structure ParsedPackage (Pkg : Type) where
  pkg : Pkg
  lstAbis : Option (List (List Char))
  deriving DecidableEq, Repr

namespace Device

variable {Pkg : Type} (d : Device Pkg)

/-- The five folders of packages, and the second one of preloaded ones. -/
def sysFramePath : Path := d.rootDirectory ++ "/framework".toList

def sysPrivAppPath : Path := d.rootDirectory ++ "/priv-app".toList

def sysAppPath : Path := d.rootDirectory ++ "/app".toList

def dataAppPath : Path := d.dataDirectory ++ "/app".toList

def dataPreloadAppPath : Path := d.dataDirectory ++ "/preload".toList

def dataPreloadAppPath2 : Path := "/preload".toList

/-- The list of the files, as it is before the tasks start. -/
def lstApks : List Path :=
  [d.sysFramePath, d.sysPrivAppPath, d.sysAppPath, d.dataAppPath, d.dataPreloadAppPath,
    dataPreloadAppPath2].flatMap fun dir => (d.listFiles dir).getD []

/-- At least two threads, and four at most. -/
def nCores : Nat :=
  if d.availableProcessors < 2 then 2
  else if d.availableProcessors > 4 then 4
  else d.availableProcessors

/-- The flags of a scan, by whether every process is set apart. -/
def defaultParseFlags : Nat :=
  match d.separateProcesses with
  | some ['*'] => d.flags.ignoreProcesses
  | _ => 0

/-- `split` leaves out the empty strings at the end. -/
def arySeparateProcesses : Option (List (List Char)) :=
  match d.separateProcesses with
  | none => none
  | some [] => none
  | some ['*'] => none
  | some text => some (((text.splitOn ',').reverse.dropWhile List.isEmpty).reverse)

/-- `none` for -1 -/
def getParseFlags (strPkgPath : Path) : Option Nat :=
  if d.sysPrivAppPath <+: strPkgPath then
    some (d.flags.isSystem ||| d.flags.isSystemDir ||| d.flags.isPrivileged |||
      d.flags.mustBeApk ||| d.defaultParseFlags)
  else if d.sysAppPath <+: strPkgPath then
    some (d.flags.isSystem ||| d.flags.isSystemDir ||| d.flags.mustBeApk ||| d.defaultParseFlags)
  else if d.dataAppPath <+: strPkgPath then some (d.flags.mustBeApk ||| d.defaultParseFlags)
  else if d.dataPreloadAppPath <+: strPkgPath ∨ dataPreloadAppPath2 <+: strPkgPath then
    some (d.flags.isDataPreload ||| d.flags.isDataPreloadDir ||| d.flags.mustBeApk |||
      d.defaultParseFlags)
  else if d.sysFramePath <+: strPkgPath then
    some (d.flags.isSystem ||| d.flags.isSystemDir ||| d.flags.isPrivileged |||
      d.flags.mustBeApk ||| d.defaultParseFlags)
  else none

/-- Is it below one of the folders of data? -/
def isDataApk (strPkgPath : Path) : Bool :=
  d.dataAppPath <+: strPkgPath || d.dataPreloadAppPath <+: strPkgPath ||
    dataPreloadAppPath2 <+: strPkgPath

end Device

/-! ## The tasks -/

/-- Where a task is. -/
inductive Place (Pkg : Type)
  /-- before it reads `mExit` -/
  | looping
  /-- before `getAndIncrement` -/
  | counting
  /-- it has an index -/
  | taken (i : Nat)
  /-- before `mlstSkips.isEmpty ()` -/
  | asking (i : Nat) (strPath : Path)
  /-- before `mlstSkips.contains (strPath)` -/
  | searching (i : Nat) (strPath : Path)
  /-- before `mlstSkips.remove (strPath)` -/
  | removing (i : Nat) (strPath : Path)
  | parsing (i : Nat) (strPath : Path)
  /-- before it reads the native libraries -/
  | native (i : Nat) (strPath : Path) (pkg : Pkg)
  /-- before `mCachedPackages.put` -/
  | putting (i : Nat) (strPath : Path) (item : ParsedPackage Pkg)
  deriving DecidableEq, Repr

/-- How a task is through with an index. -/
inductive Fate
  /-- it is not a package -/
  | ignored
  | skipped
  | cached
  /-- something was thrown, and the task has ended -/
  | broken
  deriving DecidableEq, Repr

/-- What the tasks and the package manager share, and where the tasks are. -/
structure State (Pkg : Type) where
  lstApks : List Path
  lstSkips : List Path
  /-- the last entry of a path counts -/
  cachedPackages : List (Path × ParsedPackage Pkg)
  finished : Bool
  exit : Bool
  parseCount : Nat
  tasks : List (Place Pkg)
  /-- the thread that waits for the tasks -/
  waiting : Bool
  /-- the indices the tasks are through with -/
  done : List (Nat × Fate)
  /-- the packages that were to be skipped -/
  asked : List Path

/-- What can happen next, of the tasks, the thread that waits for them, and the package manager. -/
inductive Event
  /-- task `t` goes on -/
  | go (t : Nat)
  | throw (t : Nat)
  /-- the waiting thread sees that all tasks have ended -/
  | terminated
  /-- the waiting thread gives up -/
  | timeout
  | addSkipPackage (strPath : Path)
  | clear
  deriving DecidableEq, Repr

section Cache

variable {Pkg : Type} (d : Device Pkg)

/-- After the tasks were started. -/
def start : State Pkg where
  lstApks := d.lstApks
  lstSkips := []
  cachedPackages := []
  finished := false
  exit := false
  parseCount := 0
  tasks := if d.lstApks.length ≠ 0 then List.replicate d.nCores .looping else []
  waiting := true
  done := []
  asked := []

/-- Thread `t` goes on to another place. -/
def State.moveTo (s : State Pkg) (t : Nat) (p : Place Pkg) : State Pkg :=
  { s with tasks := s.tasks.set t p }

/-- Thread `t` has come to its end. -/
def State.quit (s : State Pkg) (t : Nat) : State Pkg := { s with tasks := s.tasks.eraseIdx t }

/-- The task is through with an index, and what came of it. -/
def State.through (s : State Pkg) (i : Nat) (f : Fate) : State Pkg :=
  { s with done := s.done ++ [(i, f)] }

/-- `get`: the package of a path, if it is in the cache. -/
def State.get (s : State Pkg) (strPath : Path) : Option Pkg :=
  (s.cachedPackages.lookup strPath).map (·.pkg)

/-- The ABIs that are kept for a package. -/
def State.getSupportedAbis (s : State Pkg) (strPath : Path) : Option (List (List Char)) :=
  (s.cachedPackages.lookup strPath).bind (·.lstAbis)

/-- `get` outside of the list throws, and the task ends. -/
def State.go (s : State Pkg) (t : Nat) : State Pkg :=
  match s.tasks[t]? with
  | none => s
  | some .looping => if s.exit then s.quit t else s.moveTo t .counting
  | some .counting =>
    let s' := { s with parseCount := s.parseCount + 1 }
    if s.parseCount ≥ d.lstApks.length then s'.quit t else s'.moveTo t (.taken s.parseCount)
  | some (.taken i) =>
    match s.lstApks[i]? with
    | none => (s.through i .broken).quit t
    | some strPath =>
      if !d.isApkFile strPath && !d.isDirectory strPath then
        (s.through i .ignored).moveTo t .looping
      else s.moveTo t (.asking i strPath)
  | some (.asking i strPath) =>
    s.moveTo t (if s.lstSkips.isEmpty then .parsing i strPath else .searching i strPath)
  | some (.searching i strPath) =>
    s.moveTo t (if s.lstSkips.contains strPath then .removing i strPath else .parsing i strPath)
  | some (.removing i strPath) =>
    ({ s with lstSkips := s.lstSkips.erase strPath }.through i .skipped).moveTo t .looping
  | some (.parsing i strPath) =>
    match d.getParseFlags strPath with
    | none => (s.through i .ignored).moveTo t .looping
    | some nFlags =>
      match d.parsePackage d.arySeparateProcesses strPath nFlags with
      | none => (s.through i .ignored).moveTo t .looping
      | some pkg =>
        s.moveTo t (if d.isDataApk strPath then .native i strPath pkg
          else .putting i strPath ⟨pkg, none⟩)
  | some (.native i strPath pkg) =>
    s.moveTo t (.putting i strPath ⟨pkg, d.getSupportedAbi strPath⟩)
  | some (.putting i strPath item) =>
    ({ s with cachedPackages := (strPath, item) :: s.cachedPackages }.through i .cached).moveTo t
      .looping

/-- The index a task has taken and is not through with. -/
def Place.held : Place Pkg → Option Nat
  | .looping | .counting => none
  | .taken i | .asking i _ | .searching i _ | .removing i _ | .parsing i _ | .native i _ _
  | .putting i _ _ => some i

/-- A task that throws ends, and leaves its index behind. -/
def State.throw (s : State Pkg) (t : Nat) : State Pkg :=
  match s.tasks[t]?.bind Place.held with
  | none => s
  | some i => (s.through i .broken).quit t

/-- What an event does. -/
def State.step (s : State Pkg) : Event → State Pkg
  | .go t => s.go d t
  | .throw t => s.throw t
  | .terminated =>
    if s.waiting && s.tasks.isEmpty then { s with waiting := false, finished := true } else s
  | .timeout =>
    if s.waiting && !s.tasks.isEmpty then { s with waiting := false, finished := false } else s
  | .addSkipPackage strPath =>
    if (d.getParseFlags strPath).isSome then
      { s with lstSkips := s.lstSkips ++ [strPath], asked := s.asked ++ [strPath] }
    else s
  | .clear =>
    if s.finished then
      { s with lstApks := [], lstSkips := [], cachedPackages := [], exit := true }
    else { s with exit := true }

end Cache

/-! ## Each package once, and what the parser makes of it -/

/-- What should be in the cache for a path. -/
def Device.expected {Pkg : Type} (d : Device Pkg) (strPath : Path) : Option (ParsedPackage Pkg) :=
  if !d.isApkFile strPath && !d.isDirectory strPath then none
  else
    (d.getParseFlags strPath).bind fun nFlags =>
      (d.parsePackage d.arySeparateProcesses strPath nFlags).map fun pkg =>
        ⟨pkg, if d.isDataApk strPath then d.getSupportedAbi strPath else none⟩

/-- What is due for a package. -/
theorem Device.expected_of_package {Pkg : Type} (d : Device Pkg) {strPath : Path}
    (h : (d.isApkFile strPath || d.isDirectory strPath) = true) :
    d.expected strPath = (d.getParseFlags strPath).bind fun nFlags =>
      (d.parsePackage d.arySeparateProcesses strPath nFlags).map fun pkg =>
        ⟨pkg, if d.isDataApk strPath then d.getSupportedAbi strPath else none⟩ := by
  rw [Device.expected, if_neg]
  rw [← Bool.not_or, h]
  decide

/-- What a task has in hand belongs to its index. -/
def Place.Correct {Pkg : Type} (d : Device Pkg) (asked : List Path) : Place Pkg → Prop
  | .looping | .counting => True
  | .taken i => i < d.lstApks.length
  | .asking i strPath | .searching i strPath | .parsing i strPath =>
    d.lstApks[i]? = some strPath ∧ (d.isApkFile strPath || d.isDirectory strPath) = true
  | .removing i strPath => d.lstApks[i]? = some strPath ∧ strPath ∈ asked
  | .native i strPath pkg =>
    d.lstApks[i]? = some strPath ∧ d.isDataApk strPath = true ∧
      d.expected strPath = some ⟨pkg, d.getSupportedAbi strPath⟩
  | .putting i strPath item => d.lstApks[i]? = some strPath ∧ d.expected strPath = some item

/-- What has become of a path a task is through with. -/
def State.Correct {Pkg : Type} (d : Device Pkg) (s : State Pkg) (strPath : Path) : Fate → Prop
  | .ignored => d.expected strPath = none
  | .skipped => strPath ∈ s.asked
  | .cached => s.exit = false → ∃ item, (strPath, item) ∈ s.cachedPackages
  | .broken => True

/-- Every index that was taken is through or in one task's hands; the list is whole while there is
a task. -/
structure State.Inv {Pkg : Type} (d : Device Pkg) (s : State Pkg) : Prop where
  ledger : (List.range (min s.parseCount d.lstApks.length)).Perm
    (s.done.map Prod.fst ++ s.tasks.filterMap Place.held)
  whole : s.tasks ≠ [] → s.lstApks = d.lstApks
  finished : s.finished = true → s.tasks = []
  places : ∀ p ∈ s.tasks, p.Correct d s.asked
  cached : ∀ x ∈ s.cachedPackages, x.1 ∈ d.lstApks ∧ d.expected x.1 = some x.2
  skips : ∀ p ∈ s.lstSkips, p ∈ s.asked
  fates : ∀ x ∈ s.done, ∃ strPath, d.lstApks[x.1]? = some strPath ∧ s.Correct d strPath x.2
  -- a task ends early because of `mExit` or of a throw
  left : s.exit = false → s.parseCount < d.lstApks.length →
    s.tasks.length + s.done.countP (·.2 = .broken) = d.nCores

section Step

variable {Pkg : Type} {d : Device Pkg} {s : State Pkg} {t i : Nat} {p q : Place Pkg}

/-- A thread at work, and what it has in hand. -/
theorem State.Inv.task (h : s.Inv d) (ht : s.tasks[t]? = some p) :
    s.tasks ≠ [] ∧ s.finished = false ∧ p.Correct d s.asked := by
  have hmem := List.mem_of_getElem? ht
  have hne : s.tasks ≠ [] := List.ne_nil_of_mem hmem
  refine ⟨hne, ?_, h.places p hmem⟩
  by_contra hfinished
  exact hne (h.finished (by simpa using hfinished))

/-- A task goes on with what it has. -/
theorem State.Inv.moveTo (h : s.Inv d) (ht : s.tasks[t]? = some p) (hheld : p.held = q.held)
    (hq : q.Correct d s.asked) : (s.moveTo t q).Inv d := by
  obtain ⟨hne, hfinished, -⟩ := h.task ht
  refine ⟨?_, fun _ => h.whole hne, fun hset => ?_, forall_set h.places hq, h.cached, h.skips,
    h.fates, fun hexit hcount => ?_⟩
  · show (List.range _).Perm (s.done.map Prod.fst ++ (s.tasks.set t q).filterMap Place.held)
    rw [filterMap_set ht hheld]
    exact h.ledger
  · exact absurd (hset.symm.trans hfinished) (by decide)
  · show (s.tasks.set t q).length + _ = _
    rw [List.length_set]
    exact h.left hexit hcount

/-- A task has taken an index. -/
theorem State.Inv.count (h : s.Inv d) (ht : s.tasks[t]? = some .counting)
    (hlt : s.parseCount < d.lstApks.length) :
    (State.moveTo { s with parseCount := s.parseCount + 1 } t (.taken s.parseCount)).Inv d := by
  obtain ⟨hne, hfinished, -⟩ := h.task ht
  refine ⟨?_, fun _ => h.whole hne, fun hset => ?_, forall_set h.places hlt, h.cached, h.skips,
    h.fates, fun hexit _ => ?_⟩
  · show (List.range (min (s.parseCount + 1) _)).Perm
      (s.done.map Prod.fst ++ (s.tasks.set t (.taken s.parseCount)).filterMap Place.held)
    have hset := filterMap_set_perm (f := Place.held) (q := .taken s.parseCount) ht
    have hledger := h.ledger
    rw [Nat.min_eq_left hlt.le] at hledger
    rw [Nat.min_eq_left hlt, List.range_succ]
    simp only [Place.held, Option.toList_none, List.append_nil, Option.toList_some] at hset
    refine (hledger.append_right _).trans ?_
    rw [List.append_assoc]
    exact hset.symm.append_left _
  · exact absurd (hset.symm.trans hfinished) (by decide)
  · show (s.tasks.set t _).length + _ = _
    rw [List.length_set]
    exact h.left hexit hlt

/-- A task ends with no index in hand. -/
theorem State.Inv.quit (h : s.Inv d) (ht : s.tasks[t]? = some p) (hheld : p.held = none)
    {count : Nat} (hcount : min s.parseCount d.lstApks.length = min count d.lstApks.length)
    (hleft : s.exit = true ∨ d.lstApks.length ≤ count) :
    (State.quit { s with parseCount := count } t).Inv d := by
  obtain ⟨hne, hfinished, -⟩ := h.task ht
  refine ⟨?_, fun _ => h.whole hne, fun hset => ?_,
    fun p hp => h.places p (List.mem_of_mem_eraseIdx hp), h.cached, h.skips, h.fates,
    fun hexit hlt => ?_⟩
  · show (List.range (min count _)).Perm
      (s.done.map Prod.fst ++ (s.tasks.eraseIdx t).filterMap Place.held)
    rw [filterMap_eraseIdx ht hheld, ← hcount]
    exact h.ledger
  · exact absurd (hset.symm.trans hfinished) (by decide)
  · rcases hleft with hset | hle
    · exact absurd (hset.symm.trans hexit) (by decide)
    · exact absurd hlt (Nat.not_lt.mpr hle)

/-- What was correct stays so: the cache grows, and is not read after `mExit`. -/
theorem State.Correct.mono {s' : State Pkg} {strPath : Path} {f : Fate}
    (h : s.Correct d strPath f) (hasked : s.asked ⊆ s'.asked)
    (hcached : s'.exit = false → s.exit = false ∧ s.cachedPackages ⊆ s'.cachedPackages) :
    s'.Correct d strPath f := by
  cases f with
  | ignored => exact h
  | skipped => exact hasked h
  | cached =>
    intro hexit
    obtain ⟨hexit', hsub⟩ := hcached hexit
    obtain ⟨item, hitem⟩ := h hexit'
    exact ⟨item, hsub hitem⟩
  | broken => trivial

/-- The fates with one more. -/
theorem fates_concat (s' : State Pkg) (h : s.Inv d) {strPath : Path} {f : Fate}
    (hasked : s'.asked = s.asked) (hexit : s'.exit = s.exit)
    (hcached : s.cachedPackages ⊆ s'.cachedPackages) (hi : d.lstApks[i]? = some strPath)
    (hf : s'.Correct d strPath f) :
    ∀ x ∈ s.done ++ [(i, f)], ∃ strPath, d.lstApks[x.1]? = some strPath ∧
      s'.Correct d strPath x.2 := by
  refine forall_concat (fun x hx => ?_) ⟨strPath, hi, hf⟩
  obtain ⟨strPath, hpath, hcorrect⟩ := h.fates x hx
  exact ⟨strPath, hpath, hcorrect.mono (by rw [hasked]; exact fun _ => id)
    fun hclear => ⟨hexit.symm.trans hclear, hcached⟩⟩

/-- The index in hand goes to those that are done. -/
theorem ledger_done (h : s.Inv d) (hheld : p.held = some i) {tasks : List (Place Pkg)} (f : Fate)
    (htasks : (tasks.filterMap Place.held ++ p.held.toList).Perm
      (s.tasks.filterMap Place.held)) :
    (List.range (min s.parseCount d.lstApks.length)).Perm
      ((s.done ++ [(i, f)]).map Prod.fst ++ tasks.filterMap Place.held) := by
  refine h.ledger.trans ?_
  rw [List.map_append, List.append_assoc]
  refine List.Perm.append_left _ ?_
  rw [hheld] at htasks
  exact htasks.symm.trans List.perm_append_comm

/-- A task is through with an index, and begins again. -/
theorem State.Inv.through (h : s.Inv d) (ht : s.tasks[t]? = some p) (hheld : p.held = some i)
    {strPath : Path} (hi : d.lstApks[i]? = some strPath) {f : Fate} (hf : f ≠ .broken)
    {skips : List Path} {cached : List (Path × ParsedPackage Pkg)}
    (hskips : ∀ p ∈ skips, p ∈ s.asked) (hsub : s.cachedPackages ⊆ cached)
    (hcached : ∀ x ∈ cached, x.1 ∈ d.lstApks ∧ d.expected x.1 = some x.2)
    (hcorrect : State.Correct d { s with lstSkips := skips, cachedPackages := cached } strPath f) :
    ((State.through { s with lstSkips := skips, cachedPackages := cached } i f).moveTo t
      .looping).Inv d := by
  obtain ⟨hne, hfinished, -⟩ := h.task ht
  refine ⟨?_, fun _ => h.whole hne, fun hset => ?_, forall_set h.places trivial, hcached, hskips,
    ?_, fun hexit hlt => ?_⟩
  · refine ledger_done h hheld f ?_
    have hset := filterMap_set_perm (f := Place.held) (q := .looping) ht
    simp only [Place.held, Option.toList_none, List.append_nil] at hset
    exact hset
  · exact absurd (hset.symm.trans hfinished) (by decide)
  · exact fates_concat (State.moveTo (State.through
      { s with lstSkips := skips, cachedPackages := cached } i f) t .looping) h rfl rfl hsub hi
      (hcorrect.mono (fun _ => id) fun hexit => ⟨hexit, fun _ => id⟩)
  · show (s.tasks.set t _).length + (s.done ++ [(i, f)]).countP _ = _
    rw [List.length_set, List.countP_append, List.countP_singleton]
    simpa [hf] using h.left hexit hlt

/-- There is no package to be had of the path. -/
theorem State.Inv.ignores (h : s.Inv d) (ht : s.tasks[t]? = some p) (hheld : p.held = some i)
    {strPath : Path} (hi : d.lstApks[i]? = some strPath) (hnone : d.expected strPath = none) :
    ((s.through i .ignored).moveTo t .looping).Inv d :=
  h.through ht hheld hi (by decide) h.skips (fun _ => id) h.cached hnone

/-- A task ends of a throw. -/
theorem State.Inv.broken (h : s.Inv d) (ht : s.tasks[t]? = some p) (hheld : p.held = some i)
    {strPath : Path} (hi : d.lstApks[i]? = some strPath) :
    ((s.through i .broken).quit t).Inv d := by
  obtain ⟨hne, hfinished, -⟩ := h.task ht
  refine ⟨?_, fun _ => h.whole hne, fun hset => ?_,
    fun p hp => h.places p (List.mem_of_mem_eraseIdx hp), h.cached, h.skips, ?_,
    fun hexit hlt => ?_⟩
  · exact ledger_done h hheld .broken (filterMap_eraseIdx_perm ht)
  · exact absurd (hset.symm.trans hfinished) (by decide)
  · exact fates_concat ((s.through i .broken).quit t) h rfl rfl (fun _ => id) hi trivial
  · show (s.tasks.eraseIdx t).length + (s.done ++ [(i, Fate.broken)]).countP _ = _
    have hlength := h.left hexit hlt
    obtain ⟨htlt, -⟩ := List.getElem?_eq_some_iff.mp ht
    rw [List.length_eraseIdx_of_lt htlt, List.countP_append, List.countP_singleton]
    simp only [decide_true, if_true]
    omega

/-- The path of the index a task has in hand. -/
theorem Place.Correct.path {asked : List Path} (h : p.Correct d asked) (hheld : p.held = some i) :
    ∃ strPath, d.lstApks[i]? = some strPath := by
  cases p with
  | looping => exact absurd hheld (by simp [Place.held])
  | counting => exact absurd hheld (by simp [Place.held])
  | taken j =>
    obtain rfl : j = i := by simpa [Place.held] using hheld
    exact ⟨_, List.getElem?_eq_getElem h⟩
  | asking j strPath | searching j strPath | removing j strPath | parsing j strPath
  | native j strPath pkg | putting j strPath item =>
    obtain rfl : j = i := by simpa [Place.held] using hheld
    exact ⟨strPath, h.1⟩

theorem State.Inv.go (h : s.Inv d) (t : Nat) : (s.go d t).Inv d := by
  unfold State.go
  split
  · exact h
  · next ht =>
    split
    · next hexit => exact h.quit ht rfl rfl (.inl hexit)
    · exact h.moveTo ht rfl trivial
  · next ht =>
    dsimp only
    split
    · next hge => exact h.quit ht rfl (by omega) (.inr (by omega))
    · next hlt => exact h.count ht (Nat.lt_of_not_le hlt)
  · next i ht =>
    obtain ⟨hne, -, hlt⟩ := h.task ht
    have hpath : d.lstApks[i]? = some d.lstApks[i] := List.getElem?_eq_getElem hlt
    rw [h.whole hne, hpath]
    dsimp only
    split
    · next hno =>
      refine h.ignores ht rfl hpath ?_
      rw [Device.expected, if_pos hno]
    · next hyes =>
      refine h.moveTo ht rfl ⟨hpath, ?_⟩
      rw [← Bool.not_or] at hyes
      simpa only [Bool.not_eq_true, Bool.not_eq_false'] using hyes
  · next i strPath ht =>
    obtain ⟨-, -, hcorrect⟩ := h.task ht
    refine h.moveTo ht ?_ ?_
    · split <;> rfl
    · split <;> exact hcorrect
  · next i strPath ht =>
    obtain ⟨-, -, hpath, hyes⟩ := h.task ht
    split
    · next hmem => exact h.moveTo ht rfl ⟨hpath, h.skips strPath (List.contains_iff_mem.mp hmem)⟩
    · exact h.moveTo ht rfl ⟨hpath, hyes⟩
  · next i strPath ht =>
    obtain ⟨-, -, hpath, hasked⟩ := h.task ht
    exact h.through ht rfl hpath (by decide) (fun p hp => h.skips p (List.mem_of_mem_erase hp))
      (fun _ => id) h.cached hasked
  · next i strPath ht =>
    obtain ⟨-, -, hpath, hyes⟩ := h.task ht
    have hexpected := d.expected_of_package hyes
    split
    · next hnone =>
      refine h.ignores ht rfl hpath ?_
      rw [hexpected, hnone]
      rfl
    · next nFlags hflags =>
      rw [hflags] at hexpected
      split
      · next hnone =>
        refine h.ignores ht rfl hpath ?_
        rw [hexpected, Option.bind_some, hnone]
        rfl
      · next pkg hpkg =>
        rw [Option.bind_some, hpkg] at hexpected
        split
        · next hdata =>
          rw [hdata] at hexpected
          exact h.moveTo ht rfl ⟨hpath, hdata, hexpected⟩
        · next hdata =>
          rw [if_neg hdata] at hexpected
          exact h.moveTo ht rfl ⟨hpath, hexpected⟩
  · next i strPath pkg ht =>
    obtain ⟨-, -, hpath, -, hexpected⟩ := h.task ht
    exact h.moveTo ht rfl ⟨hpath, hexpected⟩
  · next i strPath item ht =>
    obtain ⟨-, -, hpath, hexpected⟩ := h.task ht
    refine h.through ht rfl hpath (by decide) h.skips (List.subset_cons_self _ _) ?_
      (fun _ => ⟨item, List.mem_cons_self⟩)
    intro x hx
    rcases List.mem_cons.mp hx with rfl | hx
    · exact ⟨List.mem_of_getElem? hpath, hexpected⟩
    · exact h.cached x hx

theorem State.Inv.throw (h : s.Inv d) (t : Nat) : (s.throw t).Inv d := by
  unfold State.throw
  split
  · exact h
  · next i hi =>
    obtain ⟨p, ht, hheld⟩ := Option.bind_eq_some_iff.mp hi
    obtain ⟨-, -, hcorrect⟩ := h.task ht
    obtain ⟨strPath, hpath⟩ := hcorrect.path hheld
    exact h.broken ht hheld hpath

/-- The others change nothing that a task has in hand. -/
theorem Place.Correct.mono {asked asked' : List Path} (h : p.Correct d asked)
    (hsub : asked ⊆ asked') : p.Correct d asked' := by
  cases p with
  | removing i strPath => exact ⟨h.1, hsub h.2⟩
  | _ => exact h

/-- Every event keeps the invariant. -/
theorem State.Inv.step (h : s.Inv d) (e : Event) : (s.step d e).Inv d := by
  cases e with
  | go t => exact h.go t
  | throw t => exact h.throw t
  | terminated =>
    show (if s.waiting && s.tasks.isEmpty then { s with waiting := false, finished := true }
      else s).Inv d
    split
    · next hall =>
      have hnil : s.tasks = [] := by simpa using (Bool.and_eq_true_iff.mp hall).2
      exact ⟨h.ledger, h.whole, fun _ => hnil, h.places, h.cached, h.skips, h.fates, h.left⟩
    · exact h
  | timeout =>
    show (if s.waiting && !s.tasks.isEmpty then { s with waiting := false, finished := false }
      else s).Inv d
    split
    · exact ⟨h.ledger, h.whole, by simp, h.places, h.cached, h.skips, h.fates, h.left⟩
    · exact h
  | addSkipPackage strPath =>
    show (if (d.getParseFlags strPath).isSome then
      { s with lstSkips := s.lstSkips ++ [strPath], asked := s.asked ++ [strPath] } else s).Inv d
    split
    · have hsub : s.asked ⊆ s.asked ++ [strPath] := List.subset_append_left _ _
      refine ⟨h.ledger, h.whole, h.finished, fun p hp => (h.places p hp).mono hsub, h.cached, ?_,
        ?_, h.left⟩
      · intro p hp
        rcases List.mem_append.mp hp with hp | hp
        · exact hsub (h.skips p hp)
        · exact List.mem_append_right _ hp
      · intro x hx
        obtain ⟨strPath, hpath, hcorrect⟩ := h.fates x hx
        exact ⟨strPath, hpath, hcorrect.mono hsub fun hexit => ⟨hexit, fun _ => id⟩⟩
    · exact h
  | clear =>
    have hfates : ∀ s' : State Pkg, s'.asked = s.asked → s'.exit = true → ∀ x ∈ s.done,
        ∃ strPath, d.lstApks[x.1]? = some strPath ∧ s'.Correct d strPath x.2 := by
      intro s' hasked hexit x hx
      obtain ⟨strPath, hpath, hcorrect⟩ := h.fates x hx
      exact ⟨strPath, hpath, hcorrect.mono (by rw [hasked]; exact fun _ => id)
        fun hclear => absurd (hexit.symm.trans hclear) (by decide)⟩
    show (if s.finished then
      { s with lstApks := [], lstSkips := [], cachedPackages := [], exit := true }
      else { s with exit := true }).Inv d
    split
    · next hfinished =>
      have hnil := h.finished hfinished
      exact ⟨h.ledger, fun hne => absurd hnil hne, fun _ => hnil, h.places, by simp, by simp,
        hfates _ rfl rfl, by simp⟩
    · exact ⟨h.ledger, h.whole, h.finished, h.places, h.cached, h.skips, hfates _ rfl rfl, by simp⟩

/-- All threads begin at the loop. -/
theorem start_tasks (hp : p ∈ (start d).tasks) : p = .looping := by
  unfold start at hp
  dsimp only at hp
  split at hp
  · exact List.eq_of_mem_replicate hp
  · exact absurd hp List.not_mem_nil

/-- The invariant holds as they do. -/
theorem inv_start (d : Device Pkg) : (start d).Inv d := by
  refine ⟨?_, fun _ => rfl, by simp [start], ?_, by simp [start], by simp [start], by simp [start],
    ?_⟩
  · have hnone : (start d).tasks.filterMap Place.held = [] := by
      refine List.filterMap_eq_nil_iff.mpr fun p hp => ?_
      rw [start_tasks hp]
      rfl
    rw [hnone]
    simp [start]
  · intro p hp
    rw [start_tasks hp]
    trivial
  · intro _ hlt
    have hne : d.lstApks.length ≠ 0 := Nat.ne_of_gt hlt
    simp [start, hne]

theorem inv_run (events : List Event) : (events.foldl (State.step d) (start d)).Inv d :=
  List.foldlRecOn events _ (inv_start d) fun _ h e _ => h.step e

end Step

/-- What is looked up is there. -/
theorem mem_of_lookup {Pkg : Type} {cached : List (Path × ParsedPackage Pkg)} {strPath : Path}
    {item : ParsedPackage Pkg} (h : cached.lookup strPath = some item) :
    (strPath, item) ∈ cached := by
  obtain ⟨before, after, heq, -⟩ := List.lookup_eq_some_iff.mp h
  rw [heq]
  exact List.mem_append_right _ List.mem_cons_self

/-- In every run, whatever is thrown, skipped or cleared meanwhile: each index is taken by
one task at most, the list is whole while a task may read it, and what `get` and
`getSupportedAbis` return is what the parser makes of a file of the list. -/
theorem preparse_run {Pkg : Type} (d : Device Pkg) (events : List Event) :
    let s := events.foldl (State.step d) (start d)
    (List.range (min s.parseCount d.lstApks.length)).Perm
        (s.done.map Prod.fst ++ s.tasks.filterMap Place.held) ∧
      (∀ p ∈ s.tasks, ∀ i ∈ p.held, s.lstApks[i]? = d.lstApks[i]? ∧ i < d.lstApks.length) ∧
      (∀ strPath pkg, s.get strPath = some pkg →
        strPath ∈ d.lstApks ∧
          d.expected strPath = some ⟨pkg, s.getSupportedAbis strPath⟩) := by
  intro s
  have h : s.Inv d := inv_run events
  refine ⟨h.ledger, ?_, ?_⟩
  · intro p hp i hi
    obtain ⟨strPath, hpath⟩ := (h.places p hp).path hi
    obtain ⟨hlt, -⟩ := List.getElem?_eq_some_iff.mp hpath
    rw [h.whole (List.ne_nil_of_mem hp)]
    exact ⟨rfl, hlt⟩
  · intro strPath pkg hget
    obtain ⟨item, hitem, rfl⟩ := Option.map_eq_some_iff.mp hget
    obtain ⟨hmem, hexpected⟩ := h.cached _ (mem_of_lookup hitem)
    refine ⟨hmem, ?_⟩
    show d.expected strPath = some ⟨item.pkg, (s.cachedPackages.lookup strPath).bind (·.lstAbis)⟩
    rw [hexpected, hitem]
    rfl

/-! ## Nothing is missing in the end -/

/-- A step of a task that there is; what is thrown ends it. -/
def Moves {Pkg : Type} (s : State Pkg) : Event → Prop
  | .go t => t < s.tasks.length
  | .throw t => ∃ p ∈ s.tasks[t]?, p.held ≠ none
  | _ => False

/-- How many steps a task has before it with its index, at most. -/
def Place.steps {Pkg : Type} : Place Pkg → Nat
  | .taken _ => 8
  | .asking _ _ => 7
  | .searching _ _ => 6
  | .parsing _ _ => 5
  | .native _ _ _ => 4
  | .removing _ _ => 3
  | .putting _ _ _ => 3
  | .looping => 2
  | .counting => 1

/-- The steps that the tasks can still take: ten for each index that is not taken. -/
def State.steps {Pkg : Type} (d : Device Pkg) (s : State Pkg) : Nat :=
  10 * (d.lstApks.length - s.parseCount) + weigh Place.steps s.tasks

section Step

variable {Pkg : Type} {d : Device Pkg} {s s' : State Pkg} {t : Nat} {p q : Place Pkg}

/-- A thread that goes on has less to do. -/
theorem steps_set (ht : s.tasks[t]? = some p) (htasks : s'.tasks = s.tasks.set t q)
    (hcount : s'.parseCount = s.parseCount) (hq : q.steps < p.steps) : s'.steps d < s.steps d := by
  have hweigh := weigh_set (w := Place.steps) (q := q) ht
  rw [State.steps, State.steps, htasks, hcount]
  omega

/-- One that ends has nothing to do. -/
theorem steps_quit (ht : s.tasks[t]? = some p) (htasks : s'.tasks = s.tasks.eraseIdx t)
    (hcount : s.parseCount ≤ s'.parseCount) : s'.steps d < s.steps d := by
  have hweigh := weigh_eraseIdx (w := Place.steps) ht
  have hpos : 0 < p.steps := by cases p <;> simp [Place.steps]
  rw [State.steps, State.steps, htasks]
  omega

/-- A step leaves less to do. -/
theorem steps_go (hlt : t < s.tasks.length) : (s.go d t).steps d < s.steps d := by
  unfold State.go
  split
  · next hnone => exact absurd (List.getElem?_eq_none_iff.mp hnone) (by omega)
  · next ht =>
    split
    · exact steps_quit ht rfl (Nat.le_refl _)
    · exact steps_set ht rfl rfl (by simp [Place.steps])
  · next ht =>
    dsimp only
    split
    · exact steps_quit ht rfl (Nat.le_succ _)
    · next hcount =>
      have hweigh := weigh_set (w := Place.steps) (q := .taken s.parseCount) ht
      show 10 * (d.lstApks.length - (s.parseCount + 1)) +
        weigh Place.steps (s.tasks.set t (.taken s.parseCount)) < s.steps d
      rw [State.steps]
      simp only [Place.steps] at hweigh
      omega
  · next i ht =>
    split
    · exact steps_quit ht rfl (Nat.le_refl _)
    · split
      · exact steps_set ht rfl rfl (by simp [Place.steps])
      · exact steps_set ht rfl rfl (by simp [Place.steps])
  · next i strPath ht =>
    refine steps_set ht rfl rfl ?_
    split <;> simp [Place.steps]
  · next i strPath ht =>
    refine steps_set ht rfl rfl ?_
    split <;> simp [Place.steps]
  · next i strPath ht => exact steps_set ht rfl rfl (by simp [Place.steps])
  · next i strPath ht =>
    split
    · exact steps_set ht rfl rfl (by simp [Place.steps])
    · split
      · exact steps_set ht rfl rfl (by simp [Place.steps])
      · refine steps_set ht rfl rfl ?_
        split <;> simp [Place.steps]
  · next i strPath pkg ht => exact steps_set ht rfl rfl (by simp [Place.steps])
  · next i strPath item ht => exact steps_set ht rfl rfl (by simp [Place.steps])

theorem steps_lt {e : Event} (he : Moves s e) : (s.step d e).steps d < s.steps d := by
  cases e with
  | go t => exact steps_go he
  | throw t =>
    obtain ⟨p, hp, hheld⟩ := he
    obtain ⟨i, hi⟩ := Option.ne_none_iff_exists'.mp hheld
    have hsome : s.tasks[t]?.bind Place.held = some i := Option.bind_eq_some_iff.mpr ⟨p, hp, hi⟩
    show (s.throw t).steps d < s.steps d
    rw [State.throw, hsome]
    exact steps_quit hp rfl (Nat.le_refl _)
  | _ => exact he.elim

/-- A run is no longer than what there was to do. -/
theorem steps_run {events : List Event} {s : State Pkg}
    (hmoves : AllSteps (State.step d) Moves s events) :
    events.length + (events.foldl (State.step d) s).steps d ≤ s.steps d := by
  induction events generalizing s with
  | nil => simp
  | cons e events ih =>
    have hlt := steps_lt (d := d) hmoves.1
    have hrest := ih hmoves.2
    rw [List.foldl_cons, List.length_cons]
    omega

/-- When the tasks have ended of themselves, all indices were taken. -/
theorem State.Inv.all (h : s.Inv d) (hnil : s.tasks = []) (hexit : s.exit = false)
    (hbroken : s.done.countP (·.2 = .broken) < d.nCores) : d.lstApks.length ≤ s.parseCount := by
  by_contra hlt
  have hleft := h.left hexit (by omega)
  rw [hnil, List.length_nil] at hleft
  omega

/-- What is looked up is what is due. -/
theorem State.Inv.lookup (h : s.Inv d) {strPath : Path}
    (hcached : d.expected strPath ≠ none → ∃ item, (strPath, item) ∈ s.cachedPackages) :
    s.cachedPackages.lookup strPath = d.expected strPath := by
  cases hlookup : s.cachedPackages.lookup strPath with
  | some item => exact (h.cached _ (mem_of_lookup hlookup)).2.symm
  | none =>
    by_contra hne
    obtain ⟨item, hitem⟩ := hcached fun hnone => hne hnone.symm
    exact absurd (List.lookup_eq_none_iff.mp hlookup _ hitem) (by simp)

end Step

/-- The steps the tasks can still take are bounded, however they interleave. When the
waiting thread has seen them all end before anyone cleared the cache, and not all of them
have ended of a throw, each file of the list has been taken, and it is in the cache as the
parser makes of it, unless it was to be skipped or its task has ended of a throw. -/
theorem preparse_ends {Pkg : Type} (d : Device Pkg) (events : List Event) :
    let s := events.foldl (State.step d) (start d)
    (∀ more, AllSteps (State.step d) Moves s more → more.length ≤ s.steps d) ∧
      (s.finished = true → s.exit = false → s.done.countP (·.2 = .broken) < d.nCores →
        ∀ i strPath, d.lstApks[i]? = some strPath → ∃ f, (i, f) ∈ s.done ∧
          match f with
          | .skipped => strPath ∈ s.asked
          | .broken => True
          | _ => s.cachedPackages.lookup strPath = d.expected strPath) := by
  intro s
  have h : s.Inv d := inv_run events
  refine ⟨fun more hmoves => ?_, fun hfinished hexit hbroken i strPath hpath => ?_⟩
  · have hbound := steps_run hmoves
    omega
  have hnil := h.finished hfinished
  have hall := h.all hnil hexit hbroken
  obtain ⟨hlt, -⟩ := List.getElem?_eq_some_iff.mp hpath
  have hledger := h.ledger
  rw [Nat.min_eq_right hall, hnil, List.filterMap_nil, List.append_nil] at hledger
  obtain ⟨⟨j, f⟩, hx, rfl⟩ := List.mem_map.mp (hledger.mem_iff.mp (List.mem_range.mpr hlt))
  obtain ⟨strPath', hpath', hcorrect⟩ := h.fates _ hx
  obtain rfl : strPath = strPath' := Option.some.inj (hpath.symm.trans hpath')
  refine ⟨f, hx, ?_⟩
  cases f with
  | ignored => exact h.lookup fun hne => absurd hcorrect hne
  | skipped => exact hcorrect
  | cached => exact h.lookup fun _ => hcorrect hexit
  | broken => trivial

/-- A device with two packages in `/s/app`, one of which does not parse. -/
def twoPackages : Device Nat where
  rootDirectory := "/s".toList
  dataDirectory := "/d".toList
  listFiles dir :=
    if dir = "/s/app".toList then some ["/s/app/a".toList, "/s/app/b".toList] else none
  availableProcessors := 1
  separateProcesses := none
  flags := ⟨1, 2, 4, 8, 16, 32, 64⟩
  isApkFile _ := true
  isDirectory _ := false
  parsePackage _ strPath flags := if strPath = "/s/app/a".toList then some flags else none
  getSupportedAbi _ := none

/-- Two tasks in turn. -/
theorem preparse_ends_two :
    let events : List Event := List.replicate 4 (.go 0) ++ List.replicate 5 (.go 1) ++
      List.replicate 6 (.go 0) ++ [.terminated]
    let s := events.foldl (State.step twoPackages) (start twoPackages)
    ∃ f, (0, f) ∈ s.done ∧
      match f with
      | .skipped => "/s/app/a".toList ∈ s.asked
      | .broken => True
      | _ => s.cachedPackages.lookup "/s/app/a".toList =
          twoPackages.expected "/s/app/a".toList :=
  (preparse_ends twoPackages _).2 (by decide) (by decide) (by decide) 0 _ (by decide)

end AndroidLearn.PackageManager.Preparse
