import AndroidLearn.Conf.Glist
import AndroidLearn.Lib.Run
import Mathlib.Data.List.Nodup
import Mathlib.Data.List.Perm.Basic

/-!
# The services of `proctrl`

`proctrl.c`: the commands of `proctrl_main`, `monitor_add`, `monitor_remove`,
`monitor_find`, `run_command` and `thread_monitor_impl`. `:runservice:` and
`:runserviceone:` put an entry on the list `monitoring`; a thread goes over the list and
launches what is not running. Both sides take `data_lock`, so a request waits while the
thread is at an entry.

A step is what is done under the lock once: a command, or the thread's turn at one entry.
Children die at any time and stay zombies until they are waited for, and a number that is
free may be given to a new child. A `fork` may fail, and a child whose program cannot be
run has died. The list is that of `Conf.Glist`; memory suffices.

An entry has, besides what the program keeps, the number of its registration and the
command that made it; a child has the number of the entry it was launched for. No function
of the source reads them.

Theorem: `registry_iff`, what goes wrong in a run and when. That the keys are distinct,
that an entry is launched once, and that no live process is launched again, holds in every
run (`State.Inv`).
-/

namespace AndroidLearn.Proctrl

open Conf Run

/-! ## Processes -/

/-- A child that was not waited for yet. -/
structure Child where
  pid : Nat
  /-- the entry it was launched for -/
  owner : Nat
  zombie : Bool
  deriving DecidableEq, Repr

/-- Is there a `/proc/<pid>/maps`? A zombie has one. -/
def isProcessAlive (children : List Child) (pid : Option Nat) : Bool :=
  children.any fun c => some c.pid = pid

/-- `is_process_zombi` -/
def isProcessZombi (children : List Child) (pid : Option Nat) : Bool :=
  children.any fun c => some c.pid = pid && c.zombie

/-- The child is gone, and its number is free. -/
def waitpid (children : List Child) (pid : Option Nat) : List Child :=
  children.filter fun c => some c.pid ≠ pid

/-! ## The list -/

/-- `PROCESS` -/
structure Process where
  /-- process id, `none` for -1 -/
  pid : Option Nat
  /-- rest times to run, -1 for infinite -/
  count : Int
  /-- command line -/
  cmd : List String
  /-- service key for identification -/
  key : Option String
  /-- the number of the registration -/
  id : Nat
  /-- registered by `:runserviceone:` -/
  once : Bool
  deriving DecidableEq, Repr

/-- The list, the arguments, the thread, and the children. -/
structure State where
  monitoring : List Process
  /-- the arguments given so far -/
  cmd : List String
  /-- `thread_monitor` runs -/
  thread : Bool
  /-- the entry that the thread is at, while it holds `data_lock` -/
  lock : Option Nat
  children : List Child
  /-- the entries for which a process was started, from the last -/
  launched : List Nat
  /-- the next registration -/
  next : Nat
  deriving DecidableEq, Repr

/-- Nothing is monitored. -/
def State.init : State := ⟨[], [], false, none, [], [], 0⟩

/-- `monitor_compare` -/
def monitorCompare (key : String) (p : Process) : Bool := p.key = some key

/-- `monitor_find` -/
def monitorFind (monitoring : List Process) (key : String) : Option Nat :=
  glistFindEx (monitorCompare key) monitoring

/-- `buffer [0] ? buffer : NULL` -/
def keyOf (buffer : String) : Option String := if buffer = "" then none else some buffer

/-- `monitor_add`, when there is memory -/
def State.monitorAdd (s : State) (key : Option String) (once : Bool) : State :=
  if key.any fun key => (monitorFind s.monitoring key).isSome then s
  else
    let p : Process := ⟨none, if once then 1 else -1, s.cmd, key, s.next, once⟩
    { s with monitoring := s.monitoring ++ [p], next := s.next + 1 }

/-- `monitor_remove`: the process is killed and waited for. -/
def State.monitorRemove (s : State) (key : String) : State :=
  match monitorFind s.monitoring key with
  | none => s
  | some i =>
    match s.monitoring[i]? with
    | none => s
    | some p =>
      let children :=
        if isProcessAlive s.children p.pid then waitpid s.children p.pid else s.children
      { s with children := children, monitoring := glistDelete s.monitoring i }

/-! ## The thread -/

/-- `run_command`: `fork` gives a number that is not in use. -/
def runCommand (children : List Child) (fork : Option Nat) : Option Nat :=
  fork.filter fun pid => !isProcessAlive children (some pid)

/-- A process that is started is a child, and is known by its entry. -/
def State.started (s : State) (p : Process) (pid : Option Nat) : State :=
  match pid with
  | none => s
  | some pid =>
    { s with
      children := ⟨pid, p.id, false⟩ :: s.children
      launched := p.id :: s.launched }

/-- `if (p->count > 0) p->count --` -/
def countDown (count : Int) : Int := if 0 < count then count - 1 else count

/-- A zombie is waited for. -/
def State.reap (s : State) (i : Nat) (p : Process) : State × Process :=
  if isProcessZombi s.children p.pid then
    let p' := { p with pid := none }
    ({ s with
        children := waitpid s.children p.pid
        monitoring := s.monitoring.set i p' }, p')
  else (s, p)

/-- The loop of `thread_monitor_impl` at one entry. -/
def State.monitorEntry (s : State) (i : Nat) (p : Process) (fork : Option Nat) : State :=
  let (s, p) := s.reap i p
  if isProcessAlive s.children p.pid then s
  else if p.count = 0 then { s with monitoring := s.monitoring.set i { p with pid := none } }
  else
    let pid := runCommand s.children fork
    let s := s.started p pid
    { s with
      monitoring := s.monitoring.set i { p with pid := pid, count := countDown p.count } }

/-- What the thread does next; `fork` is the answer if it forks. -/
def State.monitor (s : State) (fork : Option Nat) : State :=
  if !s.thread then s
  else
    match s.lock with
    | none => { s with lock := some 0 }
    | some i =>
      match s.monitoring[i]? with
      -- the end of the list: the thread sleeps
      | none => { s with lock := none }
      | some p => { s.monitorEntry i p fork with lock := some (i + 1) }

/-! ## The requests -/

/-- A command, a turn of the monitor, or the end of a child. -/
inductive Event
  /-- `:addarg:` -/
  | addArg (arg : String)
  /-- `:runserviceone:` if `once`, and `:runservice:` -/
  | runService (once : Bool) (key : String)
  | stopService (key : String)
  | checkService (key : String)
  /-- one step of `thread_monitor_impl` -/
  | monitor (fork : Option Nat)
  /-- a child dies -/
  | death (pid : Nat)
  deriving DecidableEq, Repr

/-- The answer to `:checkservice:` -/
def State.checkService (s : State) (key : String) : Int :=
  if key = "" then -1 else if (monitorFind s.monitoring key).isSome then 1 else 0

/-- The request needs the lock. -/
def State.waits (s : State) : Event → Bool
  | .runService _ _ => !s.cmd.isEmpty && s.lock.isSome
  | .stopService key | .checkService key => key != "" && s.lock.isSome
  | _ => false

/-- A request that waits for the lock is still to be done. -/
def State.step (s : State) (e : Event) : State :=
  if s.waits e then s
  else
    match e with
    | .addArg arg => { s with cmd := if arg = "" then [] else s.cmd ++ [arg] }
    | .runService once key =>
      if s.cmd.isEmpty then s
      -- `ret` does not depend on what `monitor_add` returns
      else { s.monitorAdd (keyOf key) once with cmd := [], thread := true }
    | .stopService key =>
      if key = "" then s
      else
        let s := s.monitorRemove key
        if s.monitoring.isEmpty then { s with thread := false } else s
    | .checkService _ => s
    | .monitor fork => s.monitor fork
    | .death pid =>
      { s with
        children := s.children.map fun c => if c.pid = pid then { c with zombie := true } else c }

/-- The answer of a request that need not wait: `ret`. -/
def State.answer (s : State) (e : Event) : Option Int :=
  if s.waits e then none
  else
    match e with
    | .addArg _ => some 0
    | .runService _ _ => if s.cmd.isEmpty then some (-1) else some 0
    | .stopService key => if key = "" then some (-1) else some 0
    | .checkService key => some (s.checkService key)
    | .monitor _ | .death _ => none

/-! ## The property -/

/-- No process of the entry is running. -/
def State.dead (s : State) (p : Process) : Prop := ∀ c ∈ s.children, c.owner = p.id → c.zombie

instance (s : State) (p : Process) : Decidable (s.dead p) :=
  inferInstanceAs (Decidable (∀ c ∈ s.children, _))

/-- A process was started for the entry, and is not running any more. -/
def State.died (s : State) (p : Process) : Prop := p.id ∈ s.launched ∧ s.dead p

instance (s : State) (p : Process) : Decidable (s.died p) := inferInstanceAs (Decidable (_ ∧ _))

/-- The event starts a process for the entry. -/
def State.launches (s : State) (e : Event) (p : Process) : Prop :=
  (s.step e).launched = p.id :: s.launched

/-- The thread is at the entry. -/
def State.handles (s : State) (e : Event) (i : Nat) (p : Process) : Prop :=
  (∃ fork, e = .monitor fork) ∧ s.thread ∧ s.lock = some i ∧ s.monitoring[i]? = some p

/-- The property at one event. -/
structure Registry (s : State) (e : Event) : Prop where
  distinct : ((s.step e).monitoring.filterMap Process.key).Nodup
  answered : ∀ once key, e = .runService once key →
    (s.answer e = some 0 ↔
      ∃ p, p.key = keyOf key ∧ p.once = once ∧ (s.step e).monitoring = s.monitoring ++ [p])
  launchedOnce : ∀ p ∈ s.monitoring, p.once → s.launches e p → p.id ∉ s.launched
  /-- The entry is removed when the thread finds the process dead. -/
  removed : ∀ i p, s.handles e i p → p.once → s.died p →
    (s.step e).monitoring = s.monitoring.eraseIdx i ∧
      ∀ key, p.key = some key → (s.step e).checkService key = 0
  relaunched : ∀ p ∈ s.monitoring, s.launches e p → s.dead p

/-- The condition on one event. -/
structure Registrable (s : State) (e : Event) : Prop where
  /-- a service is run under a key that is not registered -/
  unused : ∀ once key, e = .runService once key → ¬ s.waits e → s.cmd ≠ [] →
    ∀ k, keyOf key = some k → (monitorFind s.monitoring k).isNone
  /-- the thread finds no process dead that was to run once -/
  running : ∀ i p, s.handles e i p → p.once → ¬ s.died p

/-! ## The invariant -/

/-- What holds of the entries, the children and the processes started so far, in every
state; the order of the entries does not matter. -/
structure Inv (monitoring : List Process) (children : List Child) (launched : List Nat)
    (next : Nat) : Prop where
  keys : (monitoring.filterMap Process.key).Nodup
  ids : (monitoring.map Process.id).Nodup
  ids_lt : ∀ p ∈ monitoring, p.id < next
  launched_lt : ∀ n ∈ launched, n < next
  owner_lt : ∀ c ∈ children, c.owner < next
  pids : (children.map Child.pid).Nodup
  /-- the process of an entry is a child of the entry's -/
  child : ∀ p ∈ monitoring, ∀ pid, p.pid = some pid → ∃ c ∈ children, c.pid = pid ∧ c.owner = p.id
  /-- and the only one -/
  only : ∀ p ∈ monitoring, ∀ c ∈ children, c.owner = p.id → p.pid = some c.pid
  /-- what is to run once has not run, or is not to run again -/
  count : ∀ p ∈ monitoring, p.once → p.count = 0 ∨ p.count = 1 ∧ p.id ∉ launched

/-- The invariant of the parts. -/
def State.Inv (s : State) : Prop := Proctrl.Inv s.monitoring s.children s.launched s.next

section Inv

variable {l l' : List Process} {children : List Child} {launched : List Nat} {next : Nat}
  {p : Process}

/-- The order of the list does not matter. -/
theorem Inv.perm (h : Inv l children launched next) (hperm : l.Perm l') :
    Inv l' children launched next where
  keys := (hperm.filterMap _).nodup_iff.mp h.keys
  ids := (hperm.map _).nodup_iff.mp h.ids
  ids_lt p hp := h.ids_lt p (hperm.mem_iff.mpr hp)
  launched_lt := h.launched_lt
  owner_lt := h.owner_lt
  pids := h.pids
  child p hp := h.child p (hperm.mem_iff.mpr hp)
  only p hp := h.only p (hperm.mem_iff.mpr hp)
  count p hp := h.count p (hperm.mem_iff.mpr hp)

theorem Inv.eq_of_pid (h : Inv l children launched next) {c c' : Child} (hc : c ∈ children)
    (hc' : c' ∈ children) (hpid : c.pid = c'.pid) : c = c' :=
  List.inj_on_of_nodup_map h.pids hc hc' hpid

theorem mem_waitpid {pid : Option Nat} {c : Child} :
    c ∈ waitpid children pid ↔ c ∈ children ∧ some c.pid ≠ pid := by
  simp [waitpid]

/-- A new entry. -/
theorem Inv.add (h : Inv l children launched next) (hkey : ∀ k, p.key = some k →
    k ∉ l.filterMap Process.key) (hpid : p.pid = none) (hid : p.id = next)
    (hcount : p.once → p.count = 1) : Inv (p :: l) children launched (next + 1) where
  keys := by
    cases hp : p.key with
    | none => rw [List.filterMap_cons_none hp]; exact h.keys
    | some k => rw [List.filterMap_cons_some hp]; exact List.nodup_cons.mpr ⟨hkey k hp, h.keys⟩
  ids := by
    refine List.nodup_cons.mpr ⟨fun hmem => ?_, h.ids⟩
    obtain ⟨q, hq, heq⟩ := List.mem_map.mp hmem
    have hlt := h.ids_lt q hq
    omega
  ids_lt q hq := by
    rcases List.mem_cons.mp hq with rfl | hq
    · omega
    · exact Nat.lt_succ_of_lt (h.ids_lt q hq)
  launched_lt n hn := Nat.lt_succ_of_lt (h.launched_lt n hn)
  owner_lt c hc := Nat.lt_succ_of_lt (h.owner_lt c hc)
  pids := h.pids
  child q hq := by
    rcases List.mem_cons.mp hq with rfl | hq
    · simp [hpid]
    · exact h.child q hq
  only q hq c hc howner := by
    rcases List.mem_cons.mp hq with rfl | hq
    · have hlt := h.owner_lt c hc
      omega
    · exact h.only q hq c hc howner
  count q hq honce := by
    rcases List.mem_cons.mp hq with rfl | hq
    · refine .inr ⟨hcount honce, fun hmem => ?_⟩
      have hlt := h.launched_lt _ hmem
      omega
    · exact h.count q hq honce

/-- No other entry has the same number. -/
theorem Inv.ne_id (h : Inv (p :: l) children launched next) {q : Process} (hq : q ∈ l) :
    q.id ≠ p.id := by
  intro heq
  exact (List.nodup_cons.mp h.ids).1 (heq ▸ List.mem_map_of_mem hq)

/-- An entry goes, and its process has been waited for. -/
theorem Inv.remove (h : Inv (p :: l) children launched next) :
    Inv l (waitpid children p.pid) launched next where
  keys := h.keys.sublist ((List.sublist_cons_self p l).filterMap _)
  ids := (List.nodup_cons.mp h.ids).2
  ids_lt q hq := h.ids_lt q (List.mem_cons_of_mem _ hq)
  launched_lt := h.launched_lt
  owner_lt c hc := h.owner_lt c (mem_waitpid.mp hc).1
  pids := h.pids.sublist (List.filter_sublist.map _)
  child q hq pid hpid := by
    obtain ⟨c, hc, hcpid, howner⟩ := h.child q (List.mem_cons_of_mem _ hq) pid hpid
    refine ⟨c, mem_waitpid.mpr ⟨hc, fun heq => ?_⟩, hcpid, howner⟩
    -- otherwise the child would belong to both
    obtain ⟨c', hc', hcpid', howner'⟩ := h.child p List.mem_cons_self c.pid heq.symm
    rw [h.eq_of_pid hc' hc hcpid'] at howner'
    exact h.ne_id hq (howner.symm.trans howner')
  only q hq c hc := h.only q (List.mem_cons_of_mem _ hq) c (mem_waitpid.mp hc).1
  count q hq := h.count q (List.mem_cons_of_mem _ hq)

/-- An entry whose process is gone stays. -/
theorem Inv.idle (h : Inv (p :: l) children launched next) (p' : Process) (hkey : p'.key = p.key)
    (hid : p'.id = p.id) (hpid : p'.pid = none)
    (hcount : p'.once → p'.count = 0 ∨ p'.count = 1 ∧ p'.id ∉ launched) :
    Inv (p' :: l) (waitpid children p.pid) launched next where
  keys := by
    have hkeys := h.keys
    rw [List.filterMap_cons] at hkeys ⊢
    rwa [hkey]
  ids := by
    have hids := h.ids
    rw [List.map_cons] at hids ⊢
    rwa [hid]
  ids_lt q hq := by
    rcases List.mem_cons.mp hq with rfl | hq
    · rw [hid]
      exact h.ids_lt p List.mem_cons_self
    · exact h.remove.ids_lt q hq
  launched_lt := h.launched_lt
  owner_lt := h.remove.owner_lt
  pids := h.remove.pids
  child q hq := by
    rcases List.mem_cons.mp hq with rfl | hq
    · simp [hpid]
    · exact h.remove.child q hq
  only q hq c hc howner := by
    rcases List.mem_cons.mp hq with rfl | hq
    · have hp := h.only p List.mem_cons_self c (mem_waitpid.mp hc).1 (howner.trans hid)
      exact absurd hp.symm (mem_waitpid.mp hc).2
    · exact h.remove.only q hq c hc howner
  count q hq honce := by
    rcases List.mem_cons.mp hq with rfl | hq
    · exact hcount honce
    · exact h.remove.count q hq honce

/-- A process is started for an entry that has none. -/
theorem Inv.start (h : Inv (p :: l) children launched next) (hp : p.pid = none) {pid : Nat}
    (hfree : isProcessAlive children (some pid) = false) (hcount : p.once → p.count = 0) :
    Inv ({ p with pid := some pid } :: l) (⟨pid, p.id, false⟩ :: children) (p.id :: launched)
      next := by
  have hnone : ∀ c ∈ children, c.pid ≠ pid := by
    simpa [isProcessAlive] using hfree
  exact {
    keys := h.keys
    ids := h.ids
    ids_lt := by
      intro q hq
      rcases List.mem_cons.mp hq with rfl | hq
      · exact h.ids_lt p List.mem_cons_self
      · exact h.ids_lt q (List.mem_cons_of_mem _ hq)
    launched_lt := by
      intro n hn
      rcases List.mem_cons.mp hn with rfl | hn
      · exact h.ids_lt p List.mem_cons_self
      · exact h.launched_lt n hn
    owner_lt := by
      intro c hc
      rcases List.mem_cons.mp hc with rfl | hc
      · exact h.ids_lt p List.mem_cons_self
      · exact h.owner_lt c hc
    pids := by
      refine List.nodup_cons.mpr ⟨fun hmem => ?_, h.pids⟩
      obtain ⟨c, hc, heq⟩ := List.mem_map.mp hmem
      exact hnone c hc heq
    child := by
      intro q hq n hn
      rcases List.mem_cons.mp hq with rfl | hq
      · exact ⟨_, List.mem_cons_self, Option.some.inj hn, rfl⟩
      · obtain ⟨c, hc, hcn, howner⟩ := h.child q (List.mem_cons_of_mem _ hq) n hn
        exact ⟨c, List.mem_cons_of_mem _ hc, hcn, howner⟩
    only := by
      intro q hq c hc howner
      rcases List.mem_cons.mp hq with rfl | hq <;> rcases List.mem_cons.mp hc with rfl | hc
      · rfl
      · have hold := h.only p List.mem_cons_self c hc howner
        rw [hp] at hold
        exact nomatch hold
      · exact absurd howner.symm (h.ne_id hq)
      · exact h.only q (List.mem_cons_of_mem _ hq) c hc howner
    count := by
      intro q hq honce
      rcases List.mem_cons.mp hq with rfl | hq
      · exact .inl (hcount honce)
      · refine (h.count q (List.mem_cons_of_mem _ hq) honce).imp_right fun ⟨hone, hnot⟩ => ⟨hone, ?_⟩
        exact List.not_mem_cons_of_ne_of_not_mem (h.ne_id hq) hnot }

/-- A child dies. -/
theorem Inv.death (h : Inv l children launched next) (pid : Nat) :
    Inv l (children.map fun c => if c.pid = pid then { c with zombie := true } else c) launched
      next := by
  have hmem : ∀ c ∈ children.map fun c => if c.pid = pid then { c with zombie := true } else c,
      ∃ c' ∈ children, c'.pid = c.pid ∧ c'.owner = c.owner := by
    intro c hc
    obtain ⟨c', hc', rfl⟩ := List.mem_map.mp hc
    refine ⟨c', hc', ?_⟩
    split <;> exact ⟨rfl, rfl⟩
  exact { h with
    owner_lt := by
      intro c hc
      obtain ⟨c', hc', -, howner⟩ := hmem c hc
      rw [← howner]
      exact h.owner_lt c' hc'
    pids := by
      have hpids : (children.map fun c => if c.pid = pid then { c with zombie := true } else c).map
          Child.pid = children.map Child.pid := by
        rw [List.map_map]
        refine List.map_congr_left fun c _ => ?_
        dsimp only [Function.comp_apply]
        split <;> rfl
      rw [hpids]
      exact h.pids
    child := by
      intro q hq n hn
      obtain ⟨c, hc, hcn, howner⟩ := h.child q hq n hn
      refine ⟨_, List.mem_map_of_mem hc, ?_⟩
      split <;> exact ⟨hcn, howner⟩
    only := by
      intro q hq c hc howner
      obtain ⟨c', hc', hpid, howner'⟩ := hmem c hc
      rw [← hpid]
      exact h.only q hq c' hc' (howner'.trans howner) }

end Inv

/-! ## The thread at one entry -/

section Monitor

variable {s : State} {i : Nat} {p : Process} {fork : Option Nat}

theorem isProcessAlive_iff {children : List Child} {pid : Option Nat} :
    isProcessAlive children pid = true ↔ ∃ c ∈ children, some c.pid = pid := by
  simp [isProcessAlive]

theorem isProcessZombi_iff {children : List Child} {pid : Option Nat} :
    isProcessZombi children pid = true ↔ ∃ c ∈ children, some c.pid = pid ∧ c.zombie = true := by
  simp [isProcessZombi]

/-- Waiting for a child that is gone changes nothing. -/
theorem waitpid_of_not_alive {children : List Child} {pid : Option Nat}
    (h : isProcessAlive children pid = false) : waitpid children pid = children := by
  refine List.filter_eq_self.mpr fun c hc => ?_
  have hne : some c.pid ≠ pid := fun heq =>
    Bool.false_ne_true (h.symm.trans (isProcessAlive_iff.mpr ⟨c, hc, heq⟩))
  simpa using hne

/-- The process has been waited for, and another is started if it is due. -/
def State.renew (s : State) (i : Nat) (p : Process) (pid : Option Nat) (count : Int) : State :=
  { ({ s with children := waitpid s.children p.pid } : State).started p pid with
    monitoring := s.monitoring.set i { p with pid := pid, count := count } }

/-- What the loop does at one entry: nothing if its process is alive; else nothing is left of
that, and a new one is started if it is to run again. -/
theorem monitorEntry_cases (i : Nat) (fork : Option Nat) (h : s.Inv) (hp : p ∈ s.monitoring) :
    s.monitorEntry i p fork = s ∨
    s.dead p ∧ p.count = 0 ∧ s.monitorEntry i p fork = s.renew i p none 0 ∨
    s.dead p ∧ p.count ≠ 0 ∧ s.monitorEntry i p fork =
      s.renew i p (runCommand (waitpid s.children p.pid) fork) (countDown p.count) := by
  have hnull : ∀ children : List Child, isProcessAlive children none = false := by
    simp [isProcessAlive]
  cases hzombie : isProcessZombi s.children p.pid with
  | true =>
    obtain ⟨z, hz, hzpid, hzz⟩ := isProcessZombi_iff.mp hzombie
    -- the only child of the entry is the zombie
    have hdead : s.dead p := by
      intro c hc howner
      have hpid := hzpid.trans (h.only p hp c hc howner)
      rw [← h.eq_of_pid hz hc (Option.some.inj hpid)]
      exact hzz
    by_cases hcount : p.count = 0
    · refine .inr (.inl ⟨hdead, hcount, ?_⟩)
      simp [State.monitorEntry, State.reap, hzombie, hnull, hcount, State.renew, State.started]
    · refine .inr (.inr ⟨hdead, hcount, ?_⟩)
      simp only [State.monitorEntry, State.reap, hzombie, hnull, if_true, if_neg hcount,
        Bool.false_eq_true, if_false]
      cases runCommand (waitpid s.children p.pid) fork <;> simp [State.started, State.renew]
  | false =>
    cases halive : isProcessAlive s.children p.pid with
    | true =>
      left
      simp [State.monitorEntry, State.reap, hzombie, halive]
    | false =>
      -- a child of the entry would have its number, and be found
      have hdead : s.dead p := by
        intro c hc howner
        have halive' := isProcessAlive_iff.mpr ⟨c, hc, (h.only p hp c hc howner).symm⟩
        exact absurd (halive.symm.trans halive') Bool.false_ne_true
      by_cases hcount : p.count = 0
      · refine .inr (.inl ⟨hdead, hcount, ?_⟩)
        simp [State.monitorEntry, State.reap, hzombie, halive, hcount, State.renew, State.started,
          waitpid_of_not_alive halive]
      · refine .inr (.inr ⟨hdead, hcount, ?_⟩)
        simp only [State.monitorEntry, State.reap, hzombie, halive, if_neg hcount,
          Bool.false_eq_true, if_false, waitpid_of_not_alive halive, State.renew]
        cases runCommand s.children fork <;> simp [State.started]

/-- An entry gets a new child, or none. -/
theorem State.Inv.renew (h : s.Inv) (hi : s.monitoring[i]? = some p) {pid : Option Nat} {count : Int}
    (hfree : ∀ n, pid = some n → isProcessAlive (waitpid s.children p.pid) (some n) = false)
    (hcount : p.once → count = 0) : (s.renew i p pid count).Inv := by
  obtain ⟨hlt, rfl⟩ := List.getElem?_eq_some_iff.mp hi
  -- the entry goes to the front and back, as the invariant does not see the order
  have hold : Proctrl.Inv (s.monitoring[i] :: s.monitoring.eraseIdx i) s.children s.launched
      s.next := h.perm (List.getElem_cons_eraseIdx_perm hlt).symm
  have hidle := hold.idle { s.monitoring[i] with pid := none, count := count } rfl rfl rfl
    fun honce => .inl (hcount honce)
  cases pid with
  | none => exact hidle.perm (List.set_perm_cons_eraseIdx hlt _).symm
  | some pid =>
    exact (hidle.start rfl (hfree pid rfl) hcount).perm (List.set_perm_cons_eraseIdx hlt _).symm

/-- A new child has a number that is free. -/
theorem runCommand_free {children : List Child} {n : Nat} (h : runCommand children fork = some n) :
    isProcessAlive children (some n) = false := by
  have hfree := (Option.filter_eq_some_iff.mp h).2
  simpa using hfree

/-- A turn over an entry keeps the invariant. -/
theorem State.Inv.monitorEntry (h : s.Inv) (hi : s.monitoring[i]? = some p) :
    (s.monitorEntry i p fork).Inv := by
  have hp := List.mem_of_getElem? hi
  rcases monitorEntry_cases i fork h hp with hsame | ⟨-, -, heq⟩ | ⟨-, hcount, heq⟩
  · rw [hsame]
    exact h
  · rw [heq]
    exact h.renew hi (by simp) fun _ => rfl
  · rw [heq]
    refine h.renew hi (fun _ => runCommand_free) fun honce => ?_
    -- a count of 1 goes down to 0
    have hone := ((h.count p hp honce).resolve_left hcount).1
    rw [hone]
    rfl

end Monitor

/-! ## One event -/

section Step

variable {s : State} {e : Event}

/-- An entry is found by its key. -/
theorem monitorFind_isSome {monitoring : List Process} {key : String} :
    (monitorFind monitoring key).isSome ↔ key ∈ monitoring.filterMap Process.key := by
  rw [monitorFind, glistFindEx_isSome]
  simp [monitorCompare, List.mem_filterMap]

/-- An entry may be added. -/
theorem State.Inv.monitorAdd (h : s.Inv) (key : Option String) (once : Bool) :
    (s.monitorAdd key once).Inv := by
  unfold State.monitorAdd
  split
  next => exact h
  next hnew =>
    refine Inv.perm (Inv.add h (fun k hk hmem => hnew ?_) rfl rfl fun honce => if_pos honce)
      (List.perm_append_singleton _ _).symm
    dsimp only at hk
    rw [hk]
    exact monitorFind_isSome.mpr hmem

/-- It may be removed. -/
theorem State.Inv.monitorRemove (h : s.Inv) (key : String) : (s.monitorRemove key).Inv := by
  unfold State.monitorRemove
  split
  next => exact h
  next i hi =>
    split
    next => exact h
    next p hp =>
      obtain ⟨hlt, rfl⟩ := List.getElem?_eq_some_iff.mp hp
      have hchildren : (if isProcessAlive s.children s.monitoring[i].pid then
          waitpid s.children s.monitoring[i].pid else s.children) =
          waitpid s.children s.monitoring[i].pid := by
        split
        next => rfl
        next halive => exact (waitpid_of_not_alive (Bool.not_eq_true _ ▸ halive)).symm
      unfold State.Inv
      dsimp only
      rw [hchildren]
      exact (h.perm (List.getElem_cons_eraseIdx_perm hlt).symm).remove

/-- A round of the monitor keeps the invariant. -/
theorem State.Inv.monitor (h : s.Inv) (fork : Option Nat) : (s.monitor fork).Inv := by
  unfold State.monitor
  split
  next => exact h
  next =>
    split
    next => exact h
    next i hi =>
      split
      next => exact h
      next p hp => exact h.monitorEntry hp

/-- Every event keeps the invariant. -/
theorem State.Inv.step (h : s.Inv) (e : Event) : (s.step e).Inv := by
  unfold State.step
  split
  next => exact h
  next =>
    cases e with
    | addArg arg => exact h
    | runService once key =>
      dsimp only
      split
      next => exact h
      next => exact h.monitorAdd (keyOf key) once
    | stopService key =>
      dsimp only
      split
      next => exact h
      next =>
        split
        next => exact h.monitorRemove key
        next => exact h.monitorRemove key
    | checkService key => exact h
    | monitor fork => exact h.monitor fork
    | death pid => exact Inv.death h pid

/-- Whatever is launched was dead, and was to run. -/
theorem step_launched (h : s.Inv) (e : Event) : (s.step e).launched = s.launched ∨
    ∃ q ∈ s.monitoring, s.dead q ∧ q.count ≠ 0 ∧ (s.step e).launched = q.id :: s.launched := by
  unfold State.step
  split
  next => exact .inl rfl
  next =>
    cases e with
    | addArg arg => exact .inl rfl
    | runService once key =>
      left
      dsimp only
      split
      next => rfl
      next =>
        dsimp only [State.monitorAdd]
        split <;> rfl
    | stopService key =>
      left
      have hremove : (s.monitorRemove key).launched = s.launched := by
        unfold State.monitorRemove
        split
        next => rfl
        next => split <;> rfl
      dsimp only
      split
      next => rfl
      next =>
        split
        next => exact hremove
        next => exact hremove
    | checkService key => exact .inl rfl
    | death pid => exact .inl rfl
    | monitor fork =>
      dsimp only
      unfold State.monitor
      split
      next => exact .inl rfl
      next =>
        split
        next => exact .inl rfl
        next i hi =>
          split
          next => exact .inl rfl
          next p hp =>
            have hmem := List.mem_of_getElem? hp
            rcases monitorEntry_cases i fork h hmem with hsame | ⟨-, -, heq⟩ |
              ⟨hdead, hcount, heq⟩
            · left
              rw [hsame]
            · left
              rw [heq]
              rfl
            · rw [heq]
              cases hpid : runCommand (waitpid s.children p.pid) fork with
              | none => exact .inl rfl
              | some pid => exact .inr ⟨p, hmem, hdead, hcount, rfl⟩

/-- What is launched was dead, and still counted. -/
theorem State.Inv.launches (h : s.Inv) {p : Process} (hp : p ∈ s.monitoring)
    (hlaunch : s.launches e p) : s.dead p ∧ p.count ≠ 0 := by
  unfold State.launches at hlaunch
  rcases step_launched h e with hsame | ⟨q, hq, hdead, hcount, heq⟩
  · exact absurd (hsame.symm.trans hlaunch).symm (List.cons_ne_self _ _)
  · have hid : p.id = q.id := (List.cons.inj (hlaunch.symm.trans heq)).1
    rw [List.inj_on_of_nodup_map h.ids hp hq hid]
    exact ⟨hdead, hcount⟩

/-- When a command is answered as it should be. -/
theorem answered_iff (once : Bool) (key : String) :
    (s.answer (.runService once key) = some 0 ↔ ∃ p, p.key = keyOf key ∧ p.once = once ∧
      (s.step (.runService once key)).monitoring = s.monitoring ++ [p]) ↔
    (¬ s.waits (.runService once key) → s.cmd ≠ [] →
      ∀ k, keyOf key = some k → (monitorFind s.monitoring k).isNone) := by
  have hgrows : ∀ p, ¬ s.monitoring = s.monitoring ++ [p] := by simp
  unfold State.answer State.step
  cases hwaits : s.waits (.runService once key) with
  | true => simp
  | false =>
    cases hcmd : s.cmd with
    | nil => simp
    | cons arg cmd =>
      simp only [Bool.false_eq_true, if_false, List.isEmpty_cons, not_false_eq_true, ne_eq,
        reduceCtorEq, forall_const, true_iff]
      cases hk : keyOf key with
      | none => exact ⟨fun _ _ => nofun, fun _ => ⟨_, rfl, rfl, rfl⟩⟩
      | some k =>
        unfold State.monitorAdd
        simp only [Option.any_some, Option.some.injEq, forall_eq']
        cases hfind : monitorFind s.monitoring k with
        | none => exact ⟨fun _ => rfl, fun _ => ⟨_, rfl, rfl, rfl⟩⟩
        | some j => exact ⟨fun ⟨p, _, _, hp⟩ => absurd hp (hgrows p), nofun⟩

/-- The thread removes no entry. -/
theorem State.Inv.handles (h : s.Inv) {i : Nat} {p : Process} (hp : s.handles e i p) :
    (s.step e).monitoring.length = s.monitoring.length := by
  obtain ⟨⟨fork, rfl⟩, hthread, hlock, hi⟩ := hp
  have hstep : s.step (.monitor fork) = { s.monitorEntry i p fork with lock := some (i + 1) } := by
    simp [State.step, State.waits, State.monitor, hthread, hlock, hi]
  rw [hstep]
  rcases monitorEntry_cases i fork h (List.mem_of_getElem? hi) with
    heq | ⟨-, -, heq⟩ | ⟨-, -, heq⟩ <;> rw [heq]
  · exact List.length_set
  · exact List.length_set

/-- One step keeps the contract exactly under the condition. -/
theorem registry_iff_registrable (h : s.Inv) (e : Event) : Registry s e ↔ Registrable s e := by
  refine ⟨fun hr => ⟨?_, fun i p hp honce hdied => ?_⟩, fun hc =>
    ⟨(h.step e).keys, ?_, fun p hp honce hlaunch => ?_, fun i p hp honce hdied => ?_,
      fun p hp hlaunch => (h.launches hp hlaunch).1⟩⟩
  · rintro once key rfl
    exact (answered_iff once key).mp (hr.answered once key rfl)
  · -- an entry less would be one that the thread has removed
    have hlength := h.handles hp
    rw [(hr.removed i p hp honce hdied).1,
      List.length_eraseIdx_of_lt (List.getElem?_eq_some_iff.mp hp.2.2.2).1] at hlength
    have hlt := (List.getElem?_eq_some_iff.mp hp.2.2.2).1
    omega
  · rintro once key rfl
    exact (answered_iff once key).mpr (hc.unused once key rfl)
  · exact ((h.count p hp honce).resolve_left (h.launches hp hlaunch).2).2
  · exact absurd hdied (hc.running i p hp honce)

end Step

/-! ## Every run -/

theorem inv_init : State.init.Inv :=
  ⟨.nil, .nil, by simp [State.init], by simp [State.init], by simp [State.init], .nil,
    by simp [State.init], by simp [State.init], by simp [State.init]⟩

/-- The registry is right at every event of a run exactly when no service is run under a
key that is registered, and the thread finds no process dead that was to run once. -/
theorem registry_iff (events : List Event) :
    AllSteps State.step Registry State.init events ↔
      AllSteps State.step Registrable State.init events :=
  AllSteps.congr (I := State.Inv)
    (fun _ e h => ⟨registry_iff_registrable h e, fun _ => h.step e⟩) inv_init

/-- When the thread comes back to an entry that was to run once, it leaves it there. -/
theorem registry_fails_died :
    ¬ AllSteps State.step Registry State.init
      [.addArg "sleep", .runService true "a", .monitor none, .monitor (some 7), .monitor none,
        .death 7, .monitor none, .monitor none] := by
  intro h
  obtain ⟨-, -, -, -, -, -, -, hlast, -⟩ := h
  have hremoved := hlast.removed 0 _ ⟨⟨none, rfl⟩, rfl, rfl, rfl⟩ rfl (by decide)
  revert hremoved
  decide

end AndroidLearn.Proctrl
