import AndroidLearn.Lib.Run

/-!
# Launching a service

`run_service`, `check_service` and `thread_main` of `main.c`, `init_server` and `get_port`
of `server.c`, and the table of `table.c`. The daemon has a table of services.
`run_service` opens the socket of a service, asks for its port and creates its thread, and
writes what it has into the entry on the way; `thread_main` takes it back when the service
returns. Whether a service is running is read off the socket of its entry alone.

Which of the calls fails is given, and the numbers that the others return: a socket is
never negative, and a port is what the system gives. A run is any list of launches and
returns, each done before the next; what a service does in between is left out.

So a launch that fails behind the socket leaves an entry that looks like a running
service.

Theorem: `launches_iff` says so of all runs of the daemon: no launch leaves a trace
exactly if each succeeds or fails in front of everything that is written.
-/

namespace AndroidLearn.Zflserviced

open AndroidLearn.Run

/-- `SERVICE`, with the threads that are serving it. -/
structure Service where
  name : List Char
  noSocket : Bool
  sockfd : Int
  port : Int
  threads : Nat

/-- What the calls of a launch come to. -/
structure Attempt where
  /-- the descriptor of `init_server (0)` -/
  socket : Option Nat
  /-- the port in the answer of `getsockname` -/
  port : Option UInt16
  /-- `pthread_create` returns 0 -/
  created : Bool

/-- `init_server` -/
def Attempt.initServer (a : Attempt) : Int :=
  match a.socket with
  | none => -1
  | some sockfd => sockfd

/-- `get_port` -/
def Attempt.getPort (a : Attempt) (sockfd : Int) : Int :=
  if sockfd < 0 then -1
  else
    match a.port with
    | none => -1
    | some port => port.toNat

/-- What `run_service` does with the service that it was called for. -/
def Service.run (a : Attempt) (ps : Service) : Int × Service :=
  if ps.sockfd ≠ -1 then (ps.port, ps)
  else
    let (ret, ps) :=
      if ps.noSocket then ((0 : Int), { ps with sockfd := 0 })
      else
        let ps := { ps with sockfd := a.initServer }
        let ret := a.getPort ps.sockfd
        if 0 ≤ ret then (ret, { ps with port := ret }) else (ret, ps)
    if ret < 0 then (ret, ps)
    else if a.created then (ret, { ps with threads := ps.threads + 1 })
    else (-1, ps)

/-- The services. -/
abbrev Table := List Service

/-- `run_service`. The loop has no end: a name that is not in the table is looked for behind
it. -/
def runService (name : List Char) (a : Attempt) : Table → Option (Int × Table)
  | [] => none
  | ps :: table =>
    if name = ps.name then some ((ps.run a).1, (ps.run a).2 :: table)
    else (runService name a table).map fun (ret, table) => (ret, ps :: table)

/-- `check_service`: a port, or 0, or -1. -/
def checkService (name : List Char) : Table → Int
  | [] => -1
  | ps :: table =>
    if ps.name = [] then -1
    else if name = ps.name then (if ps.sockfd ≠ -1 then ps.port else 0)
    else checkService name table

/-- The end of `thread_main`. -/
def Service.endOfThread (ps : Service) : Service :=
  if 0 < ps.threads then { ps with sockfd := -1, port := -1, threads := ps.threads - 1 } else ps

/-- A launch, or the end of a thread. -/
inductive Event
  | launch (name : List Char) (a : Attempt)
  /-- the thread of an entry comes to its end -/
  | finish (i : Nat)

/-- What an event does to the table. -/
def exec (table : Table) : Event → Table
  | .launch name a => ((runService name a table).map Prod.snd).getD table
  | .finish i => table.modify i Service.endOfThread

/-- The table as it is declared: the names, and which of them have no socket. -/
def declared (entries : List (List Char × Bool)) : Table :=
  entries.map fun (name, noSocket) => ⟨name, noSocket, -1, -1, 0⟩

/-! ## What a launch should leave -/

/-- The first entry of a name. -/
def lookup (name : List Char) (table : Table) : Option Service :=
  table.find? fun ps => decide (name = ps.name)

/-- No call of the launch fails. -/
def Succeeds (a : Attempt) (ps : Service) : Prop :=
  (ps.noSocket = true ∨ a.socket.isSome ∧ a.port.isSome) ∧ a.created = true

/-- The service is launched, and a call fails. -/
def Fails (name : List Char) (a : Attempt) (table : Table) : Prop :=
  ∃ ps, lookup name table = some ps ∧ ps.sockfd = -1 ∧ ¬ Succeeds a ps

/-- A thread of the service runs. -/
def Served (name : List Char) (table : Table) : Prop :=
  ∃ ps, lookup name table = some ps ∧ 0 < ps.threads

/-- A launch without a failure starts the service. -/
def Startable (name : List Char) (table : Table) : Prop :=
  ∀ a ps, lookup name table = some ps → Succeeds a ps →
    ∃ ret table', runService name a table = some (ret, table') ∧ 0 ≤ ret ∧ Served name table'

/-- A launch that fails leaves the entry as it was, and a port that is told is served. -/
structure NoTrace (table : Table) (e : Event) : Prop where
  failed : ∀ name a, e = .launch name a → Fails name a table →
    (∃ ret, ret < 0 ∧ runService name a table = some (ret, table)) ∧
      Startable name (exec table e)
  running : ∀ name, 0 < checkService name (exec table e) → Served name (exec table e)

/-- A launch succeeds or fails at the socket, in front of what it writes. -/
def Early (table : Table) : Event → Prop
  | .launch name a => ∀ ps, lookup name table = some ps → ps.sockfd = -1 →
      Succeeds a ps ∨ ps.noSocket = false ∧ a.socket = none
  | .finish _ => True

/-! ## The table -/

variable {name : List Char} {a : Attempt} {ps : Service} {table : Table}

/-- The entry a launch is for. -/
theorem runService_append {front back : Table} (hfront : ∀ q ∈ front, name ≠ q.name)
    (hps : name = ps.name) : runService name a (front ++ ps :: back) =
      some ((ps.run a).1, front ++ (ps.run a).2 :: back) := by
  induction front with
  | nil => exact if_pos hps
  | cons q front ih =>
    obtain ⟨hq, hfront⟩ := List.forall_mem_cons.mp hfront
    rw [List.cons_append, runService, if_neg hq, ih hfront]
    rfl

/-- The entry that is found. -/
theorem lookup_append {front back : Table} (hfront : ∀ q ∈ front, name ≠ q.name)
    (hps : name = ps.name) : lookup name (front ++ ps :: back) = some ps := by
  induction front with
  | nil => exact List.find?_cons_of_pos (decide_eq_true hps)
  | cons q front ih =>
    obtain ⟨hq, hfront⟩ := List.forall_mem_cons.mp hfront
    rw [List.cons_append, lookup, List.find?_cons_of_neg (by simpa using hq)]
    exact ih hfront

/-- Where it is in the table. -/
theorem exists_append_of_lookup (h : lookup name table = some ps) :
    name = ps.name ∧ ∃ front back, table = front ++ ps :: back ∧ ∀ q ∈ front, name ≠ q.name := by
  obtain ⟨hps, front, back, htable, hfront⟩ := List.find?_eq_some_iff_append.mp h
  refine ⟨of_decide_eq_true hps, front, back, htable, ?_⟩
  intro q hq
  simpa using hfront q hq

/-- A name that is not in the table. -/
theorem runService_of_lookup_none (h : lookup name table = none) :
    runService name a table = none := by
  induction table with
  | nil => rfl
  | cons q table ih =>
    have hq : name ≠ q.name := by simpa using List.find?_eq_none.mp h q List.mem_cons_self
    rw [lookup, List.find?_cons_of_neg (by simpa using hq)] at h
    rw [runService, if_neg hq, ih h, Option.map_none]

/-- What is said to be running has a socket in the entry that is found for it. -/
theorem lookup_of_checkService (h : 0 < checkService name table) :
    ∃ ps ∈ table, lookup name table = some ps ∧ ps.sockfd ≠ -1 := by
  induction table with
  | nil => cases h
  | cons q table ih =>
    rw [checkService] at h
    split_ifs at h with hend hq hrun
    · omega
    · exact ⟨q, List.mem_cons_self, List.find?_cons_of_pos (decide_eq_true hq), hrun⟩
    · omega
    · obtain ⟨ps, hmem, hlookup, hps⟩ := ih h
      refine ⟨ps, List.mem_cons_of_mem _ hmem, ?_, hps⟩
      rw [lookup, List.find?_cons_of_neg (by simpa using hq)]
      exact hlookup

/-! ## One launch -/

theorem run_of_running (h : ps.sockfd ≠ -1) : ps.run a = (ps.port, ps) := if_pos h

/-- What a launch does that comes to the creation of the thread. -/
theorem run_of_socket {sockfd port : Nat} (hidle : ps.sockfd = -1) (hns : ps.noSocket = false)
    (hsocket : a.socket = some sockfd) (hport : a.getPort sockfd = port) :
    ps.run a = if a.created then ((port : Int), { ps with
        sockfd := sockfd, port := port, threads := ps.threads + 1 })
      else (-1, { ps with sockfd := sockfd, port := port }) := by
  have hopen : a.initServer = sockfd := by rw [Attempt.initServer, hsocket]
  rw [Service.run, if_neg (not_not.mpr hidle), hns]
  simp only [hopen, hport, Bool.false_eq_true, if_false, Int.natCast_nonneg, if_true]
  exact if_neg (by omega)

/-- A service without a socket. -/
theorem run_of_noSocket (hidle : ps.sockfd = -1) (hns : ps.noSocket = true) :
    ps.run a = if a.created then (0, { ps with sockfd := 0, threads := ps.threads + 1 })
      else (-1, { ps with sockfd := 0 }) := by
  rw [Service.run, if_neg (not_not.mpr hidle), hns]
  rfl

/-- Without a socket everything stays as it was. -/
theorem run_of_socket_none (hidle : ps.sockfd = -1) (hns : ps.noSocket = false)
    (hsocket : a.socket = none) : ps.run a = (-1, ps) := by
  obtain ⟨psName, psNoSocket, psSockfd, psPort, psThreads⟩ := ps
  obtain rfl : psSockfd = -1 := hidle
  obtain rfl : psNoSocket = false := hns
  have hopen : a.initServer = -1 := by rw [Attempt.initServer, hsocket]
  simp [Service.run, hopen, Attempt.getPort]

/-- A port that can be told. -/
theorem getPort_of_isSome (h : a.port.isSome) (sockfd : Nat) :
    ∃ port : Nat, a.getPort sockfd = port := by
  obtain ⟨port, hport⟩ := Option.isSome_iff_exists.mp h
  exact ⟨port.toNat, by rw [Attempt.getPort, if_neg (by omega), hport]⟩

/-- A launch that comes through. -/
theorem run_of_succeeds (hidle : ps.sockfd = -1) (h : Succeeds a ps) :
    0 ≤ (ps.run a).1 ∧ (ps.run a).2.name = ps.name ∧ (ps.run a).2.sockfd ≠ -1 ∧
      (ps.run a).2.threads = ps.threads + 1 := by
  obtain ⟨hcalls, hcreated⟩ := h
  cases hns : ps.noSocket with
  | true =>
    rw [run_of_noSocket hidle hns, if_pos hcreated]
    exact ⟨Int.le_refl 0, rfl, by show (0 : Int) ≠ -1; omega, rfl⟩
  | false =>
    obtain ⟨hsocket, hport⟩ := hcalls.resolve_left (by rw [hns]; exact Bool.false_ne_true)
    obtain ⟨sockfd, hsocket⟩ := Option.isSome_iff_exists.mp hsocket
    obtain ⟨port, hport⟩ := getPort_of_isSome hport sockfd
    rw [run_of_socket hidle hns hsocket hport, if_pos hcreated]
    exact ⟨Int.natCast_nonneg _, rfl, by show (sockfd : Int) ≠ -1; omega, rfl⟩

/-- A launch that is past the socket leaves it in the entry, whatever comes then. -/
theorem run_leaves_socket (hidle : ps.sockfd = -1)
    (hlate : ¬ (ps.noSocket = false ∧ a.socket = none)) : (ps.run a).2.sockfd ≠ -1 := by
  cases hns : ps.noSocket with
  | true =>
    rw [run_of_noSocket hidle hns]
    split_ifs
    · show (0 : Int) ≠ -1
      omega
    · show (0 : Int) ≠ -1
      omega
  | false =>
    obtain ⟨sockfd, hsocket⟩ := Option.ne_none_iff_exists'.mp fun he => hlate ⟨hns, he⟩
    have hne : (sockfd : Int) ≠ -1 := by omega
    cases hport : a.port with
    | none =>
      have hopen : a.initServer = sockfd := by rw [Attempt.initServer, hsocket]
      have hget : a.getPort sockfd = -1 := by rw [Attempt.getPort, if_neg (by omega), hport]
      rw [Service.run, if_neg (not_not.mpr hidle), hns]
      simp only [hopen, hget, Bool.false_eq_true, if_false]
      exact hne
    | some port =>
      obtain ⟨port, hget⟩ := getPort_of_isSome (a := a) (by rw [hport]; rfl) sockfd
      rw [run_of_socket hidle hns hsocket hget]
      split_ifs
      · exact hne
      · exact hne

/-! ## Runs -/

/-- An entry has a socket exactly while one thread serves it. -/
def Sound (ps : Service) : Prop := ps.sockfd = -1 ∧ ps.threads = 0 ∨ ps.sockfd ≠ -1 ∧ ps.threads = 1

/-- The end of a thread leaves an entry sound. -/
theorem sound_endOfThread (h : Sound ps) : Sound ps.endOfThread := by
  unfold Service.endOfThread
  split_ifs with hserved
  · left
    rcases h with ⟨-, h⟩ | ⟨-, h⟩
    · omega
    · exact ⟨rfl, by show ps.threads - 1 = 0; omega⟩
  · exact h

theorem exec_launch (h : lookup name table = none) : exec table (.launch name a) = table := by
  rw [exec, runService_of_lookup_none h]
  rfl

/-- Where the entries are sound, what is said to be running is served. -/
theorem served_of_sound (h : ∀ ps ∈ table, Sound ps) (hrun : 0 < checkService name table) :
    Served name table := by
  obtain ⟨ps, hmem, hlookup, hps⟩ := lookup_of_checkService hrun
  refine ⟨ps, hlookup, ?_⟩
  rcases h ps hmem with ⟨hidle, -⟩ | ⟨-, hthreads⟩
  · exact (hps hidle).elim
  · omega

/-- An early failure leaves the table as it is. -/
theorem runService_of_early (he : Early table (.launch name a)) (hf : Fails name a table) :
    runService name a table = some (-1, table) := by
  obtain ⟨ps, hlookup, hidle, hfail⟩ := hf
  obtain ⟨hns, hsocket⟩ := (he ps hlookup hidle).resolve_left hfail
  obtain ⟨hname, front, back, rfl, hfront⟩ := exists_append_of_lookup hlookup
  rw [runService_append hfront hname, run_of_socket_none hidle hns hsocket]

/-- An entry without a socket can be launched. -/
theorem startable_of_idle (hlookup : lookup name table = some ps) (hidle : ps.sockfd = -1) :
    Startable name table := by
  intro a q hq hsucc
  obtain rfl : ps = q := Option.some.inj (hlookup.symm.trans hq)
  obtain ⟨hname, front, back, rfl, hfront⟩ := exists_append_of_lookup hlookup
  obtain ⟨hret, hsame, -, hthreads⟩ := run_of_succeeds hidle hsucc
  refine ⟨_, _, runService_append hfront hname, hret, _, lookup_append hfront ?_, ?_⟩
  · rw [hsame, hname]
  · omega

/-- Every event leaves the entries sound, if a launch fails early. -/
theorem sound_exec {e : Event} (h : ∀ ps ∈ table, Sound ps) (he : Early table e) :
    ∀ ps ∈ exec table e, Sound ps := by
  cases e with
  | finish i =>
    show ∀ ps ∈ table.modify i Service.endOfThread, Sound ps
    intro ps hps
    obtain ⟨j, hj, rfl⟩ := List.mem_iff_getElem.mp hps
    rw [List.getElem_modify]
    split_ifs
    · exact sound_endOfThread (h _ (List.getElem_mem _))
    · exact h _ (List.getElem_mem _)
  | launch name a =>
    cases hlookup : lookup name table with
    | none => rwa [exec_launch hlookup]
    | some ps =>
      obtain ⟨hname, front, back, rfl, hfront⟩ := exists_append_of_lookup hlookup
      have hsound : Sound (ps.run a).2 := by
        have hps := h ps (by simp)
        by_cases hidle : ps.sockfd = -1
        · rcases he ps hlookup hidle with hsucc | ⟨hns, hsocket⟩
          · obtain ⟨-, -, hopen, hthreads⟩ := run_of_succeeds hidle hsucc
            rcases hps with ⟨-, hzero⟩ | ⟨hne, -⟩
            · exact .inr ⟨hopen, by rw [hthreads, hzero]⟩
            · exact (hne hidle).elim
          · rwa [run_of_socket_none hidle hns hsocket]
        · rwa [run_of_running hidle]
      rw [exec, runService_append hfront hname]
      show ∀ q ∈ front ++ (ps.run a).2 :: back, Sound q
      intro q hq
      rcases List.mem_append.mp hq with hq | hq
      · exact h q (List.mem_append_left _ hq)
      · rcases List.mem_cons.mp hq with rfl | hq
        · exact hsound
        · exact h q (List.mem_append_right _ (List.mem_cons_of_mem _ hq))

/-- A launch that fails early leaves no trace. -/
theorem noTrace_of_early {e : Event} (h : ∀ ps ∈ table, Sound ps) (he : Early table e) :
    NoTrace table e := by
  constructor
  · rintro name a rfl hf
    have hrun := runService_of_early he hf
    refine ⟨⟨-1, by omega, hrun⟩, ?_⟩
    obtain ⟨ps, hlookup, hidle, -⟩ := hf
    rw [exec, hrun]
    exact startable_of_idle hlookup hidle
  · intro name
    exact served_of_sound (sound_exec h he)

/-- Only such a one does. -/
theorem early_of_noTrace {e : Event} (h : NoTrace table e) : Early table e := by
  cases e with
  | finish i => trivial
  | launch name a =>
    intro ps hlookup hidle
    by_contra hlate
    rw [not_or] at hlate
    obtain ⟨⟨ret, -, hrun⟩, -⟩ := h.failed name a rfl ⟨ps, hlookup, hidle, hlate.1⟩
    obtain ⟨hname, front, back, rfl, hfront⟩ := exists_append_of_lookup hlookup
    rw [runService_append hfront hname] at hrun
    have htable := (Prod.mk.inj (Option.some.inj hrun)).2
    have hps := (List.cons.inj (List.append_cancel_left htable)).1
    exact run_leaves_socket hidle hlate.2 (by rw [hps, hidle])

/-- In a run of the daemon no launch leaves a trace exactly if none fails behind its socket. -/
theorem launches_iff (entries : List (List Char × Bool)) (events : List Event) :
    AllSteps exec NoTrace (declared entries) events ↔
      AllSteps exec Early (declared entries) events := by
  apply AllSteps.congr (I := fun table => ∀ ps ∈ table, Sound ps)
  · intro table e h
    exact ⟨⟨early_of_noTrace, noTrace_of_early h⟩, sound_exec h⟩
  · intro ps hps
    obtain ⟨⟨name, noSocket⟩, -, rfl⟩ := List.mem_map.mp hps
    exact .inl ⟨rfl, rfl⟩

/-- The thread of a service cannot be created, and the service is said to be running. -/
theorem launches_fails_thread :
    ¬ AllSteps exec NoTrace (declared [(['g'], false)])
      [.launch ['g'] ⟨some 5, some 4000, false⟩] := by
  rintro ⟨h, -⟩
  obtain ⟨ps, hlookup, hthreads⟩ := h.running ['g'] (by decide)
  obtain rfl := Option.some.inj hlookup
  exact Nat.lt_irrefl 0 hthreads

end AndroidLearn.Zflserviced
