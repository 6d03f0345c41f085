import AndroidLearn.Lib.Bytes
import AndroidLearn.Lib.Run
import Mathlib.Data.List.ReduceOption
import Mathlib.Data.List.TakeWhile

/-!
# The uevents handed on inside the service

`uevent.c`, with its callers: `thread_uevent` of `main.c` reads the uevents of the kernel
and dispatches each, and `thread_main` of `logbattery.c` is one of the threads that
register for them. One thread of the service writes each event to the pipe of every thread
that has registered. There are four slots, and all that is done to them is done under one
mutex, the writes to the pipes as well.

What is taken of the system: a mutex is given to one thread at a time, so that a call of
`local_uevent_register`, `local_uevent_unregister` or the write of one event to one pipe
is a step. A pipe holds a number of bytes and gives them out in order; the write of an
event is shorter than `PIPE_BUF`, so that it is made as a whole or waits while there is no
room for it. A `read` takes what is there, as far as the buffer goes, also of several
events. A pipe can be made or not. The number of a descriptor that was closed is not given
out again while its owner still reads from it. That a full pipe counts in whole pages is
left out: any capacity is allowed.

Which events the kernel sends, who registers, unregisters and reads, and when, is up to
the run.

Theorems:
- `bus_run`: a pipe gives out every event since the registration, in order, byte for byte;
- `bus_seen`: a reader that finds one event in its pipe at a time sees every event;
- `bus_stuck`: with one full pipe that nobody reads, nothing is dispatched to anyone and
  nobody registers or unregisters any more, the owner of the pipe no more than the others.
-/

namespace AndroidLearn.Uevent.Bus

open Run

/-- `MAX_LOCAL_UEVENT_SLOT` -/
def maxLocalUeventSlot : Nat := 4

/-- The string at the head of a buffer. -/
def cstr (buffer : Bytes) : Bytes := buffer.takeWhile (· ≠ 0)

/-- What is written for a uevent: the string and its zero. -/
def frame (uevent : Bytes) : Bytes := cstr uevent ++ [0]

/-- A registration: `since` is how many uevents were dispatched before it, and `got` what the
reads of its pipe gave, the first first. -/
structure LocalUevent where
  key : Bytes
  fd : Nat
  pipe : Bytes
  since : Nat
  got : List Bytes
  deriving DecidableEq, Repr

/-- `dispatching` is the uevent that is being written and the slot that is next, while the
mutex is held for it. -/
structure State where
  list : Option (List (Option LocalUevent))
  dispatching : Option (Bytes × Nat)
  /-- the uevents written to all, the first first -/
  dispatched : List Bytes
  /-- the number of the next pipe -/
  pipes : Nat
  deriving DecidableEq, Repr

/-- No list was made yet. -/
def State.init : State := ⟨none, none, [], 0⟩

/-- What takes the mutex. -/
inductive Call where
  | initial
  | destroy
  /-- fails if `strdup` or `pipe` does -/
  | register (key : Bytes) (fails : Bool)
  | unregister (key : Bytes)
  | dispatch (uevent : Bytes)
  deriving DecidableEq, Repr

/-- A call, a step of a dispatch, or a read of a node's pipe. -/
inductive Event where
  | call (c : Call)
  /-- the loop of a dispatch goes to the next slot, unless the pipe is full -/
  | write
  | read (fd count : Nat)
  deriving DecidableEq, Repr

/-- The first slot that is free. -/
def addNode (node : LocalUevent) : List (Option LocalUevent) → List (Option LocalUevent)
  | [] => []
  | none :: list => some node :: list
  | some other :: list => some other :: addNode node list

/-- Only the first of that key goes. -/
def unregister (key : Bytes) : List (Option LocalUevent) → List (Option LocalUevent)
  | [] => []
  | none :: list => none :: unregister key list
  | some node :: list => if node.key = key then none :: list else some node :: unregister key list

/-- A read of a node's pipe. -/
def LocalUevent.read (node : LocalUevent) (fd count : Nat) : LocalUevent :=
  if node.fd = fd ∧ node.pipe ≠ [] then
    { node with pipe := node.pipe.drop count, got := node.got ++ [node.pipe.take count] }
  else node

/-- A call that has the mutex. -/
def State.call (s : State) : Call → State
  | .initial =>
    if s.list.isNone then { s with list := some (List.replicate maxLocalUeventSlot none) } else s
  | .destroy => { s with list := none }
  | .register key fails =>
    if fails then s else
      { s with
        list := s.list.map (addNode ⟨cstr key, s.pipes, [], s.dispatched.length, []⟩)
        pipes := s.pipes + 1 }
  | .unregister key => { s with list := s.list.map (unregister (cstr key)) }
  | .dispatch uevent => if s.list.isNone then s else { s with dispatching := some (uevent, 0) }

def State.read (s : State) (fd count : Nat) : State :=
  { s with list := s.list.map (List.map (Option.map (LocalUevent.read · fd count))) }

section Step

variable (capacity : Nat)

/-- A step of a dispatch. -/
def State.write (s : State) : State :=
  match s.list, s.dispatching with
  | some list, some (uevent, i) =>
    match list[i]? with
    | none => { s with dispatching := none, dispatched := s.dispatched ++ [uevent] }
    | some none => { s with dispatching := some (uevent, i + 1) }
    | some (some node) =>
      if node.pipe.length + (frame uevent).length ≤ capacity then
        { s with
          list := some (list.set i (some { node with pipe := node.pipe ++ frame uevent }))
          dispatching := some (uevent, i + 1) }
      else s
  | _, _ => s

/-- A call waits while the mutex is held. -/
def State.step (s : State) : Event → State
  | .call c => if s.dispatching.isSome then s else s.call c
  | .write => s.write capacity
  | .read fd count => s.read fd count

end Step

/-! ## What a pipe gives out -/

/-- The uevents that were written for a slot. -/
def State.history (s : State) (i : Nat) : List Bytes :=
  match s.dispatching with
  | some (uevent, j) => if i < j then s.dispatched ++ [uevent] else s.dispatched
  | none => s.dispatched

/-- `P` of each registration and what was written for its slot. -/
structure State.Inv (P : List Bytes → LocalUevent → Prop) (s : State) : Prop where
  slots : ∀ list ∈ s.list, list.length = maxLocalUeventSlot
  unlocked : s.list = none → s.dispatching = none
  nodes : ∀ list ∈ s.list, ∀ (i : Nat) (node : LocalUevent), list[i]? = some (some node) →
    P (s.history i) node

/-- What a new registration has, and a write to the pipe keeps. -/
structure Kept (capacity : Nat) (P : List Bytes → LocalUevent → Prop) : Prop where
  new : ∀ history key fd, P history ⟨key, fd, [], history.length, []⟩
  write : ∀ history node uevent, P history node →
    node.pipe.length + (frame uevent).length ≤ capacity →
    P (history ++ [uevent]) { node with pipe := node.pipe ++ frame uevent }

/-- A read keeps it in this state. -/
def ReadKept (P : List Bytes → LocalUevent → Prop) (s : State) : Event → Prop
  | .read fd count => ∀ list ∈ s.list, ∀ (i : Nat) (node : LocalUevent),
      list[i]? = some (some node) → P (s.history i) node → P (s.history i) (node.read fd count)
  | _ => True

section Inv

variable {capacity : Nat} {P : List Bytes → LocalUevent → Prop} {s : State}
  {list : List (Option LocalUevent)} {node nd : LocalUevent}

theorem length_addNode : (addNode node list).length = list.length := by
  fun_induction addNode node list with
  | case1 => rfl
  | case2 => rfl
  | case3 other list ih => exact congrArg Nat.succ ih

/-- A slot behind a registration. -/
theorem addNode_slot {i : Nat} (h : (addNode node list)[i]? = some (some nd)) :
    nd = node ∨ list[i]? = some (some nd) := by
  fun_induction addNode node list generalizing i with
  | case1 => simp at h
  | case2 list =>
    cases i with
    | zero => exact .inl (by simpa using h.symm)
    | succ i => exact .inr h
  | case3 other list ih =>
    cases i with
    | zero => exact .inr h
    | succ i => exact ih h

theorem length_unregister {key : Bytes} : (unregister key list).length = list.length := by
  fun_induction unregister key list with
  | case1 => rfl
  | case2 list ih => exact congrArg Nat.succ ih
  | case3 node list hkey => rfl
  | case4 node list hkey ih => exact congrArg Nat.succ ih

/-- A slot behind the end of one. -/
theorem unregister_slot {key : Bytes} {i : Nat}
    (h : (unregister key list)[i]? = some (some nd)) : list[i]? = some (some nd) := by
  fun_induction unregister key list generalizing i with
  | case1 => exact h
  | case2 list ih =>
    cases i with
    | zero => exact h
    | succ i => exact ih h
  | case3 node list hkey =>
    cases i with
    | zero => simp at h
    | succ i => exact h
  | case4 node list hkey ih =>
    cases i with
    | zero => exact h
    | succ i => exact ih h

/-- A slot, when all have changed. -/
theorem map_slot {f : LocalUevent → LocalUevent} {i : Nat}
    (h : (list.map (Option.map f))[i]? = some (some nd)) :
    ∃ node, list[i]? = some (some node) ∧ nd = f node := by
  rw [List.getElem?_map] at h
  obtain ⟨slot, hslot, hmap⟩ := Option.map_eq_some_iff.mp h
  obtain ⟨node, rfl, rfl⟩ := Option.map_eq_some_iff.mp hmap
  exact ⟨node, hslot, rfl⟩

theorem history_of_unlocked (h : s.dispatching = none) (i : Nat) : s.history i = s.dispatched := by
  rw [State.history, h]

/-- What a slot was given while a dispatch is under way. -/
theorem history_of_dispatching {uevent : Bytes} {j : Nat}
    (h : s.dispatching = some (uevent, j)) (i : Nat) :
    s.history i = if i < j then s.dispatched ++ [uevent] else s.dispatched := by
  rw [State.history, h]

/-- The loop of a dispatch goes on; only the slot it was at has got the uevent. -/
theorem history_next {s' : State} {uevent : Bytes} {i j : Nat} (h : P (s.history j) node)
    (hs : s.dispatching = some (uevent, i)) (hs' : s'.dispatching = some (uevent, i + 1))
    (hdispatched : s'.dispatched = s.dispatched) (hne : j ≠ i) : P (s'.history j) node := by
  have hiff : j < i + 1 ↔ j < i := by omega
  rw [history_of_dispatching hs', hdispatched]
  simp only [hiff]
  rw [history_of_dispatching hs] at h
  exact h

/-- A step of a dispatch keeps a property of the nodes that a write keeps. -/
theorem State.Inv.write (hkept : Kept capacity P) (h : s.Inv P) : (s.write capacity).Inv P := by
  rw [State.write]
  split
  · next list uevent i hlist hdispatching =>
    have hlength := h.slots list hlist
    have hnode {j : Nat} {node : LocalUevent} (hj : list[j]? = some (some node)) :=
      h.nodes list hlist j node hj
    split
    · next hend =>
      refine ⟨h.slots, fun _ => rfl, fun l hl j node hj => ?_⟩
      obtain rfl : list = l := Option.some.inj (hlist.symm.trans hl)
      have hlt : j < i := by
        have hj' := (List.getElem?_eq_some_iff.mp hj).1
        have hi' := List.getElem?_eq_none_iff.mp hend
        omega
      have hbefore := hnode hj
      rw [history_of_dispatching hdispatching, if_pos hlt] at hbefore
      exact hbefore
    · next hfree =>
      refine ⟨h.slots, fun hnone => ?_, fun l hl j node hj => ?_⟩
      · exact absurd (hlist.symm.trans hnone) (by simp)
      · obtain rfl : list = l := Option.some.inj (hlist.symm.trans hl)
        have hne : j ≠ i := by
          rintro rfl
          exact absurd (hfree.symm.trans hj) (by simp)
        exact history_next (hnode hj) hdispatching rfl rfl hne
    · next node hslot =>
      split
      · next hroom =>
        refine ⟨fun l hl => ?_, fun hnone => absurd hnone (by simp), fun l hl j nd hj => ?_⟩
        · obtain rfl := Option.some.inj hl
          rw [List.length_set]
          exact hlength
        · obtain rfl := Option.some.inj hl
          by_cases heq : j = i
          · subst heq
            have hlt := (List.getElem?_eq_some_iff.mp hslot).1
            rw [List.getElem?_set_self hlt] at hj
            obtain rfl := Option.some.inj (Option.some.inj hj)
            have hbefore := hnode hslot
            rw [history_of_dispatching hdispatching, if_neg (Nat.lt_irrefl j)] at hbefore
            rw [history_of_dispatching rfl j, if_pos (Nat.lt_succ_self j)]
            exact hkept.write _ _ _ hbefore hroom
          · rw [List.getElem?_set_ne (Ne.symm heq)] at hj
            exact history_next (hnode hj) hdispatching rfl rfl heq
      · exact h
  · exact h

theorem State.Inv.read (h : s.Inv P) {fd count : Nat} (hread : ReadKept P s (.read fd count)) :
    (s.read fd count).Inv P := by
  refine ⟨fun l hl => ?_, fun hnone => h.unlocked (Option.map_eq_none_iff.mp hnone),
    fun l hl j nd hj => ?_⟩
  · obtain ⟨list, hlist, rfl⟩ := Option.map_eq_some_iff.mp hl
    rw [List.length_map]
    exact h.slots list hlist
  · obtain ⟨list, hlist, rfl⟩ := Option.map_eq_some_iff.mp hl
    obtain ⟨node, hnode, rfl⟩ := map_slot hj
    exact hread list hlist j node hnode (h.nodes list hlist j node hnode)

theorem State.Inv.call (hkept : Kept capacity P) (h : s.Inv P)
    (hunlocked : s.dispatching = none) (c : Call) : (s.call c).Inv P := by
  cases c with
  | initial =>
    rw [State.call]
    split
    · refine ⟨fun l hl => ?_, fun hnone => absurd hnone (by simp), fun l hl j nd hj => ?_⟩
      · obtain rfl := Option.some.inj hl
        exact List.length_replicate
      · obtain rfl := Option.some.inj hl
        rw [List.getElem?_replicate] at hj
        split at hj <;> simp at hj
    · exact h
  | destroy => exact ⟨(fun l hl => nomatch hl), fun _ => hunlocked, fun l hl => nomatch hl⟩
  | register key fails =>
    rw [State.call]
    split
    · exact h
    · refine ⟨fun l hl => ?_, fun _ => hunlocked, fun l hl j nd hj => ?_⟩
      · obtain ⟨list, hlist, rfl⟩ := Option.map_eq_some_iff.mp hl
        rw [length_addNode]
        exact h.slots list hlist
      · obtain ⟨list, hlist, rfl⟩ := Option.map_eq_some_iff.mp hl
        have hhistory := history_of_unlocked hunlocked j
        rcases addNode_slot hj with rfl | hold
        · show P (s.history j) _
          rw [hhistory]
          exact hkept.new _ _ _
        · exact h.nodes list hlist j nd hold
  | unregister key =>
    refine ⟨fun l hl => ?_, fun _ => hunlocked, fun l hl j nd hj => ?_⟩
    · obtain ⟨list, hlist, rfl⟩ := Option.map_eq_some_iff.mp hl
      rw [length_unregister]
      exact h.slots list hlist
    · obtain ⟨list, hlist, rfl⟩ := Option.map_eq_some_iff.mp hl
      exact h.nodes list hlist j nd (unregister_slot hj)
  | dispatch uevent =>
    rw [State.call]
    split
    · exact h
    · next hlist =>
      refine ⟨h.slots, fun hnone => absurd (by rw [Option.isNone_iff_eq_none]; exact hnone) hlist,
        fun l hl j nd hj => ?_⟩
      rw [history_of_dispatching rfl j, if_neg (Nat.not_lt_zero j),
        ← history_of_unlocked hunlocked j]
      exact h.nodes l hl j nd hj

/-- Every event keeps a property that writes and reads keep. -/
theorem State.Inv.step (hkept : Kept capacity P) (h : s.Inv P) {e : Event}
    (hread : ReadKept P s e) : (s.step capacity e).Inv P := by
  cases e with
  | call c =>
    rw [State.step]
    split
    · exact h
    · next hunlocked => exact h.call hkept (by simpa using hunlocked) c
  | write => exact h.write hkept
  | read fd count => exact h.read hread

theorem init_inv : State.init.Inv P :=
  ⟨(fun _ hl => nomatch hl), fun _ => rfl, fun _ hl => nomatch hl⟩

theorem inv_events (hkept : Kept capacity P) {events : List Event}
    (hread : AllSteps (State.step capacity) (ReadKept P) .init events) :
    (events.foldl (State.step capacity) .init).Inv P :=
  AllSteps.invariant (fun _ _ h hread => h.step hkept hread) init_inv hread

end Inv

/-! ## What a pipe gives out -/

/-- What a node was given, what it has read and what it has not. -/
structure LocalUevent.Correct (capacity : Nat) (history : List Bytes) (node : LocalUevent) :
    Prop where
  out : node.got.flatten ++ node.pipe = ((history.drop node.since).map frame).flatten
  room : node.pipe.length ≤ capacity
  since : node.since ≤ history.length

/-- A read gives out what it takes from the pipe. -/
theorem LocalUevent.Correct.read {capacity : Nat} {history : List Bytes} {node : LocalUevent}
    (h : node.Correct capacity history) (fd count : Nat) :
    (node.read fd count).Correct capacity history := by
  rw [LocalUevent.read]
  split
  · refine ⟨?_, ?_, h.since⟩
    · rw [← h.out]
      simp [List.append_assoc, List.take_append_drop]
    · show (node.pipe.drop count).length ≤ capacity
      rw [List.length_drop]
      exact (Nat.sub_le _ _).trans h.room
  · exact h

/-- A write keeps a node correct. -/
theorem correct_kept (capacity : Nat) : Kept capacity (LocalUevent.Correct capacity) := by
  refine ⟨fun history key fd => ⟨?_, Nat.zero_le _, le_rfl⟩,
    fun history node uevent h hroom => ⟨?_, ?_, h.since.trans (by simp)⟩⟩
  · rw [List.drop_length]
    rfl
  · show node.got.flatten ++ (node.pipe ++ frame uevent) =
      (((history ++ [uevent]).drop node.since).map frame).flatten
    rw [← List.append_assoc, h.out, List.drop_append_of_le_length h.since]
    simp
  · rw [List.length_append]
    exact hroom

/-- In every run: what was read of a pipe, and what is still in it, are the uevents that were
written for its slot since the registration, each with its zero, in order. -/
theorem bus_run (capacity : Nat) (events : List Event) :
    let s := events.foldl (State.step capacity) .init
    ∀ list ∈ s.list, list.length = maxLocalUeventSlot ∧
      ∀ (i : Nat) (node : LocalUevent), list[i]? = some (some node) →
        node.got.flatten ++ node.pipe = (((s.history i).drop node.since).map frame).flatten ∧
          node.pipe.length ≤ capacity := by
  intro s list hlist
  have hread : AllSteps (State.step capacity) (ReadKept (LocalUevent.Correct capacity)) .init
      events := by
    refine AllSteps.of_invariant (I := fun _ => True) (fun s e _ => ⟨trivial, ?_⟩) trivial
    cases e with
    | read fd count => exact fun _ _ _ _ _ hcorrect => hcorrect.read fd count
    | _ => trivial
  have h : s.Inv (LocalUevent.Correct capacity) := inv_events (correct_kept capacity) hread
  refine ⟨h.slots list hlist, fun i node hnode => ?_⟩
  have hcorrect := h.nodes list hlist i node hnode
  exact ⟨hcorrect.out, hcorrect.room⟩

/-! ## A reader that keeps up -/

/-- The reader of `fd` finds one uevent at most, and takes all of it. -/
def Timely (fd : Nat) (s : State) : Event → Prop
  | .read fd' count => fd' = fd → ∀ list ∈ s.list, ∀ node ∈ list.reduceOption,
      node.fd = fd → node.pipe.count 0 ≤ 1 ∧ node.pipe.length ≤ count
  | _ => True

instance (fd : Nat) (s : State) : (e : Event) → Decidable (Timely fd s e)
  | .read fd' _ => inferInstanceAs (Decidable (fd' = fd → ∀ list ∈ s.list, _))
  | .call _ | .write => .isTrue trivial

/-- What the reader has seen of its uevents, and what it has yet to see. -/
def Seen (fd : Nat) (history : List Bytes) (node : LocalUevent) : Prop :=
  node.since ≤ history.length ∧ (node.fd = fd → ∃ unread : List Bytes,
    node.pipe = (unread.map frame).flatten ∧
      node.got.map cstr ++ unread.map cstr = (history.drop node.since).map cstr)

section Seen

variable {capacity fd : Nat} {s : State}

/-- A message is read up to its null byte. -/
theorem cstr_frame (uevent : Bytes) : cstr (frame uevent) = cstr uevent := by
  have hall : ∀ b ∈ cstr uevent, decide (b ≠ 0) = true := fun b hb =>
    List.mem_takeWhile_imp (p := fun b : UInt8 => decide (b ≠ 0)) hb
  rw [frame, cstr, List.takeWhile_append_of_pos hall]
  simp

/-- There is one for each message. -/
theorem count_frames (unread : List Bytes) :
    ((unread.map frame).flatten).count 0 = unread.length := by
  induction unread with
  | nil => rfl
  | cons uevent unread ih =>
    have hnone : (cstr uevent).count 0 = 0 := by
      refine List.count_eq_zero.mpr fun hmem => ?_
      simpa using List.mem_takeWhile_imp hmem
    rw [List.map_cons, List.flatten_cons, List.count_append, ih, frame, List.count_append, hnone]
    simp
    omega

/-- A write keeps what a node has seen. -/
theorem seen_kept (capacity fd : Nat) : Kept capacity (Seen fd) := by
  refine ⟨fun history key fd' => ⟨le_rfl, fun _ => ⟨[], rfl, ?_⟩⟩,
    fun history node uevent h _ => ⟨h.1.trans (by simp), fun hfd => ?_⟩⟩
  · rw [List.drop_length]
    rfl
  · obtain ⟨unread, hpipe, hseen⟩ := h.2 hfd
    refine ⟨unread ++ [uevent], ?_, ?_⟩
    · show node.pipe ++ frame uevent = _
      rw [hpipe]
      simp
    · rw [List.drop_append_of_le_length h.1, List.map_append, List.map_append, ← List.append_assoc,
        hseen]

/-- A read that takes the one uevent in the pipe. -/
theorem Seen.read {history : List Bytes} {node : LocalUevent} (h : Seen fd history node)
    {fd' count : Nat}
    (htimely : fd' = fd → node.fd = fd → node.pipe.count 0 ≤ 1 ∧ node.pipe.length ≤ count) :
    Seen fd history (node.read fd' count) := by
  rw [LocalUevent.read]
  split
  · next hread =>
    refine ⟨h.1, fun hfd => ?_⟩
    obtain ⟨unread, hpipe, hseen⟩ := h.2 hfd
    obtain ⟨hone, hcount⟩ := htimely (hread.1.symm.trans hfd) hfd
    rw [hpipe, count_frames] at hone
    match unread, hone with
    | [], _ => exact absurd hpipe hread.2
    | [uevent], _ =>
      have hframe : node.pipe = frame uevent := by simpa using hpipe
      refine ⟨[], ?_, ?_⟩
      · show node.pipe.drop count = []
        exact List.drop_eq_nil_of_le hcount
      · show (node.got ++ [node.pipe.take count]).map cstr ++ [] = _
        rw [List.take_of_length_le hcount, hframe, List.append_nil, List.map_append, ← hseen]
        simp [cstr_frame]
  · exact h

end Seen

/-- If a reader finds one uevent at most in its pipe whenever it reads, and takes all of it,
then it sees every uevent since the registration once, in order; what it has not seen is in
the pipe. -/
theorem bus_seen (capacity fd : Nat) (events : List Event)
    (htimely : AllSteps (State.step capacity) (Timely fd) .init events) :
    let s := events.foldl (State.step capacity) .init
    ∀ list ∈ s.list, ∀ (i : Nat) (node : LocalUevent), list[i]? = some (some node) →
      node.fd = fd → ∃ unread : List Bytes, node.pipe = (unread.map frame).flatten ∧
        node.got.map cstr ++ unread.map cstr = ((s.history i).drop node.since).map cstr := by
  intro s list hlist i node hnode
  have hread : AllSteps (State.step capacity) (ReadKept (Seen fd)) .init events := by
    refine htimely.mono fun s e htimely => ?_
    cases e with
    | read fd' count =>
      intro list hlist i node hnode hseen
      have hmem := List.reduceOption_mem_iff.mpr (List.mem_of_getElem? hnode)
      exact hseen.read fun hfd' hfd => htimely hfd' list hlist node hmem hfd
    | _ => trivial
  have h : s.Inv (Seen fd) := inv_events (seen_kept capacity fd) hread
  exact (h.nodes list hlist i node hnode).2

/-- Two readers, of which the first takes each uevent as it comes. -/
theorem bus_seen_two :
    let s := [Event.call .initial, .call (.register [103] false), .call (.register [98] false),
      .call (.dispatch [97, 0, 1]), .write, .read 0 8, .write, .write, .write, .write,
      .call (.dispatch [99]), .write].foldl (State.step 16) .init
    ∀ list ∈ s.list, ∀ (i : Nat) (node : LocalUevent), list[i]? = some (some node) →
      node.fd = 0 → ∃ unread : List Bytes, node.pipe = (unread.map frame).flatten ∧
        node.got.map cstr ++ unread.map cstr = ((s.history i).drop node.since).map cstr :=
  bus_seen 16 0 _ (by decide)

/-! ## A pipe that nobody reads -/

/-- The dispatch under way waits for the reader of `fd`. -/
def State.StuckAt (capacity : Nat) (s : State) (fd : Nat) : Prop :=
  ∃ list uevent, ∃ (i : Nat) (node : LocalUevent), s.list = some list ∧
    s.dispatching = some (uevent, i) ∧ list[i]? = some (some node) ∧ node.fd = fd ∧
    capacity < node.pipe.length + (frame uevent).length

/-- The registrations, without what was read of them. -/
def State.registered (s : State) : Option (List (Option (Bytes × Nat))) :=
  s.list.map (List.map (Option.map fun node => (node.key, node.fd)))

/-- The pipe is not read. -/
def NotRead (fd : Nat) : Event → Prop
  | .read fd' _ => fd' ≠ fd
  | _ => True

instance (fd : Nat) : (e : Event) → Decidable (NotRead fd e)
  | .read _ _ => inferInstanceAs (Decidable (_ ≠ _))
  | .call _ | .write => .isTrue trivial

section Stuck

variable {capacity fd : Nat} {s : State}

/-- A dispatch that waits for a pipe that nobody reads goes on waiting. -/
theorem State.StuckAt.step (h : s.StuckAt capacity fd) {e : Event} (he : NotRead fd e) :
    (s.step capacity e).StuckAt capacity fd ∧
      (s.step capacity e).dispatching = s.dispatching ∧
      (s.step capacity e).dispatched = s.dispatched ∧
      (s.step capacity e).registered = s.registered := by
  obtain ⟨list, uevent, i, node, hlist, hdispatching, hslot, hfd, hfull⟩ := h
  have hstuck : s.StuckAt capacity fd :=
    ⟨list, uevent, i, node, hlist, hdispatching, hslot, hfd, hfull⟩
  cases e with
  | call c =>
    have hsame : s.step capacity (.call c) = s := by
      rw [State.step, hdispatching]
      rfl
    rw [hsame]
    exact ⟨hstuck, rfl, rfl, rfl⟩
  | write =>
    have hsame : s.step capacity .write = s := by
      rw [State.step, State.write, hlist, hdispatching]
      simp only [hslot]
      exact if_neg (Nat.not_le.mpr hfull)
    rw [hsame]
    exact ⟨hstuck, rfl, rfl, rfl⟩
  | read fd' count =>
    have hread : (s.read fd' count).list =
        some (list.map (Option.map (LocalUevent.read · fd' count))) := by
      rw [State.read, hlist]
      rfl
    have hnode : node.read fd' count = node :=
      if_neg fun hboth => he (hboth.1.symm.trans hfd)
    refine ⟨⟨_, uevent, i, node, hread, hdispatching, ?_, hfd, hfull⟩, rfl, rfl, ?_⟩
    · rw [List.getElem?_map, hslot, Option.map_some, Option.map_some, hnode]
    · have hkeys : (fun node : LocalUevent => ((node.read fd' count).key,
          (node.read fd' count).fd)) = fun node => (node.key, node.fd) := by
        funext node
        rw [LocalUevent.read]
        split <;> rfl
      show (s.read fd' count).registered = s.registered
      rw [State.registered, State.registered, hread, hlist]
      simp only [Option.map_some, List.map_map, Function.comp_def, Option.map_map, hkeys]

end Stuck

/-- Once a dispatch waits for a reader that does not read any more: the mutex is never free
again. No uevent is dispatched, to whomever, and no one registers or unregisters; in
particular the reader that waits to unregister itself waits forever. -/
theorem bus_stuck (capacity : Nat) {s : State} {fd : Nat} (h : s.StuckAt capacity fd)
    (events : List Event) (hread : ∀ e ∈ events, NotRead fd e) :
    let s' := events.foldl (State.step capacity) s
    s'.dispatching = s.dispatching ∧ s'.dispatched = s.dispatched ∧
      s'.registered = s.registered := by
  induction events generalizing s with
  | nil => exact ⟨rfl, rfl, rfl⟩
  | cons e events ih =>
    obtain ⟨hstuck, hdispatching, hdispatched, hregistered⟩ :=
      h.step (hread e List.mem_cons_self)
    obtain ⟨hdispatching', hdispatched', hregistered'⟩ :=
      ih hstuck fun e he => hread e (List.mem_cons_of_mem _ he)
    exact ⟨hdispatching'.trans hdispatching, hdispatched'.trans hdispatched,
      hregistered'.trans hregistered⟩

/-- Two registrations; nobody reads of the second, and its pipe has room for one uevent. The
call that is to unregister it gets nowhere. -/
theorem bus_stuck_two :
    let s := [Event.call .initial, .call (.register [103] false), .call (.register [98] false),
      .call (.dispatch [97]), .write, .read 0 8, .write, .write, .write, .write,
      .call (.dispatch [97]), .write].foldl (State.step 3) .init
    let s' := [Event.read 0 8, .write, .call (.unregister [98]), .write].foldl (State.step 3) s
    s'.dispatching = s.dispatching ∧ s'.dispatched = s.dispatched ∧
      s'.registered = s.registered :=
  bus_stuck 3 ⟨_, [97], 1, ⟨[98], 1, [97, 0], 0, []⟩, rfl, rfl, rfl, rfl, by decide⟩ _ (by decide)

end AndroidLearn.Uevent.Bus
