import AndroidLearn.Lib.Run
import Mathlib.Data.List.Count

/-!
# The processes that `lognet` could not wait for

`clear_process_nolock`, `clear_process_delete_queue`, `lognet_stop` and `lognet_start` of
`lognet.c`. A `tcpdump` that does not end within a second goes to `process_delete_queue`,
and the clearing thread tries again, entry by entry, while it holds `data_lock`.
`process_queue_count` is kept beside the queue. `lognet_start` makes the queue empty
before it takes the lock, and leaves the count as it is.

An entry of the queue is a process number and how often it was tried. What `waitpid`
answers is in the event, each time anew; the processes themselves are left out. A step is
what a thread does under the lock, or the entry that the clearing has come to.

Theorem: `queueCounted_iff`: over every sequence of starts, stops, clearings and answers,
the count is right exactly when the queue is empty whenever it is made empty without the
count.
-/

namespace AndroidLearn.Lognet.DeleteQueue

open Run

/-- `MAX_RETRY_COUNT` -/
def maxRetryCount : Nat := 100

/-- `PROCESS_QUEUE_COUNT` -/
def processQueueCount : Nat := 100

/-- `PROCESS_DELETE_QUEUE`; there is no process where `pid` is 0. -/
structure Entry where
  pid : Nat
  retry : Nat
  deriving DecidableEq, Repr

/-- The logger's child, and those that are still to be waited for. -/
structure State where
  /-- the logger's child, 0 for none -/
  pid : Nat
  processQueueCount : Int
  processDeleteQueue : List Entry
  /-- how many calls of `lognet_start` have made the queue empty and wait for the lock -/
  starting : Nat
  /-- the entry that the clearing thread is at, while it holds `data_lock` -/
  lock : Option Nat
  deriving DecidableEq, Repr

/-- `bzero` -/
def emptyQueue : List Entry := List.replicate processQueueCount ⟨0, 0⟩

/-- No child was ever started. -/
def State.init : State := ⟨0, 0, emptyQueue, 0, none⟩

/-- The child goes to the first free entry. -/
def State.enqueue (s : State) : State :=
  match s.processDeleteQueue.findIdx? fun entry => entry.pid = 0 with
  | none => s
  | some index =>
    { s with
      processQueueCount := s.processQueueCount + 1
      processDeleteQueue := s.processDeleteQueue.set index ⟨s.pid, 0⟩ }

/-- `clear_process_nolock`; does one of the ten calls of `waitpid` find the child? -/
def State.clearProcess (s : State) (waited : Bool) : State := if waited then s else s.enqueue

/-- `lognet_stop`; is the process alive? There is none with the number 0. -/
def State.stop (s : State) (alive waited : Bool) : State :=
  let s := if s.pid ≠ 0 ∧ alive then s.clearProcess waited else s
  -- the child is given up, also when it stands in the queue now
  { s with pid := 0 }

/-- `lognet_start` after that; `fork` is 0 if it fails. -/
def State.start (s : State) (found alive zombie waited : Bool) (fork : Nat) : State :=
  if !found then s.stop alive waited
  else
    let s := if s.pid ≠ 0 ∧ zombie then s.clearProcess waited else s
    { s with pid := fork }

/-- The entry is free again. -/
def State.dequeue (s : State) (index : Nat) : State :=
  { s with
    processQueueCount := s.processQueueCount - 1
    processDeleteQueue := s.processDeleteQueue.set index ⟨0, 0⟩ }

/-- One round of `clear_process_delete_queue`. `gone`: there is no such process; `waited`:
one of the calls of `waitpid` finds it. -/
def State.clearEntry (s : State) (index : Nat) (gone waited : Bool) : State :=
  if s.processQueueCount = 0 then { s with lock := none }
  else
    match s.processDeleteQueue[index]? with
    | none => { s with lock := none }
    | some entry =>
      let s := { s with lock := some (index + 1) }
      if entry.pid = 0 then s
      else if gone then s.dequeue index
      else if maxRetryCount ≤ entry.retry then s.dequeue index
      else if waited then s.dequeue index
      else
        -- ten calls of `waitpid` in vain, each counted
        { s with
          processDeleteQueue := s.processDeleteQueue.set index ⟨entry.pid, entry.retry + 10⟩ }

/-- A start, a stop, or a step of the thread that clears the queue. -/
inductive Event
  /-- `lognet_start` is called: it makes the queue empty -/
  | startInit
  /-- the same, when it has the lock; `alive` is for the stop if no command is found -/
  | start (found alive zombie waited : Bool) (fork : Nat)
  | stop (alive waited : Bool)
  /-- `thread_autoclear` comes to the queue -/
  | autoclear
  | clearEntry (gone waited : Bool)
  deriving DecidableEq, Repr

/-- What needs the lock waits while the clearing thread holds it. -/
def State.step (s : State) : Event → State
  | .startInit => { s with processDeleteQueue := emptyQueue, starting := s.starting + 1 }
  | .start found alive zombie waited fork =>
    if s.lock ≠ none ∨ s.starting = 0 then s
    else
      { s with starting := s.starting - 1 }.start found alive zombie waited fork
  | .stop alive waited => if s.lock ≠ none then s else s.stop alive waited
  | .autoclear => if s.lock ≠ none then s else { s with lock := some 0 }
  | .clearEntry gone waited =>
    match s.lock with
    | none => s
    | some index => s.clearEntry index gone waited

/-! ## The property -/

/-- The number of processes in the queue. -/
def queued (queue : List Entry) : Nat := queue.countP fun entry => entry.pid ≠ 0

/-- `process_queue_count == 0`: the monitor may restart the logger. -/
def State.mayRestart (s : State) : Prop := s.processQueueCount = 0

/-- The counter is right, and an empty queue does not hold up a restart. -/
structure QueueCounted (s : State) (e : Event) : Prop where
  count : (s.step e).processQueueCount = queued (s.step e).processDeleteQueue
  /-- nothing in the queue, nothing in the way of a restart -/
  restart : queued (s.step e).processDeleteQueue = 0 → (s.step e).mayRestart

/-- The condition: there is nothing in the queue when it is made empty. -/
def EmptyAtStart (s : State) (e : Event) : Prop :=
  e = .startInit → queued s.processDeleteQueue = 0

/-! ## One event -/

/-- The count is right. -/
def State.Counted (s : State) : Prop := s.processQueueCount = queued s.processDeleteQueue

section Step

variable {s : State}

/-- One entry is changed. -/
theorem queued_set {queue : List Entry} {index : Nat} {entry : Entry}
    (h : queue[index]? = some entry) (entry' : Entry) :
    queued (queue.set index entry') + (if entry.pid ≠ 0 then 1 else 0) =
      queued queue + if entry'.pid ≠ 0 then 1 else 0 := by
  obtain ⟨hlt, rfl⟩ := List.getElem?_eq_some_iff.mp h
  unfold queued
  rw [List.countP_set hlt]
  by_cases hpid : queue[index].pid ≠ 0
  · have hpos : 0 < queue.countP fun entry => entry.pid ≠ 0 :=
      List.countP_pos_iff.mpr ⟨_, List.getElem_mem hlt, by simpa using hpid⟩
    simp only [decide_eq_true_eq]
    split <;> omega
  · simp only [hpid, decide_eq_true_eq, if_false]
    omega

/-- A child is put into the queue. -/
theorem State.Counted.enqueue (h : s.Counted) (hpid : s.pid ≠ 0) : s.enqueue.Counted := by
  unfold State.enqueue
  split
  next => exact h
  next index hfind =>
    obtain ⟨hlt, hfree, -⟩ := List.findIdx?_eq_some_iff_getElem.mp hfind
    have hset := queued_set (List.getElem?_eq_getElem hlt) ⟨s.pid, 0⟩
    -- the entry was free and holds a process now, so both numbers go up by one
    have hfree' : s.processDeleteQueue[index].pid = 0 := by simpa using hfree
    rw [if_neg (not_not.mpr hfree'), if_pos hpid] at hset
    unfold State.Counted at h ⊢
    dsimp only
    rw [h]
    omega

/-- The child is killed, and waited for or put into the queue. -/
theorem State.Counted.clearProcess (h : s.Counted) (hpid : s.pid ≠ 0) (waited : Bool) :
    (s.clearProcess waited).Counted := by
  unfold State.clearProcess
  split
  next => exact h
  next => exact h.enqueue hpid

/-- A stop keeps the count. -/
theorem State.Counted.stop (h : s.Counted) (alive waited : Bool) : (s.stop alive waited).Counted := by
  unfold State.stop
  dsimp only
  split
  next hpid => exact h.clearProcess hpid.1 waited
  next => exact h

theorem State.Counted.start (h : s.Counted) (found alive zombie waited : Bool) (fork : Nat) :
    (s.start found alive zombie waited fork).Counted := by
  unfold State.start
  split
  next => exact h.stop alive waited
  next =>
    dsimp only
    split
    next hpid => exact h.clearProcess hpid.1 waited
    next => exact h

/-- An entry is taken out. -/
theorem State.Counted.dequeue (h : s.Counted) {index : Nat} {entry : Entry}
    (hentry : s.processDeleteQueue[index]? = some entry) (hpid : entry.pid ≠ 0) :
    (s.dequeue index).Counted := by
  have hset := queued_set hentry ⟨0, 0⟩
  rw [if_pos hpid, if_neg (not_not.mpr rfl)] at hset
  unfold State.Counted at h ⊢
  unfold State.dequeue
  dsimp only
  rw [h]
  omega

/-- A turn of the thread keeps the count. -/
theorem State.Counted.clearEntry (h : s.Counted) (index : Nat) (gone waited : Bool) :
    (s.clearEntry index gone waited).Counted := by
  unfold State.clearEntry
  split
  next => exact h
  next =>
    split
    next => exact h
    next entry hentry =>
      have hnext : ({ s with lock := some (index + 1) } : State).Counted := h
      dsimp only
      split
      next => exact h
      next hpid =>
        split
        next => exact hnext.dequeue hentry hpid
        next =>
          split
          next => exact hnext.dequeue hentry hpid
          next =>
            split
            next => exact hnext.dequeue hentry hpid
            next =>
              -- the entry keeps its process, and neither number changes
              have hset := queued_set hentry ⟨entry.pid, entry.retry + 10⟩
              unfold State.Counted at h ⊢
              dsimp only at hset ⊢
              rw [h]
              omega

/-- Every event does, if each start finds the queue empty. -/
theorem State.Counted.step (h : s.Counted) {e : Event} (he : EmptyAtStart s e) :
    (s.step e).Counted := by
  cases e with
  | startInit =>
    -- the one event that writes to the queue and not to the count
    have hnone : queued emptyQueue = 0 := by decide
    unfold State.Counted at h ⊢
    unfold State.step
    dsimp only
    rw [h, he rfl, hnone]
  | start found alive zombie waited fork =>
    unfold State.step
    dsimp only
    split
    next => exact h
    next =>
      have hstarting : ({ s with starting := s.starting - 1 } : State).Counted := h
      exact hstarting.start found alive zombie waited fork
  | stop alive waited =>
    unfold State.step
    dsimp only
    split
    next => exact h
    next => exact h.stop alive waited
  | autoclear =>
    unfold State.step
    dsimp only
    split <;> exact h
  | clearEntry gone waited =>
    unfold State.step
    dsimp only
    split
    next => exact h
    next index hlock => exact h.clearEntry index gone waited

/-- One step keeps it exactly then. -/
theorem queueCounted_iff_empty (h : s.Counted) (e : Event) :
    QueueCounted s e ↔ EmptyAtStart s e := by
  constructor
  · rintro hcounted rfl
    -- the count is that of the queue before, and has to be that of the empty one
    have hnone : queued emptyQueue = 0 := by decide
    have hcount : s.processQueueCount = queued emptyQueue := hcounted.count
    rw [h, hnone] at hcount
    exact Int.ofNat_inj.mp hcount
  · intro he
    have hcount := h.step he
    exact ⟨hcount, fun hnone => hcount.trans (congrArg _ hnone)⟩

end Step

/-! ## Every run -/

theorem counted_init : State.init.Counted := by
  unfold State.Counted
  decide

/-- The count is right, and never in the way of a restart for nothing, after every event of a
run exactly when the queue is empty whenever `lognet_start` makes it so. -/
theorem queueCounted_iff (events : List Event) :
    AllSteps State.step QueueCounted State.init events ↔
      AllSteps State.step EmptyAtStart State.init events :=
  AllSteps.congr (I := State.Counted)
    (fun _ e h => ⟨queueCounted_iff_empty h e, h.step⟩) counted_init

/-- The monitor restarts a logger whose process does not end in time: the process is queued, and
then forgotten. -/
theorem queueCounted_fails_restart :
    ¬ AllSteps State.step QueueCounted State.init
      [.startInit, .start true false false false 7, .stop true false, .startInit] := by
  intro h
  obtain ⟨-, -, -, hlast, -⟩ := h
  have hcount := hlast.count
  revert hcount
  decide

end AndroidLearn.Lognet.DeleteQueue
