import AndroidLearn.Lib.Procs
import AndroidLearn.Lib.Run

/-!
# The ANR agent

The class `AnrAgent` of `zflAmsUtil.java`. `appNotResponding` appends a record to
`mAnrRecords` and starts the dump thread unless `mRunning` says there is one. The thread
takes the records one by one, skips those that have waited for more than three minutes,
clears `mRunning` and looks once more: a record may have come between its last look at the
list and the clearing.

Any number of callers and threads are in between. A step of one of them is one access to
the list or to `mRunning`, one read of the clock, the pause of systrace or the dump: the
list is synchronized and `mRunning` an `AtomicBoolean`, so an access is one step. Whether
`Thread.start` succeeds, what the clock says, what the systrace node holds and whether the
dump throws are up to the environment, at each step anew. Of the record only the start
time is read; its other arguments go to `appNotRespondingImpl` as they are.

Theorems:
- `agent_run`: in every run the reported ANRs leave the list in their order, each once,
  and one is dumped at a time; a timely one is lost only by what throws before its dump.
  The invariant is `State.Inv`: at most one thread owns `mRunning`.
- `agent_ends`: unless a thread cannot be started, all come to be through, and nothing is
  left behind then. A measure goes down with each step (`steps_lt`), and a record in the
  list is always somebody's to take (`State.Awake`).
- `systrace_run`: the pauses and the dumps of systrace go in pairs.
-/

namespace AndroidLearn.Bugreport.AnrAgent

open Procs Run

/-! ## The records -/

/-- A record of `mAnrRecords`: when it was made, and what `appNotRespondingImpl` is given. -/
structure AnrRecord where
  app : String
  activity : Option String
  parent : Option String
  aboveSystem : Bool
  annotation : Option String
  timestamp : Int
  deriving DecidableEq, Repr

/-- `3 * 60 * 1000`, in milliseconds -/
def expiry : Int := 3 * 60 * 1000

/-! ## Systrace -/

/-- `SYSTRACE_STATUS_OFF`, `SYSTRACE_STATUS_ON`, `SYSTRACE_STATUS_UNKNOWN` -/
inductive Status
  | off
  | on
  | unknown
  deriving DecidableEq, Repr

/-- What `pauseSystraceIfNeeded` reads. -/
structure Systrace where
  /-- `ro.framework.tracepoint` -/
  tracepoint : Bool
  /-- `persist.mtk.aee.mode` -/
  aeeMode : Int
  /-- what is in `tracing_on`; `none` if the read fails -/
  tracingOn : Option (List Char)
  deriving DecidableEq, Repr

/-- `SYSTRACE_REQUEST_DUMP` -/
def systraceRequestDump : Char := '1'

/-- `SYSTRACE_REQUEST_FORCE_DUMP` -/
def systraceRequestForceDump : Char := '3'

/-- `SYSTRACE_REQUEST_PAUSE` -/
def systraceRequestPause : Char := '4'

/-- `String.trim` takes off all up to the blank. -/
def trim (text : List Char) : List Char :=
  ((text.dropWhile (· ≤ ' ')).reverse.dropWhile (· ≤ ' ')).reverse

/-- The status, and the trigger that is written. -/
def pauseSystraceIfNeeded (systrace : Systrace) : Status × List Char :=
  if !systrace.tracepoint then (.off, [])
  else if systrace.aeeMode ≠ 4 then (.off, [])
  else
    match systrace.tracingOn with
    | none => (.unknown, [])
    | some text => if trim text = ['1'] then (.on, [systraceRequestPause]) else (.off, [])

/-- The trigger after the dump. -/
def Status.trigger : Status → List Char
  | .off => []
  | .on => [systraceRequestForceDump]
  | .unknown => [systraceRequestDump]

/-! ## The agent -/

/-- Where a caller of `appNotResponding`, or a dump thread, is. -/
inductive Place
  /-- in `startIfNeeded`, before the compare and set -/
  | testing
  /-- it has set `mRunning` and is to start the thread -/
  | starting
  /-- the thread, before `next` -/
  | looking
  /-- it has a record, and not read the clock -/
  | taken (r : AnrRecord)
  /-- the record is not too old, and systrace not paused yet -/
  | pausing (r : AnrRecord) (startTime : Int)
  /-- in `appNotRespondingImpl` -/
  | dumping (r : AnrRecord) (startTime : Int) (status : Status)
  /-- `handleAnr` is over, `mRunning` not cleared yet -/
  | clearing
  /-- before it looks for records that remain -/
  | checking
  deriving DecidableEq, Repr

/-- How a record ended. -/
inductive Outcome
  /-- skipped at `startTime` -/
  | expired (startTime : Int)
  | dumped (startTime : Int)
  /-- `appNotRespondingImpl` threw -/
  | broken (startTime : Int)
  /-- something threw before it, and maybe before the clock was read -/
  | lost (startTime : Option Int)
  deriving DecidableEq, Repr

/-- The list and `mRunning`, where the threads are, and what has happened to the records so far. -/
structure State where
  anrRecords : List AnrRecord
  running : Bool
  procs : List Place
  /-- the records that were added -/
  added : List AnrRecord
  /-- those that the threads are through with -/
  ended : List (AnrRecord × Outcome)
  /-- the calls of `appNotRespondingImpl` -/
  calls : List AnrRecord
  /-- what was written by `writeSystraceTrigger` -/
  triggers : List Char
  deriving DecidableEq, Repr

/-- Nothing was reported yet. -/
def State.init : State := ⟨[], false, [], [], [], [], []⟩

/-- A new report, or the next step of a process with what it finds. -/
inductive Event
  /-- a call of `appNotResponding`, to the end of its synchronized block -/
  | report (r : AnrRecord)
  /-- process `i` goes on, `now` being the time -/
  | go (i : Nat) (now : Int) (systrace : Systrace)
  | throw (i : Nat)
  deriving DecidableEq, Repr

section Agent

variable (debug : Bool)

/-- Thread `i` goes on to another place. -/
def State.moveTo (s : State) (i : Nat) (p : Place) : State := { s with procs := s.procs.set i p }

/-- Thread `i` comes to its end. -/
def State.quit (s : State) (i : Nat) : State := { s with procs := s.procs.eraseIdx i }

/-- The thread is through with a record. -/
def State.finish (s : State) (r : AnrRecord) (o : Outcome) : State :=
  { s with ended := s.ended ++ [(r, o)] }

/-- The characters go to the trigger one after the other. -/
def State.writeSystraceTrigger (s : State) (actions : List Char) : State :=
  { s with triggers := s.triggers ++ actions }

/-- The next step of a process, of a caller or of the dump thread. -/
def State.go (s : State) (i : Nat) (now : Int) (systrace : Systrace) : State :=
  match s.procs[i]? with
  | none => s
  | some .testing =>
    if s.running then s.quit i else State.moveTo { s with running := true } i .starting
  -- the caller is through, and the thread begins
  | some .starting => s.moveTo i .looking
  | some .looking =>
    match s.anrRecords with
    | [] => s.moveTo i .clearing
    | r :: rest => State.moveTo { s with anrRecords := rest } i (.taken r)
  | some (.taken r) =>
    if now - r.timestamp > expiry then (s.finish r (.expired now)).moveTo i .looking
    else s.moveTo i (.pausing r now)
  | some (.pausing r startTime) =>
    let paused := if debug then pauseSystraceIfNeeded systrace else (.off, [])
    State.moveTo { s.writeSystraceTrigger paused.2 with calls := s.calls ++ [r] } i
      (.dumping r startTime paused.1)
  | some (.dumping r startTime status) =>
    ((s.writeSystraceTrigger status.trigger).finish r (.dumped startTime)).moveTo i .looking
  | some .clearing => State.moveTo { s with running := false } i .checking
  | some .checking => if s.anrRecords.isEmpty then s.quit i else s.moveTo i .testing

/-- `startIfNeeded` catches what the start of the thread throws, `run` what `handleAnr`
throws. -/
def State.throw (s : State) (i : Nat) : State :=
  match s.procs[i]? with
  | some .starting => s.quit i
  | some (.taken r) => (s.finish r (.lost none)).moveTo i .clearing
  | some (.pausing r startTime) => (s.finish r (.lost (some startTime))).moveTo i .clearing
  | some (.dumping r startTime _) => (s.finish r (.broken startTime)).moveTo i .clearing
  | _ => s

/-- What an event does. -/
def State.step (s : State) : Event → State
  | .report r =>
    { s with
      anrRecords := s.anrRecords ++ [r]
      added := s.added ++ [r]
      procs := s.procs ++ [.testing] }
  | .go i now systrace => s.go debug i now systrace
  | .throw i => s.throw i

end Agent

/-! ## One thread at a time -/

/-- Does the process own `mRunning`? -/
def Place.owns : Place → Nat
  | .testing | .checking => 0
  | _ => 1

/-- The record a thread has in hand. -/
def Place.held : Place → Option AnrRecord
  | .taken r | .pausing r _ | .dumping r _ _ => some r
  | _ => none

/-- The record it dumps. -/
def Place.dumped : Place → Option AnrRecord
  | .dumping r _ _ => some r
  | _ => none

/-- A record that is dumped has not waited too long. -/
def Place.Timely : Place → Prop
  | .pausing r startTime | .dumping r startTime _ => startTime - r.timestamp ≤ expiry
  | _ => True

/-- One that is skipped has. -/
def Outcome.Timely (r : AnrRecord) : Outcome → Prop
  | .expired startTime => startTime - r.timestamp > expiry
  | .dumped startTime | .broken startTime | .lost (some startTime) =>
    startTime - r.timestamp ≤ expiry
  | .lost none => True

/-- When the clock was read. -/
def Outcome.startTime : Outcome → Option Int
  | .expired startTime | .dumped startTime | .broken startTime => some startTime
  | .lost startTime => startTime

/-- When the dump under way was begun. -/
def Place.startTime : Place → Option Int
  | .pausing _ startTime | .dumping _ startTime _ => some startTime
  | _ => none

/-- Was it ended by a throw? -/
def Outcome.threw : Outcome → Bool
  | .broken _ | .lost _ => true
  | _ => false

/-- Was `appNotRespondingImpl` called? -/
def Outcome.called : Outcome → Bool
  | .dumped _ | .broken _ => true
  | _ => false

/-- The ANR that is reported, if the event is a report. -/
def Event.reported : Event → Option AnrRecord
  | .report r => some r
  | _ => none

/-- The clock as a thread reads it at a step. -/
def State.clock (s : State) : Event → List Int
  | .go i now _ =>
    match s.procs[i]? with
    | some (.taken _) => [now]
    | _ => []
  | _ => []

/-- The record of a thread in which something throws at a step, and whether its dump had begun. -/
def State.thrown (s : State) : Event → List (AnrRecord × Bool)
  | .throw i =>
    match s.procs[i]? with
    | some (.taken r) | some (.pausing r _) => [(r, false)]
    | some (.dumping r _ _) => [(r, true)]
    | _ => []
  | _ => []

/-- One process at most owns `mRunning`; the records that were added are those that are through,
those in hand, and those in the list, in this order. -/
structure State.Inv (s : State) : Prop where
  owners : weigh Place.owns s.procs ≤ s.running.toNat
  order : s.added = s.ended.map Prod.fst ++ s.procs.filterMap Place.held ++ s.anrRecords
  calls : s.calls =
    (s.ended.filter (·.2.called)).map Prod.fst ++ s.procs.filterMap Place.dumped
  places : ∀ p ∈ s.procs, p.Timely
  outcomes : ∀ x ∈ s.ended, x.2.Timely x.1

theorem Place.owns_of_held (p : Place) (h : p.held ≠ none) : 1 ≤ p.owns := by
  cases p <;> simp_all [Place.held, Place.owns]

theorem Place.owns_of_dumped (p : Place) (h : p.dumped ≠ none) : 1 ≤ p.owns := by
  cases p <;> simp_all [Place.dumped, Place.owns]

section Step

variable {debug : Bool} {s s' : State} {i : Nat} {p q : Place}

theorem State.Inv.one (h : s.Inv) : weigh Place.owns s.procs ≤ 1 :=
  h.owners.trans (Bool.toNat_le s.running)

/-- The owner goes on: it alone has a record in hand, before and after. -/
theorem State.Inv.owner (h : s.Inv) (hi : s.procs[i]? = some p) (hp : p.owns = 1) (hq : q.owns = 1)
    (hprocs : s'.procs = s.procs.set i q) (hrunning : s'.running = s.running)
    (hadded : s'.added = s.added)
    (horder : s'.ended.map Prod.fst ++ q.held.toList ++ s'.anrRecords =
      s.ended.map Prod.fst ++ p.held.toList ++ s.anrRecords)
    (hcalls : s'.calls = (s'.ended.filter (·.2.called)).map Prod.fst ++ q.dumped.toList)
    (htimely : q.Timely) (houtcomes : ∀ x ∈ s'.ended, x.2.Timely x.1) : s'.Inv := by
  have hlt : i < s.procs.length := (List.getElem?_eq_some_iff.mp hi).1
  have hi' : (s.procs.set i q)[i]? = some q := List.getElem?_set_self hlt
  have hweigh := weigh_set (w := Place.owns) (q := q) hi
  have hone := h.one
  have hone' : weigh Place.owns (s.procs.set i q) ≤ 1 := by omega
  have hheld := filterMap_of_weigh_le Place.owns_of_held hone hi (by omega)
  have hheld' := filterMap_of_weigh_le Place.owns_of_held hone' hi' (by omega)
  have hdumped' := filterMap_of_weigh_le Place.owns_of_dumped hone' hi' (by omega)
  refine ⟨?_, ?_, ?_, ?_, houtcomes⟩
  · rw [hprocs, hrunning]
    have := h.owners
    omega
  · rw [hadded, hprocs, hheld', horder, h.order, hheld]
  · rw [hprocs, hdumped', hcalls]
  · rw [hprocs]
    exact forall_set h.places htimely

/-- What the owner has called so far. -/
theorem State.Inv.called (h : s.Inv) (hi : s.procs[i]? = some p) (hp : p.owns = 1) :
    s.calls = (s.ended.filter (·.2.called)).map Prod.fst ++ p.dumped.toList := by
  rw [h.calls, filterMap_of_weigh_le Place.owns_of_dumped h.one hi (by omega)]

/-- A process with no record in hand goes on. -/
theorem State.Inv.idle (h : s.Inv) (hi : s.procs[i]? = some p) (hp : p.held = none)
    (hq : q.held = none) (hpd : p.dumped = none) (hqd : q.dumped = none) {running : Bool}
    (howners : weigh Place.owns (s.procs.set i q) ≤ running.toNat) (htimely : q.Timely) :
    State.Inv { s with running := running, procs := s.procs.set i q } := by
  refine ⟨howners, ?_, ?_, forall_set h.places htimely, h.outcomes⟩
  · show s.added = _ ++ (s.procs.set i q).filterMap Place.held ++ _
    rw [filterMap_set hi (hp.trans hq.symm)]
    exact h.order
  · show s.calls = _ ++ (s.procs.set i q).filterMap Place.dumped
    rw [filterMap_set hi (hpd.trans hqd.symm)]
    exact h.calls

/-- A thread that has nothing in hand may end. -/
theorem State.Inv.quit (h : s.Inv) (hi : s.procs[i]? = some p) (hp : p.held = none)
    (hpd : p.dumped = none) : (s.quit i).Inv := by
  refine ⟨?_, ?_, ?_, fun p hp => h.places p (List.mem_of_mem_eraseIdx hp), h.outcomes⟩
  · show weigh Place.owns (s.procs.eraseIdx i) ≤ s.running.toNat
    have := weigh_eraseIdx (w := Place.owns) hi
    have := h.owners
    omega
  · show s.added = _ ++ (s.procs.eraseIdx i).filterMap Place.held ++ _
    rw [filterMap_eraseIdx hi hp]
    exact h.order
  · show s.calls = _ ++ (s.procs.eraseIdx i).filterMap Place.dumped
    rw [filterMap_eraseIdx hi hpd]
    exact h.calls

theorem State.Inv.timely (h : s.Inv) (hi : s.procs[i]? = some p) : p.Timely :=
  h.places p (List.mem_of_getElem? hi)

/-- The owner is through with the record in its hand. -/
theorem State.Inv.finish (h : s.Inv) (hi : s.procs[i]? = some p) (hp : p.owns = 1)
    {r : AnrRecord} (hheld : p.held = some r) {o : Outcome} (ho : o.Timely r)
    (hdumped : p.dumped = if o.called then some r else none)
    (hq : q = .looking ∨ q = .clearing) {triggers : List Char} :
    ((State.finish { s with triggers := triggers } r o).moveTo i q).Inv := by
  have hends : q.owns = 1 ∧ q.held = none ∧ q.dumped = none ∧ q.Timely := by
    rcases hq with rfl | rfl <;> exact ⟨rfl, rfl, rfl, trivial⟩
  obtain ⟨hqowns, hqheld, hqdumped, hqtimely⟩ := hends
  refine h.owner hi hp hqowns rfl rfl rfl ?_ ?_ hqtimely (forall_concat h.outcomes ho)
  · simp [State.moveTo, State.finish, hheld, hqheld]
  · have hcalled := h.called hi hp
    rw [hdumped] at hcalled
    cases hset : o.called <;> simpa [State.moveTo, State.finish, hset, hqdumped] using hcalled

/-- A thread takes its step, whatever it reads of the clock and of the systrace files. -/
theorem State.Inv.go (h : s.Inv) (i : Nat) (now : Int) (systrace : Systrace) :
    (s.go debug i now systrace).Inv := by
  unfold State.go
  split
  · exact h
  · next hi =>
    split
    · exact h.quit hi rfl rfl
    · next hclear =>
      have hweigh := weigh_set (w := Place.owns) (q := .starting) hi
      have howners := h.owners
      have hrunning : s.running.toNat = 0 := by simp [hclear]
      refine h.idle hi rfl rfl rfl rfl ?_ trivial
      show _ ≤ 1
      simp only [Place.owns] at hweigh
      omega
  · next hi =>
    have hcalled := h.called hi rfl
    exact h.owner hi rfl rfl rfl rfl rfl rfl hcalled trivial h.outcomes
  · next hi =>
    have hcalled := h.called hi rfl
    split
    · exact h.owner hi rfl rfl rfl rfl rfl rfl hcalled trivial h.outcomes
    · next r rest hcons =>
      refine h.owner hi rfl rfl rfl rfl rfl ?_ hcalled trivial h.outcomes
      simp [State.moveTo, Place.held, hcons]
  · next r hi =>
    split
    · next hlate => exact h.finish (o := .expired now) hi rfl rfl hlate rfl (.inl rfl)
    · next hlate =>
      have hcalled := h.called hi rfl
      exact h.owner hi rfl rfl rfl rfl rfl rfl hcalled (Int.not_lt.mp hlate) h.outcomes
  · next r startTime hi =>
    have hcalled := h.called hi rfl
    have htimely := h.timely hi
    refine h.owner hi rfl rfl rfl rfl rfl rfl ?_ htimely h.outcomes
    simp [State.moveTo, Place.dumped, State.writeSystraceTrigger] at hcalled ⊢
    exact hcalled
  · next r startTime status hi =>
    exact h.finish (o := .dumped startTime) hi rfl rfl (h.timely hi) rfl (.inl rfl)
  · next hi =>
    have hweigh := weigh_set (w := Place.owns) (q := .checking) hi
    have hone := h.one
    refine h.idle hi rfl rfl rfl rfl ?_ trivial
    show _ ≤ 0
    simp only [Place.owns] at hweigh
    omega
  · next hi =>
    split
    · exact h.quit hi rfl rfl
    · have hweigh := weigh_set (w := Place.owns) (q := .testing) hi
      have howners := h.owners
      have hle : weigh Place.owns (s.procs.set i .testing) ≤ s.running.toNat := by
        simp only [Place.owns] at hweigh
        omega
      exact h.idle hi rfl rfl rfl rfl hle trivial

/-- A throw loses what the thread has in hand, and nothing else. -/
theorem State.Inv.throw (h : s.Inv) (i : Nat) : (s.throw i).Inv := by
  unfold State.throw
  split
  · next hi => exact h.quit hi rfl rfl
  · next r hi => exact h.finish (o := .lost none) hi rfl rfl trivial rfl (.inr rfl)
  · next r startTime hi =>
    exact h.finish (o := .lost (some startTime)) hi rfl rfl (h.timely hi) rfl (.inr rfl)
  · next r startTime status hi =>
    exact h.finish (o := .broken startTime) hi rfl rfl (h.timely hi) rfl (.inr rfl)
  · exact h

/-- Every event keeps the invariant. -/
theorem State.Inv.step (h : s.Inv) (e : Event) : (s.step debug e).Inv := by
  cases e with
  | report r =>
    refine ⟨?_, ?_, ?_, ?_, h.outcomes⟩
    · show weigh Place.owns (s.procs ++ [Place.testing]) ≤ s.running.toNat
      rw [weigh_concat]
      exact h.owners
    · show s.added ++ [r] =
        _ ++ (s.procs ++ [Place.testing]).filterMap Place.held ++ (s.anrRecords ++ [r])
      rw [h.order]
      simp [State.step, List.filterMap_cons, Place.held]
    · show s.calls = _ ++ (s.procs ++ [Place.testing]).filterMap Place.dumped
      rw [h.calls]
      simp [State.step, List.filterMap_cons, Place.dumped]
    · exact forall_concat h.places trivial
  | go i now systrace => exact h.go i now systrace
  | throw i => exact h.throw i

theorem inv_init : State.init.Inv := by
  constructor <;> simp [State.init]

theorem inv_run (events : List Event) : (events.foldl (State.step debug) .init).Inv :=
  List.foldlRecOn events _ inv_init fun _ h e _ => h.step e

@[simp] theorem added_step (e : Event) :
    (s.step debug e).added = s.added ++ e.reported.toList := by
  cases e with
  | report r => rfl
  | go i now systrace =>
    show (s.go debug i now systrace).added = s.added ++ []
    rw [List.append_nil]
    unfold State.go
    repeat' split
    all_goals rfl
  | throw i =>
    show (s.throw i).added = s.added ++ []
    rw [List.append_nil]
    unfold State.throw
    split <;> rfl

/-- What was added is what was reported, in order. -/
theorem added_run (events : List Event) : ∀ s : State,
    (events.foldl (State.step debug) s).added = s.added ++ events.filterMap Event.reported := by
  induction events with
  | nil => simp
  | cons e events ih =>
    intro s
    rw [List.foldl_cons, ih, added_step, List.filterMap_cons, List.append_assoc]
    cases e.reported <;> rfl

/-- The clock as it was read for the records that have left the list. -/
def State.clocks (s : State) : List Int :=
  s.ended.filterMap (·.2.startTime) ++ s.procs.filterMap Place.startTime

/-- The records that were ended by a throw. -/
def State.throws (s : State) : List (AnrRecord × Bool) :=
  (s.ended.filter (·.2.threw)).map fun x => (x.1, x.2.called)

theorem Place.owns_of_startTime (p : Place) (h : p.startTime ≠ none) : 1 ≤ p.owns := by
  cases p <;> simp_all [Place.startTime, Place.owns]

theorem State.throws_finish (r : AnrRecord) (o : Outcome) :
    (s.finish r o).throws = s.throws ++ if o.threw then [(r, o.called)] else [] := by
  unfold State.throws State.finish
  rw [List.filter_append, List.map_append]
  cases hthrew : o.threw <;> simp [hthrew]

/-- Only a throw ends a record without its dump. -/
theorem throws_step (e : Event) : (s.step debug e).throws = s.throws ++ s.thrown e := by
  cases e with
  | report r => exact (List.append_nil _).symm
  | go i now systrace =>
    show (s.go debug i now systrace).throws = s.throws ++ []
    unfold State.go
    split
    · exact (List.append_nil _).symm
    · split <;> exact (List.append_nil _).symm
    · exact (List.append_nil _).symm
    · split <;> exact (List.append_nil _).symm
    · split
      · exact s.throws_finish _ (.expired now)
      · exact (List.append_nil _).symm
    · exact (List.append_nil _).symm
    · next r startTime status _ =>
      exact (s.writeSystraceTrigger status.trigger).throws_finish _ (.dumped startTime)
    · exact (List.append_nil _).symm
    · split <;> exact (List.append_nil _).symm
  | throw i =>
    show (s.throw i).throws = _
    unfold State.throw State.thrown
    dsimp only
    split
    · next hi =>
      rw [hi]
      exact (List.append_nil _).symm
    · next r hi =>
      rw [hi]
      exact s.throws_finish r (.lost none)
    · next r startTime hi =>
      rw [hi]
      exact s.throws_finish r (.lost (some startTime))
    · next r startTime status hi =>
      rw [hi]
      exact s.throws_finish r (.broken startTime)
    · next hstarting htaken hpausing hdumping =>
      split
      · next r hi => exact absurd hi (htaken r)
      · next r startTime hi => exact absurd hi (hpausing r startTime)
      · next r startTime status hi => exact absurd hi (hdumping r startTime status)
      · exact (List.append_nil _).symm

/-- The owner goes on, and it alone has a reading of the clock. -/
theorem State.Inv.clocks_owner (h : s.Inv) (h' : s'.Inv) (hi : s.procs[i]? = some p)
    (hp : p.owns = 1) (hq : q.owns = 1) (hprocs : s'.procs = s.procs.set i q) {read : List Int}
    (hread : s'.ended.filterMap (·.2.startTime) ++ q.startTime.toList =
      s.ended.filterMap (·.2.startTime) ++ p.startTime.toList ++ read) :
    s'.clocks = s.clocks ++ read := by
  have hlt : i < s.procs.length := (List.getElem?_eq_some_iff.mp hi).1
  have hi' : s'.procs[i]? = some q := by rw [hprocs, List.getElem?_set_self hlt]
  rw [State.clocks, State.clocks,
    filterMap_of_weigh_le Place.owns_of_startTime h.one hi (by omega),
    filterMap_of_weigh_le Place.owns_of_startTime h'.one hi' (by omega)]
  exact hread

/-- A process that has not read the clock goes on, and does not. -/
theorem clocks_idle (hi : s.procs[i]? = some p) (hp : p.startTime = none) (hq : q.startTime = none)
    (hprocs : s'.procs = s.procs.set i q) (hended : s'.ended = s.ended) :
    s'.clocks = s.clocks ++ [] := by
  rw [State.clocks, State.clocks, hprocs, hended, filterMap_set hi (hp.trans hq.symm),
    List.append_nil]

/-- A thread that ends takes no clock with it. -/
theorem clocks_quit (hi : s.procs[i]? = some p) (hp : p.startTime = none) :
    (s.quit i).clocks = s.clocks ++ [] := by
  show _ ++ (s.procs.eraseIdx i).filterMap Place.startTime = _
  rw [filterMap_eraseIdx hi hp, List.append_nil]
  rfl

/-- A clock is read when a thread takes an ANR out, and stays with it. -/
theorem State.Inv.clocks_go (h : s.Inv) (i : Nat) (now : Int) (systrace : Systrace) :
    (s.go debug i now systrace).clocks = s.clocks ++ s.clock (.go i now systrace) := by
  have h' : (s.go debug i now systrace).Inv := h.go i now systrace
  unfold State.clock
  dsimp only
  unfold State.go at h' ⊢
  split at h'
  · next hi =>
    rw [hi]
    exact (List.append_nil _).symm
  · next hi =>
    rw [hi]
    split
    · exact clocks_quit hi rfl
    · exact clocks_idle hi rfl rfl rfl rfl
  · next hi =>
    rw [hi]
    exact clocks_idle hi rfl rfl rfl rfl
  · next hi =>
    rw [hi]
    split
    · exact clocks_idle hi rfl rfl rfl rfl
    · exact clocks_idle hi rfl rfl rfl rfl
  · next r hi =>
    rw [hi]
    split at h'
    · next hlate =>
      rw [if_pos hlate]
      refine h.clocks_owner h' hi rfl rfl rfl ?_
      simp [State.moveTo, State.finish, Outcome.startTime, Place.startTime]
    · next hlate =>
      rw [if_neg hlate]
      exact h.clocks_owner h' hi rfl rfl rfl (by simp [State.moveTo, Place.startTime])
  · next r startTime hi =>
    rw [hi]
    refine h.clocks_owner h' hi rfl rfl rfl ?_
    simp [State.moveTo, State.writeSystraceTrigger, Place.startTime]
  · next r startTime status hi =>
    rw [hi]
    refine h.clocks_owner h' hi rfl rfl rfl ?_
    simp [State.moveTo, State.finish, State.writeSystraceTrigger, Outcome.startTime,
      Place.startTime]
  · next hi =>
    rw [hi]
    exact clocks_idle hi rfl rfl rfl rfl
  · next hi =>
    rw [hi]
    split
    · exact clocks_quit hi rfl
    · exact clocks_idle hi rfl rfl rfl rfl

/-- A throw reads no clock. -/
theorem State.Inv.clocks_throw (h : s.Inv) (i : Nat) : (s.throw i).clocks = s.clocks ++ [] := by
  have h' : (s.throw i).Inv := h.throw i
  unfold State.throw at h' ⊢
  split at h'
  · next hi => exact clocks_quit hi rfl
  · next hi =>
    refine h.clocks_owner h' hi rfl rfl rfl ?_
    simp [State.moveTo, State.finish, Outcome.startTime, Place.startTime]
  · next hi =>
    refine h.clocks_owner h' hi rfl rfl rfl ?_
    simp [State.moveTo, State.finish, Outcome.startTime, Place.startTime]
  · next hi =>
    refine h.clocks_owner h' hi rfl rfl rfl ?_
    simp [State.moveTo, State.finish, Outcome.startTime, Place.startTime]
  · exact (List.append_nil _).symm

/-- The clocks after a step are those before it and the one that was read. -/
theorem State.Inv.clocks_step (h : s.Inv) (e : Event) :
    (s.step debug e).clocks = s.clocks ++ s.clock e := by
  cases e with
  | report r =>
    show _ ++ (s.procs ++ [Place.testing]).filterMap Place.startTime = _
    rw [List.filterMap_append]
    simp [State.step, State.clocks, State.clock, Place.startTime]
  | go i now systrace => exact h.clocks_go i now systrace
  | throw i => exact h.clocks_throw i

end Step

/-- What left the list and what is in it are, one after the other, what was reported. -/
theorem order_run (debug : Bool) (events : List Event) :
    let s := events.foldl (State.step debug) .init
    events.filterMap Event.reported =
      s.ended.map Prod.fst ++ s.procs.filterMap Place.held ++ s.anrRecords := by
  intro s
  have h : s.Inv := inv_run events
  have hadded : s.added = [] ++ events.filterMap Event.reported := added_run events _
  rw [← h.order, hadded, List.nil_append]

/-- In every run the ANRs leave the list in the order they were reported, each once; one
thread at most has one in hand. It is dumped, in that order too, unless it has waited for
more than three minutes by the clock as the thread reads it, or something throws before; and
it is not dumped if it has. -/
theorem agent_run (debug : Bool) (events : List Event) :
    let s := events.foldl (State.step debug) .init
    events.filterMap Event.reported =
        s.ended.map Prod.fst ++ s.procs.filterMap Place.held ++ s.anrRecords ∧
      (s.procs.filterMap Place.held).length ≤ 1 ∧
      s.calls = (s.ended.filter (·.2.called)).map Prod.fst ++ s.procs.filterMap Place.dumped ∧
      (∀ x ∈ s.ended, x.2.Timely x.1) ∧ (∀ p ∈ s.procs, p.Timely) ∧
      s.ended.filterMap (·.2.startTime) ++ s.procs.filterMap Place.startTime =
        seen (State.step debug) State.clock .init events ∧
      (s.ended.filter (·.2.threw)).map (fun x => (x.1, x.2.called)) =
        seen (State.step debug) State.thrown .init events := by
  intro s
  have h : s.Inv := inv_run events
  have hclocks : s.clocks = [] ++ seen (State.step debug) State.clock .init events :=
    record_eq_seen (I := State.Inv) _ (fun _ e h => ⟨h.step e, h.clocks_step e⟩) inv_init
  have hthrows : s.throws = [] ++ seen (State.step debug) State.thrown .init events :=
    record_eq_seen (I := fun _ => True) _ (fun _ e _ => ⟨trivial, throws_step e⟩) trivial
  exact ⟨order_run debug events, (length_filterMap_le_weigh Place.owns_of_held).trans h.one,
    h.calls, h.outcomes, h.places, hclocks, hthrows⟩

/-! ## No record is left behind -/

/-- `mRunning` is set while there is an owner, and nobody has left with records in the
list. -/
structure State.Awake (s : State) : Prop where
  owned : weigh Place.owns s.procs = s.running.toNat
  someone : s.anrRecords ≠ [] → s.procs ≠ []

/-- The condition on one step: a dump thread can be started. -/
def Starts (s : State) : Event → Prop
  | .throw i => s.procs[i]? ≠ some .starting
  | _ => True

/-- A step of a process that there is; what is thrown is caught. -/
def Moves (s : State) : Event → Prop
  | .report _ => False
  | .go i _ _ => i < s.procs.length
  | .throw i => ∃ p ∈ s.procs[i]?, p.held ≠ none

instance (s : State) : (e : Event) → Decidable (Starts s e)
  | .report _ => .isTrue trivial
  | .go _ _ _ => .isTrue trivial
  | .throw _ => inferInstanceAs (Decidable (_ ≠ _))

instance (s : State) : (e : Event) → Decidable (Moves s e)
  | .report _ => .isFalse id
  | .go _ _ _ => inferInstanceAs (Decidable (_ < _))
  | .throw _ => inferInstanceAs (Decidable (∃ p ∈ _, _))

/-- How many steps a process has before it, at most, but for the records it will take. -/
def Place.steps (waiting : Bool) : Place → Nat
  | .taken _ => 10
  | .pausing _ _ => 9
  | .dumping _ _ _ => 8
  | .testing => 5
  | .starting => 4
  | .looking => 3
  -- it will start another thread, if there are records
  | .clearing => if waiting then 7 else 2
  | .checking => if waiting then 6 else 1

/-- The steps that the processes can still take before the next report. -/
def State.steps (s : State) : Nat :=
  8 * s.anrRecords.length + weigh (Place.steps (!s.anrRecords.isEmpty)) s.procs

theorem Place.steps_pos (waiting : Bool) (p : Place) : 0 < p.steps waiting := by
  cases waiting <;> cases p <;> simp [Place.steps]

theorem Place.steps_le_waiting (waiting : Bool) (p : Place) : p.steps waiting ≤ p.steps true := by
  cases waiting <;> cases p <;> simp [Place.steps]

theorem Place.checking_lt_clearing (waiting : Bool) :
    Place.steps waiting .checking < Place.steps waiting .clearing := by
  cases waiting <;> decide

section Step

variable {debug : Bool} {s s' : State} {i : Nat} {p q : Place}

/-- A thread goes on, and the flag goes with it. -/
theorem State.Awake.moves (h : s.Awake) (hi : s.procs[i]? = some p)
    (hprocs : s'.procs = s.procs.set i q)
    (howned : q.owns + s.running.toNat = p.owns + s'.running.toNat) : s'.Awake := by
  have hweigh := weigh_set (w := Place.owns) (q := q) hi
  have := h.owned
  refine ⟨?_, fun _ => ?_⟩
  · rw [hprocs]
    omega
  · obtain ⟨hlt, -⟩ := List.getElem?_eq_some_iff.mp hi
    rw [hprocs, ← List.length_pos_iff, List.length_set]
    omega

/-- A thread that does not own the flag may end, unless it is the last and something is left. -/
theorem State.Awake.quit (h : s.Awake) (hi : s.procs[i]? = some p) (hp : p.owns = 0)
    (hsomeone : s.anrRecords ≠ [] → s.procs.eraseIdx i ≠ []) : (s.quit i).Awake := by
  have hweigh := weigh_eraseIdx (w := Place.owns) hi
  have := h.owned
  refine ⟨?_, hsomeone⟩
  show weigh Place.owns (s.procs.eraseIdx i) = s.running.toNat
  omega

/-- A thread's own step leaves someone awake. -/
theorem State.Awake.go (h : s.Awake) (i : Nat) (now : Int) (systrace : Systrace) :
    (s.go debug i now systrace).Awake := by
  unfold State.go
  split
  · exact h
  · next hi =>
    split
    · next hset =>
      -- the owner stays
      have hweigh := weigh_eraseIdx (w := Place.owns) hi
      have howned := h.owned
      refine h.quit hi rfl fun _ hnil => ?_
      simp [hnil, hset, Place.owns] at hweigh howned
      omega
    · next hclear => exact h.moves hi rfl (by simp [hclear, State.moveTo, Place.owns])
  · next hi => exact h.moves hi rfl rfl
  · next hi =>
    split
    · exact h.moves hi rfl rfl
    · exact h.moves hi rfl rfl
  · next hi =>
    split
    · exact h.moves hi rfl rfl
    · exact h.moves hi rfl rfl
  · next hi => exact h.moves hi rfl rfl
  · next hi => exact h.moves hi rfl rfl
  · next hi =>
    -- the owner had the flag set
    have := le_weigh (w := Place.owns) hi
    have howned := h.owned
    have hset : s.running = true := by
      by_contra hclear
      rw [howned, Bool.eq_false_iff.mpr hclear] at this
      exact absurd this (by decide)
    exact h.moves hi rfl (by simp [hset, State.moveTo, Place.owns])
  · next hi =>
    split
    · next hnil => exact h.quit hi rfl fun hne => absurd (List.isEmpty_iff.mp hnil) hne
    · exact h.moves hi rfl rfl

/-- A throw leaves someone awake, except in a thread that is just starting. -/
theorem State.Awake.throw (h : s.Awake) (hi : s.procs[i]? ≠ some .starting) :
    (s.throw i).Awake := by
  unfold State.throw
  split
  · next hstarting => exact absurd hstarting hi
  · next hi => exact h.moves hi rfl rfl
  · next hi => exact h.moves hi rfl rfl
  · next hi => exact h.moves hi rfl rfl
  · exact h

/-- Every step but a throw of a thread that is just starting leaves someone awake. -/
theorem State.Awake.step (h : s.Awake) {e : Event} (he : Starts s e) : (s.step debug e).Awake := by
  cases e with
  | report r =>
    refine ⟨?_, fun _ => List.concat_ne_nil _ _⟩
    show weigh Place.owns (s.procs ++ [Place.testing]) = s.running.toNat
    rw [weigh_concat]
    exact h.owned
  | go i now systrace => exact h.go i now systrace
  | throw i => exact h.throw he

theorem awake_init : State.init.Awake := ⟨rfl, fun h => absurd rfl h⟩

/-- A process goes on to a place that is nearer to the end. -/
theorem steps_set (hi : s.procs[i]? = some p) (hprocs : s'.procs = s.procs.set i q)
    (hrecords : s'.anrRecords = s.anrRecords)
    (hq : q.steps (!s.anrRecords.isEmpty) < p.steps (!s.anrRecords.isEmpty)) :
    s'.steps < s.steps := by
  have hweigh := weigh_set (w := Place.steps (!s.anrRecords.isEmpty)) (q := q) hi
  rw [State.steps, State.steps, hrecords, hprocs]
  omega

/-- A thread that ends leaves less to do. -/
theorem steps_quit (hi : s.procs[i]? = some p) : (s.quit i).steps < s.steps := by
  have hweigh := weigh_eraseIdx (w := Place.steps (!s.anrRecords.isEmpty)) hi
  have hpos := p.steps_pos (!s.anrRecords.isEmpty)
  show 8 * s.anrRecords.length +
    weigh (Place.steps (!s.anrRecords.isEmpty)) (s.procs.eraseIdx i) < s.steps
  rw [State.steps]
  omega

/-- The last record may be the one that is taken: the others then have less to do. -/
theorem steps_take (hi : s.procs[i]? = some .looking) {r : AnrRecord} {rest : List AnrRecord}
    (hcons : s.anrRecords = r :: rest) :
    (State.moveTo { s with anrRecords := rest } i (.taken r)).steps < s.steps := by
  have hweigh := weigh_set (w := Place.steps true) (q := .taken r) hi
  have hle : weigh (Place.steps (!rest.isEmpty)) (s.procs.set i (.taken r)) ≤
      weigh (Place.steps true) (s.procs.set i (.taken r)) :=
    weigh_le_of_le fun p _ => p.steps_le_waiting _
  have hsteps : s.steps = 8 * (rest.length + 1) + weigh (Place.steps true) s.procs := by
    rw [State.steps, hcons]
    rfl
  show 8 * rest.length + weigh (Place.steps (!rest.isEmpty)) (s.procs.set i (.taken r)) < s.steps
  rw [hsteps]
  simp only [Place.steps] at hweigh
  omega

/-- A thread that goes on has less to do. -/
theorem steps_go {now : Int} {systrace : Systrace} (hlt : i < s.procs.length) :
    (s.go debug i now systrace).steps < s.steps := by
  unfold State.go
  split
  · next hnone => exact absurd (List.getElem?_eq_none_iff.mp hnone) (by omega)
  · next hi =>
    split
    · exact steps_quit hi
    · exact steps_set hi rfl rfl (by simp [Place.steps])
  · next hi => exact steps_set hi rfl rfl (by simp [Place.steps])
  · next hi =>
    split
    · next hnil => exact steps_set hi rfl rfl (by simp [Place.steps, hnil])
    · next hcons => exact steps_take hi hcons
  · next hi =>
    split
    · exact steps_set hi rfl rfl (by simp [Place.steps])
    · exact steps_set hi rfl rfl (by simp [Place.steps])
  · next hi => exact steps_set hi rfl rfl (by simp [Place.steps])
  · next hi => exact steps_set hi rfl rfl (by simp [Place.steps])
  · next hi => exact steps_set hi rfl rfl (Place.checking_lt_clearing _)
  · next hi =>
    split
    · exact steps_quit hi
    · next hne => exact steps_set hi rfl rfl (by simp [Place.steps, hne])

/-- A throw with an ANR in hand leaves less to do. -/
theorem steps_throw (hmoves : ∃ p ∈ s.procs[i]?, p.held ≠ none) : (s.throw i).steps < s.steps := by
  have hclearing : Place.steps (!s.anrRecords.isEmpty) .clearing ≤ 7 :=
    Place.steps_le_waiting _ .clearing
  obtain ⟨p, hp, hheld⟩ := hmoves
  unfold State.throw
  split
  · next hi => exact steps_quit hi
  · next hi => exact steps_set hi rfl rfl (Nat.lt_of_le_of_lt hclearing (by simp [Place.steps]))
  · next hi => exact steps_set hi rfl rfl (Nat.lt_of_le_of_lt hclearing (by simp [Place.steps]))
  · next hi => exact steps_set hi rfl rfl (Nat.lt_of_le_of_lt hclearing (by simp [Place.steps]))
  · next htaken hpausing hdumping =>
    -- there is no other place with a record in hand
    cases p with
    | taken r => exact absurd hp (htaken r)
    | pausing r startTime => exact absurd hp (hpausing r startTime)
    | dumping r startTime status => exact absurd hp (hdumping r startTime status)
    | _ => exact absurd rfl hheld

/-- Every step that moves a thread leaves less to do. -/
theorem steps_lt {e : Event} (he : Moves s e) : (s.step debug e).steps < s.steps := by
  cases e with
  | report r => exact he.elim
  | go i now systrace => exact steps_go he
  | throw i => exact steps_throw he

/-- A run without reports is no longer than what there was to do. -/
theorem steps_run {events : List Event} {s : State}
    (hmoves : AllSteps (State.step debug) Moves s events) :
    events.length + (events.foldl (State.step debug) s).steps ≤ s.steps := by
  induction events generalizing s with
  | nil => simp
  | cons e events ih =>
    have hlt : (s.step debug e).steps < s.steps := steps_lt hmoves.1
    have hrest := ih hmoves.2
    rw [List.foldl_cons, List.length_cons]
    omega

end Step

/-- Unless a thread cannot be started: from the last report on there is a bound on the
steps that the processes can take, however they interleave and whatever the dumps throw,
and when all are through the agent is through with every ANR that was reported. -/
theorem agent_ends (debug : Bool) (events : List Event) (more : List Event)
    (hstarts : AllSteps (State.step debug) Starts .init (events ++ more))
    (hmoves : AllSteps (State.step debug) Moves (events.foldl (State.step debug) .init) more) :
    let s := (events ++ more).foldl (State.step debug) .init
    more.length ≤ (events.foldl (State.step debug) .init).steps ∧
      (s.procs = [] → s.running = false ∧ s.anrRecords = [] ∧
        s.ended.map Prod.fst = (events ++ more).filterMap Event.reported) := by
  intro s
  have hbound := steps_run hmoves
  refine ⟨by omega, fun hprocs => ?_⟩
  have hawake : s.Awake := AllSteps.invariant (fun _ _ h he => h.step he) awake_init hstarts
  have horder := order_run debug (events ++ more)
  have hrecords : s.anrRecords = [] := by
    by_contra hne
    exact hawake.someone hne hprocs
  have howned := hawake.owned
  refine ⟨?_, hrecords, ?_⟩
  · rw [hprocs] at howned
    simpa using howned.symm
  · rw [horder]
    show _ = s.ended.map Prod.fst ++ s.procs.filterMap Place.held ++ s.anrRecords
    rw [hprocs, hrecords]
    simp

/-- The second ANR is reported when the thread has seen the list empty and not cleared
`mRunning`: the caller starts no thread, and the old one starts its successor. -/
theorem agent_ends_race :
    let first : AnrRecord := ⟨"a", none, none, false, none, 0⟩
    let second : AnrRecord := ⟨"b", none, none, false, none, 10⟩
    let events : List Event :=
      [.report first] ++ List.replicate 7 (.go 0 5 ⟨true, 4, none⟩) ++ [.report second]
    let more : List Event :=
      .go 1 11 ⟨true, 4, none⟩ :: List.replicate 11 (.go 0 12 ⟨true, 4, some ['1', '\n']⟩)
    let s := (events ++ more).foldl (State.step true) .init
    s.running = false ∧ s.anrRecords = [] ∧ s.ended.map Prod.fst = [first, second] :=
  (agent_ends true _ _ (by decide) (by decide)).2 (by decide)

/-! ## Systrace -/

/-- What a whole dump writes. -/
def Status.written : Status → List Char
  | .off => []
  | .on => [systraceRequestPause, systraceRequestForceDump]
  | .unknown => [systraceRequestDump]

/-- What is written before the dump. -/
def Status.paused : Status → Option Char
  | .on => some systraceRequestPause
  | _ => none

/-- What is written of a dump in progress. -/
def Place.paused : Place → Option Char
  | .dumping _ _ status => status.paused
  | _ => none

/-- The condition on one step: nothing is thrown while systrace is paused. -/
def Resumes (s : State) : Event → Prop
  | .throw i => s.procs[i]?.bind Place.paused = none
  | _ => True

instance (s : State) : (e : Event) → Decidable (Resumes s e)
  | .report _ => .isTrue trivial
  | .go _ _ _ => .isTrue trivial
  | .throw _ => inferInstanceAs (Decidable (_ = _))

/-- Whole dumps, and what is written of the one in progress. -/
def State.Paired (s : State) : Prop :=
  ∃ dumps : List Status, s.triggers =
    dumps.flatMap Status.written ++ s.procs.filterMap Place.paused

/-- What the pause writes is the pause that is to be undone. -/
theorem pause_written (systrace : Systrace) :
    (pauseSystraceIfNeeded systrace).2 = (pauseSystraceIfNeeded systrace).1.paused.toList := by
  unfold pauseSystraceIfNeeded
  repeat' split
  all_goals rfl

theorem Place.owns_of_paused (p : Place) (h : p.paused ≠ none) : 1 ≤ p.owns := by
  cases p <;> simp_all [Place.paused, Place.owns]

section Step

variable {debug : Bool} {s s' : State} {i : Nat} {p q : Place}

/-- A process goes on that has not paused systrace, and does not. -/
theorem State.Paired.moves (h : s.Paired) (hi : s.procs[i]? = some p)
    (hprocs : s'.procs = s.procs.set i q) (htriggers : s'.triggers = s.triggers)
    (hp : p.paused = none) (hq : q.paused = none) : s'.Paired := by
  obtain ⟨dumps, hdumps⟩ := h
  refine ⟨dumps, ?_⟩
  rw [htriggers, hprocs, filterMap_set hi (hp.trans hq.symm)]
  exact hdumps

/-- A thread that has not paused may end. -/
theorem State.Paired.quit (h : s.Paired) (hi : s.procs[i]? = some p) (hp : p.paused = none) :
    (s.quit i).Paired := by
  obtain ⟨dumps, hdumps⟩ := h
  refine ⟨dumps, ?_⟩
  show s.triggers = _ ++ (s.procs.eraseIdx i).filterMap Place.paused
  rw [filterMap_eraseIdx hi hp]
  exact hdumps

/-- The owner goes on, and writes. -/
theorem State.Paired.owner (h : s.Paired) (hinv : s.Inv) (hinv' : s'.Inv)
    (hi : s.procs[i]? = some p) (hp : p.owns = 1) (hq : q.owns = 1)
    (hprocs : s'.procs = s.procs.set i q) (trigger : List Char) (status : List Status)
    (htriggers : s'.triggers = s.triggers ++ trigger)
    (htrigger : p.paused.toList ++ trigger = status.flatMap Status.written ++ q.paused.toList) :
    s'.Paired := by
  have hlt : i < s.procs.length := (List.getElem?_eq_some_iff.mp hi).1
  have hi' : s'.procs[i]? = some q := by rw [hprocs, List.getElem?_set_self hlt]
  obtain ⟨dumps, hdumps⟩ := h
  refine ⟨dumps ++ status, ?_⟩
  rw [filterMap_of_weigh_le Place.owns_of_paused hinv.one hi (by omega)] at hdumps
  rw [filterMap_of_weigh_le Place.owns_of_paused hinv'.one hi' (by omega), htriggers, hdumps,
    List.flatMap_append, List.append_assoc, htrigger, List.append_assoc]

/-- A thread's own step writes the pause with its resumption, or keeps it in hand. -/
theorem State.Paired.go (h : s.Paired) (hinv : s.Inv) (i : Nat) (now : Int) (systrace : Systrace) :
    (s.go debug i now systrace).Paired := by
  have hinv' : (s.go debug i now systrace).Inv := hinv.go i now systrace
  unfold State.go at hinv' ⊢
  split at hinv'
  · exact h
  · next hi =>
    split
    · exact h.quit hi rfl
    · exact h.moves hi rfl rfl rfl rfl
  · next hi => exact h.moves hi rfl rfl rfl rfl
  · next hi =>
    split
    · exact h.moves hi rfl rfl rfl rfl
    · exact h.moves hi rfl rfl rfl rfl
  · next hi =>
    split
    · exact h.moves hi rfl rfl rfl rfl
    · exact h.moves hi rfl rfl rfl rfl
  · next r startTime hi =>
    refine h.owner hinv hinv' hi rfl rfl rfl _ [] rfl ?_
    cases debug with
    | false => rfl
    | true => exact pause_written systrace
  · next r startTime status hi =>
    refine h.owner hinv hinv' hi rfl rfl rfl _ [status] rfl ?_
    cases status <;> rfl
  · next hi => exact h.moves hi rfl rfl rfl rfl
  · next hi =>
    split
    · exact h.quit hi rfl
    · exact h.moves hi rfl rfl rfl rfl

/-- A throw with no pause in hand loses none. -/
theorem State.Paired.throw (h : s.Paired) (hi : s.procs[i]?.bind Place.paused = none) :
    (s.throw i).Paired := by
  unfold State.throw
  split
  · next hstarting => exact h.quit hstarting rfl
  · next htaken => exact h.moves htaken rfl rfl rfl rfl
  · next hpausing => exact h.moves hpausing rfl rfl rfl rfl
  · next hdumping => exact h.moves hdumping rfl rfl (by simpa [hdumping] using hi) rfl
  · exact h

/-- Every step keeps the requests paired, except a throw with a pause in hand. -/
theorem State.Paired.step (h : s.Paired) (hinv : s.Inv) {e : Event} (he : Resumes s e) :
    (s.step debug e).Paired := by
  cases e with
  | report r =>
    obtain ⟨dumps, hdumps⟩ := h
    refine ⟨dumps, ?_⟩
    show s.triggers = _ ++ (s.procs ++ [Place.testing]).filterMap Place.paused
    rw [List.filterMap_append]
    simpa [List.filterMap_cons, Place.paused] using hdumps
  | go i now systrace => exact h.go hinv i now systrace
  | throw i => exact h.throw he

end Step

/-- Unless a dump throws while systrace is paused: each pause is followed by the dump of
systrace that ends it, with nothing in between, whatever callers and threads do meanwhile.
The last one may be still to come. -/
theorem systrace_run (debug : Bool) (events : List Event)
    (hresumes : AllSteps (State.step debug) Resumes .init events) :
    let s := events.foldl (State.step debug) .init
    (∃ dumps : List Status, s.triggers =
      dumps.flatMap Status.written ++ s.procs.filterMap Place.paused) ∧
      (s.procs.filterMap Place.paused).length ≤ 1 := by
  intro s
  have hboth : s.Inv ∧ s.Paired :=
    AllSteps.invariant (I := fun s => s.Inv ∧ s.Paired)
      (fun _ e h he => ⟨h.1.step e, h.2.step h.1 he⟩) ⟨inv_init, [], rfl⟩ hresumes
  exact ⟨hboth.2, (length_filterMap_le_weigh Place.owns_of_paused).trans hboth.1.one⟩

/-- Two dumps: systrace is on at the first, and its state cannot be read at the second,
which is still in progress. -/
theorem systrace_run_two :
    let r : AnrRecord := ⟨"a", none, none, false, none, 0⟩
    let events : List Event :=
      [.report r, .report r] ++ List.replicate 6 (.go 0 5 ⟨true, 4, some ['1', '\n']⟩) ++
        List.replicate 3 (.go 0 9 ⟨true, 4, none⟩)
    let s := events.foldl (State.step true) .init
    (∃ dumps : List Status, s.triggers =
      dumps.flatMap Status.written ++ s.procs.filterMap Place.paused) ∧
      (s.procs.filterMap Place.paused).length ≤ 1 :=
  systrace_run true _ (by decide)

end AndroidLearn.Bugreport.AnrAgent
