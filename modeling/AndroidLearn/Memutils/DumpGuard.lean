import AndroidLearn.Lib.Run

/-!
# The guard of the low memory dump

`dumpLowMemoryLog` and `dumpInBackground` of `MemoryLogUtilAm.java`. The first is called
when memory is low. Unless `sIsDumping` is set, it sets it, lists the processes and starts
a thread that dumps them. The thread clears the flag in a `finally` block when it is
through; the trigger clears it in its `catch` block, whoever has set it.

A step is one access to the flag, or what lies between two. The trigger is one thread,
which makes one call after the other, and there may be any number of dumps; their steps
come in any order. A call or a dump may throw at each of its steps, by an exception or by
an error that no block catches. What is dumped is left out.

Theorem: `guard_run` says for which runs there is one dump at most and the flag does not
stay set. The condition (`Owned`) is on a step and the state before it: the `catch` block
is not run while there is a dump, what leaves the trigger for good does not leave a flag
that no dump will clear, and a thread that dies has come to its `try` block.
-/

namespace AndroidLearn.Memutils.DumpGuard

open Run

/-! ## The trigger -/

/-- `DURATION_DUMP_LOW_MEMORY`, in milliseconds -/
def durationDumpLowMemory : Int := 20 * 1000

/-- `DURATION_DUMP_AM_LOW_MEMORY` -/
def durationDumpAmLowMemory : Int := 10 * 60 * 1000

/-- `MIN_DUMP_ADJ` -/
def minDumpAdj : Int := 600

/-- `dyingProc` -/
structure Dying where
  /-- `curAdj <= ProcessList.HOME_APP_ADJ` -/
  upToHome : Bool
  processName : String
  adjType : String
  deriving DecidableEq, Repr

/-- What `dumpLowMemoryLog` looks at. -/
structure Call where
  /-- the `curAdj` of each of `lruProcesses` -/
  lruProcesses : List Int
  dyingProc : Option Dying
  isLargeRam : Bool
  /-- `SystemClock.elapsedRealtime ()` -/
  now : Int
  deriving DecidableEq, Repr

/-- Does `dumpLowMemoryLog` call `doDump`, `last` being the time of the last dump? -/
def Call.dumps (c : Call) (last : Int) : Bool :=
  let timeDiff := c.now - last
  let longAgo : Bool := !(timeDiff < durationDumpLowMemory && timeDiff > 0)
  match c.dyingProc with
  | none => longAgo
  | some dying =>
    if dying.upToHome && dying.processName = "com.Zfl.launcher" then true
    else if dying.adjType = "home" then true
    else if c.lruProcesses.any (· > minDumpAdj) then
      c.isLargeRam && (timeDiff > durationDumpAmLowMemory || last = 0)
    else longAgo

/-- Where a trigger is. -/
inductive Trigger
  | idle
  /-- in `dumpLowMemoryLog` -/
  | called (c : Call)
  /-- in `doDump`, before it reads the flag -/
  | testing
  /-- the flag was clear -/
  | claiming
  /-- the flag is set, the thread not yet started -/
  | listing
  /-- the thread is started -/
  | returning
  /-- in the `catch` block, before it clears the flag -/
  | catching
  deriving DecidableEq, Repr

/-- Where a dump thread is. -/
inductive Dump
  /-- before its `try` block -/
  | created
  | dumping
  /-- in the `finally` block, before it clears the flag -/
  | ending
  deriving DecidableEq, Repr

/-- The static fields, the thread of the trigger, and the dumps. -/
structure State where
  isDumping : Bool
  lastTimeDumpLowMemory : Int
  trigger : Trigger
  /-- the dumps in progress: each thread from its start until it has cleared the flag or
  died -/
  dumps : List Dump
  deriving DecidableEq, Repr

/-- Nothing is dumped. -/
def State.init : State := ⟨false, 0, .idle, []⟩

/-! ## The steps -/

/-- What can be thrown; the trigger catches only the one. -/
inductive Throwable
  | exception
  | error
  deriving DecidableEq, Repr

/-- A call, or a step of the trigger or of a dump, with the throws. -/
inductive Event
  | call (c : Call)
  /-- the trigger goes on, `now` being the time -/
  | go (now : Int)
  | throw (t : Throwable)
  /-- dump thread `i` goes on -/
  | dumpGo (i : Nat)
  | dumpThrow (i : Nat) (t : Throwable)
  deriving DecidableEq, Repr

/-- The trigger, without exceptions. -/
def State.go (s : State) (now : Int) : State :=
  match s.trigger with
  | .idle => s
  | .called c => { s with trigger := if c.dumps s.lastTimeDumpLowMemory then .testing else .idle }
  | .testing => { s with trigger := if s.isDumping then .idle else .claiming }
  | .claiming => { s with isDumping := true, lastTimeDumpLowMemory := now, trigger := .listing }
  | .listing => { s with trigger := .returning, dumps := s.dumps ++ [.created] }
  | .returning => { s with trigger := .idle }
  | .catching => { s with isDumping := false, trigger := .idle }

/-- What is not caught, or is thrown in the `catch` block, leaves the trigger. -/
def State.throw (s : State) (t : Throwable) : State :=
  match s.trigger, t with
  | .idle, _ => s
  | .catching, _ => { s with trigger := .idle }
  | _, .exception => { s with trigger := .catching }
  | _, .error => { s with trigger := .idle }

/-- Dump `i` goes on. -/
def State.dumpGo (s : State) (i : Nat) : State :=
  match s.dumps[i]? with
  | none => s
  | some .created => { s with dumps := s.dumps.set i .dumping }
  | some .dumping => { s with dumps := s.dumps.set i .ending }
  | some .ending => { s with isDumping := false, dumps := s.dumps.eraseIdx i }

/-- Before its `try` block a thread dies of anything; from then on it comes to the
`finally` block. -/
def State.dumpThrow (s : State) (i : Nat) : State :=
  match s.dumps[i]? with
  | none => s
  | some .created => { s with dumps := s.dumps.eraseIdx i }
  | some _ => { s with dumps := s.dumps.set i .ending }

/-- What an event does. -/
def State.step (s : State) : Event → State
  | .call c => if s.trigger = .idle then { s with trigger := .called c } else s
  | .go now => s.go now
  | .throw t => s.throw t
  | .dumpGo i => s.dumpGo i
  | .dumpThrow i _ => s.dumpThrow i

/-! ## The guard -/

/-- The property of a state: one dump at most, and the flag is clear when nothing is
going on. -/
def State.Guarded (s : State) : Prop :=
  s.dumps.length ≤ 1 ∧ (s.dumps = [] → s.trigger = .idle → s.isDumping = false)

/-- A step keeps the dumps apart. -/
def Guarded (s : State) (e : Event) : Prop := (s.step e).Guarded

/-- The condition on one step. -/
def Owned (s : State) : Event → Prop
  | .call _ => True
  -- the `catch` block does not clear the flag of a dump
  | .go _ => s.trigger = .catching → s.dumps = []
  -- what leaves the trigger does not leave a flag behind that no dump will clear
  | .throw t => t = .error ∨ s.trigger = .catching → s.isDumping = true → s.dumps ≠ []
  | .dumpGo _ => True
  -- a thread that dies has come to its `try` block
  | .dumpThrow i _ => s.dumps[i]? ≠ some .created

/-- The flag is set by a dump in progress, or by a trigger that will start one or clear
the flag. -/
structure State.Inv (s : State) : Prop where
  one : s.dumps.length ≤ 1
  held : s.dumps ≠ [] → s.isDumping = true
  owner : s.isDumping = true → s.dumps ≠ [] ∨ s.trigger = .listing ∨ s.trigger = .catching
  claiming : s.trigger = .claiming → s.isDumping = false
  listing : s.trigger = .listing → s.isDumping = true ∧ s.dumps = []

instance (s : State) : Decidable s.Guarded := inferInstanceAs (Decidable (_ ∧ _))

instance (s : State) (e : Event) : Decidable (Guarded s e) :=
  inferInstanceAs (Decidable (s.step e).Guarded)

instance (s : State) : (e : Event) → Decidable (Owned s e)
  | .call _ => .isTrue trivial
  | .go _ => inferInstanceAs (Decidable (_ → _))
  | .throw _ => inferInstanceAs (Decidable (_ → _ → _))
  | .dumpGo _ => .isTrue trivial
  | .dumpThrow _ _ => inferInstanceAs (Decidable (_ ≠ _))

section Step

variable {s : State}

/-- At most one thread dumps. -/
theorem State.Inv.guarded (h : s.Inv) : s.Guarded := by
  refine ⟨h.one, fun hdumps htrigger => ?_⟩
  by_contra hset
  rcases h.owner (by simpa using hset) with hne | hlisting | hcatching
  · exact hne hdumps
  · rw [htrigger] at hlisting
    exact absurd hlisting (by simp)
  · rw [htrigger] at hcatching
    exact absurd hcatching (by simp)

/-- A trigger that neither lists nor has thrown does not own the flag. -/
theorem State.Inv.dump (h : s.Inv) (hset : s.isDumping = true) (hlisting : s.trigger ≠ .listing)
    (hcatching : s.trigger ≠ .catching) : s.dumps ≠ [] := by
  rcases h.owner hset with hne | heq | heq
  · exact hne
  · exact absurd heq hlisting
  · exact absurd heq hcatching

/-- The trigger moves to a place where it does not own the flag. -/
theorem State.Inv.moveTo (h : s.Inv) {t : Trigger} (howner : s.isDumping = true → s.dumps ≠ [])
    (hclaiming : t = .claiming → s.isDumping = false) (hlisting : t ≠ .listing) :
    State.Inv { s with trigger := t } :=
  ⟨h.one, h.held, fun hset => .inl (howner hset), hclaiming, fun heq => absurd heq hlisting⟩

/-- The trigger goes on, with the flag it has taken. -/
theorem State.Inv.go (h : s.Inv) (now : Int) (hgo : Owned s (.go now)) : (s.go now).Inv := by
  unfold State.go
  split
  · exact h
  · next c htrigger =>
    refine h.moveTo (fun hset => h.dump hset (by simp [htrigger]) (by simp [htrigger])) ?_ ?_
    · split <;> simp
    · split <;> simp
  · next htrigger =>
    refine h.moveTo (fun hset => h.dump hset (by simp [htrigger]) (by simp [htrigger])) ?_ ?_
    · split
      · simp
      · next hclear => exact fun _ => by simpa using hclear
    · split <;> simp
  · next htrigger =>
    -- the flag was clear, so no dump is in progress
    have hdumps : s.dumps = [] := by
      by_contra hne
      have hheld := h.held hne
      rw [h.claiming htrigger] at hheld
      exact absurd hheld (by simp)
    exact ⟨h.one, fun _ => rfl, fun _ => .inr (.inl rfl), by simp, fun _ => ⟨rfl, hdumps⟩⟩
  · next htrigger =>
    obtain ⟨hset, hdumps⟩ := h.listing htrigger
    refine ⟨?_, fun _ => hset, fun _ => .inl ?_, by simp, by simp⟩
    · show (s.dumps ++ [Dump.created]).length ≤ 1
      rw [hdumps]
      exact Nat.le_refl 1
    · show s.dumps ++ [Dump.created] ≠ []
      simp
  · next htrigger =>
    exact h.moveTo (fun hset => h.dump hset (by simp [htrigger]) (by simp [htrigger])) (by simp)
      (by simp)
  · next htrigger =>
    have hdumps : s.dumps = [] := hgo htrigger
    exact ⟨h.one, fun hne => absurd hdumps hne, by simp, by simp, by simp⟩

/-- It throws, and clears a flag of its own. -/
theorem State.Inv.throw (h : s.Inv) {t : Throwable} (ht : Owned s (.throw t)) : (s.throw t).Inv := by
  unfold State.throw
  split
  · exact h
  · next htrigger => exact h.moveTo (ht (.inr htrigger)) (by simp) (by simp)
  · exact ⟨h.one, h.held, fun _ => .inr (.inr rfl), by simp, by simp⟩
  · exact h.moveTo (ht (.inl rfl)) (by simp) (by simp)

/-- A dump in progress is the only one. -/
theorem State.Inv.alone (h : s.Inv) {i : Nat} {d : Dump} (hi : s.dumps[i]? = some d) :
    s.dumps = [d] ∧ i = 0 := by
  obtain ⟨hlt, hd⟩ := List.getElem?_eq_some_iff.mp hi
  have hone := h.one
  obtain rfl : i = 0 := by omega
  obtain ⟨d', hd'⟩ := List.length_eq_one_iff.mp (show s.dumps.length = 1 by omega)
  simp [hd'] at hi
  exact ⟨by rw [hd', hi], rfl⟩

/-- It goes on. -/
theorem State.Inv.set (h : s.Inv) {i : Nat} {d : Dump} (hi : s.dumps[i]? = some d) (d' : Dump) :
    State.Inv { s with dumps := s.dumps.set i d' } := by
  obtain ⟨hdumps, rfl⟩ := h.alone hi
  have hne : s.dumps ≠ [] := by simp [hdumps]
  refine ⟨?_, fun _ => h.held hne, fun _ => .inl ?_, h.claiming, fun hlisting => ?_⟩
  · show (s.dumps.set 0 d').length ≤ 1
    rw [List.length_set]
    exact h.one
  · show s.dumps.set 0 d' ≠ []
    simp [hdumps]
  · exact absurd (h.listing hlisting).2 hne

/-- It is through. -/
theorem State.Inv.erase (h : s.Inv) {i : Nat} {d : Dump} (hi : s.dumps[i]? = some d) :
    State.Inv { s with isDumping := false, dumps := s.dumps.eraseIdx i } := by
  obtain ⟨hdumps, rfl⟩ := h.alone hi
  have hnone : s.dumps.eraseIdx 0 = [] := by rw [hdumps]; rfl
  refine ⟨by simp [hnone], fun hne => absurd hnone hne, by simp, fun _ => rfl, fun hlisting => ?_⟩
  exact absurd (h.listing hlisting).2 (by simp [hdumps])

/-- A dump goes on, and clears the flag when it ends. -/
theorem State.Inv.dumpGo (h : s.Inv) (i : Nat) : (s.dumpGo i).Inv := by
  unfold State.dumpGo
  split
  · exact h
  · next hi => exact h.set hi _
  · next hi => exact h.set hi _
  · next hi => exact h.erase hi

/-- It throws, once it has begun. -/
theorem State.Inv.dumpThrow (h : s.Inv) {i : Nat} (hi : s.dumps[i]? ≠ some .created) :
    (s.dumpThrow i).Inv := by
  unfold State.dumpThrow
  split
  · exact h
  · next hcreated => exact absurd hcreated hi
  · next hi => exact h.set hi _

/-- Every event keeps the invariant, if each thread clears a flag of its own only. -/
theorem State.Inv.step (h : s.Inv) {e : Event} (he : Owned s e) : (s.step e).Inv := by
  cases e with
  | call c =>
    show (if s.trigger = .idle then { s with trigger := .called c } else s).Inv
    split
    · next hidle =>
      exact h.moveTo (fun hset => h.dump hset (by simp [hidle]) (by simp [hidle])) (by simp)
        (by simp)
    · exact h
  | go now => exact h.go now he
  | throw t => exact h.throw he
  | dumpGo i => exact h.dumpGo i
  | dumpThrow i t => exact h.dumpThrow he

theorem inv_init : State.init.Inv := ⟨by decide, by decide, by decide, by decide, by decide⟩

end Step

/-- In every run that meets the condition there is one dump at most at any moment, and
the flag is clear once nothing is going on. -/
theorem guard_run (events : List Event) (hevents : AllSteps State.step Owned .init events) :
    AllSteps State.step Guarded .init events :=
  AllSteps.imp (fun _ _ h he => ⟨h.step he, (h.step he).guarded⟩) inv_init hevents

/-- A dump that throws, and a trigger after it that dumps again. -/
theorem guard_run_again :
    AllSteps State.step Guarded .init
      [.call ⟨[], none, false, 0⟩, .go 0, .go 0, .go 1, .go 1, .go 1, .dumpGo 0,
        .dumpThrow 0 .exception, .dumpGo 0, .call ⟨[], none, false, 30000⟩, .go 30000, .go 30000,
        .go 30001, .throw .exception, .go 30002] :=
  guard_run _ (by decide)

/-- While a dump is in progress a trigger throws, before it comes to `doDump`: it clears
the flag, and the next one starts a second dump. -/
theorem guard_fails_caught :
    ¬ AllSteps State.step Guarded .init
      [.call ⟨[], none, false, 0⟩, .go 0, .go 0, .go 1, .go 1, .go 1, .dumpGo 0,
        .call ⟨[], none, false, 100⟩, .throw .exception, .go 100,
        .call ⟨[], none, false, 30001⟩, .go 30001, .go 30001, .go 30001, .go 30001] := by
  decide

end AndroidLearn.Memutils.DumpGuard
