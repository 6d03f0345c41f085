import AndroidLearn.Lib.Run
import AndroidLearn.Logctl.Calls

/-!
# The test loop of `cputest`

From `cputest.c`: `thread_main`, and the commands that write what it reads. The thread goes
over the CPUs once to set them up and then again and again to give each a frequency. It
reads `testmode` and `cpumodes` as it goes, without a lock, and the commands write them
between any two of its steps. `:setcpumodes:` and `:setcpumode:` store what the client sent
first and look at it afterwards, so that they are two steps each (`Event.goCommand` is the
second); one client is served at a time, so no other command comes between.

A step of the loop is what lies between two reads that a command could tell apart, at one
CPU: two reads of different variables are one step, since a command writes only one of
them, and so are the two looks at its mode when a CPU is set up, of which the second goes to
`prev_online` and decides a message only. What `rand` answers, and how the time passes, is
left to the run. The frequencies and governors that a CPU offers are those read when the test
starts.

`State.Each.loopStep` is the induction over a pass of the loop: a property of the CPUs, each
with its number, that survives the choice of an index survives every step. The modules on the
modes and on the frequencies are instances of it.
-/

namespace AndroidLearn.Cputest

open Conf Logctl

/-! ## Modes -/

/-- `TESTMODE_*` -/
inductive TestMode
  | ascend
  | descend
  /-- each cpu has its own random index -/
  | random
  /-- use the same random index to all cpus -/
  | syncRandom
  /-- each cpu can be on/off and has its own random index -/
  | cpuRandom
  deriving DecidableEq, Repr

/-- From 0 to `TESTMODE_COUNT`. -/
def TestMode.ofInt : Int → Option TestMode
  | 0 => some .ascend
  | 1 => some .descend
  | 2 => some .random
  | 3 => some .syncRandom
  | 4 => some .cpuRandom
  | _ => none

/-- `CPUMODE_*` -/
def cpumodeOffline : Char := 'x'
/-- The governor chooses the frequency. -/
def cpumodeDynamic : Char := 'd'
/-- The test sets the frequency. -/
def cpumodeUser : Char := 'u'

/-- The mode that the text behind `:settestmode:` stands for. -/
def parseTestMode (buffer : CString) : Option TestMode :=
  if buffer = "ascend".toList then some .ascend
  else if buffer = "descend".toList then some .descend
  else if buffer = "random".toList then some .random
  else if buffer = "syncrandom".toList then some .syncRandom
  else if buffer = "cpurandom".toList then some .cpuRandom
  else TestMode.ofInt (atoi (buffer.takeWhile (· ≠ ':'))).toInt

/-- `datatok`: what stands before the colon, and what is left. -/
def datatok (buffer : CString) : CString × CString :=
  (buffer.takeWhile (· ≠ ':'), (buffer.dropWhile (· ≠ ':')).tail)

/-! ## The loop -/

/-- `CPU`, as far as the loop uses it -/
structure Cpu where
  online : Bool
  prevOnline : Bool
  frequencies : List CString
  frequencyIdx : Int
  prevFrequencyIdx : Int
  deriving DecidableEq, Repr

/-- Where the thread is. -/
inductive Phase
  /-- the first pass, before CPU `i` is set up -/
  | init (i : Nat)
  /-- before it is switched on or off -/
  | initApply (i : Nat)
  /-- before the check that syncrandom is valid -/
  | check
  /-- it is not -/
  | setRandom
  /-- between two rounds -/
  | round
  /-- in a round, before CPU `i` -/
  | online (i : Nat)
  /-- before `switch (testmode)` -/
  | choose (i : Nat)
  /-- before the CPU is switched on or off -/
  | apply (i : Nat)
  deriving DecidableEq, Repr

/-- The local variables of the test's thread. -/
structure Loop where
  /-- the available frequencies of the CPUs -/
  available : List (List CString)
  /-- CPU 0 has governors -/
  governors : Bool
  cpus : List Cpu
  phase : Phase
  deriving DecidableEq, Repr

/-- What a command that has stored modes looks at next. -/
inductive Pending
  /-- `:setcpumodes:`, whether CPU 0 is off -/
  | checkFirst
  /-- `:setcpumode:`, the mode of the CPU -/
  | switchMode (i : Nat)
  deriving DecidableEq, Repr

/-- The global variables, the thread if it runs, and a command that is half done. -/
structure State where
  testmode : TestMode
  /-- with the null byte at its end -/
  cpumodes : List Char
  done : Bool
  loop : Option Loop
  /-- the command that is half done -/
  pending : Option Pending
  deriving DecidableEq, Repr

/-- The service as it starts. -/
def State.init (cpuCount : Nat) : State :=
  ⟨.ascend, List.replicate cpuCount cpumodeUser ++ ['\x00'], false, none, none⟩

/-- What is done to a CPU. -/
inductive Action
  /-- `set_cpu_online` -/
  | setOnline (i : Nat) (online : Bool)
  /-- `set_cpu_governor` -/
  | setGovernor (i : Nat)
  /-- `set_cpu_frequency (i, glist_get (& frequencies, idx))` -/
  | setFrequency (i : Nat) (frequencies : List CString) (idx : Int)
  /-- `compare_cpu_frequency (i, glist_get (& frequencies, idx))` -/
  | compare (i : Nat) (frequencies : List CString) (idx : Int)
  deriving DecidableEq, Repr

/-- The mode of CPU `i`. -/
def State.mode (s : State) (i : Nat) : Char := s.cpumodes.getD i '\x00'

/-- The end of a pass over a CPU: the mode decides what its being on or off means. -/
def Cpu.apply (cpu : Cpu) (i : Nat) (mode : Char) : Action :=
  if cpu.online then
    if mode = cpumodeUser then .setFrequency i cpu.frequencies cpu.frequencyIdx else .setGovernor i
  else .setOnline i false

/-- `rand () % len` -/
def randIdx (rand : Nat) (frequencies : List CString) : Int := (rand % frequencies.length : Nat)

/-- The first index. -/
def firstIdx (testmode : TestMode) (rand : Nat) (frequencies : List CString) : Int :=
  match testmode with
  | .descend => frequencies.length - 1
  | .random | .cpuRandom => randIdx rand frequencies
  | .syncRandom | .ascend => 0

/-- `TESTMODE_CPURANDOM`: on or off, and the index if it is to be on. -/
def Cpu.chooseOnline (cpu : Cpu) (i rand rand' : Nat) : Cpu × List Action :=
  -- CPU 0 is always on
  let nextOnline := i = 0 || rand % 2 = 1
  let (cpu, actions) :=
    if cpu.online ≠ nextOnline then
      let cpu := { cpu with online := nextOnline }
      if cpu.online then ({ cpu with frequencyIdx := randIdx rand' cpu.frequencies }, [])
      else (cpu, [.compare i cpu.frequencies cpu.frequencyIdx])
    else if cpu.online then
      let cpu := { cpu with prevFrequencyIdx := cpu.frequencyIdx }
      let cpu := { cpu with frequencyIdx := randIdx rand' cpu.frequencies }
      (cpu, [.compare i cpu.frequencies cpu.prevFrequencyIdx])
    else (cpu, [])
  ({ cpu with prevOnline := cpu.online }, actions)

/-- `switch (testmode)`; `idx0` is the index of CPU 0. -/
def Cpu.choose (cpu : Cpu) (testmode : TestMode) (mode : Char) (idx0 : Int) (i rand rand' : Nat) :
    Cpu × List Action :=
  match testmode with
  | .descend =>
    let idx := cpu.frequencyIdx - 1
    ({ cpu with frequencyIdx := if idx < 0 then cpu.frequencies.length - 1 else idx }, [])
  | .random => ({ cpu with frequencyIdx := randIdx rand cpu.frequencies }, [])
  | .syncRandom =>
    ({ cpu with frequencyIdx := if i = 0 then randIdx rand cpu.frequencies else idx0 }, [])
  | .cpuRandom => if mode ≠ cpumodeOffline then cpu.chooseOnline i rand rand' else (cpu, [])
  | .ascend =>
    let idx := cpu.frequencyIdx + 1
    ({ cpu with frequencyIdx := if cpu.frequencies.length ≤ idx then 0 else idx }, [])

section Count

-- `get_cpu_count ()`
variable (cpuCount : Nat)

/-- The thread has ended, and with it the `:stop:` that waits for it. -/
def State.finish (s : State) : State × List Action :=
  ({ s with loop := none, done := false }, (List.range cpuCount).map Action.setGovernor)

/-- The frequencies of CPU `i`, or those of CPU 0 if it has none of its own. -/
def Loop.frequencies (loop : Loop) (i : Nat) : List CString :=
  let own := loop.available.getD i []
  -- `head?` is CPU 0, which is set up first and does not get here without frequencies
  if own = [] then (loop.cpus.head?.map Cpu.frequencies).getD [] else own

/-- CPU `i` as it is set up. -/
def State.newCpu (s : State) (loop : Loop) (i rand : Nat) : Cpu where
  online := s.mode i ≠ cpumodeOffline
  prevOnline := s.mode i ≠ cpumodeOffline
  frequencies := loop.frequencies i
  frequencyIdx := firstIdx s.testmode rand (loop.frequencies i)
  prevFrequencyIdx := firstIdx s.testmode rand (loop.frequencies i)

/-- The first pass at CPU `i`. -/
def State.setUp (s : State) (loop : Loop) (i rand : Nat) : State × List Action :=
  if i = 0 ∧ (loop.available.getD 0 [] = [] ∨ !loop.governors) then s.finish cpuCount
  else
    let cpus := loop.cpus ++ [s.newCpu loop i rand]
    ({ s with loop := some { loop with cpus := cpus, phase := .initApply i } },
      [.setOnline i true])

/-- One step of `thread_main`; `rand` and `rand'` are the answers of `rand ()`. -/
def State.loopStep (s : State) (rand rand' : Nat) : State × List Action :=
  match s.loop with
  | none => (s, [])
  | some loop =>
    match loop.phase with
    | .init i =>
      if i < cpuCount then s.setUp cpuCount loop i rand
      else ({ s with loop := some { loop with phase := .check } }, [])
    | .initApply i =>
      ({ s with loop := some { loop with phase := .init (i + 1) } },
        (loop.cpus[i]?.map fun cpu => cpu.apply i (s.mode i)).toList)
    | .check =>
      let len (cpu : Cpu) := cpu.frequencies.length
      let unequal := loop.cpus.any fun cpu => some (len cpu) ≠ loop.cpus.head?.map len
      let phase := if s.testmode = .syncRandom ∧ unequal then Phase.setRandom else .round
      ({ s with loop := some { loop with phase := phase } }, [])
    | .setRandom =>
      ({ s with testmode := .random, loop := some { loop with phase := .round } }, [])
    | .round =>
      if s.done then s.finish cpuCount
      else ({ s with loop := some { loop with phase := .online 0 } }, [])
    | .online i =>
      if i < cpuCount then
        let cpus :=
          -- in the mode cpurandom the loop itself decides what is on
          if s.testmode ≠ .cpuRandom then
            loop.cpus.modify i fun cpu => { cpu with online := s.mode i ≠ cpumodeOffline }
          else loop.cpus
        ({ s with loop := some { loop with cpus := cpus, phase := .choose i } }, [])
      else ({ s with loop := some { loop with phase := .round } }, [])
    | .choose i =>
      match loop.cpus.head?, loop.cpus[i]? with
      | some cpu0, some cpu =>
        let (cpu, actions) := cpu.choose s.testmode (s.mode i) cpu0.frequencyIdx i rand rand'
        ({ s with loop := some { loop with cpus := loop.cpus.set i cpu, phase := .apply i } },
          actions)
      | _, _ => (s, [])
    | .apply i =>
      ({ s with loop := some { loop with phase := .online (i + 1) } },
        (loop.cpus[i]?.map fun cpu => cpu.apply i (s.mode i)).toList)

/-! ## The commands -/

/-- A command, in the parts in which it stores the modes, or a step of the thread. -/
inductive Event
  | setTestMode (buffer : CString)
  /-- `:setcpumodes:` and `:setcpumode:`, as far as they store what the client sent -/
  | setCpuModes (buffer : CString)
  | setCpuMode (buffer : CString)
  /-- the rest of them -/
  | goCommand
  /-- `:run:`, with what the CPUs have to offer -/
  | run (available : List (List CString)) (governors : Bool)
  | stop
  | loop (rand rand' : Nat)
  deriving DecidableEq, Repr

/-- `:setcpumodes:`: as much of the text as there are CPUs, and a null byte. -/
def copyModes (cpumodes : List Char) (buffer : CString) : List Char :=
  let copied := buffer.take cpuCount
  (copied ++ ('\x00' :: cpumodes.drop (copied.length + 1))).set cpuCount '\x00'

/-- CPU 0 should be always on. -/
def checkFirst (cpumodes : List Char) : List Char :=
  if cpumodes.head? = some cpumodeOffline then cpumodes.set 0 cpumodeUser else cpumodes

/-- The CPU that `:setcpumode:` is for. -/
def cpuOf (buffer : CString) : Nat :=
  let i := (atoi (datatok buffer).1).toInt
  if i < 0 ∨ cpuCount ≤ i then 0 else i.toNat

/-- The mode that it asks for. -/
def modeOf (buffer : CString) : Char := (datatok (datatok buffer).2).1.headD '\x00'

/-- The mode that it leaves. -/
def modeSet (mode : Char) : Char :=
  if mode = cpumodeOffline ∨ mode = cpumodeDynamic then mode else cpumodeUser

/-- A command waits for the one before it, and while a `:stop:` is not done with. -/
def State.busy (s : State) : Bool := s.done || s.pending.isSome

/-- What an event does. -/
def State.step (s : State) : Event → State
  | .setTestMode buffer =>
    if s.busy then s else { s with testmode := (parseTestMode buffer).getD s.testmode }
  | .setCpuModes buffer =>
    if s.busy then s
    else { s with cpumodes := copyModes cpuCount s.cpumodes buffer, pending := some .checkFirst }
  | .setCpuMode buffer =>
    if s.busy then s
    else
      let i := cpuOf cpuCount buffer
      { s with cpumodes := s.cpumodes.set i (modeOf buffer), pending := some (.switchMode i) }
  | .goCommand =>
    match s.pending with
    | none => s
    | some .checkFirst => { s with cpumodes := checkFirst s.cpumodes, pending := none }
    | some (.switchMode i) =>
      { s with cpumodes := s.cpumodes.set i (modeSet (s.mode i)), pending := none }
  | .run available governors =>
    if s.busy ∨ s.loop.isSome then s
    else { s with loop := some ⟨available, governors, [], .init 0⟩ }
  | .stop => if s.busy then s else if s.loop.isSome then { s with done := true } else s
  | .loop rand rand' => (s.loopStep cpuCount rand rand').1

/-- What is done to the CPUs at the event. -/
def State.actions (s : State) : Event → List Action
  | .goCommand =>
    match s.pending with
    | some (.switchMode i) =>
      if s.mode i = cpumodeOffline then [.setOnline i false] else [.setGovernor i]
    | _ => []
  | .loop rand rand' => (s.loopStep cpuCount rand rand').2
  | _ => []

end Count

/-! ## What a step keeps -/

/-- The CPUs that are set up, each of which has the property: in the first pass they are
those before the one that the thread is at. -/
structure Loop.Each (P : Nat → Cpu → Prop) (loop : Loop) : Prop where
  cpus : ∀ i cpu, loop.cpus[i]? = some cpu → P i cpu
  setUp : ∀ i, loop.phase = .init i → loop.cpus.length = i
  setUpApply : ∀ i, loop.phase = .initApply i → loop.cpus.length = i + 1

/-- A property of every CPU of the test. -/
def State.Each (P : Nat → Cpu → Prop) (s : State) : Prop := ∀ loop, s.loop = some loop → loop.Each P

section Each

variable {cpuCount : Nat} {s : State} {loop : Loop} {P : Nat → Cpu → Prop} {Q : Action → Prop}

theorem State.each_some (testmode : TestMode) (cpumodes : List Char) (done : Bool)
    (pending : Option Pending) (h : loop.Each P) :
    (⟨testmode, cpumodes, done, some loop, pending⟩ : State).Each P := by
  intro loop' hloop'
  rw [← Option.some.inj hloop']
  exact h

/-- The end of the test keeps a property of the CPUs. -/
theorem each_finish (hgovernor : ∀ i, Q (.setGovernor i)) :
    (s.finish cpuCount).1.Each P ∧ ∀ a ∈ (s.finish cpuCount).2, Q a := by
  refine ⟨nofun, fun a ha => ?_⟩
  obtain ⟨i, -, rfl⟩ := List.mem_map.mp ha
  exact hgovernor i

/-- The thread goes on with the same CPUs, and not in the first pass. -/
theorem Loop.Each.next (h : loop.Each P) {phase : Phase} (hinit : ∀ i, phase ≠ .init i)
    (happly : ∀ i, phase ≠ .initApply i) : ({ loop with phase := phase } : Loop).Each P :=
  ⟨h.cpus, fun i hi => absurd hi (hinit i), fun i hi => absurd hi (happly i)⟩

/-- Setting up the next CPU keeps it, if it holds of a new one. -/
theorem Loop.Each.setUp_step (h : loop.Each P) {i rand : Nat} (hphase : loop.phase = .init i)
    (hnew : ¬ (i = 0 ∧ loop.available.getD 0 [] = []) → P i (s.newCpu loop i rand))
    (honline : Q (.setOnline i true)) (hgovernor : ∀ i, Q (.setGovernor i)) :
    (s.setUp cpuCount loop i rand).1.Each P ∧ ∀ a ∈ (s.setUp cpuCount loop i rand).2, Q a := by
  have hlength := h.setUp i hphase
  unfold State.setUp
  split
  next => exact each_finish hgovernor
  next hgoes =>
    refine ⟨State.each_some _ _ _ _ ⟨fun j cpu hj => ?_, nofun, fun j hj => ?_⟩, fun a ha => ?_⟩
    · dsimp only at hj
      -- CPU `i` is the one that comes new, and there is none behind it yet
      rcases Nat.lt_trichotomy j i with hlt | heq | hgt
      · rw [List.getElem?_append_left (by omega)] at hj
        exact h.cpus j cpu hj
      · rw [heq.trans hlength.symm, List.getElem?_concat_length] at hj
        rw [← Option.some.inj hj, heq]
        exact hnew fun hnone => hgoes ⟨hnone.1, .inl hnone.2⟩
      · rw [List.getElem?_eq_none (by simp; omega)] at hj
        exact nomatch hj
    · rw [← Phase.initApply.inj hj, ← hlength]
      simp
    · rw [List.mem_singleton.mp ha]
      exact honline

/-- What is done to a CPU at the end of a pass over it. -/
theorem Loop.Each.apply (h : loop.Each P) (i : Nat) {mode : Char}
    (happly : ∀ cpu, P i cpu → Q (cpu.apply i mode)) :
    ∀ a ∈ (loop.cpus[i]?.map fun cpu => cpu.apply i mode).toList, Q a := by
  intro a ha
  cases hcpu : loop.cpus[i]? with
  | none => simp [hcpu] at ha
  | some cpu =>
    rw [hcpu] at ha
    rw [List.mem_singleton.mp ha]
    exact happly cpu (h.cpus i cpu hcpu)

/-- A property of the CPUs survives a step of the loop if it holds of a CPU that is set up, is
not about whether the CPU is to be on, and survives the choice of an index; `Q` is what then
holds of all that the loop does. -/
theorem State.Each.loopStep (h : s.Each P) {rand rand' : Nat}
    (hnew : ∀ loop i, s.loop = some loop → loop.Each P → loop.cpus.length = i →
      ¬ (i = 0 ∧ loop.available.getD 0 [] = []) → P i (s.newCpu loop i rand))
    (honline : ∀ i cpu, P i cpu → P i { cpu with online := s.mode i ≠ cpumodeOffline })
    (hchoose : ∀ loop i cpu0 cpu, s.loop = some loop → loop.phase = .choose i →
      loop.cpus.head? = some cpu0 → loop.cpus[i]? = some cpu → P 0 cpu0 → P i cpu →
      P i (cpu.choose s.testmode (s.mode i) cpu0.frequencyIdx i rand rand').1 ∧
        ∀ a ∈ (cpu.choose s.testmode (s.mode i) cpu0.frequencyIdx i rand rand').2, Q a)
    (happly : ∀ i cpu, P i cpu → Q (cpu.apply i (s.mode i)))
    (hswitch : ∀ i, Q (.setOnline i true)) (hgovernor : ∀ i, Q (.setGovernor i)) :
    (s.loopStep cpuCount rand rand').1.Each P ∧ ∀ a ∈ (s.loopStep cpuCount rand rand').2, Q a := by
  have hquiet : ∀ a ∈ ([] : List Action), Q a := fun _ ha => absurd ha List.not_mem_nil
  unfold State.loopStep
  split
  next => exact ⟨h, hquiet⟩
  next loop hloop =>
    have heach := h loop hloop
    -- one case for each phase, in the order of `Phase`; the first two are the first pass
    split
    next i hphase =>
      split
      next =>
        exact heach.setUp_step hphase (hnew loop i hloop heach (heach.setUp i hphase)) (hswitch i)
          hgovernor
      next => exact ⟨State.each_some _ _ _ _ (heach.next nofun nofun), hquiet⟩
    next i hphase =>
      refine ⟨State.each_some _ _ _ _ ⟨heach.cpus, fun j hj => ?_, nofun⟩,
        heach.apply i (happly i)⟩
      rw [heach.setUpApply i hphase]
      exact Phase.init.inj hj
    next =>
      dsimp only
      refine ⟨State.each_some _ _ _ _ (heach.next (fun i => ?_) fun i => ?_), hquiet⟩
      · split <;> exact nofun
      · split <;> exact nofun
    next => exact ⟨State.each_some _ _ _ _ (heach.next nofun nofun), hquiet⟩
    next =>
      split
      next => exact each_finish hgovernor
      next => exact ⟨State.each_some _ _ _ _ (heach.next nofun nofun), hquiet⟩
    next i hphase =>
      split
      next =>
        refine ⟨State.each_some _ _ _ _ ⟨fun j cpu hj => ?_, nofun, nofun⟩, hquiet⟩
        dsimp only at hj
        split at hj
        next =>
          -- only what says that CPU `i` is on can have changed
          rw [List.getElem?_modify] at hj
          obtain ⟨cpu', hcpu', rfl⟩ := Option.map_eq_some_iff.mp hj
          have hold := heach.cpus j cpu' hcpu'
          split
          next heq =>
            subst heq
            exact honline i cpu' hold
          next => exact hold
        next => exact heach.cpus j cpu hj
      next => exact ⟨State.each_some _ _ _ _ (heach.next nofun nofun), hquiet⟩
    next i hphase =>
      split
      next cpu0 cpu hcpu0 hcpu =>
        -- the choice for CPU `i` may take over the index of CPU 0, so it rests on both
        have hold0 := heach.cpus 0 cpu0 (by rwa [← List.head?_eq_getElem?])
        have hstep := hchoose loop i cpu0 cpu hloop hphase hcpu0 hcpu hold0 (heach.cpus i cpu hcpu)
        refine ⟨State.each_some _ _ _ _ ⟨fun j cpu' hj => ?_, nofun, nofun⟩, hstep.2⟩
        dsimp only at hj
        rw [List.getElem?_set] at hj
        split at hj
        next heq =>
          subst heq
          split at hj
          · rw [← Option.some.inj hj]
            exact hstep.1
          · exact nomatch hj
        next => exact heach.cpus j cpu' hj
      next => exact ⟨h, hquiet⟩
    next i hphase =>
      exact ⟨State.each_some _ _ _ _ (heach.next nofun nofun), heach.apply i (happly i)⟩

/-- A command leaves the CPUs of the loop alone; `:run:` has none yet. -/
theorem State.Each.command (h : s.Each P) {e : Event} (he : ∀ rand rand', e ≠ .loop rand rand') :
    (s.step cpuCount e).Each P := by
  cases e with
  | loop rand rand' => exact absurd rfl (he rand rand')
  | run available governors =>
    unfold State.step
    dsimp only
    split
    next => exact h
    next =>
      refine State.each_some _ _ _ _ ⟨by simp, fun i hi => ?_, nofun⟩
      exact Phase.init.inj hi
  | goCommand =>
    unfold State.step
    dsimp only
    split <;> exact h
  | stop =>
    unfold State.step
    dsimp only
    split
    next => exact h
    next => split <;> exact h
  | setTestMode buffer | setCpuModes buffer | setCpuMode buffer =>
    unfold State.step
    dsimp only
    split <;> exact h

end Each

end AndroidLearn.Cputest
